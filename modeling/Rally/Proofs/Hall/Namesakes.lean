import Rally.Proofs.Hall.Dealings
import Rally.Proofs.Lobby.Keeping

/-! Matches that bear one identifier, in a hall in which anything happens: the end of one of them
takes the place of another in the lobby, and nothing else does unless somebody removes it. -/
namespace Rally.Hall
variable {h k l : Hall} {i j : Nat} {id : Uuid} {e : Affair} {affairs : List Affair}
  {fixture : Fixture} {seed : UInt64} {q : Room}

/-! Rooms stay, and so do the matches that have ended in them. -/

/-- The rooms are still there, and those that are over are as they were. -/
def Keeps (h k : Hall) : Prop := ∀ i r, h.room? i = some r → ∃ q, k.room? i = some q ∧ r.Lasts q

theorem Keeps.refl (h : Hall) : Keeps h h := fun _ r hr => ⟨r, hr, .refl r⟩

theorem Keeps.trans (hhk : Keeps h k) (hkl : Keeps k l) : Keeps h l := by
  intro i r hr
  obtain ⟨q, hq, hrq⟩ := hhk i r hr
  obtain ⟨s, hs, hqs⟩ := hkl i q hq
  exact ⟨s, hs, hrq.trans hqs⟩

theorem Clears.keeps (hc : Clears h k) : Keeps h k := fun _ _ hr => hc.kept hr

theorem room?_isSome : (h.room? i).isSome = true ↔ i < h.rooms.length := by
  simp [room?]

theorem Keeps.length_le (hk : Keeps h k) : h.rooms.length ≤ k.rooms.length := by
  rcases Nat.eq_zero_or_pos h.rooms.length with hz | hpos
  · omega
  · obtain ⟨r, hr⟩ := Option.isSome_iff_exists.mp
      (room?_isSome (h := h).mpr (Nat.sub_one_lt_of_lt hpos))
    obtain ⟨q, hq, -⟩ := hk _ r hr
    have := room?_isSome.mp (Option.isSome_of_eq_some hq)
    omega

/-- The matches that end in two steps are those of the first and those of the second, also if rooms
are opened in between. -/
theorem ended_trans (hhk : Keeps h k) (hkl : Keeps k l) :
    Ended h l id ↔ Ended h k id ∨ Ended k l id := by
  constructor
  · rintro ⟨i, q, hq, he, hid, hn⟩
    cases hr : k.room? i with
    | none => exact .inr ⟨i, q, hq, he, hid, by simp [hr]⟩
    | some r =>
      obtain ⟨s, hs, hrs⟩ := hkl i r hr
      obtain rfl := Option.some.inj (hs.symm.trans hq)
      cases ho : r.isOver with
      | true =>
        obtain ⟨-, hre, hrf⟩ := hrs ho
        exact .inl ⟨i, r, hr, hre ▸ he, hrf ▸ hid, hn⟩
      | false =>
        refine .inr ⟨i, s, hq, he, hid, fun t ht => ?_⟩
        exact Option.some.inj (hr.symm.trans ht) ▸ ho
  · rintro (⟨i, r, hr, he, hid, hn⟩ | ⟨i, q, hq, he, hid, hn⟩)
    · obtain ⟨q, hq, hrq⟩ := hkl i r hr
      obtain ⟨-, hqe, hqf⟩ := hrq (Room.isOver_of_ended he)
      exact ⟨i, q, hq, hqe.trans he, hqf ▸ hid, hn⟩
    · refine ⟨i, q, hq, he, hid, fun s hs => ?_⟩
      obtain ⟨r, hr, hsr⟩ := hhk i s hs
      cases ho : s.isOver with
      | true =>
        rw [← hn r hr, (hsr ho).1]
      | false => rfl

/-- The hall with one more match, in a new room. -/
def opened (h : Hall) (fixture : Fixture) (room : Hosted) : Hall :=
  { h with lobby := h.lobby.list fixture h.rooms.length, rooms := h.rooms ++ [room] }

theorem opened_keeps (h : Hall) (fixture : Fixture) (room : Hosted) :
    Keeps h (h.opened fixture room) := by
  intro i r hr
  have hi := room?_isSome.mp (Option.isSome_of_eq_some hr)
  refine ⟨r, ?_, .refl r⟩
  rw [← hr]
  simp [opened, room?, List.getElem?_append_left hi]

/-- A match that is let in has a new room, in which it goes on. -/
theorem create_opens (hc : h.create fixture seed = .ok k) : h.lobby.denial? fixture = none ∧
    ∃ room : Hosted, room.room.isOver = false ∧ Clears (h.opened fixture room) k := by
  rw [create, Lobby.create_eq] at hc
  cases hd : h.lobby.denial? fixture with
  | some denial => simp [hd] at hc
  | none =>
    simp only [hd] at hc
    cases hc
    exact ⟨rfl, ⟨.start fixture h.rules seed h.now, .withCapacity feedCapacity⟩, rfl,
      elapse_clears ..⟩

theorem occur_keeps (h : Hall) (e : Affair) : Keeps h (h.occur e) := by
  cases e with
  | create fixture seed =>
    simp only [occur]
    split
    · rename_i k hc
      obtain ⟨-, room, -, hk⟩ := create_opens hc
      exact (opened_keeps h fixture room).trans hk.keeps
    · exact .refl h
  | remove id => exact .refl h
  | elapse upto => exact (elapse_clears ..).keeps
  | opening room side => exact (openSocket_clears ..).keeps
  | command room c => exact (send_clears ..).keeps
  | connect room side => exact (connect_clears ..).keeps
  | hangUp session => exact (hangUp_clears ..).keeps
  | hear session text => exact (hear_clears ..).keeps
  | ping session => exact (modifySession_clears ..).keeps
  | bulletins | frames => exact .refl h

theorem run_keeps (h : Hall) (affairs : List Affair) : Keeps h (h.run affairs) := by
  unfold run
  exact List.foldlRecOn affairs occur (.refl h) fun k hk e _ => hk.trans (occur_keeps k e)

/-! All that is done to the lobby. -/

theorem remove_mem_asked : .remove id ∈ h.asked e ↔ e = .remove id := by
  cases e <;> simp [asked, eq_comm]

theorem room_of_mem_asked {f : Fixture} {n : Nat} (hm : .create f n ∈ h.asked e) :
    n = h.rooms.length := by
  cases e with
  | create fixture seed =>
    simp only [asked, List.mem_singleton, Deal.create.injEq] at hm
    exact hm.2
  | _ => simp [asked] at hm

/-- Over any affairs, what is removed from the lobby is what somebody removes and what ends, and
what is created is played in a new room. -/
theorem run_deals (h : Hall) (affairs : List Affair) : ∃ deals,
    (h.run affairs).lobby = h.lobby.run deals ∧
      (∀ id, .remove id ∈ deals ↔ .remove id ∈ affairs ∨ Ended h (h.run affairs) id) ∧
      ∀ f n, .create f n ∈ deals → h.rooms.length ≤ n := by
  induction affairs generalizing h with
  | nil => exact ⟨[], rfl, by simp [run, not_ended], by simp⟩
  | cons e affairs ih =>
    obtain ⟨ids, hids, hfirst⟩ := occur_deals h e
    obtain ⟨deals, hrest, hremoved, hcreated⟩ := ih (h.occur e)
    have hended (id : Uuid) : Ended h (h.run (e :: affairs)) id ↔
        Ended h (h.occur e) id ∨ Ended (h.occur e) ((h.occur e).run affairs) id :=
      ended_trans (occur_keeps h e) (run_keeps _ affairs)
    refine ⟨h.asked e ++ ids.map .remove ++ deals, ?_, fun id => ?_, fun f n hm => ?_⟩
    · rw [Lobby.run_append, ← hfirst]
      exact hrest
    · have hmap : Deal.remove id ∈ ids.map .remove ↔ Ended h (h.occur e) id := by
        rw [← hids, List.mem_map]
        simp
      rw [List.mem_append, List.mem_append, hmap, hremoved, remove_mem_asked, hended,
        List.mem_cons, @eq_comm _ e]
      grind
    · rcases List.mem_append.mp hm with hm | hm
      · rcases List.mem_append.mp hm with hm | hm
        · exact (room_of_mem_asked hm).ge
        · simp at hm
      · exact Nat.le_trans (occur_keeps h e).length_le (hcreated f n hm)

/-! One match and its namesakes. -/

/-- Every match that is listed is played in a room of the hall. -/
def Housed (h : Hall) : Prop := ∀ x ∈ h.lobby.listings, x.room < h.rooms.length

/-- Removals list nothing. -/
theorem mem_listings_removals {l : Lobby} {ids : List Uuid} {x : Listing}
    (hx : x ∈ (l.run (ids.map .remove)).listings) : x ∈ l.listings := by
  induction ids generalizing l with
  | nil => exact hx
  | cons id ids ih =>
    rcases Lobby.mem_listings_deal (ih (l := l.deal (.remove id)) hx) with hx | hx
    · exact hx
    · cases hx

theorem Clears.housed (hc : Clears h k) (hh : Housed h) : Housed k := by
  intro x hx
  obtain ⟨ids, -, hl⟩ := hc.lobby
  rw [hl] at hx
  exact Nat.lt_of_lt_of_le (hh x (mem_listings_removals hx)) hc.keeps.length_le

theorem occur_housed (hh : Housed h) (e : Affair) : Housed (h.occur e) := by
  cases e with
  | create fixture seed =>
    simp only [occur]
    split
    · rename_i k hc
      obtain ⟨-, room, -, hk⟩ := create_opens hc
      refine hk.housed fun x hx => ?_
      have hlen : (h.opened fixture room).rooms.length = h.rooms.length + 1 := by simp [opened]
      rw [hlen]
      rcases List.mem_append.mp hx with hx | hx
      · exact Nat.lt_succ_of_lt (hh x hx)
      · rw [List.mem_singleton.mp hx]
        exact Nat.lt_succ_self _
    · exact hh
  | remove id =>
    intro x hx
    have hx : x ∈ (h.lobby.run ([id].map .remove)).listings := hx
    exact hh x (mem_listings_removals hx)
  | elapse upto => exact (elapse_clears ..).housed hh
  | opening room side => exact (openSocket_clears ..).housed hh
  | command room c => exact (send_clears ..).housed hh
  | connect room side => exact (connect_clears ..).housed hh
  | hangUp session => exact (hangUp_clears ..).housed hh
  | hear session text => exact (hear_clears ..).housed hh
  | ping session => exact (modifySession_clears ..).housed hh
  | bulletins | frames => exact hh

theorem run_housed (rules : Rules) (now : Nat) (affairs : List Affair) :
    Housed (run { rules, now } affairs) := by
  unfold run
  refine List.foldlRecOn (motive := Housed) affairs occur ?_ fun h hh e _ => occur_housed hh e
  rintro x ⟨⟩

/-- Another match with an identifier than that in a room has ended. -/
def NamesakeEnded (h k : Hall) (room : Nat) (id : Uuid) : Prop :=
  ∃ j q, j ≠ room ∧ k.room? j = some q ∧ q.game.ended = true ∧ q.game.fixture.id = id ∧
    ∀ r, h.room? j = some r → r.isOver = false

/-- While the match in a new room goes on, those that end are its namesakes. -/
theorem ended_iff_namesakeEnded (hq : k.room? i = some q) (he : q.game.ended = false) :
    Ended h k id ↔ NamesakeEnded h k i id := by
  constructor
  · rintro ⟨j, s, hs, hse, hid, hj⟩
    refine ⟨j, s, ?_, hs, hse, hid, hj⟩
    rintro rfl
    rw [Option.some.inj (hq.symm.trans hs), hse] at he
    cases he
  · rintro ⟨j, s, -, rest⟩
    exact ⟨j, s, rest⟩

/-- A match is let in under its identifier, in a room of its own. -/
theorem opened_lists (room : Hosted) (ho : h.lobby.Orderly) (hh : Housed h)
    (hd : h.lobby.denial? fixture = none) :
    (h.opened fixture room).lobby.Lists h.rooms.length fixture ∧
      ∀ x ∈ (h.opened fixture room).lobby.listings, x.room = h.rooms.length →
        x.fixture = fixture := by
  refine ⟨(ho.list hd _).lists_iff.mpr (List.mem_append_right _ (List.mem_singleton_self _)), ?_⟩
  intro x hx hroom
  rcases List.mem_append.mp hx with hx | hx
  · exact absurd hroom (Nat.ne_of_lt (hh x hx))
  · rw [List.mem_singleton.mp hx]

/-- A match that goes on is listed, in its own room and for both of its players, just if nobody has
removed its identifier since it was created and no other match that bears it has ended since. -/
theorem listed_iff_no_namesake_ended {rules : Rules} {now : Nat} {before after : List Affair}
    (hh : run { rules, now } before = h) (hc : h.create fixture seed = .ok k) :
    ∃ q, (k.run after).room? h.rooms.length = some q ∧ (q.game.ended = false →
      ((k.run after).lobby.Lists h.rooms.length fixture ↔
        .remove fixture.id ∉ after ∧
          ¬ NamesakeEnded h (k.run after) h.rooms.length fixture.id)) := by
  subst hh
  have hhoused := run_housed rules now before
  obtain ⟨started, hlobby⟩ := run_lobby rules now before
  generalize run { rules, now } before = h at *
  have horderly : h.lobby.Orderly := hlobby ▸ Lobby.orderly_run started
  obtain ⟨hd, room, hover, hk⟩ := create_opens hc
  have hroom : (h.opened fixture room).room? h.rooms.length = some room.room := by
    simp [opened, room?]
  obtain ⟨q, hq, -⟩ := hk.keeps.trans (run_keeps k after) _ _ hroom
  refine ⟨q, hq, fun he => ?_⟩
  obtain ⟨ids, hids, hfirst⟩ := hk.lobby
  obtain ⟨deals, hrest, hremoved, hcreated⟩ := run_deals k after
  obtain ⟨hlists, halone⟩ := opened_lists room horderly hhoused hd
  have hall : (k.run after).lobby =
      (h.opened fixture room).lobby.run (ids.map .remove ++ deals) := by
    rw [hrest, hfirst, Lobby.run_append]
  -- No other match has been created in the room.
  have hother : ∀ g, .create g h.rooms.length ∉ ids.map Deal.remove ++ deals := by
    intro g hg
    rcases List.mem_append.mp hg with hg | hg
    · simp at hg
    · have hle := hk.keeps.length_le
      have hge := hcreated g _ hg
      simp only [opened, List.length_append, List.length_singleton] at hle
      omega
  have hends : Ended h (k.run after) fixture.id ↔
      fixture.id ∈ ids ∨ Ended k (k.run after) fixture.id := by
    rw [hids, ← ended_opened hover]
    exact ended_trans hk.keeps (run_keeps k after)
  have hopened : (h.opened fixture room).lobby.Orderly := horderly.list hd _
  rw [hall, Lobby.lists_run_iff hopened hlists halone hother, ← ended_iff_namesakeEnded hq he,
    List.mem_append, hremoved, hends]
  simp only [List.mem_map, Deal.remove.injEq, exists_eq_right, not_or]
  tauto

/-- A hall in which a match has been removed that still waits for its players. -/
def abandoned : Hall :=
  run { rules := { startGrace := 100, params := { triggerOffsets := [] } }, now := 0 }
    [.create Play.duel 7, .remove Play.duel.id, .elapse 40]

/-- Two other players, under the same identifier. -/
def rematch : Fixture := { Play.duel with players := ⟨⟨4⟩, ⟨5⟩⟩ }

/-- The match that has been removed ends, and takes the place of the one after it. -/
theorem listed_iff_no_namesake_ended_reused :
    ∃ k, abandoned.create rematch 8 = .ok k ∧
      ((k.run [.elapse 110]).room? 1).map (·.game.ended) = some false ∧
      NamesakeEnded abandoned (k.run [.elapse 110]) 1 rematch.id ∧
      ¬ (k.run [.elapse 110]).lobby.Lists 1 rematch := by
  cases hc : abandoned.create rematch 8 with
  | error denial =>
    have hd : abandoned.lobby.denial? rematch = none := by decide +kernel
    rw [create_denied, hd] at hc
    cases hc
  | ok k =>
    have hk : abandoned.occur (.create rematch 8) = k := by simp [occur, hc]
    have hrooms : abandoned.rooms.length = 1 := by decide +kernel
    have hended : ((k.run [.elapse 110]).room? 0).map
        (fun q => (q.game.ended, q.game.fixture.id)) = some (true, rematch.id) := by
      rw [← hk]
      decide +kernel
    have hover : (abandoned.room? 0).map (·.isOver) = some false := by decide +kernel
    have hgoes : ((k.run [.elapse 110]).room? 1).map (·.game.ended) = some false := by
      rw [← hk]
      decide +kernel
    have hn : NamesakeEnded abandoned (k.run [.elapse 110]) 1 rematch.id := by
      obtain ⟨q, hq, he⟩ := Option.map_eq_some_iff.mp hended
      refine ⟨0, q, by decide, hq, congrArg Prod.fst he, congrArg Prod.snd he, fun r hr => ?_⟩
      simpa [hr] using hover
    obtain ⟨q, hq, hlists⟩ : ∃ q, (k.run [.elapse 110]).room? abandoned.rooms.length = some q ∧
        (q.game.ended = false →
          ((k.run [.elapse 110]).lobby.Lists abandoned.rooms.length rematch ↔
            .remove rematch.id ∉ [Affair.elapse 110] ∧
              ¬ NamesakeEnded abandoned (k.run [.elapse 110]) abandoned.rooms.length rematch.id)) :=
      listed_iff_no_namesake_ended rfl hc
    rw [hrooms] at hq hlists
    have he : q.game.ended = false := by simpa [hq] using hgoes
    exact ⟨k, rfl, hgoes, hn, fun hl => ((hlists he).mp hl).2 hn⟩

end Rally.Hall
