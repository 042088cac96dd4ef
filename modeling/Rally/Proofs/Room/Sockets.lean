import Rally.Proofs.Room.Happenings
import Rally.Proofs.Side

/-! Sockets come and go in any order. Who is there for the match, and who still has a socket. -/
namespace Rally.Room
variable {h es : List Happening} {e : Happening} {r q : Room} {side : Side} {s n : Nat}
  {fixture : Fixture} {rules : Rules} {seed : UInt64} {now : Nat}

/-- A socket has connected. -/
def Connected (h : List Happening) (side : Side) (s : Nat) : Prop :=
  .command (.connected side s) ∈ h

/-- A socket has been closed. -/
def Closed (h : List Happening) (side : Side) (s : Nat) : Prop :=
  .command (.disconnected side s) ∈ h

instance : Decidable (Connected h side s) := inferInstanceAs (Decidable (_ ∈ h))

instance : Decidable (Closed h side s) := inferInstanceAs (Decidable (_ ∈ h))

def Live (h : List Happening) (side : Side) (s : Nat) : Prop :=
  Connected h side s ∧ ¬ Closed h side s

/-- The socket with the highest number of those of a side that have connected. -/
def Newest (h : List Happening) (side : Side) (n : Nat) : Prop :=
  Connected h side n ∧ ∀ s, Connected h side s → s ≤ n

/-- A socket has connected after another one had been closed. -/
def After (h : List Happening) (side : Side) (n s : Nat) : Prop :=
  [.command (.disconnected side n), .command (.connected side s)].Sublist h

/-- A socket has connected after the newest one of its side had been closed. -/
def Late (h : List Happening) (side : Side) (s : Nat) : Prop :=
  ∃ n, Newest h side n ∧ After h side n s

/-- No socket connects twice, and it is closed once at most, after it has connected. -/
def Fits (h : List Happening) : Happening → Prop
  | .command (.connected side s) => ¬ Connected h side s
  | .command (.disconnected side s) => Live h side s
  | _ => True

/-- All happenings fit what has been before them. -/
def Orderly (h : List Happening) : List Happening → Prop
  | [] => True
  | e :: es => Fits h e ∧ Orderly (h ++ [e]) es

instance : Decidable (Live h side s) := inferInstanceAs (Decidable (_ ∧ _))

instance : Decidable (After h side n s) := inferInstanceAs (Decidable (List.Sublist _ _))

instance : (e : Happening) → Decidable (Fits h e)
  | .command (.connected side s) => inferInstanceAs (Decidable (¬ Connected h side s))
  | .command (.disconnected side s) => inferInstanceAs (Decidable (Live h side s))
  | .command (.surrender _) | .opening _ | .input .. | .clock _ | .tick | .alarm _ | .elapse _
  | .take => isTrue trivial

instance decidableOrderly (h : List Happening) : (es : List Happening) → Decidable (Orderly h es)
  | [] => isTrue trivial
  | e :: es =>
    have := decidableOrderly (h ++ [e]) es
    inferInstanceAs (Decidable (_ ∧ _))

/-! A history grows by one happening. -/

@[simp] theorem connected_snoc :
    Connected (h ++ [e]) side s ↔ Connected h side s ∨ e = .command (.connected side s) := by
  simp [Connected, eq_comm]

@[simp] theorem closed_snoc :
    Closed (h ++ [e]) side s ↔ Closed h side s ∨ e = .command (.disconnected side s) := by
  simp [Closed, eq_comm]

theorem After.closed (ha : After h side n s) : Closed h side n :=
  ha.subset (by simp)

theorem pair_sublist_snoc {α : Type} {xs : List α} {a b x : α} :
    [a, b].Sublist (xs ++ [x]) ↔ [a, b].Sublist xs ∨ x = b ∧ a ∈ xs := by
  constructor
  · intro h
    obtain ⟨l, l', hl, hs, hs'⟩ := List.sublist_append_iff.mp h
    rcases List.sublist_singleton.mp hs' with rfl | rfl
    · exact .inl (by simpa [hl] using hs)
    · change [a] ++ [b] = l ++ [x] at hl
      obtain ⟨rfl, hx⟩ := List.append_inj' hl rfl
      exact .inr ⟨(List.singleton_inj.mp hx).symm, List.singleton_sublist.mp hs⟩
  · rintro (h | ⟨rfl, h⟩)
    · exact h.trans (List.sublist_append_left ..)
    · exact (List.singleton_sublist.mpr h).append (.refl _)

@[simp] theorem after_snoc : After (h ++ [e]) side n s ↔
    After h side n s ∨ e = .command (.connected side s) ∧ Closed h side n :=
  pair_sublist_snoc

theorem Newest.unique {m : Nat} (hn : Newest h side n) (hm : Newest h side m) : m = n :=
  Nat.le_antisymm (hn.2 m hm.1) (hm.2 n hn.1)

/-- The first socket of a side to connect. -/
theorem newest_first (hno : ∀ t, ¬ Connected h side t) :
    Newest (h ++ [.command (.connected side s)]) side s := by
  simp [Newest, hno]

/-- Another socket connects, which may be newer or not. -/
theorem Newest.connect (hn : Newest h side n) (s : Nat) :
    Newest (h ++ [.command (.connected side s)]) side (max n s) := by
  refine ⟨?_, fun t ht => ?_⟩
  · rcases Nat.le_total n s with hs | hs
    · simp [Nat.max_eq_right hs]
    · simp [Nat.max_eq_left hs, hn.1]
  · rcases connected_snoc.mp ht with ht | he
    · exact (hn.2 t ht).trans (Nat.le_max_left ..)
    · cases he
      exact Nat.le_max_right ..

/-- The newest socket of a side holds it, and the side is there as long as that socket is live or
after another one has come too late. -/
structure Attended (h : List Happening) (r : Room) (side : Side) : Prop where
  holder : (∀ s, ¬ Connected h side s) ∧ r.holder.get side = 0 ∨
    Newest h side (r.holder.get side)
  closed : ∀ s, Closed h side s → Connected h side s
  ready : r.game.ready.get side = true ↔
    Live h side (r.holder.get side) ∨ ∃ s, After h side (r.holder.get side) s

theorem attended_start : Attended [] (start fixture rules seed now) side := by
  have hr : (start fixture rules seed now).game.ready.get side = false := by
    cases side <;> simp [start, game, Play.start, Sides.both, Sides.get]
  have hh : (start fixture rules seed now).holder.get side = 0 := by
    cases side <;> rfl
  refine ⟨.inl ⟨by simp [Connected], hh⟩, by simp [Closed], ?_⟩
  simp [hr, Live, Connected, After]

/-- A happening that neither brings a socket of a side nor closes the one that holds it. -/
theorem Attended.keep (ha : Attended h r side) (hf : Fits h e)
    (hc : ∀ s, e ≠ .command (.connected side s))
    (hd : e ≠ .command (.disconnected side (r.holder.get side)))
    (hh : q.holder.get side = r.holder.get side)
    (hr : q.game.ready.get side = r.game.ready.get side) : Attended (h ++ [e]) q side := by
  refine ⟨?_, ?_, ?_⟩
  · simpa [Newest, hc, hh] using ha.holder
  · intro s hs
    rcases closed_snoc.mp hs with hs | rfl
    · exact connected_snoc.mpr (.inl (ha.closed s hs))
    · exact connected_snoc.mpr (.inl hf.1)
  · simpa [Live, hc, hd, hh, hr] using ha.ready

/-- A socket connects. Whether it is newer than the others or comes too late, the side is there. -/
theorem Attended.connect (ha : Attended h r side) (hf : ¬ Connected h side s)
    (hh : q.holder.get side = max (r.holder.get side) s) (hr : q.game.ready.get side = true) :
    Attended (h ++ [.command (.connected side s)]) q side := by
  refine ⟨.inr ?_, ?_, ?_⟩
  · rw [hh]
    rcases ha.holder with ⟨hno, hz⟩ | hn
    · rw [hz, Nat.zero_max]
      exact newest_first hno
    · exact hn.connect s
  · intro t ht
    exact connected_snoc.mpr (.inl (ha.closed t (by simpa using ht)))
  · rw [hr, hh]
    refine iff_of_true rfl ?_
    by_cases hs : r.holder.get side ≤ s
    · rw [Nat.max_eq_right hs]
      exact .inl ⟨by simp, fun hc => hf (ha.closed s (by simpa using hc))⟩
    · have hn : Newest h side (r.holder.get side) := ha.holder.resolve_left fun hz => by omega
      rw [Nat.max_eq_left (by omega)]
      by_cases hc : Closed h side (r.holder.get side)
      · exact .inr ⟨s, after_snoc.mpr (.inr ⟨rfl, hc⟩)⟩
      · exact .inl ⟨connected_snoc.mpr (.inl hn.1), by simpa using hc⟩

theorem Attended.disconnect (ha : Attended h r side) (hf : Live h side (r.holder.get side))
    (hh : q.holder.get side = r.holder.get side) (hr : q.game.ready.get side = false) :
    Attended (h ++ [.command (.disconnected side (r.holder.get side))]) q side := by
  refine ⟨?_, ?_, ?_⟩
  · simpa [Newest, hh] using ha.holder
  · intro s hs
    rcases closed_snoc.mp hs with hs | he
    · exact connected_snoc.mpr (.inl (ha.closed s hs))
    · cases he
      exact connected_snoc.mpr (.inl hf.1)
  · -- Nothing can have come too late for a socket that was still live.
    have hlate : ∀ s, ¬ After h side (r.holder.get side) s := fun s hs => hf.2 hs.closed
    simp [hh, hr, Live, hlate]

theorem attended_outcome (ha : ∀ side, Attended h r side) (hf : Fits h e) (ht : Outcome r e q)
    (side : Side) : Attended (h ++ [e]) q side := by
  cases ht with
  | @connected other s q hh hr =>
    by_cases hs : side = other
    · subst hs
      exact (ha side).connect hf (by simp [hh]) (by simp [hr])
    · refine (ha side).keep hf ?_ (by simp) ?_ ?_
      · rintro t ⟨⟩
        exact hs rfl
      · rw [hh, Sides.get_modify_of_ne _ _ _ hs]
      · rw [hr, Sides.get_set_of_ne _ _ _ hs]
  | @disconnected other q hh hr =>
    by_cases hs : side = other
    · subst hs
      exact (ha side).disconnect hf (by rw [hh]) (by simp [hr])
    · refine (ha side).keep hf (by simp) ?_ (by rw [hh]) ?_
      · rintro ⟨⟩
        exact hs rfl
      · rw [hr, Sides.get_set_of_ne _ _ _ hs]
  | @replaced other s hs =>
    refine (ha side).keep hf (by simp) ?_ rfl rfl
    rintro ⟨⟩
    exact hs rfl
  | aside hc hd hh hr => exact (ha side).keep hf (hc side) (hd side _) (by rw [hh]) (by rw [hr])

theorem attended_run (ha : ∀ side, Attended h r side) (hs : Orderly h es)
    (ho : (r.run es).isOver = false) (side : Side) : Attended (h ++ es) (r.run es) side := by
  induction es generalizing h r with
  | nil => simpa using ha side
  | cons e es ih =>
    have hr : (r.occur e).isOver = false := not_over_of_run ho
    have ht := ih (attended_outcome ha hs.1 (occur_outcome hr).2) hs.2 ho
    simpa using ht

theorem attended (hs : Orderly [] es)
    (ho : ((start fixture rules seed now).run es).isOver = false) (side : Side) :
    Attended es ((start fixture rules seed now).run es) side :=
  attended_run (fun _ => attended_start) hs ho side

/-- A socket has connected that holds its side. -/
theorem Attended.newest (ha : Attended h r side) (hs : Connected h side s) :
    Newest h side (r.holder.get side) :=
  ha.holder.resolve_left fun hz => hz.1 s hs

/-- A side is there as long as its newest socket is live, and after one has connected too late. -/
theorem Attended.ready_iff (ha : Attended h r side) : r.game.ready.get side = true ↔
    (∃ n, Newest h side n ∧ ¬ Closed h side n) ∨ ∃ s, Late h side s := by
  rw [ha.ready]
  constructor
  · rintro (⟨hc, hn⟩ | ⟨s, hs⟩)
    · exact .inl ⟨_, ha.newest hc, hn⟩
    · exact .inr ⟨s, _, ha.newest (ha.closed _ hs.closed), hs⟩
  · rintro (⟨n, hn, hc⟩ | ⟨s, n, hn, hs⟩)
    · obtain rfl := (ha.newest hn.1).unique hn
      exact .inl ⟨hn.1, hc⟩
    · obtain rfl := (ha.newest hn.1).unique hn
      exact .inr ⟨s, hs⟩

/-- A side that is there has a live socket, unless one connected after the newest socket of the side
had been closed. Then the side is there even if all its sockets are closed, and stays so until a
newer one connects. -/
theorem ready_has_socket_unless_late (hs : Orderly [] es)
    (ho : ((start fixture rules seed now).run es).isOver = false) :
    (((start fixture rules seed now).run es).game.ready.get side = true →
      (∃ s, Live es side s) ∨ ∃ s, Late es side s) ∧
    ((∃ s, Late es side s) →
      ((start fixture rules seed now).run es).game.ready.get side = true) := by
  have ha := attended hs ho side
  refine ⟨fun hr => ?_, fun hl => ha.ready_iff.mpr (.inr hl)⟩
  rcases ha.ready_iff.mp hr with ⟨n, hn, hc⟩ | hl
  · exact .inl ⟨n, hn.1, hc⟩
  · exact .inr hl

/-- The second socket of a side is the first to connect, and is closed before the first connects. -/
def crossing : List Happening :=
  [.opening .left, .opening .left, .command (.connected .left 2), .command (.disconnected .left 2),
    .command (.connected .left 1), .command (.disconnected .left 1)]

/-- A side is there although all its sockets have been closed. -/
theorem ready_has_socket_unless_late_crossing :
    Orderly [] crossing ∧ ((start Play.duel {} 7 0).run crossing).isOver = false ∧
      Late crossing .left 1 ∧ (∀ s, ¬ Live crossing .left s) ∧
      ((start Play.duel {} 7 0).run crossing).game.ready.get .left = true := by
  have hs : Orderly [] crossing := by decide
  have ho : ((start Play.duel {} 7 0).run crossing).isOver = false := by decide +kernel
  have hc : ∀ s, Connected crossing .left s → s = 2 ∨ s = 1 := by simp [Connected, crossing]
  have hl : Late crossing .left 1 := by
    refine ⟨2, ⟨by decide, fun s h => ?_⟩, by decide⟩
    rcases hc s h with rfl | rfl <;> decide
  have hn : ∀ s, ¬ Live crossing .left s := by
    intro s h
    rcases hc s h.1 with rfl | rfl <;> exact h.2 (by decide)
  exact ⟨hs, ho, hl, hn, (ready_has_socket_unless_late hs ho).2 ⟨1, hl⟩⟩

/-- A side is there as long as its newest socket is live, and no other one can take it away. -/
theorem replaced_socket_keeps_side (hs : Orderly [] es)
    (ho : ((start fixture rules seed now).run es).isOver = false) :
    (∀ n, Newest es side n → ¬ Closed es side n →
      ((start fixture rules seed now).run es).game.ready.get side = true) ∧
    ∀ s n, Newest es side n → s < n →
      ((start fixture rules seed now).run es).handle (.disconnected side s) =
        (start fixture rules seed now).run es := by
  have ha := attended hs ho side
  refine ⟨fun n hn hc => ha.ready_iff.mpr (.inl ⟨n, hn, hc⟩), fun s n hn hlt => ?_⟩
  obtain rfl := (ha.newest hn.1).unique hn
  exact if_neg (Nat.ne_of_lt hlt)

/-- A player opens a second socket during play, with the first still open. -/
def replacement : List Happening :=
  [.command (.connected .left 1), .command (.connected .right 1), .command (.connected .left 2)]

theorem replaced_socket_keeps_side_once :
    Orderly [] replacement ∧ ((start Play.duel {} 7 0).run replacement).isOver = false ∧
      ((start Play.duel {} 7 0).run replacement).game.ready.get .left = true ∧
      ((start Play.duel {} 7 0).run replacement).handle (.disconnected .left 1) =
        (start Play.duel {} 7 0).run replacement := by
  have hs : Orderly [] replacement := by decide
  have ho : ((start Play.duel {} 7 0).run replacement).isOver = false := by decide +kernel
  have hn : Newest replacement .left 2 := by
    refine ⟨by decide, fun s h => ?_⟩
    have : s = 1 ∨ s = 2 := by simpa [Connected, replacement] using h
    omega
  have hready := (replaced_socket_keeps_side hs ho).1 2 hn (by decide)
  have hkept := (replaced_socket_keeps_side hs ho).2 1 2 hn (by decide)
  exact ⟨hs, ho, hready, hkept⟩

end Rally.Room
