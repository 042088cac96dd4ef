import Rally.Hall
import Rally.Proofs.Lobby.Index
import Rally.Proofs.Room.Happenings

/-! A hall in which anything happens: the matches that end, and what becomes of its lobby. -/
namespace Rally

namespace Room
variable {r q s : Room} {f : Play → Except Fault Play}

/-- A room that is over stays so, with the match that it had. -/
def Lasts (r q : Room) : Prop := r.isOver = true →
  q.isOver = true ∧ q.game.ended = r.game.ended ∧ q.game.fixture = r.game.fixture

theorem Lasts.refl (r : Room) : r.Lasts r := fun h => ⟨h, rfl, rfl⟩

theorem Lasts.trans (hrq : r.Lasts q) (hqs : q.Lasts s) : r.Lasts s := fun h => by
  obtain ⟨hq, hqe, hqf⟩ := hrq h
  obtain ⟨hs, hse, hsf⟩ := hqs hq
  exact ⟨hs, hse.trans hqe, hsf.trans hqf⟩

theorem act_lasts (r : Room) (f : Play → Except Fault Play) : r.Lasts (r.act f) := fun h => by
  rw [act, if_pos h]
  exact ⟨h, rfl, rfl⟩

theorem handle_lasts (r : Room) (c : Command) : r.Lasts (r.handle c) := by
  cases c with
  | connected side socket =>
    let held : Room := { r with holder := r.holder.modify side (max · socket) }
    exact held.act_lasts (·.join side held.now)
  | disconnected side socket =>
    simp only [handle]
    split
    · exact act_lasts r _
    · exact .refl r
  | surrender side => exact act_lasts r _

theorem tick_lasts (r : Room) : r.Lasts r.tick := by
  let next : Room := { r with nextTick := r.nextTick + r.interval }
  exact next.act_lasts (·.tick next.now)

theorem ring_lasts (r : Room) : r.Lasts r.ring := by
  let rung : Room :=
    { r with play := r.play.change fun m => { m with timers := (m.timers.elapse r.now).2 } }
  have hr : rung.Lasts ((r.game.timers.elapse r.now).1.foldl alarm rung) :=
    List.foldlRecOn _ alarm (.refl rung) fun q hq t _ => hq.trans (act_lasts q _)
  exact hr

theorem pulse_lasts (r : Room) (t : Nat) : r.Lasts (r.pulse t) := by
  let later : Room := { r with now := t }
  have ht : r.Lasts (if later.nextTick ≤ t then later.tick else later) := by
    split
    · exact later.tick_lasts
    · exact .refl r
  exact ht.trans (ring_lasts _)

theorem record_lasts {side : Side} {direction : Int8} {time : Option Nat}
    (h : r.record side direction time = .ok q) : r.Lasts q := by
  obtain ⟨logs, rfl⟩ := record_eq h
  exact .refl r

theorem isOver_of_ended (h : r.game.ended = true) : r.isOver = true := by
  simp [isOver, h]

end Room

namespace Hall
variable {h k l : Hall} {i j : Nat} {f : Room → Room} {id : Uuid}

/-- A match with an identifier has ended from one hall to another. -/
def Ended (h k : Hall) (id : Uuid) : Prop :=
  ∃ i q, k.room? i = some q ∧ q.game.ended = true ∧ q.game.fixture.id = id ∧
    ∀ r, h.room? i = some r → r.isOver = false

/-- The same rooms are there, and of all that is listed just the matches that have ended have been
removed. -/
structure Clears (h k : Hall) : Prop where
  kept : ∀ {i r}, h.room? i = some r → ∃ q, k.room? i = some q ∧ r.Lasts q
  known : ∀ {i q}, k.room? i = some q → ∃ r, h.room? i = some r ∧ r.Lasts q
  lobby : ∃ ids : List Uuid, (∀ id, id ∈ ids ↔ Ended h k id) ∧
    k.lobby = h.lobby.run (ids.map .remove)

theorem room?_congr (hr : k.rooms = h.rooms) (i : Nat) : k.room? i = h.room? i := by
  rw [room?, room?, hr]

theorem not_ended (hr : k.rooms = h.rooms) : ¬ Ended h k id := by
  rintro ⟨i, q, hq, he, -, hn⟩
  have ho := hn q ((room?_congr hr i).symm.trans hq)
  rw [Room.isOver_of_ended he] at ho
  cases ho

namespace Clears

theorem of_same (hr : k.rooms = h.rooms) (hl : k.lobby = h.lobby) : Clears h k :=
  ⟨fun {i r} hi => ⟨r, (room?_congr hr i).trans hi, .refl r⟩,
    fun {i q} hi => ⟨q, (room?_congr hr i).symm.trans hi, .refl q⟩, [],
    fun _ => iff_of_false List.not_mem_nil (not_ended hr), hl⟩

theorem refl (h : Hall) : Clears h h := of_same rfl rfl

/-- The matches that end in two steps are those of the first and those of the second. -/
theorem ended_iff (hhk : Clears h k) (hkl : Clears k l) :
    Ended h l id ↔ Ended h k id ∨ Ended k l id := by
  constructor
  · rintro ⟨i, q, hq, he, hid, hn⟩
    obtain ⟨r, hr, hrq⟩ := hkl.known hq
    cases ho : r.isOver with
    | true =>
      obtain ⟨-, hre, hrf⟩ := hrq ho
      exact .inl ⟨i, r, hr, hre ▸ he, hrf ▸ hid, hn⟩
    | false =>
      refine .inr ⟨i, q, hq, he, hid, fun s hs => ?_⟩
      rw [hr] at hs
      exact Option.some.inj hs ▸ ho
  · rintro (⟨i, r, hr, he, hid, hn⟩ | ⟨i, q, hq, he, hid, hn⟩)
    · obtain ⟨q, hq, hrq⟩ := hkl.kept hr
      obtain ⟨-, hqe, hqf⟩ := hrq (Room.isOver_of_ended he)
      exact ⟨i, q, hq, hqe.trans he, hqf ▸ hid, hn⟩
    · refine ⟨i, q, hq, he, hid, fun s hs => ?_⟩
      obtain ⟨r, hr, hsr⟩ := hhk.kept hs
      cases ho : s.isOver with
      | true =>
        rw [← hn r hr, (hsr ho).1]
      | false => rfl

theorem trans (hhk : Clears h k) (hkl : Clears k l) : Clears h l := by
  obtain ⟨ids, hids, hk⟩ := hhk.lobby
  obtain ⟨ids', hids', hl⟩ := hkl.lobby
  refine ⟨fun {i s} hi => ?_, fun {i q} hi => ?_, ids ++ ids', fun id => ?_, ?_⟩
  · obtain ⟨r, hr, hsr⟩ := hhk.kept hi
    obtain ⟨q, hq, hrq⟩ := hkl.kept hr
    exact ⟨q, hq, hsr.trans hrq⟩
  · obtain ⟨r, hr, hrq⟩ := hkl.known hi
    obtain ⟨s, hs, hsr⟩ := hhk.known hr
    exact ⟨s, hs, hsr.trans hrq⟩
  · rw [List.mem_append, hids, hids', ended_iff hhk hkl]
  · rw [hl, hk, List.map_append]
    exact (Lobby.run_append ..).symm

end Clears

/-! One room changes. -/

variable {r : Room}

theorem room?_eq_some : h.room? i = some r ↔ ∃ feed, h.rooms[i]? = some ⟨r, feed⟩ := by
  unfold room?
  cases h.rooms[i]? with
  | none => simp
  | some hosted =>
    obtain ⟨room, feed⟩ := hosted
    simp [eq_comm]

theorem change_of_none (hr : h.room? i = none) : h.change i f = h := by
  have hn : h.rooms[i]? = none := Option.map_eq_none_iff.mp hr
  simp [change, hn]

/-- What a room becomes when it changes. -/
def changed (h : Hall) (f : Room → Room) (r : Room) : Room := f { r with now := h.now }

theorem change_of_some (hr : h.room? i = some r) : ∃ next : Hall, next.lobby = h.lobby ∧
    (∀ j, next.room? j = if i = j then some (h.changed f r).take.2 else h.room? j) ∧
    h.change i f =
      if (h.changed f r).game.ended = true ∧ r.isOver = false then
        { next with lobby := h.lobby.deal (.remove (h.changed f r).game.fixture.id) }
      else next := by
  obtain ⟨feed, hi⟩ := room?_eq_some.mp hr
  refine ⟨h.deliver i (h.changed f r) feed, rfl, fun j => ?_, ?_⟩
  · have hlt : i < h.rooms.length := (List.getElem?_eq_some_iff.mp hi).1
    simp only [room?, deliver, List.getElem?_set]
    by_cases hij : i = j
    · rw [if_pos hij, if_pos hij, if_pos hlt]
      rfl
    · rw [if_neg hij, if_neg hij]
  · unfold change
    rw [hi]
    simp only [Bool.not_eq_true']
    rfl

/-- The end of the match in a room that changes clears its listing. -/
theorem change_clears (hf : ∀ r, h.room? i = some r → r.Lasts (f { r with now := h.now })) :
    Clears h (h.change i f) := by
  cases hr : h.room? i with
  | none =>
    rw [change_of_none hr]
    exact .refl h
  | some r =>
    obtain ⟨next, hlobby, hroom, hc⟩ := change_of_some (f := f) hr
    have hlast : r.Lasts (h.changed f r).take.2 := hf r hr
    have hk (j : Nat) : (h.change i f).room? j =
        if i = j then some (h.changed f r).take.2 else h.room? j := by
      rw [← hroom, hc]
      split <;> rfl
    refine ⟨fun {j s} hj => ?_, fun {j q} hj => ?_, ?_⟩
    · by_cases hij : i = j
      · subst hij
        obtain rfl := Option.some.inj (hr.symm.trans hj)
        exact ⟨_, (hk i).trans (if_pos rfl), hlast⟩
      · exact ⟨s, (hk j).trans ((if_neg hij).trans hj), .refl s⟩
    · rw [hk] at hj
      by_cases hij : i = j
      · subst hij
        rw [if_pos rfl] at hj
        exact ⟨r, hr, Option.some.inj hj ▸ hlast⟩
      · rw [if_neg hij] at hj
        exact ⟨q, hj, .refl q⟩
    have hended (id : Uuid) : Ended h (h.change i f) id ↔
        ((h.changed f r).game.ended = true ∧ r.isOver = false) ∧
          (h.changed f r).game.fixture.id = id := by
      constructor
      · rintro ⟨j, q, hq, he, hid, hn⟩
        rw [hk] at hq
        by_cases hij : i = j
        · subst hij
          rw [if_pos rfl] at hq
          obtain rfl := Option.some.inj hq
          exact ⟨⟨he, hn r hr⟩, hid⟩
        · rw [if_neg hij] at hq
          have ho := hn q hq
          rw [Room.isOver_of_ended he] at ho
          cases ho
      · rintro ⟨⟨he, ho⟩, hid⟩
        refine ⟨i, _, (hk i).trans (if_pos rfl), he, hid, fun s hs => ?_⟩
        exact Option.some.inj (hr.symm.trans hs) ▸ ho
    by_cases he : (h.changed f r).game.ended = true ∧ r.isOver = false
    · refine ⟨[(h.changed f r).game.fixture.id], fun id => ?_, ?_⟩
      · rw [hended, and_iff_right he, List.mem_singleton, eq_comm]
      · rw [hc, if_pos he]
        rfl
    · refine ⟨[], fun id => ?_, ?_⟩
      · rw [hended]
        exact iff_of_false List.not_mem_nil fun h => he h.1
      · rw [hc, if_neg he]
        exact hlobby

/-! All that can happen in a hall. -/

/-- One change after another. -/
theorem clears_foldl {α : Type} {g : Hall → α → Hall} (hg : ∀ k a, Clears k (g k a)) (h : Hall)
    (as : List α) : Clears h (as.foldl g h) :=
  List.foldlRecOn as g (.refl h) fun k hk a _ => hk.trans (hg k a)

theorem pulse_clears (h : Hall) (t : Nat) : Clears h (h.pulse t) := by
  have hnow : Clears h { h with now := t } := .of_same rfl rfl
  refine hnow.trans (clears_foldl (fun k i => change_clears fun r _ => ?_) _ _)
  split
  · exact Room.pulse_lasts { r with now := k.now } t
  · exact .refl r

theorem pass_clears (h : Hall) (upto n : Nat) : Clears h (h.pass upto n) := by
  induction n generalizing h with
  | zero => exact .of_same rfl rfl
  | succ n ih =>
    unfold pass
    split
    · split
      · exact (pulse_clears h _).trans (ih _)
      · exact .of_same rfl rfl
    · exact .of_same rfl rfl

theorem elapse_clears (h : Hall) (upto : Nat) : Clears h (h.elapse upto) := pass_clears ..

theorem send_clears (h : Hall) (i : Nat) (c : Command) : Clears h (h.send i c).2 := by
  unfold send
  split
  · exact .refl h
  · refine (change_clears fun r _ => ?_).trans (elapse_clears ..)
    exact Room.handle_lasts { r with now := h.now } c

theorem openSocket_clears (h : Hall) (i : Nat) (side : Side) :
    Clears h (h.openSocket i side).2 := by
  unfold openSocket
  split
  · exact .refl h
  · have hc : Clears h (h.change i fun r => (r.openSocket side).2) :=
      change_clears fun r _ => Room.Lasts.refl r
    exact hc

theorem modifySession_clears (h : Hall) (i : Nat) (f : Session → Session) :
    Clears h (h.modifySession i f) :=
  .of_same rfl rfl

theorem connect_clears (h : Hall) (i : Nat) (side : Side) : Clears h (h.connect i side) := by
  unfold connect
  split
  · exact .refl h
  · rename_i hosted _
    let session : Session :=
      ⟨i, side, (h.openSocket i side).1, ⟨hosted.feed.sent, false⟩, true, []⟩
    let seen : Hall := { (h.openSocket i side).2 with
      sessions := (h.openSocket i side).2.sessions ++ [session] }
    have hseen : Clears h seen := (openSocket_clears h i side).trans (.of_same rfl rfl)
    have hsent := hseen.trans (send_clears seen i (.connected side (h.openSocket i side).1))
    dsimp only
    split
    · exact hsent
    · exact hsent.trans (modifySession_clears ..)

theorem hangUp_clears (h : Hall) (i : Nat) : Clears h (h.hangUp i) := by
  unfold hangUp
  split
  · exact .refl h
  · split
    · exact (modifySession_clears ..).trans (send_clears ..)
    · exact .refl h

theorem record_clears (h : Hall) (i : Nat) (s : Session) (direction : Int8) (time : Option Nat) :
    Clears h (h.record i s direction time) := by
  unfold record
  split
  · exact .refl h
  · rename_i room hr
    split
    · rename_i q hq
      refine change_clears fun r hi => ?_
      obtain rfl := Option.some.inj (hr.symm.trans hi)
      exact Room.record_lasts (r := { room with now := h.now }) hq
    · exact modifySession_clears ..

theorem hear_clears (h : Hall) (i : Nat) (text : List Char) : Clears h (h.hear i text) := by
  unfold hear
  split
  · exact .refl h
  · rename_i s _
    split
    · exact .refl h
    · split
      · exact modifySession_clears ..
      · exact record_clears ..
      · exact modifySession_clears ..
      · have hs := send_clears h s.room (.surrender s.side)
        dsimp only
        split
        · exact hs
        · exact hs.trans (hangUp_clears ..)

/-- Something that happens in a hall. -/
inductive Affair where
  | create (fixture : Fixture) (seed : UInt64)
  | remove (id : Uuid)
  /-- Time passes, with all that is due in it. -/
  | elapse (upto : Nat)
  /-- A socket of a side is opened, without a player behind it. -/
  | opening (room : Nat) (side : Side)
  | command (room : Nat) (c : Command)
  /-- A player connects to a side of a match. -/
  | connect (room : Nat) (side : Side)
  | hangUp (session : Nat)
  | hear (session : Nat) (text : List Char)
  | ping (session : Nat)
  /-- What has been announced and what has been sent are taken. -/
  | bulletins
  | frames
deriving DecidableEq

def occur (h : Hall) : Affair → Hall
  | .create fixture seed =>
    match h.create fixture seed with
    | .ok k => k
    | .error _ => h
  | .remove id => (h.remove id).2
  | .elapse upto => h.elapse upto
  | .opening room side => (h.openSocket room side).2
  | .command room c => (h.send room c).2
  | .connect room side => h.connect room side
  | .hangUp session => h.hangUp session
  | .hear session text => h.hear session text
  | .ping session => h.ping session
  | .bulletins => h.takeBulletins.2
  | .frames => h.takeFrames.2

/-- Lets affairs occur one after another. -/
def run (h : Hall) (affairs : List Affair) : Hall := affairs.foldl occur h

/-- What is asked of the lobby. -/
def asked (h : Hall) : Affair → List Deal
  | .create fixture _ => [.create fixture h.rooms.length]
  | .remove id => [.remove id]
  | _ => []

/-- Something is done to a lobby because it is asked for, or because matches have ended. -/
def Deals (h : Hall) (asked : List Deal) (k : Hall) : Prop :=
  ∃ ids : List Uuid, (∀ id, id ∈ ids ↔ Ended h k id) ∧
    k.lobby = h.lobby.run (asked ++ ids.map .remove)

/-- A match that is created does not end before it has begun. -/
theorem ended_opened {room : Hosted} (ho : room.room.isOver = false) {lobby : Lobby} :
    Ended { h with lobby, rooms := h.rooms ++ [room] } k id ↔ Ended h k id := by
  have hr (i : Nat) : ({ h with lobby, rooms := h.rooms ++ [room] } : Hall).room? i =
      if i = h.rooms.length then some room.room else h.room? i := by
    rcases Nat.lt_trichotomy i h.rooms.length with hi | rfl | hi
    · simp [room?, List.getElem?_append_left hi, Nat.ne_of_lt hi]
    · simp [room?]
    · have hlen : (h.rooms ++ [room]).length ≤ i := by simpa using Nat.succ_le_of_lt hi
      simp [room?, List.getElem?_eq_none hlen, List.getElem?_eq_none hi.le, Nat.ne_of_gt hi]
  unfold Ended
  refine exists_congr fun i => exists_congr fun q => and_congr_right fun _ =>
    and_congr_right fun _ => and_congr_right fun _ => ?_
  rw [hr]
  by_cases hi : i = h.rooms.length
  · subst hi
    simp [room?, ho]
  · rw [if_neg hi]

theorem create_deals (h : Hall) (fixture : Fixture) (seed : UInt64) :
    Deals h [.create fixture h.rooms.length] (h.occur (.create fixture seed)) := by
  have hc := h.lobby.create_eq fixture h.rooms.length
  simp only [occur, create]
  cases hd : h.lobby.denial? fixture with
  | some denial =>
    simp only [hd] at hc
    rw [hc]
    refine ⟨[], fun _ => iff_of_false List.not_mem_nil (not_ended rfl), ?_⟩
    simp [Lobby.run, Lobby.deal, hc]
  | none =>
    simp only [hd] at hc
    rw [hc]
    let room : Hosted := ⟨.start fixture h.rules seed h.now, .withCapacity feedCapacity⟩
    let opened : Hall :=
      { h with lobby := h.lobby.list fixture h.rooms.length, rooms := h.rooms ++ [room] }
    obtain ⟨ids, hids, hl⟩ := (elapse_clears opened h.now).lobby
    refine ⟨ids, fun id => (hids id).trans (ended_opened rfl), hl.trans ?_⟩
    simp [opened, Lobby.run, Lobby.deal, hc]

theorem occur_deals (h : Hall) (e : Affair) : Deals h (h.asked e) (h.occur e) := by
  cases e with
  | create fixture seed => exact create_deals ..
  | remove id => exact ⟨[], fun _ => iff_of_false List.not_mem_nil (not_ended rfl), rfl⟩
  | elapse upto => exact (elapse_clears ..).lobby
  | opening room side => exact (openSocket_clears ..).lobby
  | command room c => exact (send_clears ..).lobby
  | connect room side => exact (connect_clears ..).lobby
  | hangUp session => exact (hangUp_clears ..).lobby
  | hear session text => exact (hear_clears ..).lobby
  | ping session => exact (modifySession_clears ..).lobby
  | bulletins | frames => exact (Clears.of_same rfl rfl).lobby

/-- The lobby of a hall has come about by creating and removing matches. -/
theorem run_lobby (rules : Rules) (now : Nat) (affairs : List Affair) :
    ∃ deals, (run { rules, now } affairs).lobby = Lobby.run {} deals := by
  refine List.foldlRecOn (motive := fun h : Hall => ∃ deals, h.lobby = Lobby.run {} deals)
    affairs occur ⟨[], rfl⟩ fun h ⟨deals, hl⟩ e _ => ?_
  obtain ⟨ids, -, hk⟩ := occur_deals h e
  refine ⟨deals ++ (h.asked e ++ ids.map .remove), ?_⟩
  rw [hk, hl]
  exact (Lobby.run_append ..).symm

/-- What denies a match in the lobby denies it in the hall. -/
theorem create_denied (h : Hall) (fixture : Fixture) (seed : UInt64) (denial : Denial) :
    h.create fixture seed = .error denial ↔ h.lobby.denial? fixture = some denial := by
  rw [create, Lobby.create_eq]
  cases h.lobby.denial? fixture with
  | some d => simp
  | none => simp

/-- However matches are created, removed and ended, the two indexes say the same. A match is let in
just if nothing is against it and is else denied without a trace, and one that is removed leaves
nothing behind. A lobby of a hall is one of these, and what happens in the hall does to it what is
asked, and removes just the matches that end. -/
theorem indexes_agree :
    (∀ deals : List Deal, (Lobby.run {} deals).Agreed ∧
      (∀ f room, (Lobby.run {} deals).Admits f room) ∧ ∀ id, (Lobby.run {} deals).Forgets id) ∧
    ∀ (rules : Rules) (now : Nat) (affairs : List Affair), let h := run { rules, now } affairs
      (∃ deals, h.lobby = Lobby.run {} deals) ∧
      (∀ fixture seed denial, h.create fixture seed = .error denial ↔
        h.lobby.denial? fixture = some denial) ∧
      ∀ e, Deals h (h.asked e) (h.occur e) := by
  refine ⟨fun deals => ?_, fun rules now affairs => ?_⟩
  · have ho := Lobby.orderly_run deals
    exact ⟨ho.agreed, ho.admits, ho.forgets⟩
  · exact ⟨run_lobby rules now affairs, create_denied _, occur_deals _⟩

end Hall
end Rally
