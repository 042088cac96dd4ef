import Rally.Room
import Rally.Proofs.Match.Lasting

/-! Runs of a room: what can happen in it, in any order and at any times, and what a happening does
to the sides. -/
namespace Rally

/-- Something that happens in a room. -/
inductive Happening where
  | command (c : Command)
  | opening (side : Side)
  /-- An input arrives. If it is refused, nothing happens. -/
  | input (side : Side) (direction : Int8) (time : Option Nat)
  | clock (now : Nat)
  | tick
  | alarm (t : Timer)
  /-- Time passes, with all that is due in it. -/
  | elapse (upto : Nat)
  /-- What the match has said is taken. -/
  | take
deriving DecidableEq

namespace Room
variable {r q : Room} {e : Happening} {es : List Happening} {side : Side}
  {f : Play → Except Fault Play}

def occur (r : Room) : Happening → Room
  | .command c => r.handle c
  | .opening side => (r.openSocket side).2
  | .input side direction time =>
    match r.record side direction time with
    | .ok r => r
    | .error _ => r
  | .clock now => { r with now }
  | .tick => r.tick
  | .alarm t => r.alarm t
  | .elapse upto => r.elapse upto
  | .take => r.take.2

/-- Lets happenings occur one after another. -/
def run (r : Room) (es : List Happening) : Room := es.foldl occur r

@[simp] theorem run_nil (r : Room) : r.run [] = r := rfl

@[simp] theorem run_cons (r : Room) (e : Happening) (es : List Happening) :
    r.run (e :: es) = (r.occur e).run es := rfl

/-! What a happening does to the sides. -/

/-- A room that is not over after a change of its match was not over before, and the change has
given a match. -/
theorem act_ok (h : (r.act f).isOver = false) :
    r.isOver = false ∧ ∃ p, f r.play = .ok p ∧ r.act f = { r with play := p } := by
  unfold act at h ⊢
  cases ho : r.isOver with
  | true => simp [ho] at h
  | false =>
    simp only [ho] at h
    cases hf : f r.play with
    | error e => simp [hf, isOver] at h
    | ok p => exact ⟨rfl, p, rfl, by simp⟩

theorem phase_of_not_over (h : r.isOver = false) : r.play.game.phase ≠ .ended := by
  simp only [isOver, Bool.or_eq_false_iff] at h
  exact of_decide_eq_false h.2

/-- The room is not over, and each side is there and held as before. -/
def Steady (r q : Room) : Prop :=
  r.isOver = false ∧ q.holder = r.holder ∧ q.game.ready = r.game.ready

theorem Steady.trans {t : Room} (hrq : Steady r q) (hqt : Steady q t) : Steady r t :=
  ⟨hrq.1, hqt.2.1.trans hrq.2.1, hqt.2.2.trans hrq.2.2⟩

/-- A change of the match that is a move of it. -/
theorem act_move {m : Move} (hf : ∀ p, r.play.game.phase ≠ .ended → f r.play = .ok p →
      Play.Step r.play m p) (h : (r.act f).isOver = false) :
    r.isOver = false ∧ (r.act f).holder = r.holder ∧
      (r.act f).game.ready = m.attend r.game.ready := by
  obtain ⟨ho, p, hp, hr⟩ := act_ok h
  rw [hr]
  exact ⟨ho, rfl, Play.step_ready (hf p (phase_of_not_over ho) hp)⟩

theorem alarm_steady (t : Timer) (h : (r.alarm t).isOver = false) : Steady r (r.alarm t) := by
  refine act_move (m := .alarm t.deadline t.id) ?_ h
  rintro p he ⟨⟩
  exact Play.alarm_step _ _ he

theorem alarms_steady (ts : List Timer) (h : (ts.foldl alarm r).isOver = false) :
    Steady r (ts.foldl alarm r) := by
  induction ts generalizing r with
  | nil => exact ⟨h, rfl, rfl⟩
  | cons t ts ih =>
    have hts := ih h
    exact (alarm_steady t hts.1).trans hts

theorem tick_steady (h : r.tick.isOver = false) : Steady r r.tick := by
  let s : Room := { r with nextTick := r.nextTick + r.interval }
  have hs : Steady s (s.act (·.tick r.now)) :=
    act_move (m := .tick r.now) (fun _ he hp => Play.tick_step he hp) h
  exact hs

theorem ring_steady (h : r.ring.isOver = false) : Steady r r.ring :=
  alarms_steady _ h

theorem pulse_steady (t : Nat) (h : (r.pulse t).isOver = false) : Steady r (r.pulse t) := by
  have hring := ring_steady h
  refine Steady.trans ?_ hring
  have ho := hring.1
  by_cases ht : r.nextTick ≤ t
  · rw [if_pos ht] at ho ⊢
    exact tick_steady ho
  · rw [if_neg ht] at ho ⊢
    exact ⟨ho, rfl, rfl⟩

theorem pass_steady (upto n : Nat) (h : (r.pass upto n).isOver = false) :
    Steady r (r.pass upto n) := by
  induction n generalizing r with
  | zero => exact ⟨h, rfl, rfl⟩
  | succ n ih =>
    unfold pass at h ⊢
    split at h
    · rename_i t _
      by_cases ht : t ≤ upto
      · rw [if_pos ht] at h ⊢
        have hpass := ih h
        exact (pulse_steady t hpass.1).trans hpass
      · rw [if_neg ht] at h ⊢
        exact ⟨h, rfl, rfl⟩
    · exact ⟨h, rfl, rfl⟩

/-- An input is written in a log of the match. -/
theorem record_eq {direction : Int8} {time : Option Nat}
    (h : r.record side direction time = .ok q) :
    ∃ logs, q = { r with play := r.play.change fun m => { m with logs } } := by
  obtain ⟨s, hs⟩ : ∃ s, r.record side direction time =
      (r.game.record side s).map fun m => { r with play := r.play.change fun _ => m } := ⟨_, rfl⟩
  rw [hs, Match.record] at h
  cases hl : (r.game.logs.get side).record s with
  | error e => simp [hl, Except.map] at h
  | ok log =>
    simp only [hl, Except.map, Except.ok.injEq] at h
    exact ⟨r.game.logs.set side log, h.symm⟩

/-- What a happening does to the sides of a room that is not over after it. -/
inductive Outcome (r : Room) : Happening → Room → Prop where
  /-- The newest socket of a side holds it, but any of them brings the side. -/
  | connected {side : Side} {socket : Nat} {q : Room}
      (hh : q.holder = r.holder.modify side (max · socket))
      (hr : q.game.ready = r.game.ready.set side true) :
      Outcome r (.command (.connected side socket)) q
  | disconnected {side : Side} {q : Room} (hh : q.holder = r.holder)
      (hr : q.game.ready = r.game.ready.set side false) :
      Outcome r (.command (.disconnected side (r.holder.get side))) q
  /-- A socket closes that does not hold its side. -/
  | replaced {side : Side} {socket : Nat} (hs : socket ≠ r.holder.get side) :
      Outcome r (.command (.disconnected side socket)) r
  | aside {e : Happening} {q : Room} (hc : ∀ side s, e ≠ .command (.connected side s))
      (hd : ∀ side s, e ≠ .command (.disconnected side s)) (hh : q.holder = r.holder)
      (hr : q.game.ready = r.game.ready) : Outcome r e q

theorem handle_outcome {c : Command} (h : (r.handle c).isOver = false) :
    r.isOver = false ∧ Outcome r (.command c) (r.handle c) := by
  cases c with
  | connected side socket =>
    obtain ⟨ho, hh, hr⟩ := act_move (m := .join side r.now)
      (fun p he hp => Play.join_step he hp) h
    exact ⟨ho, .connected hh hr⟩
  | disconnected side socket =>
    simp only [handle] at h ⊢
    by_cases hs : socket = r.holder.get side
    · subst hs
      rw [if_pos rfl] at h ⊢
      obtain ⟨ho, hh, hr⟩ := act_move (m := .leave side r.now)
        (by rintro p he ⟨⟩; exact Play.leave_step _ _ he) h
      exact ⟨ho, .disconnected hh hr⟩
    · rw [if_neg hs] at h ⊢
      exact ⟨h, .replaced hs⟩
  | surrender side =>
    obtain ⟨ho, hh, hr⟩ := act_move (m := .surrender side) (by rintro p he ⟨⟩; exact .surrender) h
    exact ⟨ho, .aside (by simp) (by simp) hh hr⟩

theorem occur_outcome (h : (r.occur e).isOver = false) :
    r.isOver = false ∧ Outcome r e (r.occur e) := by
  have aside {e : Happening} (hc : ∀ c, e ≠ .command c) (hs : Steady r (r.occur e)) :
      r.isOver = false ∧ Outcome r e (r.occur e) :=
    ⟨hs.1, .aside (fun _ _ => hc _) (fun _ _ => hc _) hs.2.1 hs.2.2⟩
  cases e with
  | command c => exact handle_outcome h
  | opening side | clock now | take => exact aside (by simp) ⟨h, rfl, rfl⟩
  | input side direction time =>
    refine aside (by simp) ?_
    simp only [occur] at h ⊢
    split
    · rename_i q hq
      obtain ⟨logs, rfl⟩ := record_eq hq
      rw [hq] at h
      exact ⟨h, rfl, rfl⟩
    · rename_i hq
      rw [hq] at h
      exact ⟨h, rfl, rfl⟩
  | tick => exact aside (by simp) (tick_steady h)
  | alarm t => exact aside (by simp) (alarm_steady t h)
  | elapse upto => exact aside (by simp) (pass_steady _ _ h)

/-- A room that is over stays so. -/
theorem not_over_of_run (h : (r.run es).isOver = false) : r.isOver = false := by
  induction es generalizing r with
  | nil => exact h
  | cons e es ih => exact (occur_outcome (ih h)).1

end Room
end Rally
