import Rally.Proofs.Arena.Passes
import Rally.Proofs.Arena.Replay

/-! How to prove something of a replay: what every sweep does and what adds up, a replay does. -/
namespace Rally

/-- What is changed before something happens is changed by the way. -/
theorem Played.adjust_andThen (p : Played) (g : Arena → Arena) (f : Arena → Played) :
    (p.adjust g).andThen f = p.andThen fun a => f (g a) := rfl

namespace Arena

/-- A relation between an arena and what happens in it that holds of every sweep by a clock and adds
up. -/
structure ClockLaw (R : Arena → Played → Prop) : Prop where
  start : ∀ a, R a (.start a)
  sweep : ∀ a time, R a (a.sweep (Clock.seconds time))
  andThen : ∀ {a p} {f : Arena → Played}, R a p → R p.arena (f p.arena) → R a (p.andThen f)
  release : ∀ {a p} (now : Nat), R (a.release now) p → R a p

namespace ClockLaw
variable {R : Arena → Played → Prop}

theorem advance (h : ClockLaw R) (start stop : Nat) (a : Arena) : R a (a.advance start stop) := by
  unfold Arena.advance
  split
  · exact h.start a
  · split
    · rename_i at' _
      split
      · split
        · rw [Played.adjust_andThen]
          exact h.andThen (h.sweep a _) (h.release at' (h.sweep _ _))
        · exact h.release start (h.sweep _ _)
      · exact h.sweep a _
    · exact h.sweep a _

/-- What the clock keeps and the way that the paddles go does not matter to
holds of every replay. -/
theorem replayFrom (h : ClockLaw R)
    (steer : ∀ {a p} (side : Side) (after : Nat) (xs : List Sample),
      R (a.steerAll side after xs) p → R a p)
    (start stop cursor : Nat) (left right : List Sample) (a : Arena) :
    R a (a.replayFrom start stop cursor left right) := by
  induction cursor, left, right, a using replayFrom.induct start stop with
  | case1 cursor left right a hn =>
    rw [replayFrom_of_none hn]
    exact h.advance cursor stop a
  | case2 cursor left right a t ht hlt =>
    rw [replayFrom_of_lt ht hlt]
    exact h.advance cursor stop a
  | case3 cursor left right a t ht hlt ih =>
    rw [replayFrom_of_le ht (Nat.le_of_not_lt hlt)]
    exact h.andThen (h.advance cursor t a) (steer _ _ _ (steer _ _ _ (ih _)))

end ClockLaw

/-- A relation between an arena and what happens in it that holds of every sweep and adds up. -/
structure Law (R : Arena → Played → Prop) : Prop where
  start : ∀ a, R a (.start a)
  sweep : ∀ a seconds, R a (a.sweep seconds)
  andThen : ∀ {a p} {f : Arena → Played}, R a p → R p.arena (f p.arena) → R a (p.andThen f)
  release : ∀ {a p} (now : Nat), R (a.release now) p → R a p

namespace Law
variable {R : Arena → Played → Prop}

theorem byClock (h : Law R) : ClockLaw R :=
  ⟨h.start, fun a _ => h.sweep a _, h.andThen, h.release⟩

theorem advance (h : Law R) (start stop : Nat) (a : Arena) : R a (a.advance start stop) :=
  h.byClock.advance start stop a

/-- What does not depend on the way that the paddles go holds of every replay. -/
theorem replayFrom (h : Law R)
    (steer : ∀ {a p} (side : Side) (after : Nat) (xs : List Sample),
      R (a.steerAll side after xs) p → R a p)
    (start stop cursor : Nat) (left right : List Sample) (a : Arena) :
    R a (a.replayFrom start stop cursor left right) :=
  h.byClock.replayFrom steer start stop cursor left right a

end Law
end Arena
end Rally
