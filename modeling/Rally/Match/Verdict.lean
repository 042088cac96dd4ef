import Rally.Match.Fixture

/-!
Who wins a match.
-/

namespace Rally

/-- What is known at the end of a match. -/
structure Verdict where
  reason : EndReason
  /-- The winner, if the end of the match names one. -/
  named : Option Side
  scores : Scores
  connected : Sides Bool
  winScore : Nat
deriving DecidableEq

namespace Verdict
variable (v : Verdict)

/-- Whether a side has reached the score that wins. -/
def capReached : Bool := v.scores.reach v.winScore

/-- The only side that is connected. -/
def remaining? : Option Side :=
  match v.connected with
  | ⟨true, false⟩ => some .left
  | ⟨false, true⟩ => some .right
  | _ => none

/-- The side with the higher score. -/
def leader? : Option Side :=
  if v.scores.right < v.scores.left then some .left
  else if v.scores.left < v.scores.right then some .right
  else none

/-- The winner, unless a coin has to decide: the side that the end names, the side that stayed when
the other one is gone before the last goal, or the side that leads. -/
def winner? : Option Side :=
  v.named.or
    ((if v.reason = .disconnection ∧ !v.capReached then v.remaining? else none).or v.leader?)

/-- The winner, where a coin decides a tie. -/
def winner (coin : Side) : Side := v.winner?.getD coin

end Verdict
end Rally
