import Rally.Arena.Params
import Rally.Stepper

/-!
The rules of a match.
-/

namespace Rally

/-- Times in milliseconds, limits and the arena of a match. -/
structure Rules where
  /-- Time in which both sides have to be ready at first. -/
  startGrace : Nat := 20000
  /-- Time in which a side has to be back. -/
  reconnectGrace : Nat := 10000
  /-- Returns of a side after which its absence no longer pauses the match. -/
  allowance : Nat := 3
  winScore : Nat := 5
  /-- Time from the last goal to the end, unless it is a final. -/
  celebration : Nat := 3000
  pace : Pace := {}
  params : Params := {}
deriving DecidableEq

end Rally
