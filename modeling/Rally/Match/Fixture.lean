import Rally.Side
import Rally.Text.Uuid

/-!
Who plays a match, and by which rules it ends.
-/

namespace Rally

/-- What kind of match it is. -/
inductive MatchKind where
  /-- A match between any two players. -/
  | quick
  /-- A match of a tournament. -/
  | tournament
deriving DecidableEq

/-- Why a match ended. -/
inductive EndReason where
  | scoreLimit
  | disconnection
  | surrender
  | timeout
deriving DecidableEq

/-- Points of each side. -/
abbrev Scores := Sides Nat

/-- Whether a side has at least `n` points. -/
def Scores.reach (s : Scores) (n : Nat) : Bool := n ≤ s.left || n ≤ s.right

/-- A match as it was arranged. -/
structure Fixture where
  id : Uuid
  players : Sides Uuid
  kind : MatchKind
  tournament : Option Uuid
  isFinal : Bool
deriving DecidableEq

/-- The side that a player is on. -/
def Fixture.sideOf (f : Fixture) (player : Uuid) : Option Side :=
  f.players.find? (· = player)

end Rally
