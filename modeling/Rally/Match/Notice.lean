import Rally.Match.Fixture
import Rally.Snapshot

/-!
What a match tells its players, and what it announces to others.
-/

namespace Rally

/-- A message to the players. -/
inductive Notice where
  /-- A side has been joined. -/
  | joined (id : Uuid) (side : Side) (scores : Scores) (kind : MatchKind)
      (tournament : Option Uuid) (isFinal : Bool)
  | started (time : Nat) (message : String)
  | stopped (message : String)
  /-- The arena after a tick. -/
  | update (time : Nat) (paddles : Sides PaddleView) (ball : BallView)
  | score (scorer : Side) (scores : Scores)
  /-- The ball will leave the center at an instant. -/
  | serve (time : Nat) (direction : Vec)
  | ended (winner : Uuid) (scores : Scores) (reason : EndReason) (kind : MatchKind)
      (tournament : Option Uuid)
  | error (code message : String)
  /-- The answer to a ping: its own time, and the time on the clock of the match. -/
  | pong (t serverTime : Nat)
deriving DecidableEq

/-- The message with a snapshot. -/
def Snapshot.notice (s : Snapshot) : Notice := .update s.time s.paddles s.ball

/-- An announcement to the rest of the system. -/
inductive Bulletin where
  | score (id : Uuid) (scores : Scores)
  | finished (id : Uuid) (players : Sides Uuid) (scores : Scores) (winner : Uuid)
      (reason : EndReason) (hits : Sides Nat) (isFinal : Bool)
deriving DecidableEq

end Rally
