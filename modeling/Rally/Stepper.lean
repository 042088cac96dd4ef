import Rally.Arena.Replay
import Rally.Snapshot

/-!
The stepper, which takes the inputs of both sides window by window and moves the arena by them.
-/

namespace Rally

/-- How often and how long a stepper steps. -/
structure Pace where
  /-- Least number of milliseconds from one tick to the next. -/
  tick : Nat := 33
  /-- Milliseconds from the first start after which nothing is simulated. -/
  limit : Nat := 300000
  /-- Snapshots that are kept. -/
  snapshots : Nat := 60
deriving DecidableEq

structure Stepper where
  pace : Pace
  /-- End of the last window. -/
  lastTick : Nat
  /-- When the stepper was first started. -/
  startedAt : Option Nat
  /-- Number of ticks so far. -/
  ticks : Nat
  recent : Recent
deriving DecidableEq

/-- What a tick does. -/
inductive TickResult where
  /-- It is too early for a tick. -/
  | idle
  /-- The time limit has been reached. -/
  | expired
  /-- A window was simulated. -/
  | stepped (stepper : Stepper) (logs : Sides InputLog) (played : Played) (snapshot : Snapshot)
deriving DecidableEq

namespace Stepper
variable (s : Stepper)

def ofPace (pace : Pace) (now : Nat) : Stepper where
  pace
  lastTick := now
  startedAt := none
  ticks := 0
  recent := .withCapacity pace.snapshots

/-- Starts the next window at `now`. The first start sets the time limit going. -/
def start (now : Nat) : Stepper :=
  { s with startedAt := some (s.startedAt.getD now), lastTick := now }

/-- Steers a paddle by the last of some samples. -/
def steerLast (side : Side) (samples : List Sample) (a : Arena) : Arena :=
  match samples.getLast? with
  | some sample => a.steer side sample.direction
  | none => a

/-- Starts again after a pause. Of the inputs in the pause only the last of each side counts. -/
def resume (now : Nat) (a : Arena) (logs : Sides InputLog) : Stepper × Arena × Sides InputLog :=
  let (left, leftLog) := logs.left.window s.lastTick now
  let (right, rightLog) := logs.right.window s.lastTick now
  (s.start now, steerLast .right right (steerLast .left left a), ⟨leftLog, rightLog⟩)

/-- Whether the time limit has been reached. -/
def expired (now : Nat) : Bool :=
  s.startedAt.any fun start => s.pace.limit ≤ now - start

/-- Simulates the window from the last tick to `now`, unless it is too early or too late. -/
def tick (now : Nat) (a : Arena) (logs : Sides InputLog) : TickResult :=
  if s.expired now then .expired
  else if now - s.lastTick < s.pace.tick then .idle
  else
    let (left, leftLog) := logs.left.window s.lastTick now
    let (right, rightLog) := logs.right.window s.lastTick now
    let played := a.replay s.lastTick now ⟨left, right⟩
    let snapshot := played.arena.snapshot (s.ticks + 1) now
    .stepped
      { s with lastTick := now, ticks := s.ticks + 1, recent := s.recent.push snapshot }
      ⟨leftLog, rightLog⟩ played snapshot

/-- Drops the snapshots. -/
def clear : Stepper := { s with recent := s.recent.clear }

end Stepper
end Rally
