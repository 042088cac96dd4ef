import Rally.Arena

/-!
The log of one side's inputs.

Inputs are recorded in the order of their times and taken by windows. A sample is dropped only once
it is old, or room is needed, and a window has begun after it.
-/

namespace Rally

/-- The direction that a paddle takes at an instant. -/
structure Sample where
  time : Nat
  direction : Int8
deriving DecidableEq

/-- Why a sample is not recorded. -/
inductive Refusal where
  | invalidDirection (direction : Int8)
  /-- The log holds a later sample, the last one at `last`. -/
  | outOfOrder (time last : Nat)
  /-- A window up to `consumed` has been taken. -/
  | stale (time consumed : Nat)
  | full
deriving DecidableEq

/-- The wording of a refusal. -/
def Refusal.message : Refusal → String
  | .invalidDirection d => "direction " ++ toString d.toInt ++ " is outside -1..=1"
  | .outOfOrder time last =>
    "timestamp " ++ toString time ++ " precedes the last accepted sample at " ++ toString last
  | .stale time consumed =>
    "timestamp " ++ toString time ++ " falls in a window already simulated up to " ++
      toString consumed
  | .full => "input history is full"

structure InputLog where
  /-- Retained samples, oldest first. -/
  samples : List Sample
  /-- The furthest start of a window taken so far. No later sample is dropped. -/
  windowStart : Nat
  /-- The furthest end of a window taken so far. -/
  consumedUntil : Nat
  /-- Milliseconds for which a sample is kept in any case. -/
  retention : Nat
  capacity : Nat
deriving DecidableEq

namespace InputLog
variable (log : InputLog)

/-- An empty log with room for at least one sample. -/
def withLimits (retention : Nat) (capacity : Nat) : InputLog where
  samples := []
  windowStart := 0
  consumedUntil := 0
  retention
  capacity := max capacity 1

/-- An empty log that keeps samples for half a second, and 512 of them. -/
def empty : InputLog := withLimits 500 512

/-- Drops samples from the front that no window needs, to make room for one at `time`. -/
def evict (time : Nat) : List Sample → List Sample
  | [] => []
  | s :: rest =>
    if s.time ≤ log.windowStart ∧
        (log.retention < time - s.time ∨ log.capacity ≤ rest.length + 1) then
      evict time rest
    else s :: rest

/-- Records a sample. -/
def record (s : Sample) : Except Refusal InputLog :=
  if s.direction < -1 ∨ 1 < s.direction then .error (.invalidDirection s.direction)
  else if s.time ≤ log.consumedUntil then .error (.stale s.time log.consumedUntil)
  else
    match log.samples.getLast? with
    | some last =>
      if s.time < last.time then .error (.outOfOrder s.time last.time) else push s
    | none => push s
where
  /-- Adds a sample that is in order, if there is room for it. -/
  push (s : Sample) : Except Refusal InputLog :=
    let kept := log.evict s.time log.samples
    if log.capacity ≤ kept.length then .error .full
    else .ok { log with samples := kept ++ [s] }

/-- The retained samples after `after` and up to `upto`. -/
def between (after upto : Nat) : List Sample :=
  (log.samples.dropWhile (·.time ≤ after)).takeWhile (·.time ≤ upto)

/-- The log after the window has been taken. -/
def consume (after upto : Nat) : InputLog :=
  { log with windowStart := max log.windowStart after, consumedUntil := max log.consumedUntil upto }

/-- Takes the samples after `after` and up to `upto`. -/
def window (after upto : Nat) : List Sample × InputLog :=
  (log.between after upto, log.consume after upto)

/-- Drops all samples. -/
def clear : InputLog := { log with samples := [] }

end InputLog
end Rally
