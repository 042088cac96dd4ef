import Rally.Side

/-!
One-shot timers for the deadlines of a match.
-/

namespace Rally

/-- What a timer is for. -/
inductive Deadline where
  /-- Both sides have to be ready. -/
  | start
  /-- A side has to be back. -/
  | reconnect (side : Side)
  /-- The match ends after its last goal. -/
  | celebration
deriving DecidableEq

structure Timer where
  id : Nat
  deadline : Deadline
  /-- When it was set. -/
  setAt : Nat
  delay : Nat
deriving DecidableEq

/-- When a timer fires. -/
def Timer.due (t : Timer) : Nat := t.setAt + t.delay

/-- The timers that are set. They are numbered from 1. -/
structure Timers where
  /-- How many have been set so far. -/
  count : Nat := 0
  live : List Timer := []
deriving DecidableEq

namespace Timers
variable (t : Timers)

/-- Sets a timer, which gets the next number. -/
def schedule (deadline : Deadline) (now delay : Nat) : Timers where
  count := t.count + 1
  live := t.live ++ [⟨t.count + 1, deadline, now, delay⟩]

/-- Stops a timer, if it is set. -/
def cancel (id : Nat) : Timers :=
  { t with live := t.live.filter (·.id ≠ id) }

/-- The timers that fire up to an instant, the earliest first, and of two at one instant the one
that was set first. -/
def dueBy (now : Nat) : List Timer :=
  (t.live.filter (·.due ≤ now)).mergeSort fun a b => a.due ≤ b.due

/-- Lets the timers up to an instant fire. -/
def elapse (now : Nat) : List Timer × Timers :=
  (t.dueBy now, { t with live := t.live.filter fun a => now < a.due })

end Timers

/-- Which timer stands for each deadline. There is at most one for each. -/
structure Pending where
  start : Option Nat := none
  reconnect : Sides (Option Nat) := .both none
  celebration : Option Nat := none
deriving DecidableEq

namespace Pending
variable (p : Pending)

def get : Deadline → Option Nat
  | .start => p.start
  | .reconnect side => p.reconnect.get side
  | .celebration => p.celebration

def set (d : Deadline) (id : Option Nat) : Pending :=
  match d with
  | .start => { p with start := id }
  | .reconnect side => { p with reconnect := p.reconnect.set side id }
  | .celebration => { p with celebration := id }

def toList : List Nat :=
  [p.start, p.reconnect.left, p.reconnect.right, p.celebration].filterMap id

end Pending
end Rally
