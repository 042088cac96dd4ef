import Rally.Match

/-!
A room in which a match is played in real time.

The match ticks at fixed intervals from the opening of the room on, its timers fire at their own
instants, and commands are handled at once. A side is held by the newest socket that has connected.
-/

namespace Rally

/-- What a socket tells the match. -/
inductive Command where
  | connected (side : Side) (socket : Nat)
  | disconnected (side : Side) (socket : Nat)
  | surrender (side : Side)
deriving DecidableEq

structure Room where
  /-- The match, and what it has said that nobody has taken yet. -/
  play : Play
  openedAt : Nat
  now : Nat
  nextTick : Nat
  /-- How many sockets of each side have been opened. They are numbered from 1. -/
  opened : Sides Nat
  /-- The newest socket of each side that has connected. -/
  holder : Sides Nat
  /-- A fault has put an end to the room. -/
  broken : Bool
deriving DecidableEq

namespace Room
variable (r : Room)

def game : Match := r.play.game

/-- A room for a new match. -/
def start (fixture : Fixture) (rules : Rules) (seed : UInt64) (now : Nat) : Room :=
  { play := .start fixture rules seed now
    openedAt := now
    now
    nextTick := now
    opened := .both 0
    holder := .both 0
    broken := false }

/-- Nothing happens in the room any more. -/
def isOver : Bool := r.broken || r.game.ended

/-- Milliseconds between two ticks, at least one. -/
def interval : Nat := max r.game.rules.pace.tick 1

/-- Changes the match, unless the room is over. -/
def act (f : Play → Except Fault Play) : Room :=
  if r.isOver then r
  else
    match f r.play with
    | .ok p => { r with play := p }
    | .error _ => { r with broken := true }

/-- Handles a command. A socket that has been replaced does not take its side away. -/
def handle : Command → Room
  | .connected side socket =>
    { r with holder := r.holder.modify side (max · socket) }.act (·.join side r.now)
  | .disconnected side socket =>
    if socket = r.holder.get side then r.act fun p => .ok (p.leave side r.now) else r
  | .surrender side => r.act fun p => .ok (p.surrender side)

/-- Opens a socket of a side, which gets the next number. -/
def openSocket (side : Side) : Nat × Room :=
  (r.opened.get side + 1, { r with opened := r.opened.modify side (· + 1) })

/-- Records an input at the time that the player gives, or now if that is later or none is given. -/
def record (side : Side) (direction : Int8) (time : Option Nat) : Except Refusal Room :=
  let time := match time with
    | some t => min t r.now
    | none => r.now
  (r.game.record side ⟨time, direction⟩).map fun m => { r with play := r.play.change fun _ => m }

/-- The tick that is due. -/
def tick : Room := { r with nextTick := r.nextTick + r.interval }.act (·.tick r.now)

/-- A timer fires. -/
def alarm (t : Timer) : Room := r.act fun p => .ok (p.alarm t.deadline t.id)

/-- The timers that are due fire. -/
def ring : Room :=
  let (fired, timers) := r.game.timers.elapse r.now
  fired.foldl alarm { r with play := r.play.change fun m => { m with timers } }

/-- Everything that is due at an instant happens, the tick first. -/
def pulse (t : Nat) : Room :=
  let r := { r with now := t }
  (if r.nextTick ≤ t then r.tick else r).ring

/-- The next instant at which something happens by itself. -/
def next? : Option Nat :=
  if r.isOver then none
  else some (r.game.timers.live.foldl (fun t timer => min t timer.due) r.nextTick)

/-- Lets time pass up to an instant, for at most `n` pulses. -/
def pass (upto : Nat) : Nat → Room → Room
  | 0, r => { r with now := upto }
  | n + 1, r =>
    match r.next? with
    | some t => if t ≤ upto then pass upto n (r.pulse t) else { r with now := upto }
    | none => { r with now := upto }

/-- Lets time pass up to an instant. There are at most two pulses in every millisecond. -/
def elapse (upto : Nat) : Room := r.pass upto (2 * (upto + 1 - r.now))

/-- Sends a command, and lets what is due now happen. It arrives as long as the room is not over. -/
def send (c : Command) : Bool × Room :=
  if r.isOver then (false, r) else (true, (r.handle c).elapse r.now)

/-- Takes what the match has said. -/
def take : (List Notice × List Bulletin) × Room :=
  ((r.play.notices, r.play.bulletins), { r with play := ⟨r.game, [], []⟩ })

end Room
end Rally
