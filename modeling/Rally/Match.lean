import Rally.Dice
import Rally.Match.Notice
import Rally.Match.Rules
import Rally.Match.Timers
import Rally.Match.Verdict

/-!
A match: who is there, when it is paused, how it is scored and how it ends.
-/

namespace Rally

inductive Phase where
  /-- It waits for a side, at first or during a pause. -/
  | waiting
  | playing
  | ended
deriving DecidableEq

structure Match where
  fixture : Fixture
  rules : Rules
  phase : Phase
  scores : Scores
  /-- The sides that are present. -/
  ready : Sides Bool
  /-- How often a side has completed the pair. -/
  returns : Sides Nat
  /-- Paddle hits of each side. -/
  hits : Sides Nat
  /-- The last goal has been scored. -/
  finishing : Bool
  /-- Timers and buffers have been given up. -/
  closed : Bool
  timers : Timers
  pending : Pending
  arena : Arena
  logs : Sides InputLog
  stepper : Stepper
  dice : Dice
deriving DecidableEq

namespace Match
variable (m : Match)

/-- Whether both sides are present. -/
def bothReady : Bool := m.ready.left && m.ready.right

def ended : Bool := m.phase = .ended

/-- The message to a side that joins. -/
def joinedNotice (side : Side) : Notice :=
  .joined m.fixture.id side m.scores m.fixture.kind m.fixture.tournament m.fixture.isFinal

/-- The side is away although play has begun, and no deadline waits for it. -/
def unforgiven (side : Side) : Bool :=
  !m.ready.get side && m.stepper.startedAt.isSome && !m.finishing &&
    (m.pending.get (.reconnect side)).isNone

/-- What is known for the verdict if the match ends now. -/
def verdict (reason : EndReason) (named : Option Side) : Verdict :=
  ⟨reason, named, m.scores, m.ready, m.rules.winScore⟩

/-- Records an input of a side. -/
def record (side : Side) (s : Sample) : Except Refusal Match :=
  (m.logs.get side).record s |>.map fun log => { m with logs := m.logs.set side log }

end Match

/-- A match and what it has said so far. -/
structure Play where
  game : Match
  notices : List Notice
  bulletins : List Bulletin
deriving DecidableEq

namespace Play
variable (p : Play)

/-- Changes the match without a word. -/
def change (f : Match → Match) : Play := { p with game := f p.game }

/-- Sends a message to the players. -/
def say (n : Notice) : Play := { p with notices := p.notices ++ [n] }

/-- Makes an announcement. -/
def announce (b : Bulletin) : Play := { p with bulletins := p.bulletins ++ [b] }

/-- Stops the timer of a deadline. -/
def cancel (d : Deadline) : Play :=
  match p.game.pending.get d with
  | some id =>
    p.change fun m => { m with pending := m.pending.set d none, timers := m.timers.cancel id }
  | none => p

/-- Sets the timer of a deadline, in place of an earlier one. -/
def schedule (d : Deadline) (now delay : Nat) : Play :=
  (p.cancel d).change fun m =>
    { m with
      timers := m.timers.schedule d now delay
      pending := m.pending.set d (some (m.timers.count + 1)) }

/-- A new match, which waits for its players. -/
def start (fixture : Fixture) (rules : Rules) (seed : UInt64) (now : Nat) : Play :=
  let game : Match :=
    { fixture, rules
      phase := .waiting
      scores := .both 0
      ready := .both false
      returns := .both 0
      hits := .both 0
      finishing := false
      closed := false
      timers := {}
      pending := {}
      arena := .ofParams rules.params
      logs := .both .empty
      stepper := .ofPace rules.pace now
      dice := .ofSeed seed }
  schedule ⟨game, [], []⟩ .start now rules.startGrace

/-- Serves the ball toward a side, at a random angle. -/
def serve (toward : Side) (now : Nat) : Except Fault Play := do
  let (angle, dice) ← p.game.dice.angle p.game.arena.params.serveAngle
  let arena ← p.game.arena.serve now toward angle
  return (p.change fun m => { m with dice, arena }).say
    (.serve (p.game.arena.serveTime now) arena.ball.direction)

/-- Serves the ball toward a random side. -/
def serveAnywhere (now : Nat) : Except Fault Play :=
  let (toward, dice) := p.game.dice.side
  (p.change fun m => { m with dice }).serve toward now

/-- Goes on after a pause. -/
def resume (now : Nat) : Play :=
  p.change fun m =>
    let (stepper, arena, logs) := m.stepper.resume now m.arena m.logs
    { m with stepper, arena, logs }

/-- Starts the match, or goes on after a pause, and serves the ball. -/
def beginPlay (now : Nat) (message : String) : Except Fault Play :=
  let q :=
    if p.game.stepper.startedAt.isSome then p.resume now
    else p.change fun m => { m with stepper := m.stepper.start now }
  ((q.change fun m => { m with phase := .playing }).say (.started now message)).serveAnywhere now

/-- Gives up timers and buffers. A second time changes nothing. -/
def close : Play :=
  if p.game.closed then p
  else
    p.change fun m =>
      { m with
        closed := true
        pending := {}
        timers := m.pending.toList.foldl Timers.cancel m.timers
        arena := { m.arena with ball := m.arena.ball.stop }
        logs := m.logs.map InputLog.clear
        stepper := m.stepper.clear }

/-- Ends the match. The coin is thrown in any case. -/
def finish (reason : EndReason) (named : Option Side) : Play :=
  if p.game.ended then p
  else
    let m := p.game
    let (coin, dice) := m.dice.side
    let winner := m.fixture.players.get ((m.verdict reason named).winner coin)
    (((p.change fun m => { m with phase := .ended, dice }).say
        (.ended winner m.scores reason m.fixture.kind m.fixture.tournament)).announce
      (.finished m.fixture.id m.fixture.players m.scores winner reason m.hits
        m.fixture.isFinal)).close

/-- Sends the last snapshot, if there is one. -/
def sayLatest : Play :=
  match p.game.stepper.recent.latest? with
  | some s => p.say s.notice
  | none => p

/-- Marks a side as present, and tells it how the match stands. -/
def welcome (side : Side) : Play :=
  let q := (p.change fun m => { m with ready := m.ready.set side true }).cancel (.reconnect side)
  (q.say (q.game.joinedNotice side)).sayLatest

/-- A side completes the pair. From its last allowed return on, its absence pauses nothing. -/
def complete (side : Side) (now : Nat) : Except Fault Play :=
  let q := (p.cancel .start).change fun m => { m with returns := m.returns.modify side (· + 1) }
  if q.game.rules.allowance < q.game.returns.get side then
    let q :=
      if q.game.phase = .waiting then (q.resume now).change fun m => { m with phase := .playing }
      else q
    return q.say (.started now
      "Reconnected without forgiveness: disconnects no longer pause the match")
  else if q.game.phase = .waiting then q.beginPlay now "Game started"
  else return q

/-- A player of a side has connected. -/
def join (side : Side) (now : Nat) : Except Fault Play :=
  if p.game.ended then return p
  else
    let q := p.welcome side
    if p.game.ready.get side then return q
    else if q.game.bothReady then q.complete side now
    else if q.game.phase = .waiting ∧ q.game.unforgiven side.opponent then
      q.beginPlay now "Opponent disconnected without forgiveness, match continues"
    else return q

/-- Pauses the match until a side is back. -/
def pause (side : Side) (now : Nat) : Play :=
  let q :=
    if p.game.phase = .playing then
      (p.change fun m => { m with phase := .waiting }).say
        (.stopped "Opponent disconnected, waiting for reconnection")
    else p
  q.schedule (.reconnect side) now p.game.rules.reconnectGrace

/-- The player of a side has disconnected. It pauses the match if it has begun, is not about to end
and the side has returns left. -/
def leave (side : Side) (now : Nat) : Play :=
  if p.game.ended ∨ !p.game.ready.get side then p
  else
    let q := p.change fun m => { m with ready := m.ready.set side false }
    if q.game.stepper.startedAt.isNone ∨ q.game.finishing then q
    else if q.game.returns.get side < q.game.rules.allowance then q.pause side now
    else q

/-- A side gives up. -/
def surrender (side : Side) : Play := p.finish .surrender (some side.opponent)

/-- A timer has fired. Only the one that stands for its deadline counts. -/
def alarm (d : Deadline) (id : Nat) : Play :=
  if p.game.closed ∨ p.game.ended ∨ p.game.pending.get d ≠ some id then p
  else
    let q := p.change fun m =>
      { m with pending := m.pending.set d none, timers := m.timers.cancel id }
    match d with
    | .start => if q.game.bothReady then q else q.finish .disconnection none
    | .reconnect side => if q.game.ready.get side then q else q.finish .disconnection none
    | .celebration => q.finish .scoreLimit none

/-- Counts a goal. The last one ends the match, after a celebration if it is not a final. -/
def goal (scorer : Side) (now : Nat) : Except Fault Play :=
  if p.game.finishing then return p
  else
    let q := p.change fun m =>
      { m with scores := m.scores.modify scorer fun n => if n < m.rules.winScore then n + 1 else n }
    let m := q.game
    let q := (q.say (.score scorer m.scores)).announce (.score m.fixture.id m.scores)
    if m.scores.reach m.rules.winScore then
      let q := q.change fun m =>
        { m with finishing := true, arena := { m.arena with ball := m.arena.ball.stop } }
      if m.fixture.isFinal ∨ m.rules.celebration = 0 then return q.finish .scoreLimit none
      else return q.schedule .celebration now m.rules.celebration
    else q.serve scorer.opponent now

/-- Responds to something the ball did. -/
def respond (now : Nat) : Incident → Except Fault Play
  | .hit side => return p.change fun m => { m with hits := m.hits.modify side (· + 1) }
  | .goal scorer => p.goal scorer now
  | .stuck _ => if p.game.finishing then return p else p.serveAnywhere now
  | .trigger .. => return p
  | .wall => return p

/-- Responds to what the ball did, until the match ends. -/
def respondAll (now : Nat) : List Incident → Play → Except Fault Play
  | [], p => return p
  | i :: rest, p => do
    let q ← p.respond now i
    if q.game.ended then return q else respondAll now rest q

/-- Lets time go on. The time limit also holds during a pause. -/
def tick (now : Nat) : Except Fault Play :=
  if p.game.ended then return p
  else if p.game.stepper.expired now then return p.finish .timeout none
  else if p.game.phase ≠ .playing then return p
  else
    match p.game.stepper.tick now p.game.arena p.game.logs with
    | .idle => return p
    | .expired => return p.finish .timeout none
    | .stepped stepper logs played snapshot =>
      ((p.change fun m => { m with stepper, logs, arena := played.arena }).say
        snapshot.notice).respondAll now played.incidents

end Play
end Rally
