import Rally.Proofs.Match.Moves
import Rally.Proofs.Side

/-! What the parts of a move change, field by field, and what they leave. -/
namespace Rally

namespace Pending
variable (p : Pending) (d : Deadline) (a b : Option Nat)

@[simp] theorem get_set_same : (p.set d a).get d = a := by
  cases d <;> simp [set, get]

@[simp] theorem set_set : (p.set d a).set d b = p.set d b := by
  cases d with
  | reconnect side => cases side <;> rfl
  | _ => rfl

@[simp] theorem set_get : p.set d (p.get d) = p := by
  cases d with
  | reconnect side => cases side <;> rfl
  | _ => rfl

@[simp] theorem get_set_of_ne {e : Deadline} (h : e ≠ d) : (p.set d a).get e = p.get e := by
  cases d with
  | reconnect side =>
    cases e with
    | reconnect other => cases side <;> cases other <;> first | rfl | exact absurd rfl h
    | _ => rfl
  | _ => cases e <;> first | rfl | exact absurd rfl h

end Pending

/-- The timers without the one that stands for a deadline. -/
def Match.timersWithout (m : Match) (d : Deadline) : Timers :=
  (m.pending.get d).elim m.timers m.timers.cancel

@[simp] theorem Match.timersWithout_count (m : Match) (d : Deadline) :
    (m.timersWithout d).count = m.timers.count := by
  unfold timersWithout
  cases m.pending.get d <;> rfl

namespace Play
variable (p : Play) (side : Side) (d : Deadline) (now : Nat)

@[simp] theorem change_game (f : Match → Match) : (p.change f).game = f p.game := rfl
@[simp] theorem change_notices (f : Match → Match) : (p.change f).notices = p.notices := rfl
@[simp] theorem change_bulletins (f : Match → Match) : (p.change f).bulletins = p.bulletins := rfl

@[simp] theorem say_game (n : Notice) : (p.say n).game = p.game := rfl
@[simp] theorem say_notices (n : Notice) : (p.say n).notices = p.notices ++ [n] := rfl
@[simp] theorem say_bulletins (n : Notice) : (p.say n).bulletins = p.bulletins := rfl

@[simp] theorem announce_game (b : Bulletin) : (p.announce b).game = p.game := rfl
@[simp] theorem announce_notices (b : Bulletin) : (p.announce b).notices = p.notices := rfl
@[simp] theorem announce_bulletins (b : Bulletin) :
    (p.announce b).bulletins = p.bulletins ++ [b] := rfl

theorem cancel_eq : p.cancel d = p.change fun m =>
    { m with pending := m.pending.set d none, timers := m.timersWithout d } := by
  unfold cancel Match.timersWithout
  cases h : p.game.pending.get d with
  | none =>
    have hs := p.game.pending.set_get d
    rw [h] at hs
    simp [change, h, hs]
  | some id => simp [change, h]

@[simp] theorem cancel_game : (p.cancel d).game =
    { p.game with pending := p.game.pending.set d none, timers := p.game.timersWithout d } := by
  rw [cancel_eq]
  rfl

@[simp] theorem cancel_notices : (p.cancel d).notices = p.notices := by rw [cancel_eq]; rfl
@[simp] theorem cancel_bulletins : (p.cancel d).bulletins = p.bulletins := by rw [cancel_eq]; rfl

@[simp] theorem schedule_game (delay : Nat) : (p.schedule d now delay).game =
    { p.game with
      pending := p.game.pending.set d (some (p.game.timers.count + 1))
      timers := (p.game.timersWithout d).schedule d now delay } := by
  simp [schedule]

@[simp] theorem schedule_notices (delay : Nat) :
    (p.schedule d now delay).notices = p.notices := by
  simp [schedule]

@[simp] theorem schedule_bulletins (delay : Nat) :
    (p.schedule d now delay).bulletins = p.bulletins := by
  simp [schedule]

@[simp] theorem sayLatest_game : p.sayLatest.game = p.game := by
  unfold sayLatest
  split <;> rfl

@[simp] theorem sayLatest_bulletins : p.sayLatest.bulletins = p.bulletins := by
  unfold sayLatest
  split <;> rfl

theorem sayLatest_notices : p.sayLatest.notices =
    p.notices ++ (p.game.stepper.recent.latest?.map Snapshot.notice).toList := by
  unfold sayLatest
  cases p.game.stepper.recent.latest? <;> simp

@[simp] theorem welcome_game : (p.welcome side).game =
    { p.game with
      ready := p.game.ready.set side true
      pending := p.game.pending.set (.reconnect side) none
      timers := p.game.timersWithout (.reconnect side) } := by
  simp [welcome, Match.timersWithout]

@[simp] theorem welcome_bulletins : (p.welcome side).bulletins = p.bulletins := by
  simp [welcome]

theorem welcome_notices : (p.welcome side).notices =
    p.notices ++ p.game.joinedNotice side ::
      (p.game.stepper.recent.latest?.map Snapshot.notice).toList := by
  simp [welcome, sayLatest_notices, Match.joinedNotice]

@[simp] theorem resume_game : (p.resume now).game =
    { p.game with
      stepper := p.game.stepper.start now
      arena := (p.game.stepper.resume now p.game.arena p.game.logs).2.1
      logs := (p.game.stepper.resume now p.game.arena p.game.logs).2.2 } := rfl

@[simp] theorem resume_notices : (p.resume now).notices = p.notices := rfl
@[simp] theorem resume_bulletins : (p.resume now).bulletins = p.bulletins := rfl

@[simp] theorem pause_game : (p.pause side now).game =
    { p.game with
      phase := if p.game.phase = .playing then .waiting else p.game.phase
      pending := p.game.pending.set (.reconnect side) (some (p.game.timers.count + 1))
      timers := (p.game.timersWithout (.reconnect side)).schedule (.reconnect side) now
        p.game.rules.reconnectGrace } := by
  unfold pause
  split <;> simp [Match.timersWithout]

@[simp] theorem pause_bulletins : (p.pause side now).bulletins = p.bulletins := by
  unfold pause
  split <;> simp

/-! The ending. -/

/-- The message that a match which ends now sends. -/
def endedNotice (reason : EndReason) (named : Option Side) : Notice :=
  .ended (p.game.fixture.players.get ((p.game.verdict reason named).winner p.game.dice.side.1))
    p.game.scores reason p.game.fixture.kind p.game.fixture.tournament

/-- The announcement that a match which ends now makes. -/
def finishedBulletin (reason : EndReason) (named : Option Side) : Bulletin :=
  .finished p.game.fixture.id p.game.fixture.players p.game.scores
    (p.game.fixture.players.get ((p.game.verdict reason named).winner p.game.dice.side.1))
    reason p.game.hits p.game.fixture.isFinal

@[simp] theorem close_notices : p.close.notices = p.notices := by
  unfold close
  split <;> rfl

@[simp] theorem close_bulletins : p.close.bulletins = p.bulletins := by
  unfold close
  split <;> rfl

theorem close_game : p.close.game =
    if p.game.closed = true then p.game
    else
      { p.game with
        closed := true
        pending := {}
        timers := p.game.pending.toList.foldl Timers.cancel p.game.timers
        arena := { p.game.arena with ball := p.game.arena.ball.stop }
        logs := p.game.logs.map InputLog.clear
        stepper := p.game.stepper.clear } := by
  unfold close
  split <;> rfl

variable (reason : EndReason) (named : Option Side)

theorem finish_of_ended (h : p.game.phase = .ended) : p.finish reason named = p := by
  simp [finish, Match.ended, h]

theorem finish_eq (h : p.game.phase ≠ .ended) : p.finish reason named =
    (((p.change fun m => { m with phase := .ended, dice := m.dice.side.2 }).say
      (p.endedNotice reason named)).announce (p.finishedBulletin reason named)).close := by
  have he : ¬ p.game.ended = true := by simp [Match.ended, h]
  unfold finish
  rw [if_neg he]
  rfl

theorem finish_notices (h : p.game.phase ≠ .ended) :
    (p.finish reason named).notices = p.notices ++ [p.endedNotice reason named] := by
  simp [finish_eq p reason named h]

theorem finish_bulletins (h : p.game.phase ≠ .ended) :
    (p.finish reason named).bulletins = p.bulletins ++ [p.finishedBulletin reason named] := by
  simp [finish_eq p reason named h]

theorem finish_game (h : p.game.phase ≠ .ended) : (p.finish reason named).game =
    (p.change fun m => { m with phase := .ended, dice := m.dice.side.2 }).close.game := by
  rw [finish_eq p reason named h, close_game, close_game]
  rfl

@[simp] theorem finish_phase : (p.finish reason named).game.phase = .ended := by
  by_cases h : p.game.phase = .ended
  · rw [finish_of_ended p reason named h]
    exact h
  · rw [finish_game p reason named h, close_game]
    split <;> rfl

theorem finish_closed (h : p.game.phase ≠ .ended) : (p.finish reason named).game.closed = true := by
  rw [finish_game p reason named h, close_game]
  split
  · assumption
  · rfl

/-- The ending leaves what the match is about and what has been counted. -/
@[simp] theorem finish_keeps :
    (p.finish reason named).game.fixture = p.game.fixture ∧
    (p.finish reason named).game.rules = p.game.rules ∧
    (p.finish reason named).game.scores = p.game.scores ∧
    (p.finish reason named).game.ready = p.game.ready ∧
    (p.finish reason named).game.returns = p.game.returns ∧
    (p.finish reason named).game.hits = p.game.hits ∧
    (p.finish reason named).game.finishing = p.game.finishing := by
  by_cases h : p.game.phase = .ended
  · rw [finish_of_ended p reason named h]
    simp
  · rw [finish_game p reason named h, close_game]
    split <;> simp

/-! Serving, and starting play. -/

/-- The ball has been put in the center, to leave along a direction after the delay of a serve. -/
def serveAlong (dice : Dice) (direction : Vec) : Play :=
  (p.change fun m =>
    { m with
      dice
      arena := { m.arena with ball := m.arena.ball.spawn direction (m.arena.serveTime now) } }).say
    (.serve (p.game.arena.serveTime now) (direction.unit?.getD .unitX))

/-- Some ball has been served at an instant. -/
def Served (now : Nat) (p q : Play) : Prop :=
  ∃ dice direction, q = p.serveAlong now dice direction

/-- Play goes on from an instant, with the ball as it was. -/
def underWay (message : String) : Play :=
  ((if p.game.stepper.startedAt.isSome then p.resume now
    else p.change fun m => { m with stepper := m.stepper.start now }).change fun m =>
      { m with phase := .playing }).say (.started now message)

/-- Getting under way changes the course of play, and nothing that is counted or waited for. -/
@[simp] theorem underWay_keeps (message : String) :
    (p.underWay now message).game.rules = p.game.rules ∧
    (p.underWay now message).game.scores = p.game.scores ∧
    (p.underWay now message).game.ready = p.game.ready ∧
    (p.underWay now message).game.returns = p.game.returns ∧
    (p.underWay now message).game.finishing = p.game.finishing ∧
    (p.underWay now message).game.pending = p.game.pending := by
  unfold underWay
  split <;> simp

theorem underWay_startedAt (message : String) :
    (p.underWay now message).game.stepper.startedAt ≠ none := by
  unfold underWay
  split <;> simp [Stepper.start]

variable {p now} {q : Play}

theorem serve_ok {toward : Side} (h : p.serve toward now = .ok q) : Served now p q := by
  unfold serve at h
  obtain ⟨⟨angle, dice⟩, -, h⟩ := bind_eq_ok.mp h
  obtain ⟨arena, ha, h⟩ := bind_eq_ok.mp h
  unfold Arena.serve at ha
  split at ha
  · cases ha
  · rename_i angle' _
    cases ha
    cases h
    exact ⟨dice, serveDirection toward angle', rfl⟩

theorem serveAnywhere_ok (h : p.serveAnywhere now = .ok q) : Served now p q := by
  obtain ⟨dice, direction, rfl⟩ := serve_ok h
  exact ⟨dice, direction, rfl⟩

theorem beginPlay_ok {message : String} (h : p.beginPlay now message = .ok q) :
    Served now (p.underWay now message) q :=
  serveAnywhere_ok h

end Play
end Rally
