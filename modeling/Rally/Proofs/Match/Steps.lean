import Rally.Proofs.Match.Effects
import Rally.Proofs.Stepper.Window

/-! All that a move can do to a match that has not ended, case by case and with its guards. -/
namespace Rally

/-- The scores after a goal. None goes beyond the score that wins. -/
def Match.tally (m : Match) (scorer : Side) : Scores :=
  m.scores.modify scorer fun n => if n < m.rules.winScore then n + 1 else n

namespace Play
variable {p q : Play} {now : Nat} {m : Move} {i : Incident} {is : List Incident}

/-- A goal has been counted and made known. -/
def scored (p : Play) (scorer : Side) : Play :=
  ((p.change fun m => { m with scores := m.tally scorer }).say
    (.score scorer (p.game.tally scorer))).announce
    (.score p.game.fixture.id (p.game.tally scorer))

/-- No more goals are counted, and the ball rests. -/
def lastGoal (p : Play) : Play :=
  p.change fun m =>
    { m with finishing := true, arena := { m.arena with ball := m.arena.ball.stop } }

/-- What the match does when the ball has done something. -/
inductive Reply (p : Play) (now : Nat) : Incident → Play → Prop where
  | hit {side} :
      Reply p now (.hit side) (p.change fun m => { m with hits := m.hits.modify side (· + 1) })
  | wall : Reply p now .wall p
  | trigger {side level} : Reply p now (.trigger side level) p
  | lateGoal {scorer} (hf : p.game.finishing = true) : Reply p now (.goal scorer) p
  | lateStuck {side} (hf : p.game.finishing = true) : Reply p now (.stuck side) p
  | stuck {side q} (hf : p.game.finishing = false) (hs : Served now p q) :
      Reply p now (.stuck side) q
  | point {scorer q} (hf : p.game.finishing = false)
      (hr : (p.game.tally scorer).reach p.game.rules.winScore = false)
      (hs : Served now (p.scored scorer) q) : Reply p now (.goal scorer) q
  | final {scorer} (hf : p.game.finishing = false)
      (hr : (p.game.tally scorer).reach p.game.rules.winScore = true)
      (hc : p.game.fixture.isFinal = true ∨ p.game.rules.celebration = 0) :
      Reply p now (.goal scorer) ((p.scored scorer).lastGoal.finish .scoreLimit none)
  | celebrate {scorer} (hf : p.game.finishing = false)
      (hr : (p.game.tally scorer).reach p.game.rules.winScore = true)
      (hc : ¬ (p.game.fixture.isFinal = true ∨ p.game.rules.celebration = 0)) :
      Reply p now (.goal scorer)
        ((p.scored scorer).lastGoal.schedule .celebration now p.game.rules.celebration)

theorem goal_reply {scorer : Side} (h : p.goal scorer now = .ok q) :
    Reply p now (.goal scorer) q := by
  unfold goal at h
  split at h
  · rename_i hf
    cases h
    exact .lateGoal hf
  · rename_i hf
    have hf : p.game.finishing = false := by simpa using hf
    change (if (p.game.tally scorer).reach p.game.rules.winScore = true then
      if p.game.fixture.isFinal = true ∨ p.game.rules.celebration = 0 then
        pure ((p.scored scorer).lastGoal.finish .scoreLimit none)
      else pure ((p.scored scorer).lastGoal.schedule .celebration now p.game.rules.celebration)
      else (p.scored scorer).serve scorer.opponent now) = Except.ok q at h
    split at h
    · rename_i hr
      split at h
      · rename_i hc
        cases h
        exact .final hf hr hc
      · rename_i hc
        cases h
        exact .celebrate hf hr hc
    · rename_i hr
      exact .point hf (by simpa using hr) (serve_ok h)

theorem respond_reply (h : p.respond now i = .ok q) : Reply p now i q := by
  cases i with
  | hit side =>
    cases h
    exact .hit
  | goal scorer => exact goal_reply h
  | stuck side =>
    simp only [respond] at h
    split at h
    · rename_i hf
      cases h
      exact .lateStuck hf
    · rename_i hf
      exact .stuck (by simpa using hf) (serveAnywhere_ok h)
  | trigger side level =>
    cases h
    exact .trigger
  | wall =>
    cases h
    exact .wall

/-- Either the match ends at an incident, or it goes on with the rest of them. -/
theorem respondAll_cons (h : p.respondAll now (i :: is) = .ok q) :
    ∃ r, Reply p now i r ∧
      (r.game.phase = .ended ∧ q = r ∨
        r.game.phase ≠ .ended ∧ r.respondAll now is = .ok q) := by
  obtain ⟨r, hr, h⟩ := bind_eq_ok.mp h
  refine ⟨r, respond_reply hr, ?_⟩
  split at h
  · rename_i he
    cases h
    exact .inl ⟨by simpa [Match.ended] using he, rfl⟩
  · rename_i he
    exact .inr ⟨by simpa [Match.ended] using he, h⟩

/-- What every reply to an incident keeps, the replies to all of them keep. -/
theorem respondAll_invariant {I : Play → Prop}
    (reply : ∀ {p i q}, p.game.phase ≠ .ended → I p → Reply p now i q → I q)
    (hp : p.game.phase ≠ .ended) (hI : I p) (h : p.respondAll now is = .ok q) : I q := by
  induction is generalizing p with
  | nil =>
    cases h
    exact hI
  | cons i is ih =>
    obtain ⟨r, hr, ⟨-, rfl⟩ | ⟨he, h⟩⟩ := respondAll_cons h
    · exact reply hp hI hr
    · exact ih he (reply hp hI hr) h

section Parts
variable (p : Play) (side : Side) (now : Nat)

/-- A side is there again and completes the pair. -/
def paired : Play :=
  ((p.welcome side).cancel .start).change fun m =>
    { m with returns := m.returns.modify side (· + 1) }

/-- What a side that returns too often is told. -/
def unforgivenNotice : Notice :=
  .started now "Reconnected without forgiveness: disconnects no longer pause the match"

/-- A side that returns too often completes the pair during a pause, and play goes on. -/
def forced : Play :=
  (((p.paired side).resume now).change fun m => { m with phase := .playing }).say
    (unforgivenNotice now)

/-- A side is gone. -/
def left : Play := p.change fun m => { m with ready := m.ready.set side false }

/-- What a tick at an instant simulates. -/
def simulated : Played := p.game.stepper.simulated now p.game.arena p.game.logs

/-- A window has been simulated, and nothing has been done about its incidents. -/
def stepped : Play :=
  (p.change fun m =>
    { m with
      stepper := m.stepper.stepped now m.arena m.logs
      logs := m.stepper.consumed now m.logs
      arena := (m.stepper.simulated now m.arena m.logs).arena }).say
    (p.game.stepper.snapshot now p.game.arena p.game.logs).notice

@[simp] theorem paired_game : (p.paired side).game =
    { p.game with
      ready := p.game.ready.set side true
      returns := p.game.returns.modify side (· + 1)
      pending := (p.game.pending.set (.reconnect side) none).set .start none
      timers := (p.welcome side).game.timersWithout .start } := by
  simp [paired]

end Parts

/-- What a move does to a match that has not ended. -/
inductive Step (p : Play) : Move → Play → Prop where
  /-- A side that is there already comes once more. -/
  | again {side : Side} {now : Nat} (hs : p.game.ready.get side = true) :
      Step p (.join side now) (p.welcome side)
  /-- A side comes while the other is away. -/
  | alone {side : Side} {now : Nat} (hs : p.game.ready.get side = false)
      (ho : p.game.ready.get side.opponent = false)
      (hw : ¬ (p.game.phase = .waiting ∧ p.game.unforgiven side.opponent = true)) :
      Step p (.join side now) (p.welcome side)
  /-- A side comes back, and nothing waits for the other. -/
  | goOn {side : Side} {now : Nat} {q : Play} (hs : p.game.ready.get side = false)
      (ho : p.game.ready.get side.opponent = false)
      (hw : p.game.phase = .waiting) (hu : p.game.unforgiven side.opponent = true)
      (hq : Served now ((p.welcome side).underWay now
        "Opponent disconnected without forgiveness, match continues") q) :
      Step p (.join side now) q
  | forced {side : Side} {now : Nat} (hs : p.game.ready.get side = false)
      (ho : p.game.ready.get side.opponent = true)
      (ha : p.game.rules.allowance < p.game.returns.get side + 1)
      (hw : p.game.phase = .waiting) : Step p (.join side now) (p.forced side now)
  | begin {side : Side} {now : Nat} {q : Play} (hs : p.game.ready.get side = false)
      (ho : p.game.ready.get side.opponent = true)
      (ha : ¬ p.game.rules.allowance < p.game.returns.get side + 1)
      (hw : p.game.phase = .waiting)
      (hq : Served now ((p.paired side).underWay now "Game started") q) :
      Step p (.join side now) q
  /-- A side that returns too often comes back while play goes on. -/
  | unforgiven {side : Side} {now : Nat} (hs : p.game.ready.get side = false)
      (ho : p.game.ready.get side.opponent = true)
      (ha : p.game.rules.allowance < p.game.returns.get side + 1)
      (hw : p.game.phase ≠ .waiting) :
      Step p (.join side now) ((p.paired side).say (unforgivenNotice now))
  | back {side : Side} {now : Nat} (hs : p.game.ready.get side = false)
      (ho : p.game.ready.get side.opponent = true)
      (ha : ¬ p.game.rules.allowance < p.game.returns.get side + 1)
      (hw : p.game.phase ≠ .waiting) : Step p (.join side now) (p.paired side)
  /-- A side leaves that is not there. -/
  | absent {side : Side} {now : Nat} (hs : p.game.ready.get side = false) :
      Step p (.leave side now) p
  | left {side : Side} {now : Nat} (hs : p.game.ready.get side = true)
      (hg : p.game.stepper.startedAt = none ∨ p.game.finishing = true ∨
        p.game.rules.allowance ≤ p.game.returns.get side) :
      Step p (.leave side now) (p.left side)
  | pause {side : Side} {now : Nat} (hs : p.game.ready.get side = true)
      (hg : p.game.stepper.startedAt ≠ none) (hf : p.game.finishing = false)
      (ha : p.game.returns.get side < p.game.rules.allowance) :
      Step p (.leave side now) ((p.left side).pause side now)
  | surrender {side} :
      Step p (.surrender side) (p.finish .surrender (some side.opponent))
  /-- A timer fires that does not stand for its deadline. -/
  | stale {d id} (h : p.game.closed = true ∨ p.game.pending.get d ≠ some id) :
      Step p (.alarm d id) p
  /-- A timer fires after all that it waits for has come. -/
  | needless {d id} (h : p.game.pending.get d = some id)
      (hd : d = .start ∧ p.game.bothReady = true ∨
        ∃ side, d = .reconnect side ∧ p.game.ready.get side = true) :
      Step p (.alarm d id) (p.cancel d)
  | startPassed {id} (h : p.game.pending.get .start = some id)
      (hr : p.game.bothReady = false) :
      Step p (.alarm .start id) ((p.cancel .start).finish .disconnection none)
  | reconnectPassed {side : Side} {id : Nat} (h : p.game.pending.get (.reconnect side) = some id)
      (hr : p.game.ready.get side = false) :
      Step p (.alarm (.reconnect side) id)
        ((p.cancel (.reconnect side)).finish .disconnection none)
  | celebrated {id} (h : p.game.pending.get .celebration = some id) :
      Step p (.alarm .celebration id) ((p.cancel .celebration).finish .scoreLimit none)
  | expired {now : Nat} (he : p.game.stepper.expired now = true) :
      Step p (.tick now) (p.finish .timeout none)
  /-- It is too early for a tick, or the match is paused. -/
  | still {now : Nat} (he : p.game.stepper.expired now = false)
      (h : p.game.phase ≠ .playing ∨ now - p.game.stepper.lastTick < p.game.stepper.pace.tick) :
      Step p (.tick now) p
  | stepped {now : Nat} {q : Play} (he : p.game.stepper.expired now = false)
      (hw : p.game.phase = .playing)
      (ht : p.game.stepper.pace.tick ≤ now - p.game.stepper.lastTick)
      (hq : (p.stepped now).respondAll now (p.simulated now).incidents = .ok q) :
      Step p (.tick now) q
  | finish {reason named} : Step p (.finish reason named) (p.finish reason named)
  | close : Step p .close p.close
  | record {side s} : Step p (.record side s) (p.record side s)

theorem bothReady_eq (g : Match) (side : Side) :
    g.bothReady = (g.ready.get side && g.ready.get side.opponent) := by
  cases side
  · rfl
  · exact Bool.and_comm ..

theorem welcome_bothReady (p : Play) (side : Side) :
    (p.welcome side).game.bothReady = p.game.ready.get side.opponent := by
  rw [bothReady_eq _ side]
  simp

theorem welcome_unforgiven (p : Play) (side : Side) :
    (p.welcome side).game.unforgiven side.opponent = p.game.unforgiven side.opponent := by
  simp [Match.unforgiven, side.opponent_ne]

theorem complete_step {side : Side} (hs : p.game.ready.get side = false)
    (ho : p.game.ready.get side.opponent = true)
    (h : (p.welcome side).complete side now = .ok q) : Step p (.join side now) q := by
  change (if (p.paired side).game.rules.allowance < (p.paired side).game.returns.get side then
    pure ((if (p.paired side).game.phase = .waiting then
      ((p.paired side).resume now).change fun m => { m with phase := .playing }
      else p.paired side).say (unforgivenNotice now))
    else if (p.paired side).game.phase = .waiting then
      (p.paired side).beginPlay now "Game started"
    else pure (p.paired side)) = Except.ok q at h
  simp only [paired_game, Sides.get_modify_same] at h
  by_cases ha : p.game.rules.allowance < p.game.returns.get side + 1
  · rw [if_pos ha] at h
    by_cases hw : p.game.phase = .waiting
    · rw [if_pos hw] at h
      cases h
      exact .forced hs ho ha hw
    · rw [if_neg hw] at h
      cases h
      exact .unforgiven hs ho ha hw
  · rw [if_neg ha] at h
    by_cases hw : p.game.phase = .waiting
    · rw [if_pos hw] at h
      exact .begin hs ho ha hw (beginPlay_ok h)
    · rw [if_neg hw] at h
      cases h
      exact .back hs ho ha hw

theorem join_step {side : Side} (hp : p.game.phase ≠ .ended) (h : p.join side now = .ok q) :
    Step p (.join side now) q := by
  have he : ¬ p.game.ended = true := by simp [Match.ended, hp]
  unfold join at h
  rw [if_neg he] at h
  cases hs : p.game.ready.get side with
  | true =>
    simp only [hs, if_true] at h
    cases h
    exact .again hs
  | false =>
    cases ho : p.game.ready.get side.opponent with
    | true =>
      simp only [hs, welcome_bothReady, ho, if_true] at h
      exact complete_step hs ho h
    | false =>
      simp only [hs, welcome_bothReady, ho, welcome_unforgiven] at h
      by_cases hu : p.game.phase = .waiting ∧ p.game.unforgiven side.opponent = true
      · rw [welcome_game, if_neg (by simp), if_neg (by simp), if_pos hu] at h
        exact .goOn hs ho hu.1 hu.2 (beginPlay_ok h)
      · rw [welcome_game, if_neg (by simp), if_neg (by simp), if_neg hu] at h
        cases h
        exact .alone hs ho hu

theorem leave_step (side : Side) (now : Nat) (hp : p.game.phase ≠ .ended) :
    Step p (.leave side now) (p.leave side now) := by
  unfold leave
  cases hs : p.game.ready.get side with
  | false =>
    rw [if_pos (by simp)]
    exact .absent hs
  | true =>
    rw [if_neg (by simp [Match.ended, hp])]
    change Step p _ (if p.game.stepper.startedAt.isNone ∨ p.game.finishing then p.left side
      else if p.game.returns.get side < p.game.rules.allowance then (p.left side).pause side now
      else p.left side)
    by_cases hg : p.game.stepper.startedAt.isNone ∨ p.game.finishing
    · rw [if_pos hg]
      refine .left hs ?_
      rcases hg with hg | hg
      · exact .inl (by simpa using hg)
      · exact .inr (.inl hg)
    · rw [if_neg hg]
      simp only [Option.isNone_iff_eq_none, not_or, Bool.not_eq_true] at hg
      by_cases ha : p.game.returns.get side < p.game.rules.allowance
      · rw [if_pos ha]
        exact .pause hs hg.1 hg.2 ha
      · rw [if_neg ha]
        exact .left hs (.inr (.inr (by omega)))

theorem alarm_step (d : Deadline) (id : Nat) (hp : p.game.phase ≠ .ended) :
    Step p (.alarm d id) (p.alarm d id) := by
  unfold alarm
  by_cases hc : p.game.closed = true ∨ p.game.pending.get d ≠ some id
  · rw [if_pos (by simpa [Match.ended, hp] using hc)]
    exact .stale hc
  · rw [if_neg (by simpa [Match.ended, hp] using hc)]
    have hid : p.game.pending.get d = some id := by
      by_contra hn
      exact hc (.inr hn)
    have hq : (p.change fun m =>
        { m with pending := m.pending.set d none, timers := m.timers.cancel id }) = p.cancel d := by
      simp [cancel, hid]
    rw [hq]
    cases d with
    | start =>
      have hb : (p.cancel .start).game.bothReady = p.game.bothReady := by simp [Match.bothReady]
      simp only [hb]
      cases hr : p.game.bothReady with
      | true => exact .needless hid (.inl ⟨rfl, hr⟩)
      | false => exact .startPassed hid hr
    | reconnect side =>
      simp only [cancel_game]
      cases hr : p.game.ready.get side with
      | true => exact .needless hid (.inr ⟨side, rfl, hr⟩)
      | false => exact .reconnectPassed hid hr
    | celebration => exact .celebrated hid

theorem tick_step (hp : p.game.phase ≠ .ended) (h : p.tick now = .ok q) :
    Step p (.tick now) q := by
  unfold tick at h
  rw [if_neg (by simp [Match.ended, hp])] at h
  cases he : p.game.stepper.expired now with
  | true =>
    rw [if_pos he] at h
    cases h
    exact .expired he
  | false =>
    rw [if_neg (by simp [he])] at h
    by_cases hw : p.game.phase = .playing
    · rw [if_neg (by simp [hw]), Stepper.tick_eq, if_neg (by simp [he])] at h
      by_cases ht : now - p.game.stepper.lastTick < p.game.stepper.pace.tick
      · rw [if_pos ht] at h
        cases h
        exact .still he (.inr ht)
      · rw [if_neg ht] at h
        exact .stepped he hw (by omega) h
    · rw [if_pos hw] at h
      cases h
      exact .still he (.inl hw)

theorem step_of_apply (hp : p.game.phase ≠ .ended) (h : p.apply m = .ok q) : Step p m q := by
  cases m with
  | join side now => exact join_step hp h
  | tick now => exact tick_step hp h
  | leave side now =>
    cases h
    exact leave_step side now hp
  | alarm d id =>
    cases h
    exact alarm_step d id hp
  | surrender side =>
    cases h
    exact .surrender
  | finish reason named =>
    cases h
    exact .finish
  | close =>
    cases h
    exact .close
  | record side s =>
    cases h
    exact .record

/-- After the end only inputs are taken note of. -/
theorem apply_of_ended (he : p.game.phase = .ended) (hc : p.game.closed = true)
    (hm : ∀ side s, m ≠ .record side s) : p.apply m = .ok p := by
  have hb : p.game.ended = true := by simp [Match.ended, he]
  cases m with
  | join side now => simp [apply, join, hb, pure, Except.pure]
  | leave side now => simp [apply, leave, hb]
  | surrender side => simp [apply, surrender, finish, hb]
  | alarm d id => simp [apply, alarm, hb]
  | tick now => simp [apply, tick, hb, pure, Except.pure]
  | finish reason named => simp [apply, finish, hb]
  | close => simp [apply, close, hc]
  | record side s => exact absurd rfl (hm side s)

theorem record_eq (p : Play) (side : Side) (s : Sample) :
    ∃ logs, p.record side s = p.change fun m => { m with logs } := by
  unfold record Match.record
  cases (p.game.logs.get side).record s with
  | error e => exact ⟨p.game.logs, rfl⟩
  | ok log => exact ⟨p.game.logs.set side log, rfl⟩

/-- After the end a move changes at most the logs. -/
theorem apply_after_end (he : p.game.phase = .ended) (hc : p.game.closed = true)
    (h : p.apply m = .ok q) : ∃ logs, q = p.change fun g => { g with logs } := by
  by_cases hm : ∀ side s, m ≠ .record side s
  · rw [apply_of_ended he hc hm] at h
    cases h
    exact ⟨p.game.logs, rfl⟩
  · push Not at hm
    obtain ⟨side, s, rfl⟩ := hm
    obtain ⟨logs, hl⟩ := record_eq p side s
    rw [apply, hl] at h
    cases h
    exact ⟨logs, rfl⟩

end Play
end Rally
