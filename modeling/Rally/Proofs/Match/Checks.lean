import Rally.Proofs.Match.Draws
import Rally.Proofs.Match.Upkeep

/-! A match that checks each operation with a condition on what it is given. -/
namespace Rally

/-- Serves the ball, and tells when it will start to move. -/
def Arena.serveChecked (now : Nat) (toward : Side) (angle : Scalar) (a : Arena) :
    Checked (Nat × Arena) := do
  let angle ← Checked.confine angle (-a.params.serveAngle) a.params.serveAngle
  let time ← Checked.add 64 now a.params.serveDelay
  return (time, { a with ball := a.ball.spawn (serveDirection toward angle) time })

/-- The scores after a goal. They are counted with eight bits, up to the one that wins. -/
def Match.tallyChecked (m : Match) (scorer : Side) : Checked Scores :=
  if m.scores.get scorer < m.rules.winScore then do
    let score ← Checked.add 8 (m.scores.get scorer) 1
    return m.scores.set scorer score
  else return m.scores

namespace Play
variable (p : Play)

/-- Sets the timer of a deadline. Timers are numbered with 64 bits. -/
def scheduleChecked (d : Deadline) (now delay : Nat) : Checked Play := do
  let q := p.cancel d
  let id ← Checked.add 64 q.game.timers.count 1
  return q.change fun m =>
    { m with
      timers := ⟨id, m.timers.live ++ [⟨id, d, now, delay⟩]⟩
      pending := m.pending.set d (some id) }

def serveChecked (toward : Side) (now : Nat) : Checked Play := do
  let (angle, dice) ← p.game.dice.angleChecked p.game.arena.params.serveAngle
  let (time, arena) ← p.game.arena.serveChecked now toward angle
  return (p.change fun m => { m with dice, arena }).say (.serve time arena.ball.direction)

def serveAnywhereChecked (now : Nat) : Checked Play :=
  let (toward, dice) := p.game.dice.side
  (p.change fun m => { m with dice }).serveChecked toward now

def resumeChecked (now : Nat) : Checked Play := do
  let (stepper, arena, logs) ← p.game.stepper.resumeChecked now p.game.arena p.game.logs
  return p.change fun m => { m with stepper, arena, logs }

def beginPlayChecked (now : Nat) (message : String) : Checked Play := do
  let q ←
    if p.game.stepper.startedAt.isSome then p.resumeChecked now
    else pure (p.change fun m => { m with stepper := m.stepper.start now })
  ((q.change fun m => { m with phase := .playing }).say (.started now message)).serveAnywhereChecked
    now

/-- A side completes the pair, which is counted with 32 bits. -/
def completeChecked (side : Side) (now : Nat) : Checked Play := do
  let q := p.cancel .start
  let count ← Checked.add 32 (q.game.returns.get side) 1
  let q := q.change fun m => { m with returns := m.returns.set side count }
  if q.game.rules.allowance < count then
    let q ←
      if q.game.phase = .waiting then
        (·.change fun m => { m with phase := .playing }) <$> q.resumeChecked now
      else pure q
    return q.say (.started now
      "Reconnected without forgiveness: disconnects no longer pause the match")
  else if q.game.phase = .waiting then q.beginPlayChecked now "Game started"
  else return q

def joinChecked (side : Side) (now : Nat) : Checked Play :=
  if p.game.ended then return p
  else
    let q := p.welcome side
    if p.game.ready.get side then return q
    else if q.game.bothReady then q.completeChecked side now
    else if q.game.phase = .waiting ∧ q.game.unforgiven side.opponent then
      q.beginPlayChecked now "Opponent disconnected without forgiveness, match continues"
    else return q

def pauseChecked (side : Side) (now : Nat) : Checked Play :=
  let q :=
    if p.game.phase = .playing then
      (p.change fun m => { m with phase := .waiting }).say
        (.stopped "Opponent disconnected, waiting for reconnection")
    else p
  q.scheduleChecked (.reconnect side) now p.game.rules.reconnectGrace

def leaveChecked (side : Side) (now : Nat) : Checked Play :=
  if p.game.ended ∨ !p.game.ready.get side then return p
  else
    let q := p.change fun m => { m with ready := m.ready.set side false }
    if q.game.stepper.startedAt.isNone ∨ q.game.finishing then return q
    else if q.game.returns.get side < q.game.rules.allowance then q.pauseChecked side now
    else return q

def goalChecked (scorer : Side) (now : Nat) : Checked Play :=
  if p.game.finishing then return p
  else do
    let scores ← p.game.tallyChecked scorer
    let q := p.change fun m => { m with scores }
    let m := q.game
    let q := (q.say (.score scorer m.scores)).announce (.score m.fixture.id m.scores)
    if m.scores.reach m.rules.winScore then
      let q := q.change fun m =>
        { m with finishing := true, arena := { m.arena with ball := m.arena.ball.stop } }
      if m.fixture.isFinal ∨ m.rules.celebration = 0 then return q.finish .scoreLimit none
      else q.scheduleChecked .celebration now m.rules.celebration
    else q.serveChecked scorer.opponent now

/-- Responds to something the ball did. Hits are counted with 32 bits. -/
def respondChecked (now : Nat) : Incident → Checked Play
  | .hit side => do
    let count ← Checked.add 32 (p.game.hits.get side) 1
    return p.change fun m => { m with hits := m.hits.set side count }
  | .goal scorer => p.goalChecked scorer now
  | .stuck _ => if p.game.finishing then return p else p.serveAnywhereChecked now
  | .trigger .. => return p
  | .wall => return p

def respondAllChecked (now : Nat) : List Incident → Play → Checked Play
  | [], p => return p
  | i :: rest, p => do
    let q ← p.respondChecked now i
    if q.game.ended then return q else respondAllChecked now rest q

def tickChecked (now : Nat) : Checked Play :=
  if p.game.ended then return p
  else if p.game.stepper.expired now then return p.finish .timeout none
  else if p.game.phase ≠ .playing then return p
  else do
    match ← p.game.stepper.tickChecked now p.game.arena p.game.logs with
    | .idle => return p
    | .expired => return p.finish .timeout none
    | .stepped stepper logs played snapshot =>
      ((p.change fun m => { m with stepper, logs, arena := played.arena }).say
        snapshot.notice).respondAllChecked now played.incidents

def applyChecked : Move → Checked Play
  | .join side now => p.joinChecked side now
  | .leave side now => p.leaveChecked side now
  | .surrender side => return p.surrender side
  | .alarm d id => return p.alarm d id
  | .tick now => p.tickChecked now
  | .finish reason named => return p.finish reason named
  | .close => return p.close
  | .record side s => return p.record side s

/-- Makes moves one after another, up to the first check that fails. -/
def runChecked (p : Play) : List Move → Checked Play
  | [] => return p
  | m :: ms => do (← p.applyChecked m).runChecked ms

end Play

/-! No check of a match fails that has room to count. -/

/-- Two computations have the same result, one by checking its operations. -/
def Agrees {α : Type} (x : Except Fault α) (y : Checked α) : Prop := ∃ a, x = .ok a ∧ y = .ok a

namespace Agrees
variable {α β : Type} {x x' : Except Fault α} {y y' : Checked α} {f : α → Except Fault β}
  {g : α → Checked β}

theorem pure (a : α) : Agrees (.ok a) (.ok a) := ⟨a, rfl, rfl⟩

theorem bind (h : Agrees x y) (hf : ∀ a, x = .ok a → Agrees (f a) (g a)) :
    Agrees (x >>= f) (y >>= g) := by
  obtain ⟨a, rfl, rfl⟩ := h
  exact hf a rfl

/-- One result is the other. -/
theorem eq_ok {a : α} (h : Agrees x y) (hx : x = .ok a) : y = .ok a := by
  obtain ⟨b, hb, hy⟩ := h
  rw [hx] at hb
  cases hb
  exact hy

theorem ite {c : Prop} [Decidable c] (h : c → Agrees x y) (h' : ¬ c → Agrees x' y') :
    Agrees (if c then x else x') (if c then y else y') := by
  by_cases hc : c
  · simpa [hc] using h hc
  · simpa [hc] using h' hc

end Agrees

/-- A ball can be served at an instant. -/
structure Params.ServesAt (params : Params) (now : Nat) : Prop where
  sane : params.Sane
  inTime : now + params.serveDelay < 2 ^ 64

theorem Arena.serveChecked_eq {now : Nat} (a : Arena) (h : a.params.ServesAt now) (toward : Side)
    (angle : Scalar) : ∃ b, a.serve now toward angle = .ok b ∧
      a.serveChecked now toward angle = .ok (a.serveTime now, b) := by
  have htime : a.serveTime now = now + a.params.serveDelay := Nat.mod_eq_of_lt h.inTime
  have hle := h.sane.serves.1
  refine ⟨{ a with ball := a.ball.spawn (serveDirection toward
    (angle.confine (-a.params.serveAngle) a.params.serveAngle)) (a.serveTime now) }, ?_, ?_⟩
  · rw [Arena.serve, Scalar.confine?, if_pos hle]
  · rw [serveChecked, Checked.confine_eq _ hle, Checked.ok_bind, Checked.add_eq h.inTime, htime]
    rfl

theorem Match.tallyChecked_eq {m : Match} (h : m.rules.winScore < 2 ^ 8) (scorer : Side) :
    m.tallyChecked scorer = .ok (m.tally scorer) := by
  unfold tallyChecked tally
  rw [Sides.modify_eq_set]
  split
  · rw [Checked.add_eq (by omega)]
    rfl
  · rw [Sides.set_get]
    rfl

namespace Play
variable {p q : Play} {now : Nat} {side toward : Side} {i : Incident} {is : List Incident}
  {m : Move} {message : String}

theorem serve_agrees (h : p.game.arena.params.ServesAt now) (toward : Side) :
    Agrees (p.serve toward now) (p.serveChecked toward now) := by
  obtain ⟨⟨angle, dice⟩, hroll, hrollChecked⟩ := Dice.angleChecked_eq h.sane p.game.dice
  obtain ⟨arena, ha, haChecked⟩ := p.game.arena.serveChecked_eq h toward angle
  rw [serve, serveChecked, hroll, hrollChecked]
  simp only [Checked.ok_bind, haChecked]
  refine ⟨_, ?_, rfl⟩
  change (p.game.arena.serve now toward angle >>= _) = _
  rw [ha]
  rfl

theorem serveAnywhere_agrees (h : p.game.arena.params.ServesAt now) :
    Agrees (p.serveAnywhere now) (p.serveAnywhereChecked now) := by
  have hd :
      (p.change fun m => { m with dice := p.game.dice.side.2 }).game.arena.params.ServesAt now := h
  exact serve_agrees hd _

theorem scheduleChecked_eq (h : p.game.timers.count + 1 < 2 ^ 64) (d : Deadline) (now delay : Nat) :
    p.scheduleChecked d now delay = .ok (p.schedule d now delay) := by
  have hc : (p.cancel d).game.timers.count = p.game.timers.count := by simp
  rw [scheduleChecked, hc, Checked.add_eq h, ← hc]
  rfl

theorem resumeChecked_eq (h : Ordered p) (now : Nat) :
    p.resumeChecked now = .ok (p.resume now) := by
  rw [resumeChecked, Stepper.resumeChecked_eq h]
  rfl

theorem beginPlay_agrees (h : p.game.arena.params.ServesAt now) (ho : Ordered p)
    (message : String) : Agrees (p.beginPlay now message) (p.beginPlayChecked now message) := by
  have hgo : p.beginPlayChecked now message =
      (p.underWay now message).serveAnywhereChecked now := by
    unfold beginPlayChecked underWay
    split
    · rw [resumeChecked_eq ho]
      rfl
    · rfl
  have hu : (p.underWay now message).game.arena.params.ServesAt now := by rwa [underWay_params]
  rw [hgo]
  exact serveAnywhere_agrees hu

theorem change_congr {f g : Match → Match} (h : f p.game = g p.game) : p.change f = p.change g := by
  rw [change, h]
  rfl

theorem complete_agrees (h : p.game.arena.params.ServesAt now) (ho : Ordered p)
    (hr : p.game.returns.get side + 1 < 2 ^ 32) :
    Agrees (p.complete side now) (p.completeChecked side now) := by
  let q := (p.cancel .start).change fun m => { m with returns := m.returns.modify side (· + 1) }
  have hcount : Checked.add 32 ((p.cancel .start).game.returns.get side) 1 =
      .ok (q.game.returns.get side) := by
    simp [q, Checked.add_eq hr]
  have hq : ((p.cancel .start).change fun m =>
      { m with returns := m.returns.set side (q.game.returns.get side) }) = q := by
    refine change_congr ?_
    simp [q, Sides.modify_eq_set]
  have hserves : q.game.arena.params.ServesAt now := by simpa [q] using h
  have horder : Ordered q := by simpa [q, Ordered] using ho
  rw [completeChecked]
  simp only [hcount, Checked.ok_bind, hq, resumeChecked_eq horder]
  unfold complete
  refine .ite (fun _ => ?_) fun _ => .ite (fun _ => ?_) fun _ => .pure _
  · split
    · exact ⟨_, rfl, rfl⟩
    · exact ⟨_, rfl, rfl⟩
  · exact beginPlay_agrees hserves horder _

theorem join_agrees (h : p.game.arena.params.ServesAt now) (ho : Ordered p)
    (hr : p.game.returns.get side + 1 < 2 ^ 32) :
    Agrees (p.join side now) (p.joinChecked side now) := by
  have hw : (p.welcome side).game.arena.params.ServesAt now := by simpa using h
  have how : Ordered (p.welcome side) := (kept_welcome p side).order ho
  have hrw : (p.welcome side).game.returns.get side + 1 < 2 ^ 32 := by simpa using hr
  unfold join joinChecked
  refine .ite (fun _ => .pure p) fun _ => .ite (fun _ => .pure _) fun _ => ?_
  refine .ite (fun _ => complete_agrees hw how hrw) fun _ => ?_
  exact .ite (fun _ => beginPlay_agrees hw how _) fun _ => .pure _

theorem pauseChecked_eq (h : p.game.timers.count + 1 < 2 ^ 64) (side : Side) (now : Nat) :
    p.pauseChecked side now = .ok (p.pause side now) := by
  unfold pauseChecked pause
  refine scheduleChecked_eq ?_ ..
  split
  · exact h
  · exact h

theorem leaveChecked_eq (h : p.game.timers.count + 1 < 2 ^ 64) (side : Side) (now : Nat) :
    p.leaveChecked side now = .ok (p.leave side now) := by
  unfold leaveChecked leave
  split
  · rfl
  · simp only
    split
    · rfl
    · split
      · have hl : (p.left side).game.timers.count + 1 < 2 ^ 64 := h
        exact pauseChecked_eq hl side now
      · rfl

/-- There is room for all that a match does about some incidents at an instant. -/
structure Affords (p : Play) (now : Nat) (is : List Incident) : Prop where
  serves : p.game.arena.params.ServesAt now
  winScore : p.game.rules.winScore < 2 ^ 8
  hits : ∀ side, p.game.hits.get side + is.count (.hit side) < 2 ^ 32
  alarms : p.game.alarms + 1 < 2 ^ 64

theorem Affords.timers (h : Affords p now is) : p.game.timers.count + 1 < 2 ^ 64 := by
  have := h.alarms
  unfold Match.alarms at this
  omega

theorem Affords.reply (h : Affords p now (i :: is)) (hr : Reply p now i q) : Affords q now is := by
  have hk := kept_reply hr
  refine ⟨?_, ?_, fun side => ?_, ?_⟩
  · rw [hk.params]
    exact h.serves
  · rw [hk.rules]
    exact h.winScore
  · have hp := h.hits side
    have hq := hk.hits side
    rw [← List.singleton_append, List.count_append] at hp
    omega
  · have hp := h.alarms
    have hq := hk.alarms
    omega

theorem Affords.stepped (h : Affords p now is) : Affords (p.stepped now) now is := by
  have hk := kept_stepped p now
  refine ⟨?_, h.winScore, h.hits, h.alarms⟩
  rw [hk.params]
  exact h.serves

theorem goal_agrees (h : Affords p now is) (scorer : Side) :
    Agrees (p.goal scorer now) (p.goalChecked scorer now) := by
  have htimers : (p.scored scorer).lastGoal.game.timers.count + 1 < 2 ^ 64 := h.timers
  have hserves : (p.scored scorer).game.arena.params.ServesAt now := h.serves
  unfold goal goalChecked
  refine .ite (fun _ => .pure p) fun _ => ?_
  rw [Match.tallyChecked_eq h.winScore, Checked.ok_bind]
  refine .ite (fun _ => .ite (fun _ => .pure _) fun _ => ?_) fun _ => serve_agrees hserves _
  exact ⟨_, rfl, scheduleChecked_eq htimers ..⟩

theorem respond_agrees (h : Affords p now (i :: is)) :
    Agrees (p.respond now i) (p.respondChecked now i) := by
  cases i with
  | hit side =>
    have hc : p.game.hits.get side + 1 < 2 ^ 32 := by
      have := h.hits side
      rw [List.count_cons_self] at this
      omega
    have hset : (p.change fun m => { m with hits := m.hits.set side (p.game.hits.get side + 1) }) =
        p.change fun m => { m with hits := m.hits.modify side (· + 1) } := by
      refine change_congr ?_
      simp [Sides.modify_eq_set]
    rw [respondChecked, Checked.add_eq hc, Checked.ok_bind, hset]
    exact .pure _
  | goal scorer => exact goal_agrees h scorer
  | stuck side => exact .ite (fun _ => .pure p) fun _ => serveAnywhere_agrees h.serves
  | trigger | wall => exact .pure p

theorem respondAll_agrees (h : Affords p now is) :
    Agrees (p.respondAll now is) (respondAllChecked now is p) := by
  induction is generalizing p with
  | nil => exact .pure p
  | cons i is ih =>
    refine (respond_agrees h).bind fun q hq => .ite (fun _ => .pure q) fun _ => ?_
    exact ih (h.reply (respond_reply hq))

/-- A tick fails only if there are too many to count. -/
theorem tick_agrees (ho : Ordered p) (ha : p.game.arena.Reined)
    (h : Affords p now (⟨p, .tick now, q⟩ : Passage).incidents) :
    Agrees (p.tick now) (p.tickChecked now) ∨
      p.tickChecked now = .error .ticks ∧ 2 ^ 64 ≤ p.game.stepper.ticks + 1 := by
  unfold tick tickChecked
  by_cases he : p.game.ended = true
  · rw [if_pos he, if_pos he]
    exact .inl (.pure p)
  · rw [if_neg he, if_neg he]
    cases hx : p.game.stepper.expired now with
    | true => exact .inl (.pure _)
    | false =>
      rw [if_neg Bool.false_ne_true, if_neg Bool.false_ne_true]
      by_cases hw : p.game.phase = .playing
      · rw [if_neg (not_not.mpr hw), if_neg (not_not.mpr hw)]
        rcases Stepper.tickChecked_eq ho ha with hok | ⟨herr, hmany⟩
        · rw [hok, Checked.ok_bind, Stepper.tick_eq, hx, if_neg Bool.false_ne_true]
          by_cases ht : now - p.game.stepper.lastTick < p.game.stepper.pace.tick
          · rw [if_pos ht]
            exact .inl (.pure p)
          · rw [if_neg ht]
            rw [incidents_stepped hx hw (by omega)] at h
            exact .inl (respondAll_agrees h.stepped)
        · exact .inr ⟨by rw [herr]; rfl, hmany⟩
      · rw [if_pos hw, if_pos hw]
        exact .inl (.pure p)

end Play
end Rally
