import Rally.Proofs.Arena.Live
import Rally.Proofs.Match.Deadlines
import Rally.Proofs.Match.Lasting

/-! Whether the ball of a match is live: in play, or served and about to be. -/
namespace Rally

/-- The match is over, its last goal has been scored, or its ball is live. -/
def Match.InHand (g : Match) : Prop :=
  g.phase = .ended ∨ g.finishing = true ∨ g.arena.ball.Live

namespace Play
variable {p q : Play} {now : Nat} {m : Move} {ms : List Move} {i : Incident} {is : List Incident}

/-- The end does not wake the ball. -/
theorem finish_not_live (reason : EndReason) (named : Option Side)
    (h : ¬ p.game.arena.ball.Live) : ¬ (p.finish reason named).game.arena.ball.Live := by
  by_cases he : p.game.phase = .ended
  · rw [finish_of_ended p reason named he]
    exact h
  · rw [finish_game p reason named he, close_game]
    split
    · exact h
    · exact Ball.not_live_stop _

theorem Served.live (h : Served now p q) : q.game.arena.ball.Live := by
  obtain ⟨dice, direction, rfl⟩ := h
  exact Ball.live_spawn ..

/-- After an incident that stops the ball it is served, unless the match or its play is over. -/
theorem reply_inHand (h : Reply p now i q) (hp : p.game.InHand ∨ i.halts = true) :
    q.game.InHand := by
  cases h with
  | hit | wall | trigger => exact hp.resolve_right (by simp [Incident.halts])
  | lateGoal hf | lateStuck hf => exact .inr (.inl hf)
  | stuck hf hs | point hf hr hs => exact .inr (.inr hs.live)
  | final => exact .inl (finish_phase ..)
  | celebrate => exact .inr (.inl (by simp [lastGoal]))

theorem respondAll_inHand (he : p.game.phase ≠ .ended)
    (hp : p.game.InHand ∨ ∃ i ∈ is, i.halts = true) (h : p.respondAll now is = .ok q) :
    q.game.InHand := by
  induction is generalizing p with
  | nil =>
    cases h
    exact hp.resolve_right (by simp)
  | cons i is ih =>
    obtain ⟨r, hr, hq⟩ := respondAll_cons h
    -- What does not stop the ball now leaves it to a later incident.
    have hnext : r.game.InHand ∨ ∃ j ∈ is, j.halts = true := by
      rcases hp with hp | ⟨j, hj, hs⟩
      · exact .inl (reply_inHand hr (.inl hp))
      · rcases List.mem_cons.mp hj with rfl | hj
        · exact .inl (reply_inHand hr (.inr hs))
        · exact .inr ⟨j, hj, hs⟩
    rcases hq with ⟨hr, rfl⟩ | ⟨hr, hq⟩
    · exact .inl hr
    · exact ih hr hnext hq

/-- Where sides may return, the ball is live from the start on. No side has returned before. -/
structure Tended (p : Play) : Prop where
  allowance : 0 < p.game.rules.allowance
  returns : p.game.stepper.startedAt = none → p.game.returns = .both 0
  ball : p.game.stepper.startedAt ≠ none → p.game.InHand

theorem tended_start {fixture : Fixture} {rules : Rules} {seed : UInt64}
    (h : 0 < rules.allowance) : Tended (start fixture rules seed now) := by
  refine ⟨by simpa [start] using h, fun _ => by simp [start], ?_⟩
  intro hs
  simp [start, Stepper.ofPace] at hs

/-- What is the same but for the ball is tended if the ball is. -/
theorem Tended.of_ball (hp : Tended p) (hr : q.game.rules = p.game.rules)
    (hn : q.game.returns = p.game.returns)
    (hs : q.game.stepper.startedAt = p.game.stepper.startedAt)
    (hb : p.game.InHand → q.game.InHand) : Tended q := by
  refine ⟨?_, ?_, ?_⟩
  · rw [hr]
    exact hp.allowance
  · rw [hs, hn]
    exact hp.returns
  · rw [hs]
    exact fun h => hb (hp.ball h)

/-- Once a match has started, only the ball counts. -/
theorem Tended.of_started (hp : Tended p) (hr : q.game.rules = p.game.rules)
    (hs : q.game.stepper.startedAt ≠ none) (hb : q.game.InHand) : Tended q := by
  refine ⟨?_, fun h => absurd h hs, fun _ => hb⟩
  rw [hr]
  exact hp.allowance

/-- Play that has been got under way with a serve is tended. -/
theorem Tended.of_served (hp : Tended p) {r : Play} {message : String}
    (hr : r.game.rules = p.game.rules) (h : Served now (q.underWay now message) r) : Tended r := by
  refine hp.of_started hr ?_ (.inr (.inr h.live))
  rw [h.alike.2]
  exact underWay_startedAt q now message

/-- A side completes the pair for the first time only at the start. -/
theorem Tended.started (hp : Tended p) {side : Side}
    (ha : p.game.rules.allowance < p.game.returns.get side + 1) :
    p.game.stepper.startedAt ≠ none := by
  intro hs
  have hr := hp.returns hs
  have := hp.allowance
  cases side <;> simp [hr, Sides.both, Sides.get] at ha <;> omega

theorem tended_step (he : p.game.phase ≠ .ended) (ho : Open p.game) (hp : Tended p)
    (hm : m.Ordinary) (h : Step p m q) : Tended q := by
  have hrules := step_rules h
  have playing (hw : p.game.phase ≠ .waiting) : p.game.stepper.startedAt ≠ none :=
    ho.started (ho.playing_of_ne hw)
  have ends (r : Play) (hr : r.game.rules = p.game.rules ∧ r.game.returns = p.game.returns ∧
      r.game.stepper = p.game.stepper) (reason : EndReason) (named : Option Side) :
      Tended (r.finish reason named) := by
    refine hp.of_ball ?_ ?_ ?_ fun _ => .inl (finish_phase ..)
    · simpa using hr.1
    · simpa using hr.2.1
    · rw [finish_startedAt, hr.2.2]
  cases h with
  | @again side | @alone side =>
    exact hp.of_ball hrules (by simp) (by simp) (by simp [Match.InHand])
  | goOn hs hn hw hu hq => exact hp.of_served hrules hq
  | begin hs hr ha hw hq => exact hp.of_served hrules hq
  | forced hs hr ha hw =>
    have hg := hp.started ha
    refine hp.of_started hrules (by simp [forced, Stepper.start]) (.inr ?_)
    rcases hp.ball hg with hb | hb | hb
    · exact absurd hb he
    · exact .inl (by simpa [forced] using hb)
    · exact .inr (by simpa [forced] using hb)
  | unforgiven hs hr ha hw | back hs hr ha hw =>
    have hg := playing hw
    refine hp.of_started hrules (by simpa using hg) ?_
    simpa [Match.InHand] using hp.ball hg
  | absent | stale | still => exact hp
  | left => exact hp.of_ball rfl rfl rfl id
  | pause hs hg hf =>
    refine hp.of_started hrules (by simpa [left] using hg) (.inr (.inr ?_))
    have hb := (hp.ball hg).resolve_left he
    simpa [left] using hb.resolve_left (by simp [hf])
  | surrender | expired | finish => exact ends p ⟨rfl, rfl, rfl⟩ ..
  | startPassed | reconnectPassed | celebrated => exact ends _ (by simp) ..
  | needless => exact hp.of_ball hrules (by simp) (by simp) (by simp [Match.InHand])
  | @stepped now q hx hw ht hq =>
    have hg := playing (by simp [hw])
    have hs : (p.stepped now).game.phase ≠ .ended := he
    -- A ball that is dead after the simulation has been stopped by one of its incidents.
    have hk : (p.stepped now).game.InHand ∨
        ∃ i ∈ (p.simulated now).incidents, i.halts = true := by
      rcases hp.ball hg with hb | hb | hb
      · exact absurd hb he
      · exact .inl (.inr (.inl hb))
      · rcases Arena.kept_replayFrom hb with hb | hi
        · exact .inl (.inr (.inr hb))
        · exact .inr hi
    refine hp.of_started hrules ?_ (respondAll_inHand hs hk hq)
    rw [(respondAll_alike hs hq).2]
    exact hg
  | close => exact absurd hm (by simp [Move.Ordinary])
  | @record side s =>
    obtain ⟨logs, hl⟩ := record_eq p side s
    rw [hl]
    exact hp.of_ball rfl rfl rfl id

/-- Where no side may return, no ball is served. -/
structure Neglected (p : Play) : Prop where
  allowance : p.game.rules.allowance = 0
  ball : ¬ p.game.arena.ball.Live
  waiting : p.game.phase = .waiting → p.game.stepper.startedAt = none

theorem neglected_start {fixture : Fixture} {rules : Rules} {seed : UInt64}
    (h : rules.allowance = 0) : Neglected (start fixture rules seed now) := by
  refine ⟨by simpa [start] using h, ?_, fun _ => by simp [start, Stepper.ofPace]⟩
  simp [start, Arena.ofParams, Ball.ofParams, Ball.Live]

theorem Neglected.finish (hp : Neglected p) (reason : EndReason) (named : Option Side) :
    Neglected (p.finish reason named) := by
  refine ⟨?_, finish_not_live reason named hp.ball, ?_⟩
  · rw [(finish_alike p reason named).1]
    exact hp.allowance
  · intro hw
    simp at hw

/-- What is the same but for the deadlines, the logs and who is there is neglected as before. -/
theorem Neglected.of_eq (hp : Neglected p) (hr : q.game.rules = p.game.rules)
    (ha : q.game.arena.ball = p.game.arena.ball)
    (hs : q.game.stepper.startedAt = p.game.stepper.startedAt)
    (hw : q.game.phase = p.game.phase) : Neglected q := by
  refine ⟨?_, ?_, ?_⟩
  · rw [hr]
    exact hp.allowance
  · rw [ha]
    exact hp.ball
  · rw [hw, hs]
    exact hp.waiting

theorem neglected_step (hp : Neglected p) (hm : m.Ordinary) (h : Step p m q) : Neglected q := by
  have h0 := hp.allowance
  have hrules := step_rules h
  have cancelled (d : Deadline) : Neglected (p.cancel d) :=
    hp.of_eq (by simp) (by simp) (by simp) (by simp)
  cases h with
  | @again side | @alone side => exact hp.of_eq hrules (by simp) (by simp) (by simp)
  | goOn hs hn hw hu => simp [Match.unforgiven, hp.waiting hw] at hu
  | @forced side now =>
    refine ⟨hrules ▸ h0, by simpa [forced] using hp.ball, ?_⟩
    intro hw
    simp [forced] at hw
  | begin hs hr ha => omega
  | unforgiven | back => exact hp.of_eq hrules (by simp) (by simp) (by simp)
  | absent | stale | still => exact hp
  | left => exact hp.of_eq rfl rfl rfl rfl
  | pause hs hg hf ha => omega
  | surrender | expired | finish => exact hp.finish ..
  | startPassed | reconnectPassed | celebrated => exact (cancelled _).finish ..
  | needless => exact cancelled _
  | @stepped now q hx hw ht hq =>
    obtain ⟨hi, hb⟩ : p.game.arena.Rests (p.simulated now) := Arena.rests_replayFrom hp.ball
    rw [hi] at hq
    cases hq
    exact hp.of_eq rfl hb rfl rfl
  | close => exact absurd hm (by simp [Move.Ordinary])
  | @record side s =>
    obtain ⟨logs, hl⟩ := record_eq p side s
    rw [hl]
    exact hp.of_eq rfl rfl rfl rfl

/-- From the first start of a match to its last goal, its ball is live if sides may return, and
lies dead if they may not: then the first pair counts as a return too many, and nobody serves. -/
theorem ball_live_iff_allowance {fixture : Fixture} {rules : Rules} {seed : UInt64}
    (hm : ∀ m ∈ ms, m.Ordinary) (h : (start fixture rules seed now).run ms = .ok p)
    (hs : p.game.stepper.startedAt ≠ none) (he : p.game.phase ≠ .ended)
    (hf : p.game.finishing = false) : p.game.arena.ball.Live ↔ 0 < rules.allowance := by
  constructor
  · intro hb
    by_contra ha
    have hn : Neglected p := by
      refine run_from_start (A := Move.Ordinary) ?_ ?_ (neglected_start (by omega)) hm h
      · exact fun hm hp _ hs => neglected_step hp hm hs
      · exact fun logs hp => hp.of_eq rfl rfl rfl rfl
    exact hn.ball hb
  · intro ha
    have ht : Covered p ∧ Tended p := by
      refine run_from_start (I := fun p => Covered p ∧ Tended p) (A := Move.Ordinary) ?_ ?_
        ⟨covered_start fixture rules seed, tended_start ha⟩ hm h
      · rintro p m q hm ⟨hc, hp⟩ he hs
        refine ⟨covered_step hm he hc hs, tended_step he ?_ hp hm hs⟩
        exact hc.2.resolve_right fun ho => he ho.phase
      · rintro p logs ⟨hc, hp⟩
        exact ⟨covered_logs hc logs, hp.of_ball rfl rfl rfl id⟩
    rcases ht.2.ball hs with hb | hb | hb
    · exact absurd hb he
    · simp [hf] at hb
    · exact hb

/-- A match that has begun under rules without returns, with its ball dead in the center. -/
theorem ball_live_iff_allowance_zero :
    ∃ p, (start duel { allowance := 0 } 7 0).run [.join .left 0, .join .right 10] = .ok p ∧
      p.game.phase = .playing ∧ p.game.stepper.startedAt = some 10 ∧
      p.game.finishing = false ∧ ¬ p.game.arena.ball.Live := by
  obtain ⟨p, hp, hw, hs, hf⟩ := exists_run (start duel { allowance := 0 } 7 0)
    [.join .left 0, .join .right 10]
    (fun p => p.game.phase = .playing ∧ p.game.stepper.startedAt = some 10 ∧
      p.game.finishing = false) (by decide +kernel)
  have h := ball_live_iff_allowance (by decide) hp (by simp [hs]) (by simp [hw]) hf
  exact ⟨p, hp, hw, hs, hf, by simp [h]⟩

end Play
end Rally
