import Rally.Proofs.Match.Passages

/-! The course of play: what a move does to the stepper, to the logs and to the
way the paddles go. -/
namespace Rally
namespace Play
variable {p q r : Play} {now : Nat} {m : Move} {i : Incident} {is : List Incident}

/-- The paddles are where they were, and so is all of the stepper unless the match has ended. -/
structure Unmoved (p q : Play) : Prop where
  paddles : q.game.arena.paddles = p.game.arena.paddles
  goesOn : q.game.phase ≠ .ended → q.game.stepper = p.game.stepper ∧
    q.game.logs = p.game.logs ∧ q.game.phase = p.game.phase

theorem Unmoved.refl (p : Play) : Unmoved p p := ⟨rfl, fun _ => ⟨rfl, rfl, rfl⟩⟩

theorem Unmoved.trans (hpq : Unmoved p q) (hq : q.game.phase ≠ .ended) (hqr : Unmoved q r) :
    Unmoved p r := by
  refine ⟨hqr.paddles.trans hpq.paddles, fun hr => ?_⟩
  obtain ⟨hs, hl, hp⟩ := hqr.goesOn hr
  obtain ⟨hs', hl', hp'⟩ := hpq.goesOn hq
  exact ⟨hs.trans hs', hl.trans hl', hp.trans hp'⟩

theorem finish_paddles (p : Play) (reason : EndReason) (named : Option Side) :
    (p.finish reason named).game.arena.paddles = p.game.arena.paddles := by
  by_cases he : p.game.phase = .ended
  · rw [finish_of_ended p reason named he]
  · rw [finish_game p reason named he, close_game]
    split <;> rfl

theorem unmoved_finish (p : Play) (reason : EndReason) (named : Option Side) :
    Unmoved p (p.finish reason named) :=
  ⟨finish_paddles .., fun h => absurd (finish_phase ..) h⟩

theorem Served.unmoved (h : Served now p q) : Unmoved p q := by
  obtain ⟨dice, direction, rfl⟩ := h
  exact ⟨rfl, fun _ => ⟨rfl, rfl, rfl⟩⟩

theorem unmoved_reply (he : p.game.phase ≠ .ended) (h : Reply p now i q) : Unmoved p q := by
  cases h with
  | hit | wall | trigger | lateGoal | lateStuck => exact ⟨rfl, fun _ => ⟨rfl, rfl, rfl⟩⟩
  | stuck hf hs => exact hs.unmoved
  | @point scorer q hf hr hs =>
    have hsc : Unmoved p (p.scored scorer) := ⟨rfl, fun _ => ⟨rfl, rfl, rfl⟩⟩
    exact hsc.trans he hs.unmoved
  | @final scorer =>
    have hl : Unmoved p (p.scored scorer).lastGoal := ⟨rfl, fun _ => ⟨rfl, rfl, rfl⟩⟩
    exact hl.trans he (unmoved_finish ..)
  | @celebrate scorer =>
    exact ⟨by simp [lastGoal, scored], fun _ => by simp [lastGoal, scored]⟩

theorem unmoved_respondAll (he : p.game.phase ≠ .ended) (h : p.respondAll now is = .ok q) :
    Unmoved p q := by
  refine respondAll_invariant ?_ he (.refl p) h
  intro r i s hr hpr hrs
  exact hpr.trans hr (unmoved_reply hr hrs)

/-- What a move does to the course of play in a match that has not ended. -/
inductive Course (p : Play) (m : Move) (q : Play) : Prop where
  /-- Nothing, except that play may stop. -/
  | rests (hw : p.window? m = none) (hm : ∀ side s, m ≠ .record side s)
      (ha : q.game.arena.paddles = p.game.arena.paddles)
      (hs : q.game.stepper = p.game.stepper) (hl : q.game.logs = p.game.logs)
      (hp : q.game.phase = .playing → p.game.phase = .playing)
      (hn : p.game.stepper.startedAt = none → q.game.returns = p.game.returns)
  | recorded {side : Side} {s : Sample} (hm : m = .record side s) (hq : q = p.record side s)
  /-- Play begins for the first time, and nothing is taken from the logs. -/
  | begins {now : Nat} (hm : ∃ side, m = .join side now) (hw : p.game.phase = .waiting)
      (hg : p.game.stepper.startedAt = none) (hr : p.game.rules.allowance ≠ 0)
      (ha : q.game.arena.paddles = p.game.arena.paddles)
      (hs : q.game.stepper = p.game.stepper.start now) (hl : q.game.logs = p.game.logs)
      (hp : q.game.phase = .playing)
  /-- Play goes on after a pause, or a side has returned too often, be it at the start. -/
  | resumes {now : Nat} (hm : ∃ side, m = .join side now) (hw : p.game.phase = .waiting)
      (hr : p.game.stepper.startedAt ≠ none ∨
        ∃ side, p.game.rules.allowance < p.game.returns.get side + 1)
      (ha : q.game.arena.paddles =
        (p.game.stepper.resume now p.game.arena p.game.logs).2.1.paddles)
      (hs : q.game.stepper = p.game.stepper.start now)
      (hl : q.game.logs = p.game.stepper.consumed now p.game.logs) (hp : q.game.phase = .playing)
  /-- A window is simulated, and what happens in it may end the match. -/
  | ticks {now : Nat} (hm : m = .tick now) (hw : p.window? m = some (p.windowTo now))
      (ha : q.game.arena.paddles = (p.simulated now).arena.paddles)
      (hp : q.game.phase ≠ .ended →
        q.game.stepper = p.game.stepper.stepped now p.game.arena p.game.logs ∧
        q.game.logs = p.game.stepper.consumed now p.game.logs ∧ q.game.phase = .playing)
  | ends (hw : p.window? m = none) (hp : q.game.phase = .ended)

/-- Play gets under way with a serve, for the first time or after a pause. -/
theorem course_underWay {side : Side} {message : String} (hr : r.game.stepper = p.game.stepper)
    (ha : r.game.arena = p.game.arena) (hl : r.game.logs = p.game.logs)
    (hw : p.game.phase = .waiting)
    (hg : p.game.stepper.startedAt = none → p.game.rules.allowance ≠ 0)
    (hq : Served now (r.underWay now message) q) : Course p (.join side now) q := by
  obtain ⟨dice, direction, rfl⟩ := hq
  cases hs : p.game.stepper.startedAt with
  | none =>
    refine .begins ⟨side, rfl⟩ hw hs (hg hs) ?_ ?_ ?_ rfl
    all_goals simp [serveAlong, underWay, hr, ha, hl, hs]
  | some started =>
    refine .resumes ⟨side, rfl⟩ hw (.inl (by simp [hs])) ?_ ?_ ?_ rfl
    all_goals simp [serveAlong, underWay, hr, ha, hl, hs, Stepper.resume_eq]

theorem course_step (hm : m.Ordinary) (ho : Open p.game) (h : Step p m q) : Course p m q := by
  cases h with
  | again | alone =>
    exact .rests rfl (by simp) (by simp) (by simp) (by simp) (by simp) (by simp)
  | unforgiven hs hr ha hw | back hs hr ha hw =>
    refine .rests rfl (by simp) (by simp) (by simp) (by simp) (by simp) fun hn => ?_
    exact absurd hn (ho.started (ho.playing_of_ne hw))
  | @goOn side now q hs hn hw hu hq =>
    refine course_underWay (by simp) (by simp) (by simp) hw (fun hg => ?_) hq
    simp [Match.unforgiven, hg] at hu
  | @begin side now q hs hr ha hw hq =>
    refine course_underWay (by simp) (by simp) (by simp) hw (fun hg h0 => ?_) hq
    omega
  | @forced side now hs hr ha hw =>
    refine .resumes ⟨side, rfl⟩ hw (.inr ⟨side, ha⟩) ?_ ?_ ?_ rfl
    all_goals simp [forced, Stepper.resume_eq]
  | absent | stale => exact .rests rfl (by simp) rfl rfl rfl id fun _ => rfl
  | left => exact .rests rfl (by simp) rfl rfl rfl id fun _ => rfl
  | @pause side now hs hg hf ha =>
    refine .rests rfl (by simp) (by simp [left]) (by simp [left]) (by simp [left]) ?_
      (by simp [left])
    intro hp
    rw [pause_game] at hp
    split at hp <;> simp_all [left]
  | needless hid hd => exact (not_needless ho hid hd).elim
  | surrender | finish => exact .ends rfl (finish_phase ..)
  | startPassed | reconnectPassed | celebrated => exact .ends rfl (finish_phase ..)
  | expired he => exact .ends (window?_expired he) (finish_phase ..)
  | still he h => exact .rests (window?_still h) (by simp) rfl rfl rfl id fun _ => rfl
  | @stepped now q he hw ht hq =>
    have hs : (p.stepped now).game.phase ≠ .ended := ho.phase
    have hu := unmoved_respondAll hs hq
    refine .ticks rfl (window?_stepped he hw ht) hu.paddles fun hq => ?_
    obtain ⟨hst, hl, hp⟩ := hu.goesOn hq
    exact ⟨hst, hl, hp.trans hw⟩
  | close => exact absurd hm (by simp [Move.Ordinary])
  | record => exact .recorded rfl rfl

/-- After a window the paddles are where it has left them, even if the match has ended. -/
theorem Course.paddles {w : Window} (h : Course p m q) (hw : p.window? m = some w) :
    q.game.arena.paddles = w.played.arena.paddles := by
  cases h with
  | ticks hm hs ha hp =>
    rw [hs] at hw
    cases hw
    exact ha
  | rests hn | ends hn =>
    rw [hn] at hw
    cases hw
  | recorded hm =>
    subst hm
    cases hw
  | begins hm | resumes hm =>
    obtain ⟨side, rfl⟩ := hm
    cases hw

end Play
end Rally
