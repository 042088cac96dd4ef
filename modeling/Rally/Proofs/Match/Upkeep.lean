import Rally.Proofs.Match.Forgiveness
import Rally.Proofs.Match.Scoring
import Rally.Proofs.Match.Serving
import Rally.Proofs.Match.Staleness
import Rally.Proofs.Stepper.Checks

/-! What every move keeps in order, and how little it adds to what is counted. -/
namespace Rally

/-- Whether a move is that a side comes. -/
def Move.joins (side : Side) : Move → Bool
  | .join s _ => s == side
  | _ => false

/-- Whether a side comes in a passage. -/
def Passage.joins (side : Side) (x : Passage) : Bool := x.move.joins side

/-- How many sides come in a move. -/
def Move.arrivals (m : Move) : Nat := (m.joins .left).toNat + (m.joins .right).toNat

/-- The timers that have been set, and those that can be set before anyone comes again: one for each
side that is there to leave, and one for the last goal. -/
def Match.alarms (m : Match) : Nat :=
  m.timers.count + m.ready.left.toNat + m.ready.right.toNat + (!m.finishing).toNat

theorem Sides.toNat_set (s : Sides Bool) (side : Side) (b : Bool) :
    (s.set side b).left.toNat + (s.set side b).right.toNat + (s.get side).toNat =
      s.left.toNat + s.right.toNat + b.toNat := by
  cases side <;> simp [set, modify, get] <;> omega

namespace Play
variable {p q r : Play} {now t u a b : Nat} {m : Move} {i : Incident} {is js : List Incident}
  {side : Side}

/-- By the way from one state to another the arena and the logs have been kept in order. Of what has
happened each hit has been counted at most once, and there have been so many ticks and arrivals at
most. -/
structure Kept (is : List Incident) (ticks arrivals : Nat) (p q : Play) : Prop where
  rules : q.game.rules = p.game.rules
  params : q.game.arena.params = p.game.arena.params
  reined : p.game.arena.Reined → q.game.arena.Reined
  order : Ordered p → Ordered q
  hits : ∀ side, q.game.hits.get side ≤ p.game.hits.get side + is.count (.hit side)
  ticks : q.game.stepper.ticks ≤ p.game.stepper.ticks + ticks
  alarms : q.game.alarms ≤ p.game.alarms + arrivals

namespace Kept

theorem trans (hpq : Kept is t a p q) (hqr : Kept js u b q r) :
    Kept (is ++ js) (t + u) (a + b) p r := by
  refine ⟨hqr.rules.trans hpq.rules, hqr.params.trans hpq.params, hqr.reined ∘ hpq.reined,
    hqr.order ∘ hpq.order, fun side => ?_, ?_, ?_⟩
  · have h₁ := hpq.hits side
    have h₂ := hqr.hits side
    rw [List.count_append]
    omega
  · have h₁ := hpq.ticks
    have h₂ := hqr.ticks
    omega
  · have h₁ := hpq.alarms
    have h₂ := hqr.alarms
    omega

/-- Nothing more has been counted. -/
theorem quietly (hpq : Kept is t a p q) (hqr : Kept [] 0 0 q r) : Kept is t a p r := by
  simpa using hpq.trans hqr

/-- More may have happened. -/
theorem mono (h : Kept is t a p q) (his : is.Sublist js) (ht : t ≤ u) (ha : a ≤ b) :
    Kept js u b p q := by
  refine ⟨h.rules, h.params, h.reined, h.order, fun side => ?_, h.ticks.trans (by omega),
    h.alarms.trans (by omega)⟩
  exact (h.hits side).trans (Nat.add_le_add_left (his.count_le _) _)

/-- Neither the ball nor the logs have been touched, and nothing has been counted but timers. -/
theorem of_eq (hr : q.game.rules = p.game.rules) (ha : q.game.arena = p.game.arena)
    (hl : q.game.logs = p.game.logs) (hh : q.game.hits = p.game.hits)
    (hs : q.game.stepper.ticks = p.game.stepper.ticks) (hn : q.game.alarms ≤ p.game.alarms + a) :
    Kept [] 0 a p q := by
  refine ⟨hr, by rw [ha], fun h => ha ▸ h, fun h side => hl ▸ h side, fun side => ?_, hs.le, hn⟩
  rw [hh]
  exact Nat.le_add_right ..

theorem refl (p : Play) : Kept [] 0 0 p p := of_eq rfl rfl rfl rfl rfl (Nat.le_refl _)

end Kept

theorem kept_cancel (p : Play) (d : Deadline) : Kept [] 0 0 p (p.cancel d) :=
  .of_eq (by simp) (by simp) (by simp) (by simp) (by simp) (by simp [Match.alarms])

theorem kept_welcome (p : Play) (side : Side) : Kept [] 0 1 p (p.welcome side) := by
  refine .of_eq (by simp) (by simp) (by simp) (by simp) (by simp) ?_
  have hset := p.game.ready.toNat_set side true
  simp only [Match.alarms, welcome_game, Match.timersWithout_count]
  simp only [Bool.toNat_true] at hset
  omega

theorem kept_paired (p : Play) (side : Side) : Kept [] 0 1 p (p.paired side) := by
  have hp : Kept [] 0 0 (p.welcome side) (p.paired side) := by
    refine .of_eq (by simp) (by simp) (by simp) (by simp) (by simp) ?_
    simp [Match.alarms]
  exact (kept_welcome p side).trans hp

theorem kept_resume (p : Play) (now : Nat) : Kept [] 0 0 p (p.resume now) := by
  refine ⟨rfl, by simp, fun h => ?_, fun h => ?_, fun _ => Nat.le_add_right .., le_rfl, le_rfl⟩
  · exact Stepper.reined_steerLast (Stepper.reined_steerLast h .left _) .right _
  · exact h.of_consumed now (by simp [Stepper.resume_eq])

theorem kept_underWay (p : Play) (now : Nat) (message : String) :
    Kept [] 0 0 p (p.underWay now message) := by
  unfold underWay
  split
  · have hgo : Kept [] 0 0 (p.resume now) (((p.resume now).change fun m =>
        { m with phase := .playing }).say (.started now message)) :=
      .of_eq rfl rfl rfl rfl rfl le_rfl
    exact (kept_resume p now).trans hgo
  · exact .of_eq rfl rfl rfl rfl rfl le_rfl

theorem Served.kept (h : Served now p q) : Kept [] 0 0 p q := by
  obtain ⟨dice, direction, rfl⟩ := h
  exact ⟨rfl, rfl, id, id, fun _ => Nat.le_add_right .., le_rfl, le_rfl⟩

theorem kept_close (p : Play) : Kept [] 0 0 p p.close := by
  by_cases hc : p.game.closed = true
  · have he : p.close = p := by simp [close, hc]
    rw [he]
    exact .refl p
  · have hg := close_game p
    rw [if_neg hc] at hg
    refine ⟨by rw [hg], by rw [hg], fun h => ?_, fun _ side => ?_, fun _ => ?_, ?_, ?_⟩
    · rw [hg]
      exact h
    · rw [hg, Sides.get_map]
      exact List.Pairwise.nil
    · rw [hg]
      exact Nat.le_add_right ..
    · rw [hg]
      rfl
    · rw [hg]
      simp [Match.alarms]

theorem kept_finish (p : Play) (reason : EndReason) (named : Option Side) :
    Kept [] 0 0 p (p.finish reason named) := by
  by_cases he : p.game.phase = .ended
  · rw [finish_of_ended p reason named he]
    exact .refl p
  · rw [finish_eq p reason named he]
    have hend : Kept [] 0 0 p
        (((p.change fun m => { m with phase := .ended, dice := m.dice.side.2 }).say
          (p.endedNotice reason named)).announce (p.finishedBulletin reason named)) :=
      .of_eq rfl rfl rfl rfl rfl le_rfl
    exact hend.trans (kept_close _)

theorem kept_left (p : Play) (side : Side) : Kept [] 0 0 p (p.left side) := by
  refine .of_eq rfl rfl rfl rfl rfl ?_
  have hset := p.game.ready.toNat_set side false
  simp only [Match.alarms, left, change_game]
  simp only [Bool.toNat_false] at hset
  omega

/-- The timer that is set for a side that leaves has been provided for while it was there. -/
theorem kept_pause (hr : p.game.ready.get side = true) (now : Nat) :
    Kept [] 0 0 p ((p.left side).pause side now) := by
  refine .of_eq (by simp [left]) (by simp [left]) (by simp [left]) (by simp [left])
    (by simp [left]) ?_
  have hset := p.game.ready.toNat_set side false
  simp only [Match.alarms, left, pause_game, change_game, Timers.schedule,
    Match.timersWithout_count]
  simp only [hr, Bool.toNat_false, Bool.toNat_true] at hset
  omega

theorem kept_lastGoal (p : Play) : Kept [] 0 0 p p.lastGoal := by
  refine ⟨rfl, rfl, id, id, fun _ => Nat.le_add_right .., le_rfl, ?_⟩
  simp [Match.alarms, lastGoal]

/-- So has the timer of the last goal. -/
theorem kept_celebrate (hf : p.game.finishing = false) (now delay : Nat) :
    Kept [] 0 0 p (p.lastGoal.schedule .celebration now delay) := by
  have hstop : { p.game.arena with ball := p.game.arena.ball.stop }.Reined ↔ p.game.arena.Reined :=
    Iff.rfl
  refine ⟨by simp [lastGoal], by simp [lastGoal], fun h => ?_, fun h side => ?_, fun _ => ?_, ?_,
    ?_⟩
  · simpa [lastGoal, hstop] using h
  · simpa [lastGoal] using h side
  · simp [lastGoal]
  · simp [lastGoal]
  · simp only [Match.alarms, schedule_game, lastGoal, change_game, Timers.schedule,
      Match.timersWithout_count, hf, Bool.not_true, Bool.not_false, Bool.toNat_false,
      Bool.toNat_true]
    omega

theorem kept_reply (h : Reply p now i q) : Kept [i] 0 0 p q := by
  have some {is : List Incident} (h : Kept [] 0 0 p q) : Kept is 0 0 p q :=
    h.mono (List.nil_sublist _) le_rfl le_rfl
  have scores (scorer : Side) : Kept [] 0 0 p (p.scored scorer) := .of_eq rfl rfl rfl rfl rfl le_rfl
  cases h with
  | @hit side =>
    refine ⟨rfl, rfl, id, id, fun other => ?_, le_rfl, le_rfl⟩
    cases side <;> cases other <;> simp [Sides.get, Sides.modify]
  | wall | trigger | lateGoal | lateStuck => exact some (.refl p)
  | stuck hf hs => exact some hs.kept
  | point hf hr hs => exact some ((scores _).quietly hs.kept)
  | final => exact some (((scores _).quietly (kept_lastGoal _)).quietly (kept_finish ..))
  | @celebrate scorer hf =>
    have hs : (p.scored scorer).game.finishing = false := hf
    exact some ((scores scorer).quietly (kept_celebrate hs ..))

theorem kept_respondAll (h : p.respondAll now is = .ok q) : Kept is 0 0 p q := by
  induction is generalizing p with
  | nil =>
    cases h
    exact .refl _
  | cons i is ih =>
    obtain ⟨r, hr, ⟨-, rfl⟩ | ⟨-, h⟩⟩ := respondAll_cons h
    · exact (kept_reply hr).mono (List.cons_sublist_cons.mpr (List.nil_sublist _)) le_rfl le_rfl
    · exact (kept_reply hr).trans (ih h)

theorem kept_stepped (p : Play) (now : Nat) : Kept [] 1 0 p (p.stepped now) := by
  refine ⟨rfl, Arena.params_replay .., fun h => h.replay _ _ _, fun h => h.of_consumed now rfl,
    fun _ => Nat.le_add_right .., le_rfl, le_rfl⟩

theorem kept_record (p : Play) (side : Side) (s : Sample) : Kept [] 0 0 p (p.record side s) := by
  have horder := fun h : Ordered p => ordered_record h side s
  obtain ⟨logs, hl⟩ := record_eq p side s
  rw [hl] at horder ⊢
  exact ⟨rfl, rfl, id, horder, fun _ => Nat.le_add_right .., le_rfl, le_rfl⟩

theorem kept_step (h : Step p m q) : Kept (⟨p, m, q⟩ : Passage).incidents 1 m.arrivals p q := by
  -- All moves but the ticks that simulate a window.
  have plain {n : Nat} (h : Kept [] 0 n p q) (hn : n ≤ m.arrivals) :
      Kept (⟨p, m, q⟩ : Passage).incidents 1 m.arrivals p q :=
    h.mono (List.nil_sublist _) (Nat.zero_le _) hn
  have comes (side : Side) (now : Nat) : 1 ≤ (Move.join side now).arrivals := by
    cases side <;> exact le_rfl
  cases h with
  | again | alone => exact plain (kept_welcome p _) (comes ..)
  | goOn _ _ _ _ hq =>
    exact plain (((kept_welcome p _).quietly (kept_underWay ..)).quietly hq.kept) (comes ..)
  | begin _ _ _ _ hq =>
    exact plain (((kept_paired p _).quietly (kept_underWay ..)).quietly hq.kept) (comes ..)
  | @forced side now =>
    have hgo : Kept [] 0 0 ((p.paired side).resume now) (p.forced side now) :=
      .of_eq rfl rfl rfl rfl rfl le_rfl
    exact plain (((kept_paired p side).quietly (kept_resume ..)).quietly hgo) (comes ..)
  | @unforgiven side now =>
    have hsay : Kept [] 0 0 (p.paired side) ((p.paired side).say (unforgivenNotice now)) :=
      .of_eq rfl rfl rfl rfl rfl le_rfl
    exact plain ((kept_paired p side).quietly hsay) (comes ..)
  | back => exact plain (kept_paired p _) (comes ..)
  | absent | stale | still => exact plain (.refl p) (Nat.zero_le _)
  | left => exact plain (kept_left p _) (Nat.zero_le _)
  | pause hs => exact plain (kept_pause hs _) (Nat.zero_le _)
  | needless => exact plain (kept_cancel p _) (Nat.zero_le _)
  | surrender | expired | finish => exact plain (kept_finish p ..) (Nat.zero_le _)
  | startPassed | reconnectPassed | celebrated =>
    exact plain ((kept_cancel p _).quietly (kept_finish ..)) (Nat.zero_le _)
  | @stepped now q he hw ht hq =>
    rw [incidents_stepped he hw ht]
    exact (kept_stepped p now).trans (kept_respondAll hq)
  | close => exact plain (kept_close p) (Nat.zero_le _)
  | record => exact plain (kept_record p ..) (Nat.zero_le _)

/-- After the end too: then only inputs are taken note of. -/
theorem kept_apply (hset : Settled p) (h : p.apply m = .ok q) :
    Kept (⟨p, m, q⟩ : Passage).incidents 1 m.arrivals p q := by
  by_cases he : p.game.phase = .ended
  · have hkept : Kept [] 0 0 p q := by
      by_cases hm : ∀ side s, m ≠ .record side s
      · rw [apply_of_ended he (hset.closed he) hm] at h
        cases h
        exact .refl p
      · push Not at hm
        obtain ⟨side, s, rfl⟩ := hm
        cases h
        exact kept_record p side s
    exact hkept.mono (List.nil_sublist _) (Nat.zero_le _) (Nat.zero_le _)
  · exact kept_step (step_of_apply he h)

/-- Whoever completes the pair has come. -/
theorem returns_apply (hset : Settled p) (h : p.apply m = .ok q) (side : Side) :
    q.game.returns.get side ≤ p.game.returns.get side + (m.joins side).toNat := by
  rcases hset.step_or_over h with ⟨he, hs⟩ | ⟨-, logs, rfl⟩
  · rw [step_returns he hs]
    cases hc : p.completer? m with
    | none => exact Nat.le_add_right ..
    | some other =>
      obtain ⟨now, rfl, -⟩ := completer?_eq_some.mp hc
      simp only [Option.elim_some]
      cases other <;> cases side <;> simp [Sides.get, Sides.modify, Move.joins]
  · exact Nat.le_add_right ..

end Play
end Rally
