import Rally.Proofs.Match.Steps

/-! What lasts in a match: its rules through all moves, and who is there through most of them. -/
namespace Rally

/-- Who is there after a move. -/
def Move.attend (ready : Sides Bool) : Move → Sides Bool
  | .join side _ => ready.set side true
  | .leave side _ => ready.set side false
  | _ => ready

namespace Play
variable {p q : Play} {now : Nat} {m : Move} {i : Incident} {is : List Incident}

theorem finish_startedAt (p : Play) (reason : EndReason) (named : Option Side) :
    (p.finish reason named).game.stepper.startedAt = p.game.stepper.startedAt := by
  by_cases he : p.game.phase = .ended
  · rw [finish_of_ended p reason named he]
  · rw [finish_game p reason named he, close_game]
    split <;> rfl

/-- The rules and the first start of a match are the same. -/
def Alike (p q : Play) : Prop :=
  q.game.rules = p.game.rules ∧ q.game.stepper.startedAt = p.game.stepper.startedAt

theorem Alike.trans {r : Play} (hpq : Alike p q) (hqr : Alike q r) : Alike p r :=
  ⟨hqr.1.trans hpq.1, hqr.2.trans hpq.2⟩

theorem finish_alike (p : Play) (reason : EndReason) (named : Option Side) :
    Alike p (p.finish reason named) :=
  ⟨(finish_keeps p reason named).2.1, finish_startedAt p reason named⟩

theorem Served.alike (h : Served now p q) : Alike p q := by
  obtain ⟨dice, direction, rfl⟩ := h
  exact ⟨rfl, rfl⟩

theorem reply_alike (h : Reply p now i q) : Alike p q := by
  cases h with
  | hit | wall | trigger | lateGoal | lateStuck => exact ⟨rfl, rfl⟩
  | stuck hf hs => exact hs.alike
  | @point scorer q hf hr hs =>
    have hsc : Alike p (p.scored scorer) := ⟨rfl, rfl⟩
    exact hsc.trans hs.alike
  | @final scorer =>
    have hl : Alike p (p.scored scorer).lastGoal := ⟨rfl, rfl⟩
    exact hl.trans (finish_alike ..)
  | @celebrate scorer => exact ⟨by simp [lastGoal, scored], by simp [lastGoal, scored]⟩

theorem respondAll_alike (he : p.game.phase ≠ .ended) (h : p.respondAll now is = .ok q) :
    Alike p q := by
  refine respondAll_invariant ?_ he ⟨rfl, rfl⟩ h
  intro r i s _ hr hrs
  exact hr.trans (reply_alike hrs)

/-- The rules never change. -/
theorem step_rules (h : Step p m q) : q.game.rules = p.game.rules := by
  cases h with
  | again | alone => simp
  | goOn hs ho hw hu hq | begin hs ho ha hw hq => simp [hq.alike.1]
  | forced => simp [forced]
  | unforgiven | back => simp
  | absent | stale | still => rfl
  | left => rfl
  | @pause side now => simp [left]
  | needless => simp
  | surrender | expired | finish | startPassed | reconnectPassed | celebrated => simp
  | @stepped now q he hw ht hq =>
    have hs : (p.stepped now).game.phase ≠ .ended := by simp [Play.stepped, hw]
    exact (respondAll_alike hs hq).1
  | close =>
    rw [close_game]
    split <;> rfl
  | @record side s =>
    obtain ⟨logs, hl⟩ := record_eq p side s
    rw [hl]
    rfl

theorem reply_ready (h : Reply p now i q) : q.game.ready = p.game.ready := by
  cases h with
  | hit | wall | trigger | lateGoal | lateStuck => rfl
  | stuck hf hs | point hf hr hs =>
    obtain ⟨dice, direction, rfl⟩ := hs
    rfl
  | final => simp [lastGoal, scored]
  | celebrate => simp [lastGoal, scored]

theorem respondAll_ready (he : p.game.phase ≠ .ended) (h : p.respondAll now is = .ok q) :
    q.game.ready = p.game.ready := by
  refine respondAll_invariant (I := fun q => q.game.ready = p.game.ready) ?_ he rfl h
  intro r i s _ hr hrs
  rw [reply_ready hrs, hr]

/-- A side comes by joining and goes by leaving, and by nothing else. -/
theorem step_ready (h : Step p m q) : q.game.ready = m.attend p.game.ready := by
  cases h with
  | again | alone | back => simp [Move.attend]
  | goOn hs ho hw hu hq | begin hs ho ha hw hq =>
    obtain ⟨dice, direction, rfl⟩ := hq
    simp [serveAlong, Move.attend]
  | forced | unforgiven => simp [forced, Move.attend]
  | @absent side now hs =>
    have := p.game.ready.set_get side
    rw [hs] at this
    exact this.symm
  | left => rfl
  | pause => simp [left, Move.attend]
  | surrender | expired | finish | startPassed | reconnectPassed | celebrated | needless =>
    simp [Move.attend]
  | stale | still => rfl
  | @stepped now q he hw ht hq =>
    have hs : (p.stepped now).game.phase ≠ .ended := by simp [Play.stepped, hw]
    have hr := respondAll_ready hs hq
    exact hr
  | close =>
    rw [close_game]
    split <;> rfl
  | @record side s =>
    obtain ⟨logs, hl⟩ := record_eq p side s
    rw [hl]
    rfl

end Play
end Rally
