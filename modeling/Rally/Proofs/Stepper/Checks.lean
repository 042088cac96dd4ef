import Rally.Proofs.Arena.Checks
import Rally.Proofs.Stepper.Window

/-! A stepper that checks its operations, and why none of its checks fails but the count of
ticks. -/
namespace Rally

namespace InputLog
variable {log : InputLog}

/-- The number of samples up to an instant, which must all stand before the others. -/
def countUpTo (log : InputLog) (t : Nat) : Checked Nat :=
  if (log.samples.dropWhile (·.time ≤ t)).all (t < ·.time) then
    return (log.samples.takeWhile (·.time ≤ t)).length
  else .error .slice

/-- The samples of a window, cut out of the log. -/
def betweenChecked (log : InputLog) (after upto : Nat) : Checked (List Sample) :=
  if upto ≤ after then return []
  else do
    let first ← log.countUpTo after
    let last ← log.countUpTo upto
    if first ≤ last ∧ last ≤ log.samples.length then
      return (log.samples.take last).drop first
    else .error .slice

def windowChecked (log : InputLog) (after upto : Nat) : Checked (List Sample × InputLog) := do
  let samples ← log.betweenChecked after upto
  return (samples, log.consume after upto)

theorem countUpTo_eq (h : InOrder log.samples) (t : Nat) :
    log.countUpTo t = .ok (log.samples.filter (·.time ≤ t)).length := by
  have hlater : (log.samples.dropWhile (·.time ≤ t)).all (t < ·.time) = true := by
    rw [h.dropWhile_le]
    exact List.all_eq_true.mpr fun s hs => (List.mem_filter.mp hs).2
  rw [countUpTo, if_pos hlater, h.takeWhile_le]
  rfl

theorem betweenChecked_eq (h : InOrder log.samples) (after upto : Nat) :
    log.betweenChecked after upto = .ok (log.between after upto) := by
  rw [between_eq_filter h, betweenChecked]
  split
  · rename_i hle
    refine congrArg Except.ok (List.filter_eq_nil_iff.mpr fun s _ => ?_).symm
    simp only [decide_eq_true_eq]
    omega
  · rename_i hlt
    -- What comes up to the end is what comes up to the start, and then the window.
    have hparts : log.samples.filter (·.time ≤ upto) = log.samples.filter (·.time ≤ after) ++
        log.samples.filter fun s => after < s.time ∧ s.time ≤ upto :=
      h.filter_split after (fun s => by omega) (fun s => by omega)
    have htake : log.samples.take (log.samples.filter (·.time ≤ upto)).length =
        log.samples.filter (·.time ≤ upto) := by
      rw [← h.takeWhile_le]
      exact (List.prefix_iff_eq_take.mp (List.takeWhile_prefix _)).symm
    have hle : (log.samples.filter (·.time ≤ after)).length ≤
        (log.samples.filter (·.time ≤ upto)).length := by
      rw [hparts, List.length_append]
      exact Nat.le_add_right ..
    simp only [countUpTo_eq h, Checked.ok_bind]
    rw [if_pos ⟨hle, List.length_filter_le ..⟩, htake, hparts, List.drop_left]
    rfl

theorem windowChecked_eq (h : InOrder log.samples) (after upto : Nat) :
    log.windowChecked after upto = .ok (log.window after upto) := by
  rw [windowChecked, betweenChecked_eq h]
  rfl

end InputLog

namespace Stepper
variable {s : Stepper} {now : Nat} {a : Arena} {logs : Sides InputLog}

/-- One more tick, of which there must be fewer than 64 bits can count. -/
def countTick (s : Stepper) : Checked Nat :=
  if s.ticks + 1 < 2 ^ 64 then return s.ticks + 1 else .error .ticks

def resumeChecked (s : Stepper) (now : Nat) (a : Arena) (logs : Sides InputLog) :
    Checked (Stepper × Arena × Sides InputLog) := do
  let (left, leftLog) ← logs.left.windowChecked s.lastTick now
  let (right, rightLog) ← logs.right.windowChecked s.lastTick now
  return (s.start now, steerLast .right right (steerLast .left left a), ⟨leftLog, rightLog⟩)

def tickChecked (s : Stepper) (now : Nat) (a : Arena) (logs : Sides InputLog) :
    Checked TickResult :=
  if s.expired now then return .expired
  else if now - s.lastTick < s.pace.tick then return .idle
  else do
    let (left, leftLog) ← logs.left.windowChecked s.lastTick now
    let (right, rightLog) ← logs.right.windowChecked s.lastTick now
    let played ← a.replayChecked s.lastTick now ⟨left, right⟩
    let ticks ← s.countTick
    let snapshot := played.arena.snapshot ticks now
    return .stepped { s with lastTick := now, ticks, recent := s.recent.push snapshot }
      ⟨leftLog, rightLog⟩ played snapshot

theorem reined_steerLast (h : a.Reined) (side : Side) (xs : List Sample) :
    (steerLast side xs a).Reined := by
  unfold steerLast
  split
  · exact h.steer side _
  · exact h

theorem resumeChecked_eq (ho : ∀ side, InOrder (logs.get side).samples) :
    s.resumeChecked now a logs = .ok (s.resume now a logs) := by
  have hl : InOrder logs.left.samples := ho .left
  have hr : InOrder logs.right.samples := ho .right
  rw [resumeChecked, InputLog.windowChecked_eq hl, InputLog.windowChecked_eq hr]
  rfl

/-- Until there are too many ticks to count, no check of a tick fails. -/
theorem tickChecked_eq (ho : ∀ side, InOrder (logs.get side).samples) (ha : a.Reined) :
    s.tickChecked now a logs = .ok (s.tick now a logs) ∨
      s.tickChecked now a logs = .error .ticks ∧ 2 ^ 64 ≤ s.ticks + 1 := by
  have hl : InOrder logs.left.samples := ho .left
  have hr : InOrder logs.right.samples := ho .right
  unfold tickChecked tick
  split
  · exact .inl rfl
  · split
    · exact .inl rfl
    · rw [InputLog.windowChecked_eq hl, InputLog.windowChecked_eq hr]
      simp only [Checked.ok_bind, ha.replayChecked, countTick]
      by_cases hc : s.ticks + 1 < 2 ^ 64
      · rw [if_pos hc]
        exact .inl rfl
      · rw [if_neg hc]
        exact .inr ⟨rfl, Nat.le_of_not_lt hc⟩

end Stepper
end Rally
