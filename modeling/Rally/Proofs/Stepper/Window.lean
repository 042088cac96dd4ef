import Rally.Proofs.InputLog.Retention
import Rally.Proofs.Side
import Rally.Stepper

/-! The window that a stepper takes at an instant: its inputs, and what comes of it. -/
namespace Rally

/-- The paddle with the way of the newest of some samples, or as it was if there is none. -/
def Paddle.follow (p : Paddle) (samples : List Sample) : Paddle :=
  { p with direction := (samples.getLast?.map Sample.direction).getD p.direction }

namespace Stepper
variable (s : Stepper) (now : Nat) (a : Arena) (logs : Sides InputLog)

/-- The inputs of the window from the last tick to `now`. -/
def inputs : Sides (List Sample) := logs.map (·.between s.lastTick now)

/-- The logs after that window has been taken. -/
def consumed : Sides InputLog := logs.map (·.consume s.lastTick now)

/-- What happens in an arena in that window. -/
def simulated : Played := a.replay s.lastTick now (s.inputs now logs)

/-- The view of the arena at the end of that window. -/
def snapshot : Snapshot := (s.simulated now a logs).arena.snapshot (s.ticks + 1) now

/-- The stepper at the end of that window. -/
def stepped : Stepper :=
  { s with
    lastTick := now
    ticks := s.ticks + 1
    recent := s.recent.push (s.snapshot now a logs) }

theorem inputs_get (side : Side) :
    (s.inputs now logs).get side = (logs.get side).between s.lastTick now := Sides.get_map ..

theorem resume_eq : s.resume now a logs =
    (s.start now,
      steerLast .right (s.inputs now logs).right (steerLast .left (s.inputs now logs).left a),
      s.consumed now logs) := rfl

theorem tick_eq : s.tick now a logs =
    if s.expired now then .expired
    else if now - s.lastTick < s.pace.tick then .idle
    else .stepped (s.stepped now a logs) (s.consumed now logs) (s.simulated now a logs)
      (s.snapshot now a logs) := rfl

theorem steerLast_eq {side : Side} {samples : List Sample} (hv : ∀ x ∈ samples, x.Valid) :
    steerLast side samples a = { a with paddles := a.paddles.modify side (·.follow samples) } := by
  unfold steerLast Paddle.follow
  cases hl : samples.getLast? with
  | none => cases side <;> rfl
  | some x =>
    have hx := hv x (List.mem_of_getLast? hl)
    simp only [Sample.Valid, not_or] at hx
    simp [Arena.steer, Paddle.steer, hx.1, hx.2]

/-- A resume leaves of its window only the way that each paddle goes. -/
theorem resume_arena (hv : ∀ side, ∀ x ∈ (s.inputs now logs).get side, x.Valid) :
    (s.resume now a logs).2.1 =
      { a with
        paddles := ⟨a.paddles.left.follow (s.inputs now logs).left,
          a.paddles.right.follow (s.inputs now logs).right⟩ } := by
  have hl : ∀ x ∈ (s.inputs now logs).left, x.Valid := hv .left
  have hr : ∀ x ∈ (s.inputs now logs).right, x.Valid := hv .right
  rw [resume_eq, steerLast_eq _ hl, steerLast_eq _ hr]
  rfl

@[simp] theorem steerLast_ball (side : Side) (samples : List Sample) (a : Arena) :
    (steerLast side samples a).ball = a.ball := by
  unfold steerLast
  split <;> rfl

@[simp] theorem resume_ball : (s.resume now a logs).2.1.ball = a.ball := by
  simp [resume_eq]

@[simp] theorem steerLast_params (side : Side) (samples : List Sample) (a : Arena) :
    (steerLast side samples a).params = a.params := by
  unfold steerLast
  split <;> rfl

@[simp] theorem resume_params : (s.resume now a logs).2.1.params = a.params := by
  simp [resume_eq]

end Stepper
end Rally
