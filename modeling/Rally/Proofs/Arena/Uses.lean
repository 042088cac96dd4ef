import Rally.Proofs.Arena.Frame
import Rally.Proofs.Match.Moves
import Rally.Proofs.Stepper.Window

/-! Runs of an arena: what may be done with one, in any order and at any times. -/
namespace Rally

/-- Something that is done with an arena. -/
inductive Use where
  | sweep (seconds : Scalar)
  | replay (start stop : Nat) (samples : Sides (List Sample))
  | steer (side : Side) (direction : Int8)
  | serve (now : Nat) (toward : Side) (angle : Scalar)
  /-- The ball is put in the center, to leave along any direction. -/
  | spawn (direction : Vec) (resumeAt : Nat)
  /-- Any stepper goes on after a pause, with any logs. -/
  | resume (stepper : Stepper) (now : Nat) (logs : Sides InputLog)

/-- The ball starts anew. -/
def Use.Serves : Use → Prop
  | .serve .. | .spawn .. => True
  | _ => False

namespace Arena
variable {a b c : Arena} {u : Use} {us vs : List Use}

def use (a : Arena) : Use → Except Fault Arena
  | .sweep seconds => .ok (a.sweep seconds).arena
  | .replay start stop samples => .ok (a.replay start stop samples).arena
  | .steer side direction => .ok (a.steer side direction)
  | .serve now toward angle => a.serve now toward angle
  | .spawn direction resumeAt => .ok { a with ball := a.ball.spawn direction resumeAt }
  | .resume stepper now logs => .ok (stepper.resume now a logs).2.1

/-- Does one thing after another with an arena, up to the first that fails. -/
def useAll (a : Arena) : List Use → Except Fault Arena
  | [] => .ok a
  | u :: us => do (← a.use u).useAll us

theorem useAll_cons : a.useAll (u :: us) = .ok c ↔ ∃ b, a.use u = .ok b ∧ b.useAll us = .ok c :=
  bind_eq_ok

theorem serve_eq_ok {now : Nat} {toward : Side} {angle : Scalar}
    (h : a.serve now toward angle = .ok b) :
    ∃ direction, b = { a with ball := a.ball.spawn direction (a.serveTime now) } := by
  unfold serve at h
  split at h
  · cases h
  · cases h
    exact ⟨_, rfl⟩

/-- What everything that is done in a run keeps, the run keeps. -/
theorem useAll_invariant {P : Use → Prop} {I : Arena → Prop}
    (use : ∀ {a b u}, P u → I a → a.use u = .ok b → I b) (hus : ∀ u ∈ us, P u) (ha : I a)
    (h : a.useAll us = .ok b) : I b := by
  induction us generalizing a with
  | nil =>
    cases h
    exact ha
  | cons u us ih =>
    obtain ⟨c, hu, hrest⟩ := useAll_cons.mp h
    obtain ⟨hpu, hpus⟩ := List.forall_mem_cons.mp hus
    exact ih hpus (use hpu ha hu) hrest

/-! Paddles. -/

section
variable {P : Side → Paddle → Prop} {T : Scalar → Prop}
  (hsteer : ∀ {side p} (direction : Int8), P side p → P side (p.steer direction))
include hsteer

theorem steerLast_invariant (h : ∀ side, P side (a.paddles.get side)) (side : Side)
    (xs : List Sample) : ∀ other, P other ((Stepper.steerLast side xs a).paddles.get other) := by
  unfold Stepper.steerLast
  split
  · exact steer_invariant hsteer h side _
  · exact h

/-- What both paddles keep when they are steered and in every sweep, they keep whatever is done. Of
the sweeps only those matter that take some of the times `T`, which the clock does too. -/
theorem use_paddles (hclock : ∀ time, T (Clock.seconds time))
    (hsweep : ∀ {a : Arena} {seconds : Scalar}, T seconds → (∀ side, P side (a.paddles.get side)) →
      ∀ side, P side ((a.sweep seconds).arena.paddles.get side))
    (hu : ∀ seconds, u = .sweep seconds → T seconds) (ha : ∀ side, P side (a.paddles.get side))
    (h : a.use u = .ok b) : ∀ side, P side (b.paddles.get side) := by
  have hlaw : ClockLaw fun a p => (∀ side, P side (a.paddles.get side)) →
      ∀ side, P side (p.arena.paddles.get side) :=
    ⟨fun _ => id, fun _ time h => hsweep (hclock time) h, fun hp hf h => hf (hp h),
      fun _ hp h => hp h⟩
  cases u with
  | sweep seconds =>
    cases h
    exact hsweep (hu seconds rfl) ha
  | replay start stop samples =>
    cases h
    refine hlaw.replayFrom ?_ start stop start samples.left samples.right a ha
    intro a p side after xs h ha
    exact h (steerAll_invariant hsteer ha side after xs)
  | steer side direction =>
    cases h
    exact steer_invariant hsteer ha side direction
  | serve now toward angle =>
    obtain ⟨direction, rfl⟩ := serve_eq_ok h
    exact ha
  | spawn =>
    cases h
    exact ha
  | resume stepper now logs =>
    cases h
    rw [Stepper.resume_eq]
    exact steerLast_invariant hsteer (steerLast_invariant hsteer ha .left _) .right _

end

end Arena
end Rally
