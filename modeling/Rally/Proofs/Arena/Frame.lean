import Rally.Proofs.Arena.Laws
import Rally.Proofs.Side

/-! What a sweep leaves alone: all but the ball, and how far the paddles have come. What steering
leaves alone: all but the ways that the paddles go. -/
namespace Rally

/-- From one arena to another the ball may have changed, and the paddles may have come some way. -/
structure Arena.Moved (a b : Arena) : Prop where
  params : b.params = a.params
  walls : b.walls = a.walls
  goals : b.goals = a.goals
  paddles : ∀ side, ∃ y, b.paddles.get side =
    { a.paddles.get side with position := { (a.paddles.get side).position with y } }

namespace Arena.Moved
variable {a b c : Arena}

theorem refl (a : Arena) : a.Moved a := ⟨rfl, rfl, rfl, fun _ => ⟨_, rfl⟩⟩

theorem trans (hab : a.Moved b) (hbc : b.Moved c) : a.Moved c := by
  refine ⟨hbc.params.trans hab.params, hbc.walls.trans hab.walls, hbc.goals.trans hab.goals, ?_⟩
  intro side
  obtain ⟨y, hy⟩ := hab.paddles side
  obtain ⟨z, hz⟩ := hbc.paddles side
  refine ⟨z, ?_⟩
  rw [hz, hy]

/-- Of the ball nothing is said. -/
theorem ball (h : a.Moved b) (f : Ball) : a.Moved { b with ball := f } :=
  ⟨h.params, h.walls, h.goals, h.paddles⟩

theorem advancePaddles (a : Arena) (seconds : Scalar) : a.Moved (a.advancePaddles seconds) := by
  unfold Arena.advancePaddles
  split
  · refine ⟨rfl, rfl, rfl, fun side => ?_⟩
    rw [Sides.get_map]
    exact ⟨_, rfl⟩
  · exact refl a

theorem sweep (a : Arena) (seconds : Scalar) : a.Moved (a.sweep seconds).arena := by
  refine sweep_invariant (I := fun p => a.Moved p.arena) ?_ ?_ ?_ seconds (refl a)
  · intro p seconds hp
    exact hp.trans (advancePaddles ..)
  · intro p distance _ hp
    exact hp.ball _
  · intro p i b _ hp _
    exact hp.ball b

theorem law : Law fun a p => a.Moved p.arena := by
  refine ⟨refl, sweep, fun hp hf => hp.trans hf, ?_⟩
  intro a p now h
  exact ⟨h.params, h.walls, h.goals, h.paddles⟩

theorem direction (h : a.Moved b) (side : Side) :
    (b.paddles.get side).direction = (a.paddles.get side).direction := by
  obtain ⟨y, hy⟩ := h.paddles side
  rw [hy]

end Arena.Moved

namespace Arena
variable {P : Side → Paddle → Prop} {a : Arena}
  (hsteer : ∀ {side p} (direction : Int8), P side p → P side (p.steer direction))
  (h : ∀ side, P side (a.paddles.get side))
include hsteer h

/-- What does not depend on the way of a paddle is kept when one is steered. -/
theorem steer_invariant (side : Side) (direction : Int8) :
    ∀ other, P other ((a.steer side direction).paddles.get other) := by
  intro other
  rw [steer]
  by_cases ho : other = side
  · subst ho
    rw [Sides.get_modify_same]
    exact hsteer direction (h other)
  · rw [Sides.get_modify_of_ne _ _ _ ho]
    exact h other

theorem steerAll_invariant (side : Side) (after : Nat) (xs : List Sample) :
    ∀ other, P other ((a.steerAll side after xs).paddles.get other) := by
  unfold steerAll
  induction xs generalizing a with
  | nil => exact h
  | cons x xs ih =>
    rw [List.foldl_cons]
    refine ih ?_
    split
    · exact steer_invariant hsteer h side x.direction
    · exact h

end Arena

namespace Arena

@[simp] theorem steerAll_params (side : Side) (after : Nat) (xs : List Sample) (a : Arena) :
    (a.steerAll side after xs).params = a.params := by
  unfold steerAll
  induction xs generalizing a with
  | nil => rfl
  | cons x xs ih =>
    rw [List.foldl_cons, ih]
    split <;> rfl

theorem params_replay (start stop : Nat) (samples : Sides (List Sample)) (a : Arena) :
    (a.replay start stop samples).arena.params = a.params := by
  have hlaw : Law fun a p => p.arena.params = a.params :=
    ⟨fun _ => rfl, fun a seconds => (Moved.sweep a seconds).params, fun hp hf => hf.trans hp,
      fun _ h => h⟩
  refine hlaw.replayFrom ?_ start stop start samples.left samples.right a
  intro a p side after xs hp
  rw [hp, steerAll_params]

end Arena
end Rally
