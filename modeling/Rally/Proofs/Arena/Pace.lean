import Rally.Proofs.Arena.Uses
import Rally.Proofs.Scalar.Overflow

/-! The speed of the ball: between its limits whatever is done with the arena, and never lower until
the ball starts anew. -/
namespace Rally

/-- What an arena promises of the speed of its ball. -/
structure Arena.Pacing (params : Params) (a : Arena) : Prop where
  finite : a.ball.speed.isFinite = true
  low : params.minSpeed ≤ a.ball.speed
  high : a.ball.speed ≤ params.maxSpeed
  /-- The ball gets no slower until it starts anew. -/
  rises : ∀ {us b}, (∀ u ∈ us, ¬ u.Serves) → a.useAll us = .ok b → a.ball.speed ≤ b.ball.speed
  /-- A ball that starts anew is as slow as can be. -/
  served : ∀ {u b}, u.Serves → a.use u = .ok b → b.ball.speed = params.minSpeed

open Scalar

variable {params : Params} {low top gain : ℝ}

/-- Parameters under which a ball that is hit gets faster, up to a limit. -/
structure Params.Gaining (params : Params) (top gain : ℝ) : Prop where
  maxSpeed : params.maxSpeed.Is top
  acceleration : params.acceleration.Is gain
  gain : 1 ≤ gain

namespace Ball
variable {b b' : Ball}

/-- A ball of an arena that is at least so fast, and not too fast. -/
structure Paced (params : Params) (low top : ℝ) (b : Ball) : Prop where
  minSpeed : b.minSpeed = params.minSpeed
  maxSpeed : b.maxSpeed = params.maxSpeed
  acceleration : b.acceleration = params.acceleration
  speed : ∃ v, b.speed.Is v ∧ low ≤ v ∧ v ≤ top

theorem Paced.accelerate (h : b.Paced params low top) (hp : params.Gaining top gain)
    (hlow : 0 ≤ low) : b.accelerate.Paced params low top := by
  obtain ⟨v, hv, hlo, hhi⟩ := h.speed
  obtain ⟨w, hw, hvw, hwt⟩ := hv.grow (hlow.trans hlo) (h.acceleration ▸ hp.acceleration) hp.gain
    (h.maxSpeed ▸ hp.maxSpeed) hhi
  exact ⟨h.minSpeed, h.maxSpeed, h.acceleration, w, hw, hlo.trans hvw, hwt⟩

/-- Only a hit changes the speed. -/
theorem Paced.met {i : Incident} (h : b.Paced params low top) (hp : params.Gaining top gain)
    (hlow : 0 ≤ low) (hm : b.Met i b') : b'.Paced params low top := by
  cases hm with
  | trigger => exact h
  | wall | goal | stuck => exact ⟨h.minSpeed, h.maxSpeed, h.acceleration, h.speed⟩
  | hit side normal =>
    have hbounce : (b.bounce normal).Paced params low top :=
      ⟨h.minSpeed, h.maxSpeed, h.acceleration, h.speed⟩
    exact hbounce.accelerate hp hlow

theorem Paced.release (h : b.Paced params low top) (now : Nat) :
    (b.release now).Paced params low top := by
  unfold Ball.release
  split
  · exact ⟨h.minSpeed, h.maxSpeed, h.acceleration, h.speed⟩
  · exact h

/-- A ball that starts anew is fast enough if the least speed is. -/
theorem Paced.spawn (h : b.Paced params low top) (hmin : params.minSpeed.Is low) (hle : low ≤ top)
    (direction : Vec) (resumeAt : Nat) : (b.spawn direction resumeAt).Paced params low top := by
  have hspeed : (b.spawn direction resumeAt).speed = params.minSpeed := h.minSpeed
  exact ⟨h.minSpeed, h.maxSpeed, h.acceleration, low, hspeed ▸ hmin, le_rfl, hle⟩

end Ball

namespace Arena
variable {a b : Arena} {u : Use} {us : List Use}

theorem paced_law (hp : params.Gaining top gain) (hlow : 0 ≤ low) :
    Law fun a p => a.ball.Paced params low top → p.arena.ball.Paced params low top := by
  refine ⟨fun _ => id, fun a seconds h => ?_, fun hp hf h => hf (hp h), fun now hp h => ?_⟩
  · refine sweep_invariant (I := fun p => p.arena.ball.Paced params low top) ?_ ?_ ?_ seconds h
    · intro p seconds h
      simpa [Played.adjust] using h
    · intro p distance _ h
      exact ⟨h.minSpeed, h.maxSpeed, h.acceleration, h.speed⟩
    · intro p i b _ h hm
      exact h.met hp hlow hm
  · exact hp (h.release now)

/-- Unless the ball starts anew, its speed stays above any bound that it is above. -/
theorem paced_use (hp : params.Gaining top gain) (hlow : 0 ≤ low) (hu : ¬ u.Serves)
    (ha : a.ball.Paced params low top) (h : a.use u = .ok b) : b.ball.Paced params low top := by
  cases u with
  | serve | spawn => exact absurd trivial hu
  | sweep seconds =>
    cases h
    exact (paced_law hp hlow).sweep a seconds ha
  | replay start stop samples =>
    cases h
    refine (paced_law hp hlow).replayFrom ?_ start stop start samples.left samples.right a ha
    intro a p side after xs h ha
    exact h (by rwa [steerAll_ball])
  | steer =>
    cases h
    exact ha
  | resume stepper now logs =>
    cases h
    rw [Stepper.resume_ball]
    exact ha

theorem ball_of_serves (hu : u.Serves) (h : a.use u = .ok b) :
    ∃ direction resumeAt, b.ball = a.ball.spawn direction resumeAt := by
  cases u with
  | serve =>
    obtain ⟨direction, rfl⟩ := serve_eq_ok h
    exact ⟨_, _, rfl⟩
  | spawn =>
    cases h
    exact ⟨_, _, rfl⟩
  | sweep | replay | steer | resume => exact absurd hu id

/-- The least speed is a bound that even a ball that starts anew is above. -/
theorem paced_useAll (hp : params.Gaining top gain) (hmin : params.minSpeed.Is low)
    (hlow : 0 ≤ low) (hle : low ≤ top) (h : (ofParams params).useAll us = .ok a) :
    a.ball.Paced params low top := by
  have hspeed : (ofParams params).ball.speed = params.minSpeed := rfl
  refine useAll_invariant (P := fun _ => True) (I := fun a => a.ball.Paced params low top) ?_
    (fun _ _ => trivial) ⟨rfl, rfl, rfl, low, hspeed ▸ hmin, le_rfl, hle⟩ h
  intro a b u _ ha hu
  by_cases hs : u.Serves
  · obtain ⟨direction, resumeAt, hb⟩ := ball_of_serves hs hu
    exact hb ▸ ha.spawn hmin hle direction resumeAt
  · exact paced_use hp hlow hs ha hu

/-- However an arena is used, the speed of its ball stays within the limits: it only rises until the
ball starts anew, which it does at the least speed. -/
theorem speed_within_limits (hmax : params.maxSpeed.isFinite = true)
    (hacc : params.acceleration.isFinite = true) (h0 : 0 ≤ params.minSpeed)
    (hle : params.minSpeed ≤ params.maxSpeed) (h1 : 1 ≤ params.acceleration)
    (h : (ofParams params).useAll us = .ok a) : a.Pacing params := by
  obtain ⟨top, hmax⟩ : ∃ top, params.maxSpeed.Is top := ⟨_, is_toReal hmax⟩
  obtain ⟨gain, hacc⟩ : ∃ gain, params.acceleration.Is gain := ⟨_, is_toReal hacc⟩
  obtain ⟨low, hmin, hlow, hlt⟩ := is_of_between is_zero hmax h0 hle
  have hp : params.Gaining top gain := ⟨hmax, hacc, (is_one.le_iff hacc).mp h1⟩
  have ha := paced_useAll hp hmin hlow hlt h
  obtain ⟨v, hv, hlv, hvt⟩ := ha.speed
  refine ⟨hv.1, (hmin.le_iff hv).mpr hlv, (hv.le_iff hmax).mpr hvt, ?_, ?_⟩
  · intro us b hus hb
    have hb : b.ball.Paced params v top :=
      useAll_invariant (P := fun u => ¬ u.Serves) (I := fun a => a.ball.Paced params v top)
        (fun hu ha h => paced_use hp (hlow.trans hlv) hu ha h) hus
        ⟨ha.minSpeed, ha.maxSpeed, ha.acceleration, v, hv, le_rfl, hvt⟩ hb
    obtain ⟨w, hw, hvw, -⟩ := hb.speed
    exact (hv.le_iff hw).mpr hvw
  · intro u b hs hu
    obtain ⟨direction, resumeAt, hb⟩ := ball_of_serves hs hu
    rw [hb]
    exact ha.minSpeed

/-- A paddle is hit three seconds after a serve, and the ball is faster from then on. -/
theorem speed_within_limits_hit :
    ∃ params us a, params = ({ triggerOffsets := [], fanRays := 1 } : Params) ∧
      us = [Use.serve 0 .right 0, .replay 0 3000 ⟨[], []⟩] ∧
      (ofParams params).useAll us = .ok a ∧ params.minSpeed < a.ball.speed ∧ a.Pacing params := by
  obtain ⟨a, h, hfast⟩ := exists_ok
    (x := (ofParams { triggerOffsets := [], fanRays := 1 }).useAll
      [.serve 0 .right 0, .replay 0 3000 ⟨[], []⟩])
    (fun a => (8 : Scalar) < a.ball.speed) (by decide +kernel)
  exact ⟨_, _, a, rfl, rfl, h, hfast, speed_within_limits (by decide +kernel) (by decide +kernel)
    (by decide +kernel) (by decide +kernel) (by decide +kernel) h⟩

end Arena
end Rally
