import Rally.Plane

/-!
The measures and speeds of an arena.
-/

namespace Rally

/-- Measures and speeds. The arena is centered on the origin, with a goal at each end of the x axis
and a wall at each end of the y axis. Distances are in arena units, speeds in units per second,
angles in radians. -/
structure Params where
  /-- Distance between the goal lines. -/
  width : Scalar := 20
  /-- Distance between the walls. -/
  height : Scalar := 12
  wallThickness : Scalar := 1
  /-- Depth of a goal behind its line. -/
  goalDepth : Scalar := 2
  /-- Distance from a goal line to the center of its paddle. -/
  paddleInset : Scalar := 1
  paddleSize : Vec := ⟨0.4, 2.4⟩
  paddleSpeed : Scalar := 9
  /-- Distances of the triggers from the face of a paddle. -/
  triggerOffsets : List Scalar := [1.5, 0.8, 0.3]
  triggerThickness : Scalar := 0.1
  ballRadius : Scalar := 0.25
  minSpeed : Scalar := 8
  maxSpeed : Scalar := 22
  /-- Factor on the speed of the ball at each paddle hit. -/
  acceleration : Scalar := 1.08
  /-- Milliseconds for which a served ball rests. -/
  serveDelay : Nat := 1000
  /-- Largest angle of a serve to the x axis. -/
  serveAngle : Scalar := Scalar.quarterPi
  /-- How far a sweep looks beyond the travel of the ball. -/
  castMargin : Scalar := 0.05
  /-- Rays in the fan that finds the normal at a paddle. -/
  fanRays : Nat := 9
  /-- Length of those rays beyond the radius of the ball. -/
  fanReach : Scalar := 0.2
  /-- A rest of a slice no longer than this many seconds is not swept. -/
  timeEpsilon : Scalar := 1e-5
  /-- Passes allowed in one slice. -/
  maxPasses : Nat := 50
deriving DecidableEq

end Rally
