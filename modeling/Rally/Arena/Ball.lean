import Rally.Arena.Params
import Rally.Side

/-!
The ball: serving, bouncing and speeding up.
-/

namespace Rally

structure Ball where
  position : Vec
  direction : Vec
  speed : Scalar
  minSpeed : Scalar
  maxSpeed : Scalar
  acceleration : Scalar
  radius : Scalar
  moving : Bool
  /-- When a served ball starts to move. -/
  resumeAt : Option Nat
deriving DecidableEq

namespace Ball
variable (b : Ball)

/-- A ball at rest in the center. -/
def ofParams (p : Params) : Ball where
  position := .zero
  direction := .unitX
  speed := p.minSpeed
  minSpeed := p.minSpeed
  maxSpeed := p.maxSpeed
  acceleration := p.acceleration
  radius := p.ballRadius
  moving := false
  resumeAt := none

/-- Puts the ball in the center, to leave along a direction at the given instant. -/
def spawn (direction : Vec) (resumeAt : Nat) : Ball :=
  { b with
    position := .zero
    direction := direction.unit?.getD .unitX
    speed := b.minSpeed
    moving := false
    resumeAt := some resumeAt }

/-- Whether a served ball has rested long enough at `now`. -/
def due (now : Nat) : Bool :=
  !b.moving && b.resumeAt.any (· ≤ now)

/-- Lets a served ball go if it is due. -/
def release (now : Nat) : Ball :=
  if b.due now then { b with moving := true, resumeAt := none } else b

/-- Stops the ball until it is spawned again. -/
def stop : Ball :=
  { b with moving := false, resumeAt := none }

/-- Moves the ball along its direction. -/
def travel (distance : Scalar) : Ball :=
  { b with position := b.position + distance * b.direction }

/-- Turns the ball at a surface with the given normal. A ball that would lose its direction turns
back. -/
def bounce (normal : Vec) : Ball :=
  { b with direction := (b.direction.mirror normal).unit?.getD (-b.direction) }

/-- Raises the speed after a paddle hit, up to the limit. -/
def accelerate : Ball :=
  { b with speed := (b.speed * b.acceleration).least b.maxSpeed }

end Ball

/-- The unit direction of a serve toward a side, at an angle to the x axis. -/
def serveDirection (toward : Side) (angle : Scalar) : Vec :=
  match toward with
  | .left => ⟨-1 * angle.cos, angle.sin⟩
  | .right => ⟨1 * angle.cos, angle.sin⟩

end Rally
