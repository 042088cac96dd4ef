import Rally.Arena.Params
import Rally.Side

/-!
Paddles, which move along the y axis, and the triggers in front of them.
-/

namespace Rally

structure Paddle where
  side : Side
  position : Vec
  /-- The way it moves along the y axis: -1, 0 or 1. -/
  direction : Int8
  speed : Scalar
  size : Vec
  /-- How far its center may be from the x axis. -/
  travelLimit : Scalar
  /-- Distances of the triggers from its face, outermost first. -/
  triggerOffsets : List Scalar
  triggerThickness : Scalar
deriving DecidableEq

/-- A volume in front of a paddle that reports the ball. Level 0 is the outermost. -/
structure Trigger where
  level : Nat
  bounds : Box
deriving DecidableEq

namespace Paddle
variable (p : Paddle)

def ofParams (side : Side) (params : Params) : Paddle where
  side
  position :=
    match side with
    | .left => ⟨-(params.width / 2) + params.paddleInset, 0⟩
    | .right => ⟨params.width / 2 - params.paddleInset, 0⟩
  direction := 0
  speed := params.paddleSpeed
  size := params.paddleSize
  travelLimit := ((params.height - params.paddleSize.y) / 2).positivePart
  triggerOffsets :=
    (params.triggerOffsets.filter fun offset => 0 < offset).mergeSort fun a b => b.rank ≤ a.rank
  triggerThickness := params.triggerThickness

/-- Sets the way the paddle moves. -/
def steer (direction : Int8) : Paddle :=
  { p with direction := if direction < -1 then -1 else if 1 < direction then 1 else direction }

/-- Moves the paddle for some seconds, up to its limit. -/
def advance (seconds : Scalar) : Paddle :=
  let y := p.position.y + Scalar.ofInt8 p.direction * p.speed * seconds
  { p with position := { p.position with y := y.confine (-p.travelLimit) p.travelLimit } }

/-- The sign of x on the side of the face. -/
def facing : Scalar :=
  match p.side with
  | .left => 1
  | .right => -1

/-- The solid part. -/
def body : Box :=
  .around p.position ⟨p.size.x / 2, p.size.y / 2⟩

/-- The triggers, outermost first. A level has eight bits. -/
def triggers : List Trigger :=
  let face := p.position.x + p.facing * p.size.x / 2
  let half : Vec := ⟨p.triggerThickness / 2, p.size.y / 2⟩
  p.triggerOffsets.mapIdx fun level offset =>
    ⟨level % 256, .around ⟨face + p.facing * (offset + half.x), p.position.y⟩ half⟩

end Paddle
end Rally
