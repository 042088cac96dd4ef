import Rally.Arena.Ball
import Rally.Arena.Paddle
import Rally.Clock

/-!
The arena: the ball, two paddles, two walls and a goal behind each paddle.
-/

namespace Rally

/-- A zone that scores for the opponent of its owner. -/
structure Goal where
  owner : Side
  bounds : Box
deriving DecidableEq

structure Arena where
  params : Params
  ball : Ball
  paddles : Sides Paddle
  /-- The wall at the high end of the y axis, then the one at the low end. -/
  walls : List Box
  goals : List Goal
deriving DecidableEq

/-- An operation was asked for a number outside every range. -/
inductive Fault where
  /-- The bounds of the serve angle are out of order. -/
  | serveBounds
  /-- The range of the serve angle has no finite width. -/
  | serveRange
deriving DecidableEq

namespace Arena
variable (a : Arena)

def ofParams (params : Params) : Arena :=
  let w := params.width / 2
  let h := params.height / 2
  let outer := w + params.goalDepth
  { params
    ball := .ofParams params
    paddles := ⟨.ofParams .left params, .ofParams .right params⟩
    walls :=
      [.ofCorners ⟨outer, h⟩ ⟨-outer, h + params.wallThickness⟩,
       .ofCorners ⟨outer, -h - params.wallThickness⟩ ⟨-outer, -h⟩]
    goals :=
      [⟨.left, .ofCorners ⟨-outer, h⟩ ⟨-w, -h⟩⟩,
       ⟨.right, .ofCorners ⟨w, h⟩ ⟨outer, -h⟩⟩] }

/-- The instant at which a ball served at `now` starts to move. -/
def serveTime (now : Nat) : Nat := Clock.after now a.params.serveDelay

/-- Serves the ball toward a side, at an angle that is first brought within its bounds. -/
def serve (now : Nat) (toward : Side) (angle : Scalar) : Except Fault Arena :=
  match angle.confine? (-a.params.serveAngle) a.params.serveAngle with
  | none => .error .serveBounds
  | some angle =>
    .ok { a with ball := a.ball.spawn (serveDirection toward angle) (a.serveTime now) }

/-- Sets the way the paddle of a side moves. -/
def steer (side : Side) (direction : Int8) : Arena :=
  { a with paddles := a.paddles.modify side (·.steer direction) }

/-- Moves both paddles, if there is any time to move in. -/
def advancePaddles (seconds : Scalar) : Arena :=
  if 0 < seconds then { a with paddles := a.paddles.map (·.advance seconds) } else a

end Arena
end Rally
