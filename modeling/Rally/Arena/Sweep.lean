import Rally.Arena.Played
import Rally.Plane.Ray

/-!
Moving an arena through a slice of time.

A sweep is a sequence of passes. Each pass casts a ray along the path of the ball, takes the nearest
surface and uses up the time to the contact. Triggers use up no time, and are left out of the passes
that follow.
-/

namespace Rally

/-- What the ball can reach. -/
inductive Surface where
  | wall
  | goal (owner : Side)
  | paddle (side : Side)
  | trigger (side : Side) (level : Nat)
deriving DecidableEq

/-- The paddle of a side and its triggers. -/
def Paddle.surfaces (p : Paddle) : List (Surface × Box) :=
  (.paddle p.side, p.body) :: p.triggers.map fun t => (.trigger p.side t.level, t.bounds)

/-- Everything in an arena that the ball can reach. -/
def Arena.surfaces (a : Arena) : List (Surface × Box) :=
  a.walls.map (.wall, ·) ++ a.goals.map (fun g => (.goal g.owner, g.bounds)) ++
    a.paddles.left.surfaces ++ a.paddles.right.surfaces

/-- A ray of the fan around the heading of the ball. -/
def Params.fanAngle (p : Params) (heading : Scalar) (ray : Nat) : Scalar :=
  let rays := max p.fanRays 1
  let t : Scalar := if rays = 1 then 0.5 else Scalar.ofNat ray / Scalar.ofNat (rays - 1)
  heading - Scalar.halfPi + t * Scalar.pi

/-- The normal at which the ball meets a paddle: that of the nearest face that a fan of rays over
the leading half of the ball finds. -/
def Ball.contactNormal (b : Ball) (paddle : Paddle) (p : Params) : Option Vec :=
  let reach := b.radius + p.castMargin + p.fanReach
  let heading := Scalar.angle b.direction.y b.direction.x
  let entries := (List.range (max p.fanRays 1)).filterMap fun ray =>
    paddle.body.entry b.position (.atAngle (p.fanAngle heading ray)) reach
  (Scalar.argmin Entry.distance entries).map Entry.normal

/-- A sweep under way. -/
structure Sweep extends Played where
  /-- Seconds of the slice that are left. -/
  remaining : Scalar
  /-- Triggers that the ball has reached in this slice. -/
  crossed : List Surface
deriving DecidableEq

namespace Sweep
variable (s : Sweep)

def start (a : Arena) (seconds : Scalar) : Sweep :=
  { arena := a, incidents := [], remaining := seconds, crossed := [] }

/-- How far the ball flies in the time left if it meets nothing. -/
def distance : Scalar := s.arena.ball.speed * s.remaining

/-- The nearest surface in the way of the ball. -/
def strike : Option (Surface × Entry) :=
  let b := s.arena.ball
  let reach := s.distance + b.radius + s.arena.params.castMargin
  let entries := s.arena.surfaces.filterMap fun (surface, box) =>
    if surface ∈ s.crossed then none
    else (box.entry b.position b.direction reach).map (surface, ·)
  Scalar.argmin (fun e => e.2.distance) entries

/-- How far the ball flies until it touches a surface. -/
def contact (e : Entry) : Scalar := (e.distance - s.arena.ball.radius).positivePart

/-- Seconds until the ball touches a surface. -/
def contactTime (e : Entry) : Scalar :=
  let part := if 0 < s.distance then (s.contact e / s.distance).confine 0 1 else 0
  s.remaining * part

/-- Moves the paddles for some of the time left. -/
def spend (seconds : Scalar) : Sweep :=
  { s with arena := s.arena.advancePaddles seconds, remaining := s.remaining - seconds }

/-- Changes the ball, and adds what happened to it. -/
def ballDid (f : Ball → Ball) (i : Incident) : Sweep :=
  { s with arena := { s.arena with ball := f s.arena.ball }, incidents := s.incidents ++ [i] }

/-- The ball reaches a surface. It meets a paddle where the paddle will be at the contact. -/
def meet (surface : Surface) (e : Entry) : Sweep :=
  match surface with
  | .trigger side level =>
    { s with crossed := surface :: s.crossed, incidents := s.incidents ++ [.trigger side level] }
  | .wall =>
    (s.ballDid (fun b => (b.travel (s.contact e)).bounce e.normal) .wall).spend (s.contactTime e)
  | .goal owner =>
    (s.ballDid (fun b => (b.travel (s.contact e)).stop) (.goal owner.opponent)).spend
      (s.contactTime e)
  | .paddle side =>
    let paddle := (s.arena.paddles.get side).advance (s.contactTime e)
    let normal? := (s.arena.ball.travel (s.contact e)).contactNormal paddle s.arena.params
    let met :=
      match normal? with
      | some normal =>
        s.ballDid (fun b => ((b.travel (s.contact e)).bounce normal).accelerate) (.hit side)
      | none => s.ballDid (fun b => (b.travel (s.contact e)).stop) (.stuck side)
    met.spend (s.contactTime e)

/-- The ball meets nothing in the time left. -/
def glide : Sweep :=
  { s with
    arena := { s.arena with ball := s.arena.ball.travel s.distance }.advancePaddles s.remaining
    remaining := 0 }

/-- Makes at most `passes` passes, while there is time left and the ball moves. -/
def run : Nat → Sweep → Sweep
  | 0, s => s
  | passes + 1, s =>
    if s.arena.params.timeEpsilon < s.remaining ∧ s.arena.ball.moving then
      match s.strike with
      | none => s.glide
      | some (surface, e) => run passes (s.meet surface e)
    else s

/-- Lets the paddles move for the rest of the slice. -/
def finish : Played :=
  s.toPlayed.adjust (·.advancePaddles s.remaining)

end Sweep

/-- Moves the ball and both paddles through some seconds. -/
def Arena.sweep (seconds : Scalar) (a : Arena) : Played :=
  if seconds ≤ 0 then .start a
  else if !a.ball.moving then .start (a.advancePaddles seconds)
  else
    match a.goals.find? (·.bounds.contains a.ball.position) with
    | some goal =>
      ⟨{ a with ball := a.ball.stop }.advancePaddles seconds, [.goal goal.owner.opponent]⟩
    | none => (Sweep.run a.params.maxPasses (.start a seconds)).finish

end Rally
