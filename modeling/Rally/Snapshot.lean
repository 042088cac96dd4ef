import Rally.Arena

/-!
What the players see of an arena, and the last such views.
-/

namespace Rally

/-- A paddle as the players see it. -/
structure PaddleView where
  position : Vec
  direction : Int8
deriving DecidableEq

/-- The ball as the players see it. -/
structure BallView where
  position : Vec
  direction : Vec
  speed : Scalar
  moving : Bool
deriving DecidableEq

def Paddle.view (p : Paddle) : PaddleView := ⟨p.position, p.direction⟩

def Ball.view (b : Ball) : BallView := ⟨b.position, b.direction, b.speed, b.moving⟩

/-- The arena after one tick. -/
structure Snapshot where
  tick : Nat
  time : Nat
  paddles : Sides PaddleView
  ball : BallView
deriving DecidableEq

/-- The view of an arena. -/
def Arena.snapshot (a : Arena) (tick : Nat) (time : Nat) : Snapshot :=
  ⟨tick, time, a.paddles.map (·.view), a.ball.view⟩

/-- The last snapshots, oldest first. -/
structure Recent where
  snapshots : List Snapshot
  capacity : Nat
deriving DecidableEq

namespace Recent
variable (r : Recent)

/-- No snapshots yet, and room for at least one. -/
def withCapacity (capacity : Nat) : Recent := ⟨[], max capacity 1⟩

/-- Adds a snapshot, dropping the oldest if there is no room. -/
def push (s : Snapshot) : Recent :=
  if r.snapshots.length = r.capacity then { r with snapshots := r.snapshots.drop 1 ++ [s] }
  else { r with snapshots := r.snapshots ++ [s] }

def latest? : Option Snapshot := r.snapshots.getLast?

def clear : Recent := { r with snapshots := [] }

end Recent
end Rally
