import Rally.Scalar.Trig

/-!
Points, directions and axis-aligned boxes of the plane.
-/

namespace Rally

/-- A point or a direction. -/
structure Vec where
  x : Scalar
  y : Scalar
deriving DecidableEq

namespace Vec
variable (u v : Vec)

instance : Add Vec := ⟨fun u v => ⟨u.x + v.x, u.y + v.y⟩⟩
instance : Sub Vec := ⟨fun u v => ⟨u.x - v.x, u.y - v.y⟩⟩
instance : Neg Vec := ⟨fun v => ⟨-v.x, -v.y⟩⟩
instance : HMul Scalar Vec Vec := ⟨fun k v => ⟨k * v.x, k * v.y⟩⟩

def zero : Vec := ⟨0, 0⟩

/-- The unit vector along the x axis. -/
def unitX : Vec := ⟨1, 0⟩

def dot : Scalar := u.x * v.x + u.y * v.y

def length : Scalar := (v.dot v).sqrt

/-- The unit vector along `v`, unless the inverse of its length is no positive number. -/
def unit? : Option Vec :=
  let r := 1 / v.length
  if r.isFinite ∧ 0 < r then some ⟨v.x * r, v.y * r⟩ else none

/-- The unit vector at an angle from the x axis. -/
def atAngle (a : Scalar) : Vec := ⟨a.cos, a.sin⟩

/-- The direction `v` mirrored in a surface with unit normal `n`. -/
def mirror (n : Vec) : Vec := v - (2 * v.dot n) * n

end Vec

/-- A box with sides along the axes. -/
structure Box where
  low : Vec
  high : Vec
deriving DecidableEq

namespace Box

/-- The box with two opposite corners, given in any order. -/
def ofCorners (a b : Vec) : Box :=
  ⟨⟨a.x.least b.x, a.y.least b.y⟩, ⟨a.x.greatest b.x, a.y.greatest b.y⟩⟩

/-- The box around a center. -/
def around (center half : Vec) : Box :=
  ofCorners (center - half) (center + half)

/-- Whether a point is in the box or on its border. -/
def contains (b : Box) (p : Vec) : Bool :=
  b.low.x ≤ p.x && b.low.y ≤ p.y && p.x ≤ b.high.x && p.y ≤ b.high.y

end Box
end Rally
