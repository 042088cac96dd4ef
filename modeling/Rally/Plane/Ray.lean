import Rally.Plane

/-!
Where a ray enters a box.

A ray is clipped against the slab of each axis in turn. A ray that starts inside a box never enters
it.
-/

namespace Rally

/-- The distance at which a ray enters a box, and the outward normal of the face it crosses. -/
structure Entry where
  distance : Scalar
  normal : Vec
deriving DecidableEq

/-- The part of a ray that is left after clipping, and the face at its near end. -/
structure Clip where
  near : Scalar
  far : Scalar
  normal : Vec
deriving DecidableEq

namespace Clip

/-- A direction with a smaller component than this runs parallel to the slab of that axis. -/
def parallelTolerance : Scalar := 1e-7

/-- Nothing is clipped yet. -/
def whole : Clip := ⟨-Scalar.infinity, Scalar.infinity, Vec.zero⟩

/-- The part inside the slab from `low` to `high`, for a ray with these components on its axis.
`face` gives the normal on that axis with the given component. -/
def slab (face : Scalar → Vec) (low high origin dir : Scalar) (c : Clip) : Option Clip :=
  if dir.abs < parallelTolerance then
    if origin < low ∨ high < origin then none else some c
  else
    let inverse := 1 / dir
    let a := (low - origin) * inverse
    let b := (high - origin) * inverse
    let near := if b < a then b else a
    let far := if b < a then a else b
    let entered := if c.near < near then ⟨near, c.far, face (-dir.sign)⟩ else c
    let c : Clip := { entered with far := entered.far.least far }
    if c.far < c.near then none else some c

end Clip

/-- Where a ray enters the box within a distance. -/
def Box.entry (b : Box) (origin dir : Vec) (reach : Scalar) : Option Entry := do
  let c ← Clip.whole.slab (⟨·, 0⟩) b.low.x b.high.x origin.x dir.x
  let c ← c.slab (⟨0, ·⟩) b.low.y b.high.y origin.y dir.y
  if c.near < 0 ∨ reach < c.near then none else some ⟨c.near, c.normal⟩

end Rally
