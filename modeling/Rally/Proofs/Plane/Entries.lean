import Rally.Plane.Ray
import Rally.Proofs.Scalar.Selection

/-! What an entry of a ray into a box says of the ray and the box, axis by axis. -/
namespace Rally

open Scalar

/-- An axis of the plane. -/
inductive Axis where
  | x
  | y

/-- The component along an axis. -/
def Vec.along (v : Vec) : Axis → Scalar
  | .x => v.x
  | .y => v.y

/-- The vector along an axis with this component. -/
def Axis.face : Axis → Scalar → Vec
  | .x, c => ⟨c, 0⟩
  | .y, c => ⟨0, c⟩

namespace Clip
variable {face : Scalar → Vec} {low high origin dir : Scalar} {c c' : Clip}

/-- The distances to the two sides of a slab. -/
def toLow (low origin dir : Scalar) : Scalar := (low - origin) * (1 / dir)

/-- The distance to the side of a slab that is met first. -/
def nearSide (low high origin dir : Scalar) : Scalar :=
  if toLow high origin dir < toLow low origin dir then toLow high origin dir
  else toLow low origin dir

/-- The distance to the side of a slab that is met last. -/
def farSide (low high origin dir : Scalar) : Scalar :=
  if toLow high origin dir < toLow low origin dir then toLow low origin dir
  else toLow high origin dir

theorem slab_of_parallel (h : c.slab face low high origin dir = some c')
    (hp : dir.abs < parallelTolerance) : c' = c ∧ ¬ origin < low ∧ ¬ high < origin := by
  unfold slab at h
  rw [if_pos hp] at h
  split at h
  · cases h
  · rename_i hn
    cases h
    exact ⟨rfl, fun hl => hn (.inl hl), fun hh => hn (.inr hh)⟩

/-- The part of a ray beyond one distance and before another. -/
def between (near far : Scalar) (normal : Vec) (c : Clip) : Clip where
  near := if c.near < near then near else c.near
  far := c.far.least far
  normal := if c.near < near then normal else c.normal

theorem slab_eq (hp : ¬ dir.abs < parallelTolerance) : c.slab face low high origin dir =
    let c' := c.between (nearSide low high origin dir) (farSide low high origin dir)
      (face (-dir.sign))
    if c'.far < c'.near then none else some c' := by
  have hsame : (if c.near < nearSide low high origin dir then
      (⟨nearSide low high origin dir, c.far, face (-dir.sign)⟩ : Clip) else c) =
        ⟨if c.near < nearSide low high origin dir then nearSide low high origin dir else c.near,
          c.far, if c.near < nearSide low high origin dir then face (-dir.sign) else c.normal⟩ := by
    split <;> rfl
  refine (if_neg hp).trans ?_
  exact congrArg (fun e : Clip => if (e.far.least (farSide low high origin dir)) < e.near then none
    else some { e with far := e.far.least (farSide low high origin dir) }) hsame

/-- A slab that is not parallel to the ray cuts off what lies beyond its far side. -/
theorem slab_of_not_parallel (h : c.slab face low high origin dir = some c')
    (hp : ¬ dir.abs < parallelTolerance) :
    c' = c.between (nearSide low high origin dir) (farSide low high origin dir) (face (-dir.sign)) ∧
      ¬ c'.far < c'.near := by
  rw [slab_eq hp] at h
  dsimp only at h
  split at h
  · cases h
  · rename_i hn
    obtain rfl := Option.some.inj h
    exact ⟨rfl, hn⟩

/-- The near end stays, or comes to the near side of the slab. -/
theorem near_cases (h : c.slab face low high origin dir = some c') :
    c'.near = c.near ∧ c'.normal = c.normal ∨
      ¬ dir.abs < parallelTolerance ∧ c.near < nearSide low high origin dir ∧
        c'.near = nearSide low high origin dir ∧ c'.normal = face (-dir.sign) := by
  by_cases hp : dir.abs < parallelTolerance
  · obtain ⟨rfl, -, -⟩ := slab_of_parallel h hp
    exact .inl ⟨rfl, rfl⟩
  · obtain ⟨rfl, -⟩ := slab_of_not_parallel h hp
    by_cases hlt : c.near < nearSide low high origin dir
    · exact .inr ⟨hp, hlt, if_pos hlt, if_pos hlt⟩
    · exact .inl ⟨if_neg hlt, if_neg hlt⟩

/-- The far end only comes nearer, at least to the far side of the slab. -/
theorem far_le (h : c.slab face low high origin dir = some c') (hc : c.far.isNaN = false)
    (hn : ¬ dir.abs < parallelTolerance → (farSide low high origin dir).isNaN = false) :
    c'.far.isNaN = false ∧ c'.far.ext ≤ c.far.ext ∧
      (¬ dir.abs < parallelTolerance → c'.far.ext ≤ (farSide low high origin dir).ext) := by
  by_cases hp : dir.abs < parallelTolerance
  · obtain ⟨rfl, -, -⟩ := slab_of_parallel h hp
    exact ⟨hc, le_rfl, fun hn => absurd hp hn⟩
  · obtain ⟨rfl, -⟩ := slab_of_not_parallel h hp
    have hext := ext_least hc (hn hp)
    exact ⟨isNaN_least hc (hn hp), hext.trans_le (min_le_left _ _), fun _ =>
      hext.trans_le (min_le_right _ _)⟩

end Clip

namespace Box
variable {b : Box} {o d : Vec} {reach : Scalar} {e : Entry}

/-- Where the ray meets the nearer side of the box on an axis. -/
def nearSide (b : Box) (o d : Vec) (k : Axis) : Scalar :=
  Clip.nearSide (b.low.along k) (b.high.along k) (o.along k) (d.along k)

/-- Where the ray meets the farther side of the box on an axis. -/
def farSide (b : Box) (o d : Vec) (k : Axis) : Scalar :=
  Clip.farSide (b.low.along k) (b.high.along k) (o.along k) (d.along k)

/-- Whether the ray runs parallel to the sides of a box on an axis. -/
def Parallel (d : Vec) (k : Axis) : Prop := (d.along k).abs < Clip.parallelTolerance

theorem entry_slabs (h : b.entry o d reach = some e) :
    ∃ c₁ c₂, Clip.whole.slab (Axis.face .x) b.low.x b.high.x o.x d.x = some c₁ ∧
      c₁.slab (Axis.face .y) b.low.y b.high.y o.y d.y = some c₂ ∧
      ¬ c₂.near < 0 ∧ ¬ reach < c₂.near ∧ e = ⟨c₂.near, c₂.normal⟩ := by
  obtain ⟨c₁, hx, h⟩ := Option.bind_eq_some_iff.mp h
  obtain ⟨c₂, hy, h⟩ := Option.bind_eq_some_iff.mp h
  split at h
  · cases h
  · rename_i hn
    exact ⟨c₁, c₂, hx, hy, fun h0 => hn (.inl h0), fun hr => hn (.inr hr), (Option.some.inj h).symm⟩

/-- A ray enters through the near side of an axis that it is not parallel to. -/
theorem entry_face (h : b.entry o d reach = some e) :
    ∃ k, ¬ Parallel d k ∧ e.distance = b.nearSide o d k ∧ e.normal = k.face (-(d.along k).sign) ∧
      e.distance.isNaN = false := by
  obtain ⟨c₁, c₂, hx, hy, h0, -, rfl⟩ := entry_slabs h
  rcases Clip.near_cases hy with ⟨hnear, hnormal⟩ | ⟨hp, hlt, hnear, hnormal⟩
  · rcases Clip.near_cases hx with ⟨hnear', -⟩ | ⟨hp, hlt, hnear', hnormal'⟩
    · -- Nothing was cut off at the near end, so that it lies behind the origin.
      rw [hnear, hnear'] at h0
      exact absurd (by decide +kernel) h0
    · have hn : c₂.near = b.nearSide o d .x := hnear.trans hnear'
      exact ⟨.x, hp, hn, hnormal.trans hnormal', hn ▸ isNaN_of_lt_right hlt⟩
  · exact ⟨.y, hp, hnear, hnormal, hnear ▸ isNaN_of_lt_right hlt⟩

/-- The distance of an entry is not below zero, and not beyond the reach. -/
theorem entry_ext (h : b.entry o d reach = some e) :
    0 ≤ e.distance.ext ∧ (reach.isNaN = false → e.distance.ext ≤ reach.ext) := by
  obtain ⟨-, -, -, -, hn⟩ := entry_face h
  obtain ⟨c₁, c₂, -, -, h0, hreach, rfl⟩ := entry_slabs h
  rw [lt_iff_ext hn is_zero.isNaN, is_zero.ext, not_lt] at h0
  refine ⟨h0, fun hr => ?_⟩
  rwa [lt_iff_ext hr hn, not_lt] at hreach

/-- The distance of an entry is a number between zero and the reach. -/
theorem entry_distance {r : ℝ} (h : b.entry o d reach = some e) (hr : reach.Is r) :
    ∃ t, e.distance.Is t ∧ 0 ≤ t ∧ t ≤ r := by
  obtain ⟨-, -, -, -, hn⟩ := entry_face h
  obtain ⟨h0, hreach⟩ := entry_ext h
  exact is_of_ext hn h0 (hr.ext ▸ hreach hr.isNaN)

/-- A ray enters a box before it leaves the slab of any axis. -/
theorem entry_far (h : b.entry o d reach = some e)
    (hn : ∀ k, ¬ Parallel d k → (b.farSide o d k).isNaN = false) (k : Axis) :
    Parallel d k ∧ ¬ o.along k < b.low.along k ∧ ¬ b.high.along k < o.along k ∨
      ¬ Parallel d k ∧ e.distance.ext ≤ (b.farSide o d k).ext := by
  obtain ⟨-, -, -, -, hnan⟩ := entry_face h
  obtain ⟨c₁, c₂, hx, hy, -, -, rfl⟩ := entry_slabs h
  obtain ⟨hn₁, -, hfar₁⟩ := Clip.far_le hx isNaN_infinity (hn .x)
  obtain ⟨hn₂, hle, hfar₂⟩ := Clip.far_le hy hn₁ (hn .y)
  have hend (h : ¬ c₂.far < c₂.near) : c₂.near.ext ≤ c₂.far.ext :=
    not_lt.mp fun hlt => h ((lt_iff_ext hn₂ hnan).mpr hlt)
  by_cases hpy : Parallel d .y
  · obtain ⟨rfl, hlow, hhigh⟩ := Clip.slab_of_parallel hy hpy
    cases k with
    | y => exact .inl ⟨hpy, hlow, hhigh⟩
    | x =>
      by_cases hpx : Parallel d .x
      · obtain ⟨-, hlow, hhigh⟩ := Clip.slab_of_parallel hx hpx
        exact .inl ⟨hpx, hlow, hhigh⟩
      · exact .inr ⟨hpx, (hend (Clip.slab_of_not_parallel hx hpx).2).trans (hfar₁ hpx)⟩
  · have hnear := hend (Clip.slab_of_not_parallel hy hpy).2
    cases k with
    | y => exact .inr ⟨hpy, hnear.trans (hfar₂ hpy)⟩
    | x =>
      by_cases hpx : Parallel d .x
      · obtain ⟨-, hlow, hhigh⟩ := Clip.slab_of_parallel hx hpx
        exact .inl ⟨hpx, hlow, hhigh⟩
      · exact .inr ⟨hpx, hnear.trans (hle.trans (hfar₁ hpx))⟩

end Box
end Rally
