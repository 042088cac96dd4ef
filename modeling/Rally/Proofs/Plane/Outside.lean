import Rally.Proofs.Plane.Reaching
import Rally.Proofs.Scalar.Signs

/-! Rays enter a box from outside of it. The sign of a distance tells on which side of a face a ray
begins, and this without an error of rounding: no difference is rounded to zero, the inverse of a
component of a direction makes none smaller, and what is too large keeps its sign. -/
namespace Rally

open Scalar

namespace Clip
variable {low high origin dir : Scalar} {a l m p : ℝ}

/-- The inverse of a component has its sign and is at least one in size. -/
theorem is_inverse (hd : dir.Is a) (ha : |a| ≤ 1) (hn : ¬ dir.abs < parallelTolerance) :
    ∃ i, (1 / dir).Is i ∧ (0 < a ∧ 1 ≤ i ∨ a < 0 ∧ i ≤ -1) := by
  have hlow := two_pow_le_of_not_parallel hd hn
  have hpos : 0 < |a| := (Rounding.two_zpow_pos _).trans_le hlow
  have hfits : Fits (1 / a) := by
    refine fits_of_le (k := 24) (by decide) (by decide) ?_
    rw [abs_div, abs_one, div_le_iff₀ hpos]
    calc (1 : ℝ) = 2 ^ (24 : ℤ) * 2 ^ (-24 : ℤ) := by norm_num
      _ ≤ 2 ^ (24 : ℤ) * |a| := mul_le_mul_of_nonneg_left hlow (Rounding.two_zpow_pos _).le
  refine ⟨_, is_one.div hd (abs_pos.mp hpos) hfits, ?_⟩
  obtain ⟨hneg, hle⟩ := abs_le.mp ha
  rcases lt_or_gt_of_ne (abs_pos.mp hpos) with ha0 | ha0
  · refine .inr ⟨ha0, is_one.neg.rnd_le ?_⟩
    rw [div_le_iff_of_neg ha0]
    linarith
  · refine .inl ⟨ha0, is_one.le_rnd ?_⟩
    rw [le_div_iff₀ ha0]
    linarith

theorem isNaN_toLow (hl : low.Is l) (ho : origin.Is p) (hd : dir.Is a) (ha : |a| ≤ 1)
    (hn : ¬ dir.abs < parallelTolerance) : (toLow low origin dir).isNaN = false := by
  obtain ⟨i, hi, hsign⟩ := is_inverse hd ha hn
  refine isNaN_mul_number (hl.isNaN_sub ho) hi ?_
  rcases hsign with ⟨-, hsize⟩ | ⟨-, hsize⟩ <;> linarith

/-- A side of a slab that lies behind a ray is at a distance below zero. -/
theorem toLow_neg (hl : low.Is l) (ho : origin.Is p) (hd : dir.Is a) (ha : |a| ≤ 1)
    (hn : ¬ dir.abs < parallelTolerance) (h : (l - p) * a < 0) :
    (toLow low origin dir).ext < 0 := by
  obtain ⟨i, hi, hsign⟩ := is_inverse hd ha hn
  refine mul_neg_of_signs (hl.isNaN_sub ho) hi ?_
  rcases hsign with ⟨hpos, hsize⟩ | ⟨hneg, hsize⟩
  · have hlt : l - p < 0 := neg_of_mul_neg_left h hpos.le
    exact .inl ⟨hl.sub_neg ho (by linarith), hsize⟩
  · have hgt : 0 < l - p := by nlinarith
    exact .inr ⟨hl.sub_pos ho (by linarith), hsize⟩

end Clip

/-- The corners of a box are finite and in order, a ray begins at a finite point, and no component
of its direction is larger than one. -/
structure Box.Proper (b : Box) (o d : Vec) : Prop where
  low : ∀ k, (b.low.along k).isFinite = true
  high : ∀ k, (b.high.along k).isFinite = true
  ordered : ∀ k, b.low.along k ≤ b.high.along k
  origin : ∀ k, (o.along k).isFinite = true
  direction : ∀ k, (d.along k).abs ≤ 1

namespace Box
variable {b : Box} {o d : Vec} {reach : Scalar} {e : Entry} {k : Axis}

/-- A box and a ray on an axis, in numbers. -/
structure Measured (b : Box) (o d : Vec) (k : Axis) (l m p a : ℝ) : Prop where
  low : (b.low.along k).Is l
  high : (b.high.along k).Is m
  ordered : l ≤ m
  origin : (o.along k).Is p
  direction : (d.along k).Is a
  abs_le_one : |a| ≤ 1

variable {l m p a : ℝ}

theorem Proper.measured (h : b.Proper o d) (k : Axis) : ∃ l m p a, b.Measured o d k l m p a := by
  have hlow := is_toReal (h.low k)
  have hhigh := is_toReal (h.high k)
  obtain ⟨a, ha, hle⟩ := is_of_abs_le (h.direction k) is_one
  exact ⟨_, _, _, a, hlow, hhigh, (hlow.le_iff hhigh).mp (h.ordered k), is_toReal (h.origin k),
    ha, hle⟩

namespace Measured

theorem isNaN_farSide (h : b.Measured o d k l m p a) (hn : ¬ Parallel d k) :
    (b.farSide o d k).isNaN = false := by
  unfold farSide Clip.farSide
  split
  · exact Clip.isNaN_toLow h.low h.origin h.direction h.abs_le_one hn
  · exact Clip.isNaN_toLow h.high h.origin h.direction h.abs_le_one hn

/-- When both sides of a box lie behind a ray, so does the farther one. -/
theorem farSide_neg (h : b.Measured o d k l m p a) (hn : ¬ Parallel d k) (hlow : (l - p) * a < 0)
    (hhigh : (m - p) * a < 0) : (b.farSide o d k).ext < 0 := by
  unfold farSide Clip.farSide
  split
  · exact Clip.toLow_neg h.low h.origin h.direction h.abs_le_one hn hlow
  · exact Clip.toLow_neg h.high h.origin h.direction h.abs_le_one hn hhigh

/-- When the nearer side of a box is not behind a ray, no side is. -/
theorem nonneg_of_nearSide (h : b.Measured o d k l m p a) (hn : ¬ Parallel d k)
    (h0 : 0 ≤ (b.nearSide o d k).ext) : 0 ≤ (l - p) * a ∧ 0 ≤ (m - p) * a := by
  have hlow := Clip.toLow_neg h.low h.origin h.direction h.abs_le_one hn
  have hhigh := Clip.toLow_neg h.high h.origin h.direction h.abs_le_one hn
  have hnlow := Clip.isNaN_toLow h.low h.origin h.direction h.abs_le_one hn
  have hnhigh := Clip.isNaN_toLow h.high h.origin h.direction h.abs_le_one hn
  unfold nearSide Clip.nearSide at h0
  split at h0
  · rename_i hlt
    rw [lt_iff_ext hnhigh hnlow] at hlt
    exact ⟨not_lt.mp fun hneg => absurd (hlow hneg) (not_lt.mpr (h0.trans hlt.le)),
      not_lt.mp fun hneg => absurd (hhigh hneg) (not_lt.mpr h0)⟩
  · rename_i hlt
    rw [lt_iff_ext hnhigh hnlow, not_lt] at hlt
    exact ⟨not_lt.mp fun hneg => absurd (hlow hneg) (not_lt.mpr h0),
      not_lt.mp fun hneg => absurd (hhigh hneg) (not_lt.mpr (h0.trans hlt))⟩

end Measured

/-- On the axis of its normal, an entry goes toward the box, and begins before the face with that
normal or on it. -/
theorem entry_before_face (h : b.Proper o d) (he : b.entry o d reach = some e) :
    ∃ k, 0 < d.along k ∧ e.normal = k.face (-1) ∧ o.along k ≤ b.low.along k ∨
      d.along k < 0 ∧ e.normal = k.face 1 ∧ b.high.along k ≤ o.along k := by
  obtain ⟨k, hn, hdist, hnormal, -⟩ := entry_face he
  obtain ⟨l, m, p, a, hk⟩ := h.measured k
  obtain ⟨hlow, hhigh⟩ := hk.nonneg_of_nearSide hn (hdist ▸ (entry_ext he).1)
  have hpos : 0 < |a| :=
    (Rounding.two_zpow_pos _).trans_le (Clip.two_pow_le_of_not_parallel hk.direction hn)
  refine ⟨k, ?_⟩
  rcases lt_or_gt_of_ne (abs_pos.mp hpos) with ha | ha
  · refine .inr ⟨(hk.direction.lt_iff is_zero).mpr ha, ?_, ?_⟩
    · rw [hnormal, hk.direction.sign ha.ne, if_neg ha.not_gt]
      rfl
    · rw [hk.high.le_iff hk.origin]
      nlinarith
  · refine .inl ⟨(is_zero.lt_iff hk.direction).mpr ha, ?_, ?_⟩
    · rw [hnormal, hk.direction.sign ha.ne', if_pos ha]
    · rw [hk.origin.le_iff hk.low]
      nlinarith

/-- A ray does not enter a box that it has left behind, or that it passes by, on some axis. -/
theorem entry_eq_none (h : b.Proper o d)
    (hout : o.along k < b.low.along k ∧ (d.along k < 0 ∨ Parallel d k) ∨
      b.high.along k < o.along k ∧ (0 < d.along k ∨ Parallel d k)) : b.entry o d reach = none := by
  rw [Option.eq_none_iff_forall_ne_some]
  intro e he
  have hfar (k : Axis) (hn : ¬ Parallel d k) : (b.farSide o d k).isNaN = false := by
    obtain ⟨l, m, p, a, hk⟩ := h.measured k
    exact hk.isNaN_farSide hn
  rcases entry_far he hfar k with ⟨-, hlow, hhigh⟩ | ⟨hn, hle⟩
  · rcases hout with ⟨hlt, -⟩ | ⟨hlt, -⟩
    · exact hlow hlt
    · exact hhigh hlt
  · obtain ⟨l, m, p, a, hk⟩ := h.measured k
    have hml := hk.ordered
    rw [hk.origin.lt_iff hk.low, hk.high.lt_iff hk.origin, hk.direction.lt_iff is_zero,
      is_zero.lt_iff hk.direction] at hout
    have hbehind : (l - p) * a < 0 ∧ (m - p) * a < 0 := by
      rcases hout with ⟨hlt, ha | hp⟩ | ⟨hlt, ha | hp⟩
      · exact ⟨mul_neg_of_pos_of_neg (by linarith) ha, mul_neg_of_pos_of_neg (by linarith) ha⟩
      · exact absurd hp hn
      · exact ⟨mul_neg_of_neg_of_pos (by linarith) ha, mul_neg_of_neg_of_pos (by linarith) ha⟩
      · exact absurd hp hn
    exact absurd (hk.farSide_neg hn hbehind.1 hbehind.2) (not_lt.mpr ((entry_ext he).1.trans hle))

/-- What is found where a ray enters a box is a real entry: a distance within reach, and the outward
normal of a face that the ray goes toward from its outer side. A ray that begins inside the box, or
that leaves it behind or passes it by on some axis, does not enter. -/
theorem entries_are_real (h : b.Proper o d) (hr : reach.isNaN = false) :
    (∀ e, b.entry o d reach = some e →
      e.distance.isNaN = false ∧ 0 ≤ e.distance ∧ e.distance ≤ reach ∧
        ∃ k, 0 < d.along k ∧ e.normal = k.face (-1) ∧ o.along k ≤ b.low.along k ∨
          d.along k < 0 ∧ e.normal = k.face 1 ∧ b.high.along k ≤ o.along k) ∧
      ((∀ k, b.low.along k < o.along k ∧ o.along k < b.high.along k) → b.entry o d reach = none) ∧
      ∀ k, o.along k < b.low.along k ∧ (d.along k < 0 ∨ (d.along k).abs < 1e-7) ∨
        b.high.along k < o.along k ∧ (0 < d.along k ∨ (d.along k).abs < 1e-7) →
          b.entry o d reach = none := by
  refine ⟨fun e he => ?_, fun hin => ?_, fun k hout => entry_eq_none h hout⟩
  · obtain ⟨-, -, -, -, hn⟩ := entry_face he
    obtain ⟨h0, hle⟩ := entry_ext he
    exact ⟨hn, (le_iff_ext is_zero.isNaN hn).mpr h0, (le_iff_ext hn hr).mpr (hle hr),
      entry_before_face h he⟩
  · rw [Option.eq_none_iff_forall_ne_some]
    intro e he
    obtain ⟨k, hface⟩ := entry_before_face h he
    obtain ⟨l, m, p, a, hk⟩ := h.measured k
    obtain ⟨hlow, hhigh⟩ := hin k
    rw [hk.low.lt_iff hk.origin] at hlow
    rw [hk.origin.lt_iff hk.high] at hhigh
    rw [hk.origin.le_iff hk.low, hk.high.le_iff hk.origin] at hface
    rcases hface with ⟨-, -, hle⟩ | ⟨-, -, hle⟩ <;> linarith

/-- A box so far away that the distance to it is no number any more. Its face is
found nevertheless. -/
theorem entries_are_real_overflow :
    ∃ e, Box.entry ⟨⟨3e38, -1⟩, ⟨3.2e38, 1⟩⟩ ⟨-3e38, 0⟩ ⟨1, 1e-8⟩ infinity = some e ∧
      0 ≤ e.distance ∧ e.distance ≤ infinity ∧ ∃ k, e.normal = Axis.face k (-1) := by
  have h : Proper ⟨⟨3e38, -1⟩, ⟨3.2e38, 1⟩⟩ ⟨-3e38, 0⟩ ⟨1, 1e-8⟩ :=
    ⟨by rintro (_ | _) <;> decide +kernel, by rintro (_ | _) <;> decide +kernel,
      by rintro (_ | _) <;> decide +kernel, by rintro (_ | _) <;> decide +kernel,
      by rintro (_ | _) <;> decide +kernel⟩
  have he : Box.entry ⟨⟨3e38, -1⟩, ⟨3.2e38, 1⟩⟩ ⟨-3e38, 0⟩ ⟨1, 1e-8⟩ infinity =
      some ⟨infinity, Axis.face .x (-1)⟩ := by decide +kernel
  obtain ⟨-, h0, hle, -⟩ := (entries_are_real h isNaN_infinity).1 _ he
  exact ⟨_, he, h0, hle, .x, rfl⟩

end Box
end Rally
