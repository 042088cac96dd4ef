import Rally.Proofs.Plane.Entries
import Rally.Proofs.Plane.Turning
import Rally.Proofs.Scalar.Overflow

/-! Mirrors in the faces of boxes. For a normal along an axis no operation of the mirror makes an
error of rounding: one component is turned around, the other is kept, and the squared length stays
the same to the last bit. -/
namespace Rally

/-! Squares. -/

namespace Rounding
open Float.Model UnpackedFloat

variable {spec : Format} {s : Sign} {y : ℝ} {u v : UnpackedFloat}

/-- A sign and a size are written in one way. -/
theorem Denotes.unique (hu : Denotes spec s y u) (hv : Denotes spec s y v) : u = v := by
  cases hu with
  | zero hy =>
    cases hv with
    | zero _ => rfl
    | @finite n f hn hlt hmin hc hy' =>
      have hpos : (0 : ℝ) < n * 2 ^ f := mul_pos (Nat.cast_pos.mpr hn) (two_zpow_pos f)
      linarith
  | @finite m e hm hlt hmin hc hy =>
    cases hv with
    | zero hy' =>
      have hpos : (0 : ℝ) < m * 2 ^ e := mul_pos (Nat.cast_pos.mpr hm) (two_zpow_pos e)
      linarith
    | @finite n f hn hlt' hmin' hc' hy' =>
      have hsame := compare_sizes hlt hmin hc hlt' hmin' hc'
      rw [compare_eq_iff_eq.mpr (hy.symm.trans hy'), Ordering.then_eq_eq, compare_eq_iff_eq,
        compare_eq_iff_eq] at hsame
      obtain ⟨rfl, rfl⟩ := hsame
      rfl

theorem mul_self_eq_abs (u : UnpackedFloat) : u.mul spec u = u.abs.mul spec u.abs := by
  cases u with
  | notANumber => rfl
  | infinity s | zero s | finite s m e hm => cases s <;> rfl

end Rounding

namespace Scalar
open Rounding Float.Model

variable {x y : Scalar} {a b : ℝ}

/-- A square does not depend on the sign, not even on that of zero. -/
theorem Is.mul_self_eq (hx : x.Is a) (hy : y.Is b) (h : |a| = |b|) : x * x = y * y := by
  obtain ⟨s, r, hd⟩ := hx.number
  obtain ⟨t, q, hd'⟩ := hy.number
  have hr : r = |a| := by
    rw [← hx.2, toReal, hd.value, abs_signed, abs_of_nonneg hd.nonneg]
  have hq : q = |a| := by
    rw [h, ← hy.2, toReal, hd'.value, abs_signed, abs_of_nonneg hd'.nonneg]
  subst hr
  subst hq
  have habs := (denotes_abs hd).unique (denotes_abs hd')
  have hmul : x.toModel.unpack.mul .binary32 x.toModel.unpack =
      y.toModel.unpack.mul .binary32 y.toModel.unpack := by
    rw [mul_self_eq_abs, habs, ← mul_self_eq_abs]
  exact congrArg (fun u => Float32.ofModel (Float32.Model.pack u)) hmul

theorem is_unit (h : x = 1 ∨ x = -1) : ∃ s, x.Is s ∧ (s = 1 ∨ s = -1) := by
  rcases h with rfl | rfl
  · exact ⟨1, is_one, .inl rfl⟩
  · exact ⟨-1, is_one.neg, .inr rfl⟩

theorem is_nothing (h : x = 0 ∨ x = -0) : x.Is 0 := by
  rcases h with rfl | rfl
  · exact is_zero
  · exact neg_zero (G := ℝ) ▸ is_zero.neg

end Scalar

open Scalar

/-! Normals. -/

/-- A unit normal along an axis, either way. The other component is a zero of either sign. -/
structure Axis.Normal (k : Axis) (n : Vec) : Prop where
  along : n.along k = 1 ∨ n.along k = -1
  across : ∀ j, j ≠ k → n.along j = 0 ∨ n.along j = -0

namespace Axis.Normal
variable {n : Vec}

theorem is_x (h : Axis.x.Normal n) : ∃ s, n.Is s 0 ∧ (s = 1 ∨ s = -1) := by
  obtain ⟨s, hx, hs⟩ := is_unit h.along
  exact ⟨s, ⟨hx, is_nothing (h.across .y nofun)⟩, hs⟩

theorem is_y (h : Axis.y.Normal n) : ∃ t, n.Is 0 t ∧ (t = 1 ∨ t = -1) := by
  obtain ⟨t, hy, ht⟩ := is_unit h.along
  exact ⟨t, ⟨is_nothing (h.across .x nofun), hy⟩, ht⟩

end Axis.Normal

/-! Angles. -/

instance factFinrankComplex : Fact (Module.finrank ℝ ℂ = 2) := Complex.finrank_real_complex_fact

namespace Vec
variable {v w n : Vec} {k : Axis} {a b s t : ℝ}

/-- The components of a finite direction, as those of a complex number. -/
noncomputable def toComplex (v : Vec) : ℂ := ⟨v.x.toReal, v.y.toReal⟩

/-- The oriented angle from one direction to another. -/
noncomputable def oangle (v w : Vec) : Real.Angle :=
  Complex.orientation.oangle v.toComplex w.toComplex

theorem Is.toComplex (h : v.Is a b) : v.toComplex = ⟨a, b⟩ := by
  rw [Vec.toComplex, h.x.2, h.y.2]

theorem Is.neg (h : v.Is a b) : (-v).Is (-a) (-b) := ⟨h.x.neg, h.y.neg⟩

open ComplexConjugate in
/-- Two directions are mirror images of each other in the line of a normal if their products with
its conjugate are conjugate. -/
theorem oangle_eq_neg (h : conj n.toComplex * v.toComplex = conj (conj n.toComplex * w.toComplex)) :
    n.oangle v = -n.oangle w := by
  rw [oangle, oangle, Complex.oangle, Complex.oangle, h, Complex.arg_conj_coe_angle]

/-! The components of a mirror image. -/

theorem Is.mirror_x (hv : v.Is a b) (hn : n.Is s 0) (hs : s = 1 ∨ s = -1) (ha : |a| < 2 ^ (126 : ℤ))
    (hb : |b| < 2 ^ (126 : ℤ)) : (v.mirror n).Is (-a) b := by
  have h := hv.mirror hn (.x s hs) ha.le hb.le
  have hx : a - 2 * (a * s + b * 0) * s = -a := by
    rw [mul_zero, add_zero, mul_assoc, mul_sign_mul_sign hs]
    ring
  rwa [hx, mul_zero, sub_zero] at h

theorem Is.mirror_y (hv : v.Is a b) (hn : n.Is 0 t) (ht : t = 1 ∨ t = -1) (ha : |a| < 2 ^ (126 : ℤ))
    (hb : |b| < 2 ^ (126 : ℤ)) : (v.mirror n).Is a (-b) := by
  have h := hv.mirror hn (.y t ht) ha.le hb.le
  have hy : b - 2 * (a * 0 + b * t) * t = -b := by
    rw [mul_zero, zero_add, mul_assoc, mul_sign_mul_sign ht]
    ring
  rwa [hy, mul_zero, sub_zero] at h

section
variable (hv : v.Is a b) (ha : |a| < 2 ^ (126 : ℤ)) (hb : |b| < 2 ^ (126 : ℤ)) (hn : k.Normal n)
include hv ha hb hn

theorem mirror_along : (v.mirror n).along k == -v.along k ∧
    ∀ j, j ≠ k → (v.mirror n).along j == v.along j := by
  cases k with
  | x =>
    obtain ⟨s, hn, hs⟩ := hn.is_x
    have h := hv.mirror_x hn hs ha hb
    refine ⟨(h.x.beq_iff hv.x.neg).mpr rfl, fun j hj => ?_⟩
    cases j with
    | x => exact absurd rfl hj
    | y => exact (h.y.beq_iff hv.y).mpr rfl
  | y =>
    obtain ⟨t, hn, ht⟩ := hn.is_y
    have h := hv.mirror_y hn ht ha hb
    refine ⟨(h.y.beq_iff hv.y.neg).mpr rfl, fun j hj => ?_⟩
    cases j with
    | x => exact (h.x.beq_iff hv.x).mpr rfl
    | y => exact absurd rfl hj

theorem mirror_mirror (j : Axis) : ((v.mirror n).mirror n).along j == v.along j := by
  have hsame : ((v.mirror n).mirror n).Is a b := by
    cases k with
    | x =>
      obtain ⟨s, hn, hs⟩ := hn.is_x
      have h := (hv.mirror_x hn hs ha hb).mirror_x hn hs (by rwa [abs_neg]) hb
      rwa [neg_neg] at h
    | y =>
      obtain ⟨t, hn, ht⟩ := hn.is_y
      have h := (hv.mirror_y hn ht ha hb).mirror_y hn ht ha (by rwa [abs_neg])
      rwa [neg_neg] at h
  cases j with
  | x => exact (hsame.x.beq_iff hv.x).mpr rfl
  | y => exact (hsame.y.beq_iff hv.y).mpr rfl

theorem dot_mirror : (v.mirror n).dot (v.mirror n) = v.dot v := by
  cases k with
  | x =>
    obtain ⟨s, hn, hs⟩ := hn.is_x
    have h := hv.mirror_x hn hs ha hb
    rw [dot, h.x.mul_self_eq hv.x (abs_neg a), h.y.mul_self_eq hv.y rfl, dot]
  | y =>
    obtain ⟨t, hn, ht⟩ := hn.is_y
    have h := hv.mirror_y hn ht ha hb
    rw [dot, h.x.mul_self_eq hv.x rfl, h.y.mul_self_eq hv.y (abs_neg b), dot]

theorem mirror_dot_normal : (v.mirror n).dot n == -v.dot n := by
  cases k with
  | x =>
    obtain ⟨s, hn, hs⟩ := hn.is_x
    have h := (hv.mirror_x hn hs ha hb).dot hn (.x s hs)
    exact (h.beq_iff (hv.dot hn (.x s hs)).neg).mpr (by ring)
  | y =>
    obtain ⟨t, hn, ht⟩ := hn.is_y
    have h := (hv.mirror_y hn ht ha hb).dot hn (.y t ht)
    exact (h.beq_iff (hv.dot hn (.y t ht)).neg).mpr (by ring)

/-- What leaves a face makes the same angle with its normal as what came to
it, on the other side. -/
theorem oangle_mirror : n.oangle (v.mirror n) = -n.oangle (-v) := by
  refine oangle_eq_neg ?_
  cases k with
  | x =>
    obtain ⟨s, hn, hs⟩ := hn.is_x
    rw [hn.toComplex, (hv.mirror_x hn hs ha hb).toComplex, hv.neg.toComplex]
    apply Complex.ext <;> simp
  | y =>
    obtain ⟨t, hn, ht⟩ := hn.is_y
    rw [hn.toComplex, (hv.mirror_y hn ht ha hb).toComplex, hv.neg.toComplex]
    apply Complex.ext <;> simp

/-- A mirror in a face along an axis is exact. As numbers, the component along the normal is turned
around and the other is kept, and a second mirror gives the direction back. The squared length stays
the same bit for bit. The product with the normal is turned around, and so is the angle from the
normal to the way back before and to the way on after. -/
theorem mirrors_are_exact :
    ((v.mirror n).along k == -v.along k ∧ ∀ j, j ≠ k → (v.mirror n).along j == v.along j) ∧
      (∀ j, ((v.mirror n).mirror n).along j == v.along j) ∧
      ((v.mirror n).dot (v.mirror n)).toBits = (v.dot v).toBits ∧
      (v.mirror n).dot n == -v.dot n ∧ n.oangle (v.mirror n) = -n.oangle (-v) :=
  ⟨mirror_along hv ha hb hn, mirror_mirror hv ha hb hn,
    congrArg Float32.toBits (dot_mirror hv ha hb hn), mirror_dot_normal hv ha hb hn,
    oangle_mirror hv ha hb hn⟩

end

/-- A direction with the least component there is and one too large to be squared, mirrored in the
lower face of a box, whose normal has a negative zero. -/
theorem mirrors_are_exact_subnormal :
    ∃ (v n : Vec) (a b : ℝ), v = ⟨1e-45, -8e37⟩ ∧ n = ⟨-0, -1⟩ ∧ v.Is a b ∧
      |a| < 2 ^ (126 : ℤ) ∧ |b| < 2 ^ (126 : ℤ) ∧ Axis.y.Normal n ∧ v.mirror n = ⟨1e-45, 8e37⟩ ∧
      ((v.mirror n).dot (v.mirror n)).toBits = (v.dot v).toBits ∧
      n.oangle (v.mirror n) = -n.oangle (-v) := by
  have hx : (1e-45 : Scalar).Is (1 * 2 ^ (-149 : ℤ)) :=
    is_literal (m := 1) (e := -149) rfl (by simp)
  have hy : (8e37 : Scalar).Is (15777218 * 2 ^ (102 : ℤ)) := by
    have hbits : (8e37 : Scalar) = .ofBits 0x7e70bdc2 := by decide +kernel
    rw [hbits]
    exact is_literal (m := 15777218) (e := 102) rfl (by norm_num)
  have hv : Vec.Is ⟨1e-45, -8e37⟩ (1 * 2 ^ (-149 : ℤ)) (-(15777218 * 2 ^ (102 : ℤ))) := ⟨hx, hy.neg⟩
  have ha : |(1 * 2 ^ (-149 : ℤ) : ℝ)| < 2 ^ (126 : ℤ) := by norm_num
  have hb : |-(15777218 * 2 ^ (102 : ℤ) : ℝ)| < 2 ^ (126 : ℤ) := by norm_num
  have hn : Axis.y.Normal ⟨-0, -1⟩ := by
    refine ⟨.inr rfl, fun j hj => ?_⟩
    cases j with
    | x => exact .inr rfl
    | y => exact absurd rfl hj
  obtain ⟨-, -, hdot, -, hangle⟩ := mirrors_are_exact hv ha hb hn
  exact ⟨_, _, _, _, rfl, rfl, hv, ha, hb, hn, by decide +kernel, hdot, hangle⟩

end Vec
end Rally
