import Rally.Scalar
import Rally.Proofs.Scalar.Compared

/-! The real value of a scalar. An operation on scalars gives the rounded value of the exact result,
as long as that is not too large. -/
namespace Rally.Scalar

open Rounding Float.Model

variable {x y : Scalar} {a b c : ℝ}

/-- The real value of a finite scalar. -/
noncomputable def toReal (x : Scalar) : ℝ := value x.toModel.unpack

/-- `x` is finite and has the value `a`. -/
def Is (x : Scalar) (a : ℝ) : Prop := x.isFinite = true ∧ x.toReal = a

/-- The value of the scalar nearest to `a`. -/
noncomputable def rnd (a : ℝ) : ℝ := rounded .binary32 a

/-- `a` is not too large to be rounded to a scalar. -/
structure Fits (a : ℝ) : Prop where
  abs_rnd_lt : |rnd a| < 2 ^ (128 : ℤ)

theorem is_toReal (h : x.isFinite = true) : x.Is x.toReal := ⟨h, rfl⟩

theorem Is.unique (ha : x.Is a) (hb : x.Is b) : a = b := ha.2.symm.trans hb.2

/-! Numbers. -/

theorem unpack_cases (x : Scalar) :
    (∃ s, x.toModel.unpack = .infinity s) ∨ x.toModel.unpack = .notANumber ∨
      ∃ s y, Denotes .binary32 s y x.toModel.unpack ∧ y < 2 ^ (128 : ℤ) :=
  Rounding.unpack_cases _

theorem isFinite_of_number {u : UnpackedFloat} (h : Number .binary32 u) : u.isFinite = true := by
  obtain ⟨s, y, h⟩ := h
  cases h <;> rfl

theorem number_of_isFinite (h : x.isFinite = true) : Number .binary32 x.toModel.unpack := by
  have hu : x.toModel.unpack.isFinite = true := h
  rcases unpack_cases x with ⟨s, hs⟩ | hs | ⟨s, y, hs, -⟩
  · rw [hs] at hu
    cases hu
  · rw [hs] at hu
    cases hu
  · exact ⟨s, y, hs⟩

theorem proper_of_not_isNaN (h : x.isNaN = false) :
    (∃ s, x.toModel.unpack = .infinity s) ∨ Number .binary32 x.toModel.unpack := by
  have hu : x.toModel.unpack.isNaN = false := h
  rcases unpack_cases x with hs | hs | ⟨s, y, hs, -⟩
  · exact .inl hs
  · rw [hs] at hu
    cases hu
  · exact .inr ⟨s, y, hs⟩

theorem Is.representable (h : x.Is a) : Representable .binary32 a :=
  h.2 ▸ (number_of_isFinite h.1).representable

/-- A scalar is rounded to itself. -/
theorem Is.rnd_eq (h : x.Is a) : rnd a = a := rounded_eq h.representable

/-! Operations. -/

theorem is_of_rounds {u : UnpackedFloat} (hu : Rounds .binary32 a u) (hf : Fits a)
    (hx : x.toModel.unpack =
      UnpackedFloat.unpack .binary32 (UnpackedFloat.pack .binary32 u)) : x.Is (rnd a) := by
  obtain ⟨⟨s, y, hd⟩, hv⟩ := hu
  have hlt : y < 2 ^ (128 : ℤ) := by
    have h := hf.abs_rnd_lt
    rwa [rnd, ← hv, hd.value, abs_signed, abs_of_nonneg hd.nonneg] at h
  have hself : x.toModel.unpack = u := hx.trans (hd.unpack_pack (by decide) hlt)
  refine ⟨?_, ?_⟩
  · change x.toModel.unpack.isFinite = true
    rw [hself]
    exact isFinite_of_number ⟨s, y, hd⟩
  · rw [toReal, hself]
    exact hv

theorem Is.number (h : x.Is a) : Number .binary32 x.toModel.unpack := number_of_isFinite h.1

theorem Is.add_rounds (hx : x.Is a) (hy : y.Is b) :
    Rounds .binary32 (a + b) (x.toModel.unpack.add .binary32 y.toModel.unpack) := by
  have h := Rounding.add_rounds hx.number hy.number
  have hv : value x.toModel.unpack + value y.toModel.unpack = a + b := by
    rw [← hx.2, ← hy.2]
    rfl
  rwa [hv] at h

theorem Is.add (hx : x.Is a) (hy : y.Is b) (hf : Fits (a + b)) : (x + y).Is (rnd (a + b)) :=
  is_of_rounds (hx.add_rounds hy) hf rfl

theorem Is.sub_rounds (hx : x.Is a) (hy : y.Is b) :
    Rounds .binary32 (a - b) (x.toModel.unpack.sub .binary32 y.toModel.unpack) := by
  have h := Rounding.sub_rounds hx.number hy.number
  have hv : value x.toModel.unpack - value y.toModel.unpack = a - b := by
    rw [← hx.2, ← hy.2]
    rfl
  rwa [hv] at h

theorem Is.sub (hx : x.Is a) (hy : y.Is b) (hf : Fits (a - b)) : (x - y).Is (rnd (a - b)) :=
  is_of_rounds (hx.sub_rounds hy) hf rfl

theorem Is.mul_rounds (hx : x.Is a) (hy : y.Is b) :
    Rounds .binary32 (a * b) (x.toModel.unpack.mul .binary32 y.toModel.unpack) := by
  have h := Rounding.mul_rounds hx.number hy.number
  have hv : value x.toModel.unpack * value y.toModel.unpack = a * b := by
    rw [← hx.2, ← hy.2]
    rfl
  rwa [hv] at h

theorem Is.mul (hx : x.Is a) (hy : y.Is b) (hf : Fits (a * b)) : (x * y).Is (rnd (a * b)) :=
  is_of_rounds (hx.mul_rounds hy) hf rfl

theorem Is.div_rounds (hx : x.Is a) (hy : y.Is b) (hb : b ≠ 0) :
    Rounds .binary32 (a / b) (x.toModel.unpack.div .binary32 y.toModel.unpack) := by
  have hne : value y.toModel.unpack ≠ 0 := fun h => hb (hy.2.symm.trans h)
  have h := Rounding.div_rounds hx.number hy.number hne
  have hv : value x.toModel.unpack / value y.toModel.unpack = a / b := by
    rw [← hx.2, ← hy.2]
    rfl
  rwa [hv] at h

theorem Is.div (hx : x.Is a) (hy : y.Is b) (hb : b ≠ 0) (hf : Fits (a / b)) :
    (x / y).Is (rnd (a / b)) :=
  is_of_rounds (hx.div_rounds hy hb) hf rfl

theorem Is.sqrt (hx : x.Is a) (ha : 0 ≤ a) (hf : Fits (√a)) :
    Is x.sqrt (rnd (√a)) := by
  have hv : value x.toModel.unpack = a := hx.2
  have h := sqrt_rounds hx.number (hv ▸ ha)
  rw [hv] at h
  exact is_of_rounds h hf rfl

theorem Is.abs_lt (h : x.Is a) : |a| < 2 ^ (128 : ℤ) := by
  have hu : x.toModel.unpack.isFinite = true := h.1
  rcases unpack_cases x with ⟨s, hs⟩ | hs | ⟨s, y, hs, hy⟩
  · rw [hs] at hu
    cases hu
  · rw [hs] at hu
    cases hu
  · rw [← h.2, toReal, hs.value, abs_signed, abs_of_nonneg hs.nonneg]
    exact hy

theorem Is.fits (h : x.Is a) : Fits a := ⟨h.rnd_eq.symm ▸ h.abs_lt⟩

theorem Is.neg (h : x.Is a) : (-x).Is (-a) := by
  have hv : value x.toModel.unpack.neg = -a := by
    rw [value_neg, ← h.2]
    rfl
  have hr := h.number.neg.rounds
  rw [hv] at hr
  have hself : rnd (-a) = -a := (rounded_neg a).trans (congrArg _ h.rnd_eq)
  have hf : Fits (-a) := ⟨by rw [hself, abs_neg]; exact h.abs_lt⟩
  exact hself ▸ is_of_rounds hr hf rfl

/-! Order. -/

theorem Is.extended (h : x.Is a) : extended x.toModel.unpack = (a : EReal) := by
  rw [h.number.extended, ← h.2]
  rfl

theorem Is.lt_iff (hx : x.Is a) (hy : y.Is b) : x < y ↔ a < b := by
  have h := lt_iff_extended (.inr hx.number) (.inr hy.number)
  rw [hx.extended, hy.extended, EReal.coe_lt_coe_iff] at h
  rw [← h]
  exact decide_eq_true_iff

theorem Is.le_iff (hx : x.Is a) (hy : y.Is b) : x ≤ y ↔ a ≤ b := by
  have h := le_iff_extended (.inr hx.number) (.inr hy.number)
  rw [hx.extended, hy.extended, EReal.coe_le_coe_iff] at h
  rw [← h]
  exact decide_eq_true_iff

/-! Rounding to scalars. -/

theorem rnd_mono (h : a ≤ b) : rnd a ≤ rnd b := rounded_mono h

theorem rnd_neg (a : ℝ) : rnd (-a) = -rnd a := rounded_neg a

theorem Is.rnd_le (h : x.Is b) (hab : a ≤ b) : rnd a ≤ b := rounded_le hab h.representable

theorem Is.le_rnd (h : x.Is b) (hba : b ≤ a) : b ≤ rnd a := le_rounded hba h.representable

theorem rnd_nonneg (h : 0 ≤ a) : 0 ≤ rnd a := rounded_nonneg h

theorem rnd_nonpos (h : a ≤ 0) : rnd a ≤ 0 := by
  have := rnd_nonneg (neg_nonneg.mpr h)
  rwa [rnd_neg, neg_nonneg] at this

/-- A power of two is a scalar, from the least ones on. -/
theorem representable_two_pow {k : ℤ} (h : -149 ≤ k) : Representable .binary32 (2 ^ k) :=
  ⟨1, k, by decide, h, by simp⟩

theorem abs_rnd (a : ℝ) : |rnd a| = rnd |a| := by
  rcases le_total 0 a with h | h
  · rw [abs_of_nonneg h, abs_of_nonneg (rnd_nonneg h)]
  · rw [abs_of_nonpos h, abs_of_nonpos (rnd_nonpos h), rnd_neg]

theorem abs_rnd_le {k : ℤ} (hk : -149 ≤ k) (h : |a| ≤ 2 ^ k) : |rnd a| ≤ 2 ^ k := by
  rw [abs_rnd]
  exact rounded_le h (representable_two_pow hk)

theorem fits_of_le {k : ℤ} (hk : -149 ≤ k) (hk' : k < 128) (h : |a| ≤ 2 ^ k) : Fits a :=
  ⟨(abs_rnd_le hk h).trans_lt (zpow_lt_zpow_right₀ one_lt_two hk')⟩

/-! Operations without an error. -/

/-- A sum that is a scalar is exact. -/
theorem Is.add_exact {z : Scalar} (hx : x.Is a) (hy : y.Is b) (hz : z.Is (a + b)) :
    (x + y).Is (a + b) := hz.rnd_eq ▸ hx.add hy hz.fits

theorem Is.sub_exact {z : Scalar} (hx : x.Is a) (hy : y.Is b) (hz : z.Is (a - b)) :
    (x - y).Is (a - b) := hz.rnd_eq ▸ hx.sub hy hz.fits

theorem Is.mul_exact {z : Scalar} (hx : x.Is a) (hy : y.Is b) (hz : z.Is (a * b)) :
    (x * y).Is (a * b) := hz.rnd_eq ▸ hx.mul hy hz.fits

theorem Is.add_nothing (hx : x.Is a) (hy : y.Is 0) : (x + y).Is a := by
  have h := hx.add_exact hy ((add_zero a).symm ▸ hx)
  rwa [add_zero] at h

theorem Is.nothing_add (hx : x.Is 0) (hy : y.Is b) : (x + y).Is b := by
  have h := hx.add_exact hy ((zero_add b).symm ▸ hy)
  rwa [zero_add] at h

theorem Is.sub_nothing (hx : x.Is a) (hy : y.Is 0) : (x - y).Is a := by
  have h := hx.sub_exact hy ((sub_zero a).symm ▸ hx)
  rwa [sub_zero] at h

theorem Is.mul_nothing (hx : x.Is a) (hy : y.Is 0) : (x * y).Is 0 := by
  have h := hx.mul_exact hy ((mul_zero a).symm ▸ hy)
  rwa [mul_zero] at h

theorem Is.nothing_mul (hx : x.Is 0) (hy : y.Is b) : (x * y).Is 0 := by
  have h := hx.mul_exact hy ((zero_mul b).symm ▸ hx)
  rwa [zero_mul] at h

/-- A product with one or its opposite is exact. -/
theorem Is.mul_sign (hx : x.Is a) (hy : y.Is b) (hb : b = 1 ∨ b = -1) : (x * y).Is (a * b) := by
  rcases hb with rfl | rfl
  · exact hx.mul_exact hy ((mul_one a).symm ▸ hx)
  · exact hx.mul_exact hy ((mul_neg_one a).symm ▸ hx.neg)

/-- A product with two is exact. -/
theorem Is.two_mul (hx : x.Is 2) (hy : y.Is b) (hb : |b| ≤ 2 ^ (126 : ℤ)) :
    (x * y).Is (2 * b) := by
  have hrep : Representable .binary32 (2 * b) := by
    obtain ⟨m, e, hm, he, rfl⟩ := hy.representable
    refine ⟨m, e + 1, hm, by omega, ?_⟩
    rw [zpow_add_one₀ two_ne_zero]
    ring
  have hf : Fits (2 * b) := by
    refine fits_of_le (k := 127) (by decide) (by decide) ?_
    have hpow : (2 : ℝ) ^ (127 : ℤ) = 2 * 2 ^ (126 : ℤ) := by norm_num
    rw [abs_mul, abs_two, hpow]
    exact mul_le_mul_of_nonneg_left hb zero_le_two
  have h := hx.mul hy hf
  rwa [rnd, rounded_eq hrep] at h

/-- The error of a rounded number. -/
theorem rnd_error (a : ℝ) : |rnd a - a| ≤ |a| * 2 ^ (-24 : ℤ) + 2 ^ (-150 : ℤ) := by
  have h := rounded_error .binary32 a
  have hbits : (2 : ℝ) ^ (Format.binary32).mantissaBits = 2 ^ (24 : ℤ) := rfl
  have hmin : (Format.binary32).minExponent - 1 = -150 := rfl
  rw [hbits, hmin, div_eq_mul_inv, ← zpow_neg] at h
  exact h

theorem rnd_pos (h : 2 ^ (-150 : ℤ) < a) : 0 < rnd a := rounded_pos h

/-- The error is below a part in sixteen million, but for the least numbers. -/
theorem rnd_error_le (a : ℝ) : |rnd a - a| ≤ |a| * (1 / 16000000) + 1 / 10 ^ 30 := by
  calc |rnd a - a| ≤ |a| * 2 ^ (-24 : ℤ) + 2 ^ (-150 : ℤ) := rnd_error a
    _ ≤ |a| * (1 / 16000000) + 1 / 10 ^ 30 := by
      gcongr
      · norm_num
      · norm_num

theorem rnd_near (h : |a| ≤ 8) : |rnd a - a| ≤ 1 / 1000000 := by
  have := rnd_error_le a
  linarith

theorem fits_of_le_eight (h : |a| ≤ 8) : Fits a := by
  refine fits_of_le (k := 3) (by decide) (by decide) ?_
  norm_num
  exact h

/-- The least size of a scalar that is not zero. -/
theorem Is.two_pow_le_abs (h : x.Is a) (ha : a ≠ 0) : 2 ^ (-149 : ℤ) ≤ |a| := by
  obtain ⟨m, e, -, he, rfl⟩ := h.representable
  have hm : m ≠ 0 := by
    rintro rfl
    simp at ha
  have hone : (1 : ℝ) ≤ |(m : ℝ)| := by exact_mod_cast Int.one_le_abs hm
  rw [abs_mul, abs_of_pos (two_zpow_pos e)]
  calc (2 : ℝ) ^ (-149 : ℤ) ≤ 2 ^ e := zpow_le_zpow_right₀ one_le_two he
    _ ≤ |(m : ℝ)| * 2 ^ e := le_mul_of_one_le_left (two_zpow_pos e).le hone

/-! Whole numbers. -/

theorem fits_uint64 (n : UInt64) : Fits n.toNat := by
  refine fits_of_le (k := 64) (by decide) (by decide) ?_
  have hn : (n.toNat : ℝ) ≤ 2 ^ 64 := by exact_mod_cast n.toNat_lt.le
  rw [Nat.abs_cast]
  exact_mod_cast hn

theorem is_ofNat (n : ℕ) : (ofNat n).Is (rnd n.toUInt64.toNat) := by
  have h : Rounds .binary32 _ _ := normalize_rounds n.toUInt64.toNat 0 .positive
  rw [zpow_zero, mul_one, Int.cast_natCast] at h
  exact is_of_rounds h (fits_uint64 _) rfl

/-! Literals. -/

theorem is_of_unpack {s : UnpackedFloat.Sign} {m : ℕ} {e : ℤ} {hm : 0 < m}
    (h : x.toModel.unpack = .finite s m e hm) : x.Is (signed s (m * 2 ^ e)) := by
  refine ⟨?_, ?_⟩
  · change x.toModel.unpack.isFinite = true
    rw [h]
    rfl
  · rw [toReal, h]
    rfl

theorem is_literal {m : ℕ} {e : ℤ} {hm : 0 < m} (h : x.toModel.unpack = .finite .positive m e hm)
    (ha : m * 2 ^ e = a) : x.Is a := ha ▸ is_of_unpack h

theorem is_zero : (0 : Scalar).Is 0 := ⟨rfl, rfl⟩

theorem is_one : (1 : Scalar).Is 1 := is_literal (m := 2 ^ 23) (e := -23) rfl (by norm_num)

theorem is_two : (2 : Scalar).Is 2 := is_literal (m := 2 ^ 23) (e := -22) rfl (by norm_num)

/-- The ways to go as numbers. -/
theorem is_ofInt8 {i : Int8} (h : i = -1 ∨ i = 0 ∨ i = 1) : ∃ a, (ofInt8 i).Is a ∧ |a| ≤ 1 := by
  rcases h with rfl | rfl | rfl
  · have heq : ofInt8 (-1) = -1 := by decide +kernel
    exact ⟨-1, heq ▸ is_one.neg, by norm_num⟩
  · have heq : ofInt8 0 = 0 := by decide +kernel
    exact ⟨0, heq ▸ is_zero, by norm_num⟩
  · have heq : ofInt8 1 = 1 := by decide +kernel
    exact ⟨1, heq ▸ is_one, by norm_num⟩

end Rally.Scalar
