import Rally.Proofs.Scalar.Overflow

/-! Differences and products have the sign of what they are rounded from, even where they are as
small as numbers get or too large to be any. -/
namespace Rally.Scalar

open Rounding Float.Model

variable {x y : Scalar} {a b : ℝ} {u : UnpackedFloat} {s : UnpackedFloat.Sign}

theorem ext_eq_top (h : x.toModel.unpack = .infinity .positive) : x.ext = ⊤ := by
  rw [Scalar.ext, h]
  rfl

theorem ext_eq_bot (h : x.toModel.unpack = .infinity .negative) : x.ext = ⊥ := by
  rw [Scalar.ext, h]
  rfl

theorem ext_neg_of_rounds (hu : Rounds .binary32 a u)
    (hx : x.toModel.unpack = UnpackedFloat.unpack .binary32 (UnpackedFloat.pack .binary32 u))
    (ha : a < -2 ^ (-150 : ℤ)) : x.ext < 0 := by
  by_cases hf : Fits a
  · have hpos : 0 < rnd (-a) := rnd_pos (by linarith)
    rw [rnd_neg] at hpos
    rw [(is_of_rounds hu hf hx).ext]
    exact_mod_cast neg_pos.mp hpos
  · have hneg : ¬ 0 < a := by linarith [two_zpow_pos (-150)]
    have hinf := infinity_of_rounds hu hf hx
    rw [if_neg hneg] at hinf
    rw [ext_eq_bot hinf]
    exact EReal.bot_lt_zero

theorem ext_pos_of_rounds (hu : Rounds .binary32 a u)
    (hx : x.toModel.unpack = UnpackedFloat.unpack .binary32 (UnpackedFloat.pack .binary32 u))
    (ha : 2 ^ (-150 : ℤ) < a) : 0 < x.ext := by
  by_cases hf : Fits a
  · rw [(is_of_rounds hu hf hx).ext]
    exact_mod_cast rnd_pos ha
  · have hinf := infinity_of_rounds hu hf hx
    rw [if_pos ((two_zpow_pos _).trans ha)] at hinf
    rw [ext_eq_top hinf]
    exact EReal.zero_lt_top

/-! Differences. -/

/-- Two scalars that differ do so by the least number or more. -/
theorem Is.two_pow_le_sub (hx : x.Is a) (hy : y.Is b) (h : a < b) : 2 ^ (-149 : ℤ) ≤ b - a := by
  obtain ⟨m, e, -, he, ha⟩ := hx.representable
  obtain ⟨n, f, -, hf, hb⟩ := hy.representable
  obtain ⟨m', hm⟩ := exists_mul_of_le (k := -149) m he
  obtain ⟨n', hn⟩ := exists_mul_of_le (k := -149) n hf
  rw [ha, hb, hm, hn] at h ⊢
  have hlt : m' < n' := by exact_mod_cast lt_of_mul_lt_mul_right h (two_zpow_pos _).le
  have hone : (1 : ℝ) ≤ n' - m' := by
    have : (m' : ℝ) + 1 ≤ n' := by exact_mod_cast hlt
    linarith
  rw [← sub_mul]
  exact le_mul_of_one_le_left (two_zpow_pos _).le hone

/-- A difference of numbers is not lost, however large it is. -/
theorem Is.isNaN_sub (hx : x.Is a) (hy : y.Is b) : (x - y).isNaN = false :=
  isNaN_of_rounds (hx.sub_rounds hy) rfl

theorem Is.sub_neg (hx : x.Is a) (hy : y.Is b) (h : a < b) : (x - y).ext < 0 := by
  have hgap := hx.two_pow_le_sub hy h
  have hhalf : (2 : ℝ) ^ (-150 : ℤ) < 2 ^ (-149 : ℤ) := zpow_lt_zpow_right₀ one_lt_two (by decide)
  exact ext_neg_of_rounds (hx.sub_rounds hy) rfl (by linarith)

theorem Is.sub_pos (hx : x.Is a) (hy : y.Is b) (h : b < a) : 0 < (x - y).ext := by
  have hgap := hy.two_pow_le_sub hx h
  have hhalf : (2 : ℝ) ^ (-150 : ℤ) < 2 ^ (-149 : ℤ) := zpow_lt_zpow_right₀ one_lt_two (by decide)
  exact ext_pos_of_rounds (hx.sub_rounds hy) rfl (by linarith)

/-! Products. -/

theorem unpack_mul_infinity (hx : x.toModel.unpack = .infinity s) (hy : y.Is b) (hb : b ≠ 0) :
    (x * y).toModel.unpack = .infinity (s * if 0 < b then .positive else .negative) := by
  have hprod : (x * y).toModel.unpack = UnpackedFloat.unpack .binary32
      (UnpackedFloat.pack .binary32 (x.toModel.unpack.mul .binary32 y.toModel.unpack)) := rfl
  rcases hy.unpack_sign with ⟨hzero, -⟩ | ⟨t, m, e, hm, ht, ⟨rfl, hpos⟩ | ⟨rfl, hneg⟩⟩
  · exact absurd hzero hb
  · rw [if_pos hpos, hprod, hx, ht]
    exact unpack_packedInfinity _
  · rw [if_neg hneg.not_gt, hprod, hx, ht]
    exact unpack_packedInfinity _

/-- Even an infinity is not lost when it is multiplied by a number, unless that is zero. -/
theorem isNaN_mul_number (hx : x.isNaN = false) (hy : y.Is b) (hb : b ≠ 0) :
    (x * y).isNaN = false := by
  rcases proper_of_not_isNaN hx with ⟨s, hs⟩ | hn
  · change (x * y).toModel.unpack.isNaN = false
    rw [unpack_mul_infinity hs hy hb]
    rfl
  · exact (is_toReal (isFinite_of_number hn)).isNaN_mul hy

/-- A product with what is at least one in size is on the other side of zero if the signs differ. -/
theorem mul_neg_of_signs (hx : x.isNaN = false) (hy : y.Is b)
    (h : x.ext < 0 ∧ 1 ≤ b ∨ 0 < x.ext ∧ b ≤ -1) : (x * y).ext < 0 := by
  rcases proper_of_not_isNaN hx with ⟨s, hs⟩ | hn
  · cases s with
    | positive =>
      rw [ext_eq_top hs] at h
      obtain ⟨-, hb⟩ := h.resolve_left fun h => not_top_lt h.1
      have hprod := unpack_mul_infinity hs hy (by linarith)
      rw [if_neg (by linarith)] at hprod
      rw [ext_eq_bot hprod]
      exact EReal.bot_lt_zero
    | negative =>
      rw [ext_eq_bot hs] at h
      obtain ⟨-, hb⟩ := h.resolve_right fun h => not_lt_bot h.1
      have hprod := unpack_mul_infinity hs hy (by linarith)
      rw [if_pos (by linarith)] at hprod
      rw [ext_eq_bot hprod]
      exact EReal.bot_lt_zero
  · have hx := is_toReal (isFinite_of_number hn)
    have hhalf : (2 : ℝ) ^ (-150 : ℤ) < 2 ^ (-149 : ℤ) := zpow_lt_zpow_right₀ one_lt_two (by decide)
    refine ext_neg_of_rounds (hx.mul_rounds hy) rfl ?_
    rw [hx.ext] at h
    rcases h with ⟨hneg, hb⟩ | ⟨hpos, hb⟩
    · have hneg : x.toReal < 0 := by exact_mod_cast hneg
      have hsize := hx.two_pow_le_abs hneg.ne
      rw [abs_of_neg hneg] at hsize
      nlinarith
    · have hpos : 0 < x.toReal := by exact_mod_cast hpos
      have hsize := hx.two_pow_le_abs hpos.ne'
      rw [abs_of_pos hpos] at hsize
      nlinarith

/-- What is no larger than a number in size is a number. -/
theorem is_of_abs_le (h : x.abs ≤ y) (hy : y.Is b) : ∃ a, x.Is a ∧ |a| ≤ b := by
  have hmodel : x.abs.toModel.unpack = UnpackedFloat.unpack .binary32
      (UnpackedFloat.pack .binary32 x.toModel.unpack.abs) := rfl
  have hnan := (isNaN_of_le h).1
  rw [le_iff_ext hnan hy.isNaN, hy.ext] at h
  rcases unpack_cases x with ⟨s, hs⟩ | hs | ⟨s, z, hs, -⟩
  · rw [hs] at hmodel
    rw [ext_eq_top (hmodel.trans (unpack_packedInfinity .positive))] at h
    exact absurd h (not_le.mpr (EReal.coe_lt_top b))
  · rw [hs] at hmodel
    rw [isNaN_of_unpack rfl hmodel] at hnan
    cases hnan
  · have hx := is_toReal (isFinite_of_number ⟨s, z, hs⟩)
    rw [hx.abs.ext, EReal.coe_le_coe_iff] at h
    exact ⟨_, hx, h⟩

end Rally.Scalar
