import Rally.Proofs.Scalar.Packed

/-! Unpacked numbers are compared as their values are. -/
namespace Rally.Rounding

open Float.Model UnpackedFloat

variable {spec : Format} {m n : ℕ} {e f : ℤ} {s t : Sign} {x y : ℝ} {u v : UnpackedFloat}

theorem lt_of_exponent_lt (hm : m < 2 ^ spec.mantissaBits) (hmin : spec.minExponent ≤ e)
    (hc : f = spec.minExponent ∨ 2 ^ (spec.mantissaBits - 1) ≤ n) (h : e < f) :
    (m : ℝ) * 2 ^ e < n * 2 ^ f := by
  have hbits := one_le_mantissaBits spec
  have hn : 2 ^ (spec.mantissaBits - 1) ≤ n := hc.resolve_left (by omega)
  calc (m : ℝ) * 2 ^ e < 2 ^ (spec.mantissaBits : ℤ) * 2 ^ e := by
        refine mul_lt_mul_of_pos_right ?_ (two_zpow_pos e)
        rw [zpow_natCast]
        exact_mod_cast hm
    _ ≤ 2 ^ ((spec.mantissaBits - 1 : ℕ) : ℤ) * 2 ^ f := by
        rw [← zpow_add₀ two_ne_zero, ← zpow_add₀ two_ne_zero]
        exact zpow_le_zpow_right₀ one_le_two (by omega)
    _ ≤ n * 2 ^ f := by
        refine mul_le_mul_of_nonneg_right ?_ (two_zpow_pos f).le
        rw [zpow_natCast]
        exact_mod_cast hn

/-- Sizes are compared by their exponents first. -/
theorem compare_sizes (hm : m < 2 ^ spec.mantissaBits) (hmin : spec.minExponent ≤ e)
    (hc : e = spec.minExponent ∨ 2 ^ (spec.mantissaBits - 1) ≤ m)
    (hn : n < 2 ^ spec.mantissaBits) (hmin' : spec.minExponent ≤ f)
    (hc' : f = spec.minExponent ∨ 2 ^ (spec.mantissaBits - 1) ≤ n) :
    (compare e f).then (compare m n) = compare ((m : ℝ) * 2 ^ e) (n * 2 ^ f) := by
  rcases lt_trichotomy e f with h | rfl | h
  · rw [compare_lt_iff_lt.mpr h, compare_lt_iff_lt.mpr (lt_of_exponent_lt hm hmin hc' h)]
    rfl
  · have hp := two_zpow_pos e
    rw [compare_eq_iff_eq.mpr rfl]
    rcases lt_trichotomy m n with h | rfl | h
    · have hmul := mul_lt_mul_of_pos_right (Nat.cast_lt.mpr h) hp
      rw [compare_lt_iff_lt.mpr h, compare_lt_iff_lt.mpr hmul]
      rfl
    · rw [compare_eq_iff_eq.mpr rfl, compare_eq_iff_eq.mpr rfl]
      rfl
    · have hmul := mul_lt_mul_of_pos_right (Nat.cast_lt.mpr h) hp
      rw [compare_gt_iff_gt.mpr h, compare_gt_iff_gt.mpr hmul]
      rfl
  · rw [compare_gt_iff_gt.mpr h, compare_gt_iff_gt.mpr (lt_of_exponent_lt hn hmin' hc h)]
    rfl

theorem swap_compare (x y : ℝ) : (compare x y).swap = compare (-x) (-y) := by
  rcases lt_trichotomy x y with h | rfl | h
  · rw [compare_lt_iff_lt.mpr h, compare_gt_iff_gt.mpr (neg_lt_neg h)]
    rfl
  · rw [compare_eq_iff_eq.mpr rfl, compare_eq_iff_eq.mpr rfl]
    rfl
  · rw [compare_gt_iff_gt.mpr h, compare_lt_iff_lt.mpr (neg_lt_neg h)]
    rfl

theorem compare_numbers (hu : Denotes spec s x u) (hv : Denotes spec t y v) :
    UnpackedFloat.compare u v = some (compare (value u) (value v)) := by
  have hvalue (r : Sign) : value (.zero r) = 0 := rfl
  cases hu with
  | zero hx =>
    cases hv with
    | zero hy =>
      rw [hvalue, hvalue, compare_eq_iff_eq.mpr rfl]
      cases s <;> cases t <;> rfl
    | @finite n f hn hlt hmin hc hy =>
      have hpos : (0 : ℝ) < n * 2 ^ f := mul_pos (Nat.cast_pos.mpr hn) (two_zpow_pos f)
      rw [hvalue]
      cases t with
      | negative =>
        have hv : value (.finite .negative n f hn) = -(n * 2 ^ f) := rfl
        rw [hv, compare_gt_iff_gt.mpr (neg_lt_zero.mpr hpos)]
        cases s <;> rfl
      | positive =>
        have hv : value (.finite .positive n f hn) = n * 2 ^ f := rfl
        rw [hv, compare_lt_iff_lt.mpr hpos]
        cases s <;> rfl
  | @finite m e hm hlt hmin hc hx =>
    have hpos : (0 : ℝ) < m * 2 ^ e := mul_pos (Nat.cast_pos.mpr hm) (two_zpow_pos e)
    have hneg : value (.finite .negative m e hm) = -(m * 2 ^ e) := rfl
    have hposv : value (.finite .positive m e hm) = m * 2 ^ e := rfl
    cases hv with
    | zero hy =>
      rw [hvalue]
      cases s with
      | negative =>
        rw [hneg, compare_lt_iff_lt.mpr (neg_lt_zero.mpr hpos)]
        rfl
      | positive =>
        rw [hposv, compare_gt_iff_gt.mpr hpos]
        rfl
    | @finite n f hn hlt' hmin' hc' hy =>
      have hpos' : (0 : ℝ) < n * 2 ^ f := mul_pos (Nat.cast_pos.mpr hn) (two_zpow_pos f)
      have hneg' : value (.finite .negative n f hn) = -(n * 2 ^ f) := rfl
      have hposv' : value (.finite .positive n f hn) = n * 2 ^ f := rfl
      have hsizes := compare_sizes hlt hmin hc hlt' hmin' hc'
      cases s <;> cases t
      · rw [hneg, hneg', ← swap_compare, ← hsizes]
        rfl
      · rw [hneg, hposv', compare_lt_iff_lt.mpr (by linarith)]
        rfl
      · rw [hposv, hneg', compare_gt_iff_gt.mpr (by linarith)]
        rfl
      · rw [hposv, hposv', ← hsizes]
        rfl

/-- The value of an unpacked number, or an infinity. -/
noncomputable def extended : UnpackedFloat → EReal
  | .infinity .negative => ⊥
  | .infinity .positive => ⊤
  | u => (value u : ℝ)

theorem compare_coe (x y : ℝ) : compare (x : EReal) y = compare x y := by
  rcases lt_trichotomy x y with h | rfl | h
  · rw [compare_lt_iff_lt.mpr h, compare_lt_iff_lt.mpr (EReal.coe_lt_coe_iff.mpr h)]
  · rw [compare_eq_iff_eq.mpr rfl, compare_eq_iff_eq.mpr rfl]
  · rw [compare_gt_iff_gt.mpr h, compare_gt_iff_gt.mpr (EReal.coe_lt_coe_iff.mpr h)]

theorem Number.extended (h : Number spec u) : extended u = (value u : ℝ) := by
  obtain ⟨s, y, h⟩ := h
  cases h <;> rfl

/-- An infinity lies beyond all numbers. -/
theorem compare_extended (hu : (∃ s, u = .infinity s) ∨ Number spec u)
    (hv : (∃ s, v = .infinity s) ∨ Number spec v) :
    UnpackedFloat.compare u v = some (compare (extended u) (extended v)) := by
  have hbot : extended (.infinity .negative) = ⊥ := rfl
  have htop : extended (.infinity .positive) = ⊤ := rfl
  rcases hu with ⟨s, rfl⟩ | hu
  · rcases hv with ⟨t, rfl⟩ | hv
    · cases s <;> cases t <;> simp only [hbot, htop]
      · rw [compare_eq_iff_eq.mpr rfl]
        rfl
      · rw [compare_lt_iff_lt.mpr bot_lt_top]
        rfl
      · rw [compare_gt_iff_gt.mpr bot_lt_top]
        rfl
      · rw [compare_eq_iff_eq.mpr rfl]
        rfl
    · rw [hv.extended]
      obtain ⟨t, y, hv⟩ := hv
      cases s
      · rw [hbot, compare_lt_iff_lt.mpr (EReal.bot_lt_coe _)]
        cases hv <;> rfl
      · rw [htop, compare_gt_iff_gt.mpr (EReal.coe_lt_top _)]
        cases hv <;> rfl
  · rcases hv with ⟨t, rfl⟩ | hv
    · rw [hu.extended]
      obtain ⟨s, x, hu⟩ := hu
      cases t
      · rw [hbot, compare_gt_iff_gt.mpr (EReal.bot_lt_coe _)]
        cases hu with
        | zero => rfl
        | finite => cases s <;> rfl
      · rw [htop, compare_lt_iff_lt.mpr (EReal.coe_lt_top _)]
        cases hu with
        | zero => rfl
        | finite => cases s <;> rfl
    · rw [hu.extended, hv.extended, compare_coe]
      obtain ⟨s, x, hu⟩ := hu
      obtain ⟨t, y, hv⟩ := hv
      exact compare_numbers hu hv

theorem lt_iff_extended (hu : (∃ s, u = .infinity s) ∨ Number spec u)
    (hv : (∃ s, v = .infinity s) ∨ Number spec v) :
    UnpackedFloat.lt u v = true ↔ extended u < extended v := by
  rw [UnpackedFloat.lt, compare_extended hu hv, ← compare_lt_iff_lt]
  cases compare (extended u) (extended v) <;> decide

theorem le_iff_extended (hu : (∃ s, u = .infinity s) ∨ Number spec u)
    (hv : (∃ s, v = .infinity s) ∨ Number spec v) :
    UnpackedFloat.le u v = true ↔ extended u ≤ extended v := by
  rw [UnpackedFloat.le, compare_extended hu hv, ← not_lt, ← compare_gt_iff_gt]
  cases compare (extended u) (extended v) <;> decide

end Rally.Rounding
