import Rally.Proofs.Scalar.Rounding

/-! The real values of unpacked numbers. Each operation gives the rounded value of the exact result,
also where it goes through mantissas and what is left of them. -/
namespace Rally.Rounding

open Float.Model UnpackedFloat

variable {spec : Format} {em : ExtendedMantissa} {acc : Accuracy} {m : ℕ} {e : ℤ} {s : Sign}
  {x y : ℝ}

/-! What is left of a mantissa. -/

theorem Locates.bounds (h : Locates em y) : em.mantissa ≤ y ∧ y < em.mantissa + 1 := by
  obtain ⟨m, r, t⟩ := em
  cases r <;> cases t <;> simp only [Locates] at h ⊢ <;> constructor <;> linarith

theorem Locates.shiftRightOne (h : Locates em y) : Locates em.shiftRightOne (y / 2) := by
  obtain ⟨m, r, t⟩ := em
  have hsplit : (m : ℝ) = 2 * ((m / 2 : ℕ) : ℝ) + ((m % 2 : ℕ) : ℝ) := by
    exact_mod_cast (Nat.div_add_mod m 2).symm
  rcases Nat.mod_two_eq_zero_or_one m with hm | hm <;> rw [hm] at hsplit <;> push_cast at hsplit <;>
    cases r <;> cases t <;> simp [Locates, ExtendedMantissa.shiftRightOne, hm] at h ⊢ <;>
    first | linarith | (constructor <;> linarith)

theorem Locates.shiftRight (h : Locates em y) (n : ℕ) : Locates (em >>> n) (y / 2 ^ n) := by
  induction n with
  | zero =>
    rw [pow_zero, div_one]
    exact h
  | succ n ih =>
    have hs := ih.shiftRightOne
    rwa [div_div, ← pow_succ] at hs

theorem Locates.roundedMantissa (h : Locates em y) : nearestInt y = em.roundedMantissa := by
  refine nearestInt_eq ?_
  obtain ⟨m, r, t⟩ := em
  cases r <;> cases t <;> simp only [Locates] at h <;>
    simp only [ExtendedMantissa.roundedMantissa, ExtendedMantissa.accuracy,
      Accuracy.roundToNearestEven]
  · refine .inl ?_
    rw [h]
    simp
  · refine .inl ?_
    push_cast
    rw [abs_sub_comm, abs_of_pos] <;> linarith
  · rw [h]
    rcases Nat.mod_two_eq_zero_or_one m with hm | hm <;> rw [hm]
    · refine .inr ⟨?_, ?_⟩
      · norm_num
      · exact_mod_cast Nat.even_iff.mpr hm
    · refine .inr ⟨?_, ?_⟩
      · push_cast
        norm_num
      · have : Even (m + 1) := Nat.even_add_one.mpr (Nat.not_even_iff.mpr hm)
        exact_mod_cast this
  · refine .inl ?_
    push_cast
    rw [abs_of_pos] <;> linarith

theorem locates_exact (m : ℕ) : Locates (.ofMantissaAndAccuracy m .exact) m := rfl

/-! Unpacked numbers. -/

/-- An unpacked number has a sign and a size, and is written as the format has it. -/
inductive Denotes (spec : Format) (s : Sign) (y : ℝ) : UnpackedFloat → Prop where
  | zero (hy : y = 0) : Denotes spec s y (.zero s)
  | finite {m : ℕ} {e : ℤ} {hm : 0 < m} (hlt : m < 2 ^ spec.mantissaBits)
      (hmin : spec.minExponent ≤ e) (hc : e = spec.minExponent ∨ 2 ^ (spec.mantissaBits - 1) ≤ m)
      (hy : y = m * 2 ^ e) : Denotes spec s y (.finite s m e hm)

theorem log_eq (hm : 0 < m) (hl : m ≤ x / 2 ^ e ∧ x / 2 ^ e < m + 1) :
    Int.log 2 |x| = m.log2 + e := by
  have hp := two_zpow_pos e
  rw [le_div_iff₀ hp, div_lt_iff₀ hp] at hl
  have hx : 0 < x := (mul_pos (Nat.cast_pos.mpr hm) hp).trans_le hl.1
  rw [abs_of_pos hx]
  refine le_antisymm ?_ ?_
  · have hlt : x < 2 ^ ((m.log2 : ℤ) + e + 1) := by
      refine hl.2.trans_le ?_
      rw [add_right_comm, zpow_add₀ two_ne_zero]
      refine mul_le_mul_of_nonneg_right ?_ hp.le
      exact_mod_cast Nat.lt_log2_self
    exact Int.lt_add_one_iff.mp ((Int.lt_zpow_iff_log_lt one_lt_two hx).mp hlt)
  · have hge : (2 : ℝ) ^ ((m.log2 : ℤ) + e) ≤ x := by
      rw [zpow_add₀ two_ne_zero]
      refine (mul_le_mul_of_nonneg_right ?_ hp.le).trans hl.1
      exact_mod_cast Nat.log2_self_le hm.ne'
    exact (Int.zpow_le_iff_le_log one_lt_two hx).mp hge

/-- The place of a number as found from a mantissa below it. -/
theorem targetExponent_of_pos (hm : 0 < m) (hl : m ≤ x / 2 ^ e ∧ x / 2 ^ e < m + 1) :
    spec.targetExponent (totalExponent m e) = place spec x := by
  unfold Format.targetExponent totalExponent place
  rw [log_eq hm hl]
  omega

theorem targetExponent_eq (hx : 0 < x) (hl : m ≤ x / 2 ^ e ∧ x / 2 ^ e < m + 1)
    (he : e ≤ place spec x) : spec.targetExponent (totalExponent m e) = place spec x := by
  rcases Nat.eq_zero_or_pos m with rfl | hm
  · -- Only numbers with the least place have no mantissa.
    have hbits := one_le_mantissaBits spec
    have hlog : Int.log 2 |x| < e := by
      rw [← Int.lt_zpow_iff_log_lt one_lt_two (abs_pos.mpr hx.ne'), abs_of_pos hx]
      have hlt := hl.2
      rw [div_lt_iff₀ (two_zpow_pos e)] at hlt
      simpa using hlt
    unfold Format.targetExponent totalExponent
    unfold place at he ⊢
    simp only [Nat.log2_zero]
    omega
  · exact targetExponent_of_pos hm hl

/-- A mantissa of as many bits as the format has is written as it is, and the next one as the power
of two that it is. -/
theorem denotes_of_mantissa {r : ℕ} (hr : r ≤ 2 ^ spec.mantissaBits) (hmin : spec.minExponent ≤ e)
    (hc : e = spec.minExponent ∨ 2 ^ (spec.mantissaBits - 1) ≤ r) :
    Denotes spec s (r * 2 ^ e)
      (let (em, e) := shiftToTargetExponent spec r e .exact
      if h : em.mantissa = 0 then .zero s else .finite s em.mantissa e (Nat.pos_of_ne_zero h)) := by
  have hbits := one_le_mantissaBits spec
  rcases hr.lt_or_eq with hlt | rfl
  · have hlog : r.log2 + 1 ≤ spec.mantissaBits := by
      rcases Nat.eq_zero_or_pos r with rfl | hpos
      · simpa using hbits
      · exact (Nat.log2_lt hpos.ne').mpr hlt
    have hshift : (spec.targetExponent (totalExponent r e) - e).toNat = 0 := by
      unfold Format.targetExponent totalExponent
      omega
    simp only [shiftToTargetExponent, shiftToExponent, hshift]
    have hem : (ExtendedMantissa.ofMantissaAndAccuracy r .exact >>> 0).mantissa = r := rfl
    simp only [hem, Nat.cast_zero, add_zero]
    split
    · rename_i hz
      refine .zero ?_
      rw [hz]
      simp
    · exact .finite hlt hmin hc rfl
  · have hshift :
        (spec.targetExponent (totalExponent (2 ^ spec.mantissaBits) e) - e).toNat = 1 := by
      unfold Format.targetExponent totalExponent
      rw [Nat.log2_two_pow]
      omega
    simp only [shiftToTargetExponent, shiftToExponent, hshift]
    have hem :
        (ExtendedMantissa.ofMantissaAndAccuracy (2 ^ spec.mantissaBits) .exact >>> 1).mantissa =
        2 ^ (spec.mantissaBits - 1) := by
      change 2 ^ spec.mantissaBits / 2 = _
      conv_lhs => rw [← Nat.sub_add_cancel hbits]
      rw [pow_succ, Nat.mul_div_cancel _ two_pos]
    simp only [hem, Nat.cast_one]
    rw [dif_neg (pow_ne_zero _ two_ne_zero)]
    refine .finite (Nat.pow_lt_pow_right one_lt_two (by omega)) (by omega) (.inr le_rfl) ?_
    rw [zpow_add_one₀ two_ne_zero, Nat.cast_pow, Nat.cast_two, Nat.cast_pow, Nat.cast_two]
    conv_lhs => rw [← Nat.sub_add_cancel hbits]
    rw [pow_succ]
    ring

/-- A number that is rounded from a mantissa and what is left of it. -/
theorem roundWithAccuracy_denotes (hx : 0 < x)
    (hl : Locates (.ofMantissaAndAccuracy m acc) (x / 2 ^ e)) (he : e ≤ place spec x) :
    Denotes spec s (rounded spec x) (roundWithAccuracy spec s m e acc) := by
  have hm : (ExtendedMantissa.ofMantissaAndAccuracy m acc).mantissa = m := by
    rcases acc with _ | _ | _ | _ <;> rfl
  have htarget : spec.targetExponent (totalExponent m e) = place spec x := by
    have hb := hl.bounds
    rw [hm] at hb
    exact targetExponent_eq hx hb he
  have hexp : e + ((place spec x - e).toNat : ℤ) = place spec x := by omega
  have hshifted := hl.shiftRight (place spec x - e).toNat
  have hscale : x / 2 ^ e / 2 ^ (place spec x - e).toNat = x / 2 ^ place spec x := by
    rw [div_div, ← zpow_natCast, ← zpow_add₀ two_ne_zero, hexp]
  rw [hscale] at hshifted
  have hround := hshifted.roundedMantissa
  unfold roundWithAccuracy
  rw [shiftToTargetExponent, htarget, shiftToExponent]
  simp only [hexp]
  generalize (ExtendedMantissa.ofMantissaAndAccuracy m acc >>>
    (place spec x - e).toNat).roundedMantissa = r at hround ⊢
  have hvalue : rounded spec x = r * 2 ^ place spec x := by
    rw [rounded, hround]
    simp
  rw [hvalue]
  refine denotes_of_mantissa ?_ (minExponent_le_place spec x) ?_
  · have hle := (le_abs_self _).trans (abs_nearestInt_le spec x)
    rw [hround] at hle
    exact_mod_cast hle
  · refine (place_eq_or_le_nearestInt hx).imp_right fun hle => ?_
    rw [hround] at hle
    exact_mod_cast hle

/-! Values. -/

/-- An unpacked number, written as the format has it. -/
def Number (spec : Format) (u : UnpackedFloat) : Prop := ∃ s y, Denotes spec s y u

/-- The number of the format that is nearest to `x`. -/
structure Rounds (spec : Format) (x : ℝ) (u : UnpackedFloat) : Prop where
  number : Number spec u
  value : value u = rounded spec x

variable {u v : UnpackedFloat}

@[simp] theorem signed_zero (s : Sign) : signed s 0 = 0 := by
  cases s
  · exact neg_zero
  · rfl

theorem rounded_signed (s : Sign) (x : ℝ) :
    rounded spec (signed s x) = signed s (rounded spec x) := by
  cases s
  · exact rounded_neg x
  · rfl

theorem signed_mul (s t : Sign) (x y : ℝ) : signed (s * t) (x * y) = signed s x * signed t y := by
  cases s <;> cases t
  · exact (neg_mul_neg x y).symm
  · exact (neg_mul x y).symm
  · exact (mul_neg x y).symm
  · rfl

theorem signed_div (s t : Sign) (x y : ℝ) : signed (s / t) (x / y) = signed s x / signed t y := by
  cases s <;> cases t
  · exact (neg_div_neg_eq x y).symm
  · exact (neg_div y x).symm
  · exact (div_neg x).symm
  · rfl

theorem Denotes.value (h : Denotes spec s y u) : value u = signed s y := by
  cases h with
  | zero hy =>
    rw [hy, signed_zero]
    rfl
  | finite hlt hmin hc hy =>
    rw [hy]
    rfl

theorem Denotes.nonneg (h : Denotes spec s y u) : 0 ≤ y := by
  cases h with
  | zero hy => exact hy.ge
  | finite hlt hmin hc hy =>
    rw [hy]
    exact mul_nonneg (Nat.cast_nonneg _) (two_zpow_pos _).le

theorem abs_signed (s : Sign) (y : ℝ) : |signed s y| = |y| := by
  cases s
  · exact abs_neg y
  · rfl

theorem Denotes.rounds (h : Denotes spec s (rounded spec x) u) : Rounds spec (signed s x) u :=
  ⟨⟨_, _, h⟩, h.value.trans (rounded_signed s x).symm⟩

theorem Denotes.representable (h : Denotes spec s y u) : Representable spec y := by
  cases h with
  | zero hy => exact ⟨0, spec.minExponent, by simp, le_rfl, by simp [hy]⟩
  | @finite m e _ hlt hmin hc hy =>
    refine ⟨m, e, ?_, hmin, hy⟩
    rw [Nat.abs_cast]
    exact_mod_cast hlt.le

theorem Representable.neg (h : Representable spec y) : Representable spec (-y) := by
  obtain ⟨m, e, hm, he, rfl⟩ := h
  refine ⟨-m, e, by rwa [abs_neg], he, ?_⟩
  push_cast
  ring

theorem Number.representable (h : Number spec u) : Representable spec (value u) := by
  obtain ⟨s, y, h⟩ := h
  rw [h.value]
  cases s
  · exact h.representable.neg
  · exact h.representable

/-- A number of the format is its own rounded value. -/
theorem Number.rounds (h : Number spec u) : Rounds spec (value u) u :=
  ⟨h, (rounded_eq h.representable).symm⟩

theorem number_zero (s : Sign) : Number spec (.zero s) := ⟨s, 0, .zero rfl⟩

/-! Operations. -/

theorem decreaseExponent_value (m : ℕ) (e k : ℤ) :
    ((decreaseExponent m e k).1 : ℝ) * 2 ^ (decreaseExponent m e k).2 = m * 2 ^ e := by
  simp only [decreaseExponent, Nat.shiftLeft_eq]
  push_cast
  rw [← zpow_natCast, mul_assoc, ← zpow_add₀ two_ne_zero]
  congr 2
  ring

theorem round_denotes (hm : 0 < m) :
    Denotes spec s (rounded spec (m * 2 ^ e)) (UnpackedFloat.round spec s m e) := by
  have hx : (0 : ℝ) < m * 2 ^ e := mul_pos (Nat.cast_pos.mpr hm) (two_zpow_pos e)
  have htarget : spec.targetExponent (totalExponent m e) = place spec (m * 2 ^ e) := by
    refine targetExponent_of_pos hm ?_
    rw [mul_div_cancel_right₀ _ (two_zpow_pos e).ne']
    exact ⟨le_rfl, lt_add_one _⟩
  have hvalue := decreaseExponent_value m e (place spec (m * 2 ^ e))
  have hle : (decreaseExponent m e (place spec (m * 2 ^ e))).2 ≤ place spec (m * 2 ^ e) := by
    simp only [decreaseExponent]
    omega
  simp only [UnpackedFloat.round, htarget]
  generalize decreaseExponent m e (place spec (m * 2 ^ e)) = d at hvalue hle ⊢
  refine roundWithAccuracy_denotes hx ?_ hle
  rw [← hvalue, mul_div_cancel_right₀ _ (two_zpow_pos _).ne']
  exact locates_exact d.1

theorem normalize_rounds (n : ℤ) (e : ℤ) (s : Sign) :
    Rounds spec (n * 2 ^ e) (UnpackedFloat.normalize spec n e s) := by
  unfold UnpackedFloat.normalize
  rcases lt_trichotomy n 0 with hn | rfl | hn
  · rw [compare_lt_iff_lt.mpr hn]
    have hcast : ((-n).toNat : ℝ) = -(n : ℝ) := by exact_mod_cast Int.toNat_of_nonneg (by omega)
    have h : Rounds spec (signed .negative ((-n).toNat * 2 ^ e)) _ :=
      (round_denotes (by omega)).rounds
    rwa [hcast, neg_mul, signed, neg_neg] at h
  · rw [compare_eq_iff_eq.mpr rfl]
    refine ⟨number_zero s, ?_⟩
    rw [Int.cast_zero, zero_mul, rounded_zero]
    rfl
  · rw [compare_gt_iff_gt.mpr hn]
    have hcast : (n.toNat : ℝ) = n := by exact_mod_cast Int.toNat_of_nonneg hn.le
    have h : Rounds spec (signed .positive (n.toNat * 2 ^ e)) _ :=
      (round_denotes (by omega)).rounds
    rwa [hcast, signed] at h

theorem signed_neg (s : Sign) (x : ℝ) : signed (-s) x = -signed s x := by
  cases s
  · exact (neg_neg x).symm
  · rfl

theorem value_neg (u : UnpackedFloat) : value u.neg = -value u := by
  cases u with
  | finite s m e hm => exact signed_neg s _
  | _ => exact neg_zero.symm

theorem Denotes.neg (h : Denotes spec s y u) : Denotes spec (-s) y u.neg := by
  cases h with
  | zero hy => exact .zero hy
  | finite hlt hmin hc hy => exact .finite hlt hmin hc hy

theorem denotes_abs (h : Denotes spec s y u) : Denotes spec .positive y u.abs := by
  cases h with
  | zero hy => exact .zero hy
  | finite hlt hmin hc hy => exact .finite hlt hmin hc hy

theorem Number.neg (h : Number spec u) : Number spec u.neg := by
  obtain ⟨s, y, h⟩ := h
  exact ⟨-s, y, h.neg⟩

theorem apply_eq (s : Sign) (m : ℕ) : ((s.apply m : ℤ) : ℝ) = signed s m := by
  cases s
  · exact Int.cast_neg _
  · rfl

/-- Two numbers with mantissas of one exponent are added exactly, and the sum is rounded. -/
theorem add_rounds (hu : Number spec u) (hv : Number spec v) :
    Rounds spec (value u + value v) (UnpackedFloat.add spec u v) := by
  obtain ⟨s, x, hu⟩ := hu
  obtain ⟨t, y, hv⟩ := hv
  cases hu with
  | zero hx =>
    have hz : value (.zero s) = 0 := rfl
    rw [hz, zero_add]
    cases hv with
    | zero hy =>
      have hzero : Rounds spec (value (.zero t)) (.zero .positive) :=
        ⟨number_zero _, rounded_zero.symm⟩
      cases s <;> cases t <;> first | exact hzero | exact (number_zero _).rounds
    | finite hlt hmin hc hy => exact Number.rounds ⟨_, _, .finite hlt hmin hc hy⟩
  | finite hlt hmin hc hx =>
    cases hv with
    | zero hy =>
      have hz : value (.zero t) = 0 := rfl
      rw [hz, add_zero]
      exact Number.rounds ⟨_, _, .finite hlt hmin hc hx⟩
    | finite hlt' hmin' hc' hy =>
      rename_i m₁ e₁ _ m₂ e₂ _
      have h₁ := decreaseExponent_value m₁ e₁ (min e₁ e₂)
      have h₂ := decreaseExponent_value m₂ e₂ (min e₁ e₂)
      have he₁ : (decreaseExponent m₁ e₁ (min e₁ e₂)).2 = min e₁ e₂ := by
        simp only [decreaseExponent]
        omega
      have he₂ : (decreaseExponent m₂ e₂ (min e₁ e₂)).2 = min e₁ e₂ := by
        simp only [decreaseExponent]
        omega
      rw [he₁] at h₁
      rw [he₂] at h₂
      have hsum : value (.finite s m₁ e₁ ‹_›) + value (.finite t m₂ e₂ ‹_›) =
          ((s.apply (decreaseExponent m₁ e₁ (min e₁ e₂)).1 +
            t.apply (decreaseExponent m₂ e₂ (min e₁ e₂)).1 : ℤ) : ℝ) * 2 ^ min e₁ e₂ := by
        rw [value, value, ← h₁, ← h₂, Int.cast_add, apply_eq, apply_eq, add_mul]
        cases s <;> cases t <;> simp only [signed, neg_mul]
      rw [hsum]
      exact normalize_rounds _ _ _

theorem apply_neg (s : Sign) (n : ℤ) : (-s).apply n = -s.apply n := by
  cases s
  · exact (neg_neg n).symm
  · rfl

/-- A difference is the sum with the opposite. -/
theorem sub_eq (u v : UnpackedFloat) :
    UnpackedFloat.sub spec u v = UnpackedFloat.add spec u v.neg := by
  cases u with
  | finite s m e hm =>
    cases v with
    | finite t n f hn =>
      simp only [UnpackedFloat.sub, UnpackedFloat.add, UnpackedFloat.neg, apply_neg, sub_eq_add_neg]
    | _ => rfl
  | infinity s => cases v <;> rfl
  | zero s => cases v <;> rfl
  | notANumber => cases v <;> rfl

theorem sub_rounds (hu : Number spec u) (hv : Number spec v) :
    Rounds spec (value u - value v) (UnpackedFloat.sub spec u v) := by
  have h := add_rounds hu hv.neg
  rwa [value_neg, ← sub_eq, ← sub_eq_add_neg] at h

theorem log2_mono {n : ℕ} (hm : 0 < m) (h : m ≤ n) : m.log2 ≤ n.log2 :=
  (Nat.le_log2 (by omega)).mpr ((Nat.log2_self_le hm.ne').trans h)

/-- A mantissa is long enough for the places of its number, or its number has the least place. -/
theorem mantissaBits_le (hc : e = spec.minExponent ∨ 2 ^ (spec.mantissaBits - 1) ≤ m) :
    (spec.mantissaBits : ℤ) ≤ m.log2 + 1 ∨ e = spec.minExponent := by
  rcases hc with he | hle
  · exact .inr he
  · have hpos : m ≠ 0 := by
      have := Nat.pow_pos (n := spec.mantissaBits - 1) two_pos
      omega
    have := (Nat.le_log2 hpos).mpr hle
    omega

theorem minExponent_nonpos (spec : Format) : spec.minExponent ≤ 0 := by
  have hm := spec.hm
  have hpow : (0 : ℤ) < 2 ^ (spec.exponentBits - 1) := pow_pos two_pos _
  unfold Format.minExponent Format.mantissaBits
  omega

/-- A product of mantissas is rounded once. -/
theorem mul_rounds (hu : Number spec u) (hv : Number spec v) :
    Rounds spec (value u * value v) (UnpackedFloat.mul spec u v) := by
  obtain ⟨s, x, hu⟩ := hu
  obtain ⟨t, y, hv⟩ := hv
  cases hu with
  | zero hx =>
    have hz : value (.zero s) = 0 := rfl
    rw [hz, zero_mul]
    cases hv <;> exact ⟨number_zero _, rounded_zero.symm⟩
  | @finite m₁ e₁ hm₁ hlt₁ hmin₁ hc₁ hx =>
    cases hv with
    | zero hy =>
      have hz : value (.zero t) = 0 := rfl
      rw [hz, mul_zero]
      exact ⟨number_zero _, rounded_zero.symm⟩
    | @finite m₂ e₂ hm₂ hlt₂ hmin₂ hc₂ hy =>
      have hpos : 0 < m₁ * m₂ := Nat.mul_pos hm₁ hm₂
      have hvalue : (m₁ * 2 ^ e₁ : ℝ) * (m₂ * 2 ^ e₂) = (m₁ * m₂ : ℕ) * 2 ^ (e₁ + e₂) := by
        rw [zpow_add₀ two_ne_zero]
        push_cast
        ring
      have hscale : ((m₁ * m₂ : ℕ) * 2 ^ (e₁ + e₂) : ℝ) / 2 ^ (e₁ + e₂) = (m₁ * m₂ : ℕ) :=
        mul_div_cancel_right₀ _ (two_zpow_pos _).ne'
      rw [value, value, ← signed_mul, hvalue]
      refine (roundWithAccuracy_denotes
        (mul_pos (Nat.cast_pos.mpr hpos) (two_zpow_pos _)) ?_ ?_).rounds
      · rw [hscale]
        exact locates_exact _
      · rw [← targetExponent_of_pos hpos (by rw [hscale]; exact ⟨le_rfl, lt_add_one _⟩)]
        have hlog₁ : m₁.log2 ≤ (m₁ * m₂).log2 := log2_mono hm₁ (Nat.le_mul_of_pos_right _ hm₂)
        have hlog₂ : m₂.log2 ≤ (m₁ * m₂).log2 := log2_mono hm₂ (Nat.le_mul_of_pos_left _ hm₁)
        have hbits₁ := mantissaBits_le hc₁
        have hbits₂ := mantissaBits_le hc₂
        have hnonpos := minExponent_nonpos spec
        unfold Format.targetExponent totalExponent
        omega

/-- The remainder of a division, as what is left of the quotient. -/
theorem locates_quotient {n d : ℕ} (hd : 0 < d) :
    Locates (.ofMantissaAndAccuracy (n / d) (accuracyOfFraction (n % d) d)) (n / d) := by
  have hd' : (0 : ℝ) < d := Nat.cast_pos.mpr hd
  have hsplit : (n : ℝ) / d = (n / d : ℕ) + (n % d : ℕ) / d := by
    have hn : (n : ℝ) = d * (n / d : ℕ) + (n % d : ℕ) := by
      exact_mod_cast (Nat.div_add_mod n d).symm
    rw [hn, add_div, mul_div_cancel_left₀ _ hd'.ne']
  have hlt : ((n % d : ℕ) : ℝ) / d < 1 := by
    rw [div_lt_one hd']
    exact_mod_cast Nat.mod_lt n hd
  rw [hsplit]
  generalize n / d = q at hsplit ⊢
  generalize n % d = r at hsplit hlt ⊢
  unfold accuracyOfFraction
  split
  · rename_i hr
    rw [hr, Nat.cast_zero, zero_div, add_zero]
    exact locates_exact q
  · rename_i hr
    have hpos : (0 : ℝ) < r / d := div_pos (Nat.cast_pos.mpr (Nat.pos_of_ne_zero hr)) hd'
    rcases lt_trichotomy (2 * r) d with h | h | h
    · rw [compare_lt_iff_lt.mpr h]
      have hhalf : (r : ℝ) / d < 1 / 2 := by
        rw [div_lt_div_iff₀ hd' two_pos, mul_comm, one_mul]
        exact_mod_cast h
      exact ⟨lt_add_of_pos_right _ hpos, add_lt_add_right hhalf _⟩
    · rw [compare_eq_iff_eq.mpr h]
      have hhalf : (r : ℝ) / d = 1 / 2 := by
        rw [div_eq_div_iff hd'.ne' two_ne_zero, mul_comm, one_mul]
        exact_mod_cast h
      exact congrArg _ hhalf
    · rw [compare_gt_iff_gt.mpr h]
      have hhalf : 1 / 2 < (r : ℝ) / d := by
        rw [div_lt_div_iff₀ two_pos hd', one_mul, mul_comm]
        exact_mod_cast h
      exact ⟨add_lt_add_right hhalf _, add_lt_add_right hlt _⟩

theorem le_place (spec : Format) {k : ℤ} (hx : 0 < x) (h : 2 ^ k ≤ x) :
    spec.targetExponent (k + 1) ≤ place spec x := by
  have hlog : k ≤ Int.log 2 |x| := by
    rw [abs_of_pos hx]
    exact (Int.zpow_le_iff_le_log one_lt_two hx).mp h
  unfold Format.targetExponent place
  omega

theorem two_pow_log2_le (hm : 0 < m) : (2 : ℝ) ^ (m.log2 : ℤ) ≤ m := by
  exact_mod_cast Nat.log2_self_le hm.ne'

theorem lt_two_pow_log2 (m : ℕ) : (m : ℝ) < 2 ^ ((m.log2 : ℤ) + 1) := by
  exact_mod_cast Nat.lt_log2_self

/-- A quotient of mantissas is taken with enough places and rounded once. -/
theorem div_rounds (hu : Number spec u) (hv : Number spec v) (hz : value v ≠ 0) :
    Rounds spec (value u / value v) (UnpackedFloat.div spec u v) := by
  obtain ⟨s, x, hu⟩ := hu
  obtain ⟨t, y, hv⟩ := hv
  cases hv with
  | zero hy => exact absurd rfl hz
  | @finite m₂ e₂ hm₂ hlt₂ hmin₂ hc₂ hy =>
    cases hu with
    | zero hx =>
      have hz : value (.zero s) = 0 := rfl
      rw [hz, zero_div]
      exact ⟨number_zero _, rounded_zero.symm⟩
    | @finite m₁ e₁ hm₁ hlt₁ hmin₁ hc₁ hx =>
      rw [value, value, ← signed_div]
      have hn : (0 : ℝ) < m₁ * 2 ^ e₁ := mul_pos (Nat.cast_pos.mpr hm₁) (two_zpow_pos _)
      have hd : (0 : ℝ) < m₂ * 2 ^ e₂ := mul_pos (Nat.cast_pos.mpr hm₂) (two_zpow_pos _)
      have hlow : (2 : ℝ) ^ (totalExponent m₁ e₁ - totalExponent m₂ e₂ - 1) ≤
          m₁ * 2 ^ e₁ / (m₂ * 2 ^ e₂) := by
        rw [le_div_iff₀ hd]
        have hden : (m₂ : ℝ) * 2 ^ e₂ ≤ 2 ^ ((m₂.log2 : ℤ) + 1 + e₂) := by
          rw [zpow_add₀ two_ne_zero]
          exact mul_le_mul_of_nonneg_right (lt_two_pow_log2 m₂).le (two_zpow_pos _).le
        have hnum : (2 : ℝ) ^ ((m₁.log2 : ℤ) + e₁) ≤ m₁ * 2 ^ e₁ := by
          rw [zpow_add₀ two_ne_zero]
          exact mul_le_mul_of_nonneg_right (two_pow_log2_le hm₁) (two_zpow_pos _).le
        refine (mul_le_mul_of_nonneg_left hden (two_zpow_pos _).le).trans (le_of_eq_of_le ?_ hnum)
        rw [← zpow_add₀ two_ne_zero]
        congr 1
        unfold totalExponent
        omega
      have hplace := le_place spec (div_pos hn hd) hlow
      rw [sub_add_cancel] at hplace
      simp only [UnpackedFloat.div, divCore]
      generalize hte : min (e₁ - e₂)
        (spec.targetExponent (totalExponent m₁ e₁ - totalExponent m₂ e₂)) = te
      have hle : te ≤ e₁ - e₂ := hte ▸ min_le_left _ _
      have hscale : (m₁ * 2 ^ e₁ / (m₂ * 2 ^ e₂) : ℝ) / 2 ^ te =
          ((m₁ <<< (e₁ - e₂ - te).toNat : ℕ) : ℝ) / m₂ := by
        have hexp : (2 : ℝ) ^ e₁ = 2 ^ (e₁ - e₂ - te).toNat * 2 ^ e₂ * 2 ^ te := by
          rw [← zpow_natCast, ← zpow_add₀ two_ne_zero, ← zpow_add₀ two_ne_zero]
          congr 1
          omega
        have h₂ : (m₂ : ℝ) ≠ 0 := Nat.cast_ne_zero.mpr hm₂.ne'
        have hne := (two_zpow_pos e₂).ne'
        have hne' := (two_zpow_pos te).ne'
        rw [Nat.shiftLeft_eq, hexp]
        push_cast
        field_simp
      refine (roundWithAccuracy_denotes (div_pos hn hd) ?_ ?_).rounds
      · rw [hscale]
        exact locates_quotient hm₂
      · exact (hte ▸ min_le_right _ _).trans hplace

/-- The remainder of an integer root, as what is left of it. A root is never just between two
integers. -/
theorem locates_root (n : ℕ) : Locates (.ofMantissaAndAccuracy n.sqrt
    (if n - n.sqrt * n.sqrt = 0 then .exact
    else .inexact (if n - n.sqrt * n.sqrt ≤ n.sqrt then .lt else .gt))) (√n) := by
  have hle := Nat.sqrt_le n
  have hlt := Nat.lt_succ_sqrt n
  generalize n.sqrt = q at hle hlt ⊢
  have hq : (0 : ℝ) ≤ q := Nat.cast_nonneg q
  split
  · rename_i hr
    have hn : n = q * q := by omega
    rw [hn, Nat.cast_mul, Real.sqrt_mul_self hq]
    exact locates_exact q
  · rename_i hr
    split
    · rename_i hrq
      have hlow : q * q < n := by omega
      have hhigh : n ≤ q * q + q := by omega
      have hlow' : (q * q : ℝ) < n := by exact_mod_cast hlow
      have hhigh' : (n : ℝ) ≤ q * q + q := by exact_mod_cast hhigh
      have hroot : (q : ℝ) < √n := (Real.lt_sqrt hq).mpr (by linarith)
      have hhalf : √n < (q : ℝ) + 1 / 2 := (Real.sqrt_lt' (by positivity)).mpr (by linarith)
      exact ⟨hroot, hhalf⟩
    · rename_i hrq
      have hlow : q * q + q + 1 ≤ n := by omega
      have hlow' : (q * q + q + 1 : ℝ) ≤ n := by exact_mod_cast hlow
      have hhigh' : (n : ℝ) < (q + 1) * (q + 1) := by exact_mod_cast hlt
      have hhalf : (q : ℝ) + 1 / 2 < √n := (Real.lt_sqrt (by positivity)).mpr (by linarith)
      have hone : √n < (q : ℝ) + 1 := (Real.sqrt_lt' (by positivity)).mpr (by linarith)
      exact ⟨hhalf, hone⟩

/-- The root of a mantissa is taken with enough places and rounded once. -/
theorem sqrt_rounds (hu : Number spec u) (h : 0 ≤ value u) :
    Rounds spec (√(value u)) (UnpackedFloat.sqrt spec u) := by
  obtain ⟨s, x, hu⟩ := hu
  cases hu with
  | zero hx =>
    have hz : value (.zero s) = 0 := rfl
    rw [hz, Real.sqrt_zero]
    exact ⟨number_zero _, rounded_zero.symm⟩
  | @finite m e hm hlt hmin hc hx =>
    have hpos : (0 : ℝ) < m * 2 ^ e := mul_pos (Nat.cast_pos.mpr hm) (two_zpow_pos _)
    cases s with
    | negative =>
      have : value (.finite .negative m e hm) = -(m * 2 ^ e) := rfl
      linarith
    | positive =>
      have hv : value (.finite .positive m e hm) = m * 2 ^ e := rfl
      rw [hv]
      have hroot := Real.sqrt_pos.mpr hpos
      have hlow : (2 : ℝ) ^ ((totalExponent m e + 1).ediv 2 - 1) ≤ √(m * 2 ^ e) := by
        have hsq :
            ((2 : ℝ) ^ ((totalExponent m e + 1).ediv 2 - 1)) ^ 2 ≤ 2 ^ (m.log2 : ℤ) * 2 ^ e := by
          rw [← zpow_natCast, ← zpow_mul, ← zpow_add₀ two_ne_zero]
          refine zpow_le_zpow_right₀ one_le_two ?_
          have : 2 * (totalExponent m e + 1).ediv 2 ≤ totalExponent m e + 1 :=
            Int.mul_ediv_self_le two_ne_zero
          unfold totalExponent at this ⊢
          push_cast
          omega
        exact Real.le_sqrt_of_sq_le
          (hsq.trans (mul_le_mul_of_nonneg_right (two_pow_log2_le hm) (two_zpow_pos _).le))
      have hplace := le_place spec hroot hlow
      rw [sub_add_cancel] at hplace
      simp only [UnpackedFloat.sqrt, sqrtCore]
      generalize hte : min (e.ediv 2)
        (spec.targetExponent ((totalExponent m e + 1).ediv 2)) = te
      have hle : te ≤ e.ediv 2 := hte ▸ min_le_left _ _
      have hscale : √(m * 2 ^ e) / 2 ^ te = √((m <<< (e - 2 * te).toNat : ℕ) : ℝ) := by
        have hfloor : 2 * e.ediv 2 ≤ e := Int.mul_ediv_self_le two_ne_zero
        have hexp : (2 : ℝ) ^ e = 2 ^ (e - 2 * te).toNat * (2 ^ te) ^ 2 := by
          rw [← zpow_natCast, ← zpow_natCast (2 ^ te) 2, ← zpow_mul, ← zpow_add₀ two_ne_zero]
          congr 1
          push_cast
          omega
        rw [Nat.shiftLeft_eq, hexp, ← mul_assoc, Real.sqrt_mul' _ (sq_nonneg _),
          Real.sqrt_sq (two_zpow_pos te).le, mul_div_cancel_right₀ _ (two_zpow_pos te).ne']
        push_cast
        rfl
      refine (roundWithAccuracy_denotes (s := .positive) hroot ?_ ?_).rounds
      · rw [hscale]
        exact locates_root _
      · exact (hte ▸ min_le_right _ _).trans hplace

end Rally.Rounding
