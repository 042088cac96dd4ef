import Rally.Proofs.Scalar.Value

/-! What is chosen among scalars, and how infinities and what is no number compare. -/
namespace Rally.Scalar

open Rounding Float.Model

variable {x y lo hi : Scalar} {a b c : ℝ}

/-! No number. -/

theorem lt_iff_unpack : x < y ↔ UnpackedFloat.lt x.toModel.unpack y.toModel.unpack = true :=
  decide_eq_true_iff

theorem le_iff_unpack : x ≤ y ↔ UnpackedFloat.le x.toModel.unpack y.toModel.unpack = true :=
  decide_eq_true_iff

theorem Is.isNaN (h : x.Is a) : x.isNaN = false := by
  change x.toModel.unpack.isNaN = false
  obtain ⟨s, y, hd⟩ := h.number
  generalize x.toModel.unpack = u at hd ⊢
  cases hd <;> rfl

theorem unpack_of_isNaN (h : x.isNaN = true) : x.toModel.unpack = .notANumber := by
  change x.toModel.unpack.isNaN = true at h
  cases hu : x.toModel.unpack with
  | notANumber => rfl
  | infinity => simp [hu, UnpackedFloat.isNaN] at h
  | zero => simp [hu, UnpackedFloat.isNaN] at h
  | finite => simp [hu, UnpackedFloat.isNaN] at h

theorem isNaN_of_lt_right (h : x < y) : y.isNaN = false := by
  cases hy : y.isNaN with
  | false => rfl
  | true =>
    rw [lt_iff_unpack, unpack_of_isNaN hy] at h
    cases hx : x.toModel.unpack <;> simp [hx, UnpackedFloat.lt, UnpackedFloat.compare] at h

theorem isNaN_of_lt_left (h : x < y) : x.isNaN = false := by
  cases hx : x.isNaN with
  | false => rfl
  | true =>
    rw [lt_iff_unpack, unpack_of_isNaN hx] at h
    simp [UnpackedFloat.lt, UnpackedFloat.compare] at h

theorem isNaN_of_le (h : x ≤ y) : x.isNaN = false ∧ y.isNaN = false := by
  rw [le_iff_unpack] at h
  refine ⟨?_, ?_⟩
  · cases hx : x.isNaN with
    | false => rfl
    | true =>
      rw [unpack_of_isNaN hx] at h
      simp [UnpackedFloat.le, UnpackedFloat.compare] at h
  · cases hy : y.isNaN with
    | false => rfl
    | true =>
      rw [unpack_of_isNaN hy] at h
      cases hx : x.toModel.unpack <;> simp [hx, UnpackedFloat.le, UnpackedFloat.compare] at h

theorem isNaN_of_unpack {u : UnpackedFloat} (hu : u = .notANumber)
    (hx : x.toModel.unpack = UnpackedFloat.unpack .binary32 (UnpackedFloat.pack .binary32 u)) :
    x.isNaN = true := by
  change x.toModel.unpack.isNaN = true
  rw [hx, hu]
  exact congrArg UnpackedFloat.isNaN unpack_packedNaN

/-- A product with what is no number is none. -/
theorem isNaN_mul_right (x : Scalar) (h : y.isNaN = true) : (x * y).isNaN = true := by
  refine isNaN_of_unpack (u := x.toModel.unpack.mul .binary32 y.toModel.unpack) ?_ rfl
  rw [unpack_of_isNaN h]
  cases x.toModel.unpack <;> rfl

theorem isNaN_div_right (x : Scalar) (h : y.isNaN = true) : (x / y).isNaN = true := by
  refine isNaN_of_unpack (u := x.toModel.unpack.div .binary32 y.toModel.unpack) ?_ rfl
  rw [unpack_of_isNaN h]
  cases x.toModel.unpack <;> rfl

/-- What is no number, infinite or finite. -/
theorem finite_of_not (hn : x.isNaN = false) (hi : x.isInf = false) : ∃ a, x.Is a := by
  rcases unpack_cases x with ⟨s, hs⟩ | hs | ⟨s, y, hs, -⟩
  · change x.toModel.unpack.isInf = false at hi
    rw [hs] at hi
    cases hi
  · change x.toModel.unpack.isNaN = false at hn
    rw [hs] at hn
    cases hn
  · exact ⟨_, isFinite_of_number ⟨s, y, hs⟩, rfl⟩

/-! Infinities. -/

theorem isInf_of_isFinite (h : x.isFinite = true) : x.isInf = false := by
  change x.toModel.unpack.isFinite = true at h
  change x.toModel.unpack.isInf = false
  cases hu : x.toModel.unpack with
  | infinity s =>
    rw [hu] at h
    cases h
  | notANumber => rfl
  | zero s => rfl
  | finite s m e hm => rfl

/-- The value of a scalar, or an infinity. -/
noncomputable def ext (x : Scalar) : EReal := extended x.toModel.unpack

theorem Is.ext (h : x.Is a) : x.ext = a := h.extended

theorem isNaN_infinity : infinity.isNaN = false := rfl

theorem lt_iff_ext (hx : x.isNaN = false) (hy : y.isNaN = false) : x < y ↔ x.ext < y.ext :=
  lt_iff_unpack.trans (lt_iff_extended (proper_of_not_isNaN hx) (proper_of_not_isNaN hy))

theorem le_iff_ext (hx : x.isNaN = false) (hy : y.isNaN = false) : x ≤ y ↔ x.ext ≤ y.ext :=
  le_iff_unpack.trans (le_iff_extended (proper_of_not_isNaN hx) (proper_of_not_isNaN hy))

/-- What lies between two numbers is one. -/
theorem is_of_ext (hx : x.isNaN = false) (ha : (a : EReal) ≤ x.ext) (hb : x.ext ≤ b) :
    ∃ c, x.Is c ∧ a ≤ c ∧ c ≤ b := by
  rcases proper_of_not_isNaN hx with ⟨s, hs⟩ | hn
  · unfold Scalar.ext at ha hb
    rw [hs] at ha hb
    cases s with
    | negative => exact absurd ha (not_le.mpr (EReal.bot_lt_coe a))
    | positive => exact absurd hb (not_le.mpr (EReal.coe_lt_top b))
  · have hc : x.Is x.toReal := ⟨isFinite_of_number hn, rfl⟩
    rw [hc.ext, EReal.coe_le_coe_iff] at ha hb
    exact ⟨x.toReal, hc, ha, hb⟩

theorem is_of_between (hlo : lo.Is a) (hhi : hi.Is b) (h : lo ≤ x) (h' : x ≤ hi) :
    ∃ c, x.Is c ∧ a ≤ c ∧ c ≤ b := by
  have hx := (isNaN_of_le h).2
  rw [le_iff_ext hlo.isNaN hx, hlo.ext] at h
  rw [le_iff_ext hx hhi.isNaN, hhi.ext] at h'
  exact is_of_ext hx h h'

/-! Choices. -/

theorem Is.least (hx : x.Is a) (hy : y.Is b) : (x.least y).Is (min a b) := by
  unfold Scalar.least
  split
  · rename_i h
    rw [min_eq_right ((hy.lt_iff hx).mp h).le]
    exact hy
  · rename_i h
    rw [if_neg (Bool.eq_false_iff.mp hx.isNaN),
      min_eq_left (not_lt.mp fun hlt => h ((hy.lt_iff hx).mpr hlt))]
    exact hx

theorem Is.greatest (hx : x.Is a) (hy : y.Is b) : (x.greatest y).Is (max a b) := by
  unfold Scalar.greatest
  split
  · rename_i h
    rw [max_eq_right ((hx.lt_iff hy).mp h).le]
    exact hy
  · rename_i h
    rw [if_neg (Bool.eq_false_iff.mp hx.isNaN),
      max_eq_left (not_lt.mp fun hlt => h ((hx.lt_iff hy).mpr hlt))]
    exact hx

theorem isNaN_least (hx : x.isNaN = false) (hy : y.isNaN = false) : (x.least y).isNaN = false := by
  unfold Scalar.least
  split
  · exact hy
  · rw [if_neg (Bool.eq_false_iff.mp hx)]
    exact hx

theorem ext_least (hx : x.isNaN = false) (hy : y.isNaN = false) :
    (x.least y).ext = min x.ext y.ext := by
  unfold Scalar.least
  split
  · rename_i h
    rw [min_eq_right ((lt_iff_ext hy hx).mp h).le]
  · rename_i h
    rw [if_neg (Bool.eq_false_iff.mp hx),
      min_eq_left (not_lt.mp fun hlt => h ((lt_iff_ext hy hx).mpr hlt))]

theorem Is.positivePart (hx : x.Is a) : x.positivePart.Is (max a 0) := by
  unfold Scalar.positivePart
  split
  · rename_i h
    rw [max_eq_left ((is_zero.lt_iff hx).mp h).le]
    exact hx
  · rename_i h
    rw [max_eq_right (not_lt.mp fun hlt => h ((is_zero.lt_iff hx).mpr hlt))]
    exact is_zero

/-- What is confined lies between the bounds. -/
theorem Is.confine (hx : x.Is a) (hlo : lo.Is b) (hhi : hi.Is c) (h : b ≤ c) :
    ∃ d, (x.confine lo hi).Is d ∧ b ≤ d ∧ d ≤ c := by
  unfold Scalar.confine
  split
  · exact ⟨b, hlo, le_rfl, h⟩
  · rename_i hlow
    split
    · exact ⟨c, hhi, h, le_rfl⟩
    · rename_i hhigh
      exact ⟨a, hx, not_lt.mp fun hlt => hlow ((hx.lt_iff hlo).mpr hlt),
        not_lt.mp fun hlt => hhigh ((hhi.lt_iff hx).mpr hlt)⟩

/-! Sizes and signs. -/

theorem Is.abs (hx : x.Is a) : Is x.abs |a| := by
  have hv : value x.toModel.unpack = a := hx.2
  have hbound := hx.abs_lt
  have hrep := hx.representable
  obtain ⟨s, y, hd⟩ := hx.number
  have habs := denotes_abs hd
  have hva : value x.toModel.unpack.abs = |a| := by
    rw [habs.value, ← hv, hd.value, abs_signed, abs_of_nonneg hd.nonneg]
    rfl
  have hround := Number.rounds ⟨_, _, habs⟩
  rw [hva] at hround
  have hself : rnd |a| = |a| := by rw [← abs_rnd, rnd, rounded_eq hrep]
  have hfits : Fits |a| := ⟨by rwa [hself, abs_abs]⟩
  exact hself ▸ is_of_rounds hround hfits rfl

theorem unpackExponent_single (w : UInt32) :
    (@UnpackedFloat.unpackExponent .binary32 w.toBitVec).toNat = w.toNat / 2 ^ 23 % 2 ^ 8 := by
  simp [UnpackedFloat.unpackExponent, BitVec.extractLsb, Nat.shiftRight_eq_div_pow]

theorem ofBitVec_unpackSign (w : UInt32) :
    UnpackedFloat.Sign.ofBitVec (@UnpackedFloat.unpackSign .binary32 w.toBitVec) =
      if w < 0x80000000 then .positive else .negative := by
  have hbit : (@UnpackedFloat.unpackSign .binary32 w.toBitVec).toNat = w.toNat / 2 ^ 31 % 2 := by
    simp [UnpackedFloat.unpackSign, BitVec.extractLsb, Nat.shiftRight_eq_div_pow]
  have hw := w.toNat_lt
  have hiff : @UnpackedFloat.unpackSign .binary32 w.toBitVec = 0#1 ↔ w < 0x80000000 := by
    rw [← BitVec.toNat_inj, hbit]
    simp only [UInt32.lt_iff_toNat_lt, UInt32.reduceToNat, BitVec.toNat_ofNat]
    omega
  unfold UnpackedFloat.Sign.ofBitVec
  simp only [hiff]

/-- One has the sign that the first bit says. -/
theorem Is.sign (hx : x.Is a) (ha : a ≠ 0) : x.sign = if 0 < a then 1 else -1 := by
  have hv : value x.toModel.unpack = a := hx.2
  obtain ⟨s, y, hd⟩ := hx.number
  have hs : s = if x.toBits < 0x80000000 then .positive else .negative :=
    (sign_of_denotes hd).trans (ofBitVec_unpackSign x.toBits)
  have hsigned : signed s y = a := hd.value.symm.trans hv
  have hy := hd.nonneg
  unfold Scalar.sign
  rw [if_neg (Bool.eq_false_iff.mp hx.isNaN)]
  by_cases hbit : x.toBits < 0x80000000
  · rw [if_pos hbit] at hs ⊢
    subst hs
    have hpos : y = a := hsigned
    rw [if_pos (lt_of_le_of_ne (hpos ▸ hy) ha.symm)]
  · rw [if_neg hbit] at hs ⊢
    subst hs
    have hneg : -y = a := hsigned
    rw [if_neg (by linarith)]

/-- The opposite of the sign is one or its opposite, against the scalar. -/
theorem Is.neg_sign (hx : x.Is a) (ha : a ≠ 0) :
    ∃ s, (-x.sign).Is s ∧ (s = 1 ∨ s = -1) ∧ s * a < 0 := by
  rw [hx.sign ha]
  rcases lt_or_gt_of_ne ha with hneg | hpos
  · rw [if_neg (by linarith)]
    have hone := is_one.neg.neg
    rw [neg_neg] at hone
    exact ⟨1, hone, .inl rfl, by linarith⟩
  · rw [if_pos hpos]
    exact ⟨-1, is_one.neg, .inr rfl, by linarith⟩

end Rally.Scalar
