import Rally.Proofs.Scalar.Selection

/-! Operations whose result is too large give an infinity, and no operation makes a number of what
is none. -/
namespace Rally.Scalar

open Rounding Float.Model

variable {x y lo hi : Scalar} {a b c : ℝ} {u v : UnpackedFloat}

theorem Fits.mono (h : Fits b) (hab : |a| ≤ |b|) : Fits a := by
  refine ⟨lt_of_le_of_lt ?_ h.abs_rnd_lt⟩
  rw [abs_rnd, abs_rnd]
  exact rnd_mono hab

/-- What is left of a number once a part of it has been taken. -/
theorem Is.sub_part (hx : x.Is a) (hy : y.Is b) (h0 : 0 ≤ b) (hle : b ≤ a) :
    (x - y).Is (rnd (a - b)) ∧ 0 ≤ rnd (a - b) ∧ rnd (a - b) ≤ a := by
  have hsize : |a - b| ≤ |a| := by
    rw [abs_of_nonneg (sub_nonneg.mpr hle), abs_of_nonneg (h0.trans hle)]
    linarith
  exact ⟨hx.sub hy (hx.fits.mono hsize), rnd_nonneg (sub_nonneg.mpr hle), hx.rnd_le (by linarith)⟩

/-- A part of a number. -/
theorem Is.mul_part (hx : x.Is a) (ha : 0 ≤ a) (hy : y.Is b) (h0 : 0 ≤ b) (h1 : b ≤ 1) :
    (x * y).Is (rnd (a * b)) ∧ 0 ≤ rnd (a * b) ∧ rnd (a * b) ≤ a := by
  have hprod := mul_le_of_le_one_right ha h1
  have hsize : |a * b| ≤ |a| := by rwa [abs_of_nonneg (mul_nonneg ha h0), abs_of_nonneg ha]
  exact ⟨hx.mul hy (hx.fits.mono hsize), rnd_nonneg (mul_nonneg ha h0), hx.rnd_le hprod⟩

/-- A result that is too large is an infinity on its own side. -/
theorem infinity_of_rounds (hu : Rounds .binary32 a u) (hf : ¬ Fits a)
    (hx : x.toModel.unpack =
      UnpackedFloat.unpack .binary32 (UnpackedFloat.pack .binary32 u)) :
    x.toModel.unpack = .infinity (if 0 < a then .positive else .negative) := by
  obtain ⟨⟨s, y, hd⟩, hv⟩ := hu
  have hsize : |rnd a| = y := by
    rw [rnd, ← hv, hd.value, abs_signed, abs_of_nonneg hd.nonneg]
  have hlarge : 2 ^ (128 : ℤ) ≤ y := by
    by_contra hlt
    exact hf ⟨hsize ▸ not_le.mp hlt⟩
  have hpos : 0 < y := (two_zpow_pos 128).trans_le hlarge
  have hsigned : signed s y = rnd a := hd.value.symm.trans hv
  rw [hx, hd.unpack_pack_of_le hlarge]
  congr 1
  cases s with
  | positive =>
    have hrnd : 0 < rnd a := hsigned ▸ hpos
    rw [if_pos (not_le.mp fun hle => absurd hrnd (not_lt.mpr (rnd_nonpos hle)))]
  | negative =>
    have hneg : -y = rnd a := hsigned
    rw [if_neg fun hlt => absurd (rnd_nonneg hlt.le) (not_le.mpr (by linarith))]

theorem isFinite_of_pack
    (h : (UnpackedFloat.unpack .binary32 (UnpackedFloat.pack .binary32 u)).isFinite = true) :
    u.isFinite = true := by
  cases u with
  | notANumber =>
    have hu : UnpackedFloat.unpack .binary32 (UnpackedFloat.pack .binary32 .notANumber) =
      .notANumber := unpack_packedNaN
    rw [hu] at h
    cases h
  | infinity s =>
    have hu : UnpackedFloat.unpack .binary32 (UnpackedFloat.pack .binary32 (.infinity s)) =
      .infinity s := unpack_packedInfinity s
    rw [hu] at h
    cases h
  | zero | finite => rfl

/-! What finite results come from. -/

theorem isFinite_of_add (h : (x + y).isFinite = true) : x.isFinite = true := by
  have hadd : (x.toModel.unpack.add .binary32 y.toModel.unpack).isFinite = true :=
    isFinite_of_pack h
  change x.toModel.unpack.isFinite = true
  cases hx : x.toModel.unpack with
  | zero | finite => rfl
  | notANumber | infinity =>
    rw [hx] at hadd
    cases hy : y.toModel.unpack <;> rw [hy] at hadd <;> revert hadd <;>
      simp only [UnpackedFloat.add] <;> (try split) <;> exact id

theorem isFinite_of_mul (h : (x * y).isFinite = true) : x.isFinite = true := by
  have hmul : (x.toModel.unpack.mul .binary32 y.toModel.unpack).isFinite = true :=
    isFinite_of_pack h
  change x.toModel.unpack.isFinite = true
  cases hx : x.toModel.unpack with
  | zero | finite => rfl
  | notANumber | infinity =>
    rw [hx] at hmul
    cases hy : y.toModel.unpack <;> rw [hy] at hmul <;> exact hmul

/-! Products and quotients that are too large. -/

theorem Is.mul_overflow (hx : x.Is a) (hy : y.Is b) (hf : ¬ Fits (a * b)) :
    (x * y).toModel.unpack = .infinity (if 0 < a * b then .positive else .negative) :=
  infinity_of_rounds (hx.mul_rounds hy) hf rfl

theorem Is.div_overflow (hx : x.Is a) (hy : y.Is b) (hb : b ≠ 0) (hf : ¬ Fits (a / b)) :
    (x / y).toModel.unpack = .infinity (if 0 < a / b then .positive else .negative) :=
  infinity_of_rounds (hx.div_rounds hy hb) hf rfl

/-- The exact value of a finite product is not too large. -/
theorem Is.fits_of_mul (hx : x.Is a) (hy : y.Is b) (h : (x * y).isFinite = true) :
    Fits (a * b) := by
  by_contra hf
  have hfin : (x * y).toModel.unpack.isFinite = true := h
  rw [hx.mul_overflow hy hf] at hfin
  cases hfin

theorem not_pos_of_unpack (h : x.toModel.unpack = .infinity .negative) : ¬ 0 < x := by
  rw [lt_iff_unpack, h]
  exact Bool.false_ne_true

theorem isNaN_mul_left (y : Scalar) (h : x.isNaN = true) : (x * y).isNaN = true := by
  refine isNaN_of_unpack (u := x.toModel.unpack.mul .binary32 y.toModel.unpack) ?_ rfl
  rw [unpack_of_isNaN h]
  rfl

/-- The sign of a finite scalar, if it has one that counts. -/
theorem Is.unpack_sign (hy : y.Is b) :
    (b = 0 ∧ ∃ s, y.toModel.unpack = .zero s) ∨
      ∃ s m e hm, y.toModel.unpack = .finite s m e hm ∧
        (s = .positive ∧ 0 < b ∨ s = .negative ∧ b < 0) := by
  have hv : value y.toModel.unpack = b := hy.2
  obtain ⟨s, z, hd⟩ := hy.number
  generalize y.toModel.unpack = u at hd hv ⊢
  cases hd with
  | zero => exact .inl ⟨hv.symm, s, rfl⟩
  | @finite m e hm =>
    have hpos : (0 : ℝ) < m * 2 ^ e := mul_pos (Nat.cast_pos.mpr hm) (two_zpow_pos e)
    refine .inr ⟨s, m, e, hm, rfl, ?_⟩
    cases s with
    | positive =>
      have hb : m * 2 ^ e = b := hv
      exact .inl ⟨rfl, hb ▸ hpos⟩
    | negative =>
      have hb : -(m * 2 ^ e) = b := hv
      exact .inr ⟨rfl, by linarith⟩

/-- A product with what is not negative is positive only if the other factor is. -/
theorem Is.pos_of_mul_pos (hy : y.Is b) (hb : 0 ≤ b) (h : 0 < x * y) :
    x.toModel.unpack = .infinity .positive ∨ ∃ a, x.Is a ∧ 0 < a * b := by
  have hnan : x.isNaN = false := by
    by_contra hx
    have hprod := isNaN_mul_left y (Bool.not_eq_false _ ▸ hx)
    rw [isNaN_of_lt_right h] at hprod
    cases hprod
  have hprod : (x * y).toModel.unpack = UnpackedFloat.unpack .binary32
      (UnpackedFloat.pack .binary32 (x.toModel.unpack.mul .binary32 y.toModel.unpack)) := rfl
  rcases proper_of_not_isNaN hnan with ⟨s, hs⟩ | hx
  · cases s with
    | positive => exact .inl hs
    | negative =>
      exfalso
      rcases hy.unpack_sign with ⟨-, t, ht⟩ | ⟨t, m, e, hm, ht, ⟨rfl, -⟩ | ⟨-, hneg⟩⟩
      · have hn := isNaN_of_unpack (u := .notANumber) rfl (hprod.trans (by rw [hs, ht]; rfl))
        rw [isNaN_of_lt_right h] at hn
        cases hn
      · rw [hs, ht] at hprod
        exact not_pos_of_unpack (hprod.trans (unpack_packedInfinity _)) h
      · linarith
  · have hx := is_toReal (isFinite_of_number hx)
    refine .inr ⟨x.toReal, hx, ?_⟩
    by_cases hf : Fits (x.toReal * b)
    · by_contra hle
      have hlt := (is_zero.lt_iff (hx.mul hy hf)).mp h
      exact absurd hlt (not_lt.mpr (rnd_nonpos (not_lt.mp hle)))
    · by_contra hle
      have hover := hx.mul_overflow hy hf
      rw [if_neg hle] at hover
      exact not_pos_of_unpack hover h

theorem isNaN_of_rounds (hu : Rounds .binary32 a u)
    (hx : x.toModel.unpack = UnpackedFloat.unpack .binary32 (UnpackedFloat.pack .binary32 u)) :
    x.isNaN = false := by
  by_cases hf : Fits a
  · exact (is_of_rounds hu hf hx).isNaN
  · change x.toModel.unpack.isNaN = false
    rw [infinity_of_rounds hu hf hx]
    rfl

/-- A product of numbers is not lost, however large it is. -/
theorem Is.isNaN_mul (hx : x.Is a) (hy : y.Is b) : (x * y).isNaN = false :=
  isNaN_of_rounds (hx.mul_rounds hy) rfl

/-- A number makes no difference to an infinity. -/
theorem Is.unpack_infinity {f : UnpackedFloat → UnpackedFloat} {s : UnpackedFloat.Sign}
    (hx : x.Is a) (hf : ∀ {u}, Number .binary32 u → f u = .infinity s)
    (hy : y.toModel.unpack =
      UnpackedFloat.unpack .binary32 (UnpackedFloat.pack .binary32 (f x.toModel.unpack))) :
    y.toModel.unpack = .infinity s := by
  rw [hy, hf hx.number]
  exact unpack_packedInfinity s

/-- A sum of a number and an infinity is that infinity. -/
theorem Is.unpack_add_infinity {s : UnpackedFloat.Sign} (hx : x.Is a)
    (hy : y.toModel.unpack = .infinity s) : (x + y).toModel.unpack = .infinity s := by
  refine hx.unpack_infinity (f := fun u => u.add .binary32 y.toModel.unpack) ?_ rfl
  rintro u ⟨t, z, hd⟩
  rw [hy]
  cases hd <;> rfl

/-- What may be an infinity is not lost in a sum with a number. -/
theorem Is.isNaN_add (hx : x.Is a) (hy : y.isNaN = false) : (x + y).isNaN = false := by
  rcases proper_of_not_isNaN hy with ⟨s, hs⟩ | hn
  · exact congrArg UnpackedFloat.isNaN (hx.unpack_add_infinity hs)
  · exact isNaN_of_rounds (hx.add_rounds (is_toReal (isFinite_of_number hn))) rfl

/-- A number that grows up to a limit does so even if the product is too large. -/
theorem Is.grow (hx : x.Is a) (ha : 0 ≤ a) (hy : y.Is b) (hb : 1 ≤ b) (hz : hi.Is c) (hac : a ≤ c) :
    ∃ d, ((x * y).least hi).Is d ∧ a ≤ d ∧ d ≤ c := by
  by_cases hf : Fits (a * b)
  · have hgrown : a ≤ rnd (a * b) := hx.le_rnd (le_mul_of_one_le_right ha hb)
    exact ⟨_, (hx.mul hy hf).least hz, le_min hgrown hac, min_le_right ..⟩
  · have hpos : 0 < a * b := by
      refine lt_of_le_of_ne (mul_nonneg ha (zero_le_one.trans hb)) fun h0 => hf ?_
      exact h0 ▸ is_zero.fits
    have hover := hx.mul_overflow hy hf
    rw [if_pos hpos] at hover
    have hlt : hi < x * y := by
      have hnan : (x * y).isNaN = false := by
        change (x * y).toModel.unpack.isNaN = false
        rw [hover]
        rfl
      have htop : (x * y).ext = ⊤ := by
        rw [Scalar.ext, hover]
        rfl
      rw [lt_iff_ext hz.isNaN hnan, hz.ext, htop]
      exact EReal.coe_lt_top c
    refine ⟨c, ?_, hac, le_rfl⟩
    rw [Scalar.least, if_pos hlt]
    exact hz

theorem isNaN_sub_right (x : Scalar) (h : y.isNaN = true) : (x - y).isNaN = true := by
  refine isNaN_of_unpack (u := x.toModel.unpack.sub .binary32 y.toModel.unpack) ?_ rfl
  rw [unpack_of_isNaN h]
  cases x.toModel.unpack <;> rfl

/-! What is chosen from what is a number or an infinity. -/

theorem isNaN_positivePart (x : Scalar) : x.positivePart.isNaN = false := by
  unfold Scalar.positivePart
  split
  · exact isNaN_of_lt_right ‹_›
  · exact is_zero.isNaN

theorem Is.of_positivePart (h : x.positivePart.Is a) : 0 ≤ a := by
  unfold Scalar.positivePart at h
  split at h
  · exact ((is_zero.lt_iff h).mp ‹_›).le
  · exact (is_zero.unique h).le

/-- What is positive is no less than its opposite, even if it is infinite. -/
theorem neg_le_of_pos (h : 0 < x) : -x ≤ x := by
  rcases proper_of_not_isNaN (isNaN_of_lt_right h) with ⟨s, hs⟩ | hn
  · cases s with
    | negative => exact absurd h (not_pos_of_unpack hs)
    | positive =>
      have hneg : (-x).toModel.unpack = .infinity .negative := by
        have hpack : (-x).toModel.unpack = UnpackedFloat.unpack .binary32
          (UnpackedFloat.pack .binary32 x.toModel.unpack.neg) := rfl
        rw [hpack, hs]
        exact unpack_packedInfinity .negative
      rw [le_iff_unpack, hs, hneg]
      rfl
  · have hx := is_toReal (isFinite_of_number hn)
    have hpos := (is_zero.lt_iff hx).mp h
    exact (hx.neg.le_iff hx).mpr (by linarith)

theorem neg_positivePart_le (x : Scalar) : -x.positivePart ≤ x.positivePart := by
  unfold Scalar.positivePart
  split
  · exact neg_le_of_pos ‹_›
  · decide +kernel

/-- A finite maximum bounds both, but for what is no number. -/
theorem le_greatest (h : (x.greatest y).Is c) (hy : y.Is b) :
    (x.isNaN = true ∨ x.ext ≤ c) ∧ b ≤ c := by
  unfold Scalar.greatest at h
  cases hx : x.isNaN with
  | true =>
    rw [hx] at h
    refine ⟨.inl rfl, ?_⟩
    split at h
    · exact (hy.unique h).le
    · exact (hy.unique h).le
  | false =>
    rw [hx] at h
    split at h
    · rename_i hlt
      obtain rfl := hy.unique h
      rw [lt_iff_ext hx hy.isNaN, hy.ext] at hlt
      exact ⟨.inr hlt.le, le_rfl⟩
    · rename_i hlt
      have hc : x.Is c := h
      exact ⟨.inr hc.ext.le, not_lt.mp fun hcb => hlt ((hc.lt_iff hy).mpr hcb)⟩

theorem isNaN_confine (h : x.isNaN = true) : (x.confine lo hi).isNaN = true := by
  have hne {y : Scalar} (hy : y.isNaN = false) : x ≠ y := by
    rintro rfl
    rw [h] at hy
    cases hy
  unfold Scalar.confine
  rw [if_neg, if_neg]
  · exact h
  · exact fun hlt => hne (isNaN_of_lt_right hlt) rfl
  · exact fun hlt => hne (isNaN_of_lt_left hlt) rfl

/-- Even an infinity is confined. -/
theorem is_confine (hx : x.isNaN = false) (hlo : lo.Is b) (hhi : hi.Is c) (h : b ≤ c) :
    ∃ d, (x.confine lo hi).Is d ∧ b ≤ d ∧ d ≤ c := by
  unfold Scalar.confine
  split
  · exact ⟨b, hlo, le_rfl, h⟩
  · rename_i hlow
    split
    · exact ⟨c, hhi, h, le_rfl⟩
    · rename_i hhigh
      rw [lt_iff_ext hx hlo.isNaN, hlo.ext, not_lt] at hlow
      rw [lt_iff_ext hhi.isNaN hx, hhi.ext, not_lt] at hhigh
      exact is_of_ext hx hlow hhigh

/-- A quotient by what is neither zero nor infinite is not lost, however large it is. -/
theorem isNaN_div (hx : x.isNaN = false) (hy : y.Is b) (hb : b ≠ 0) : (x / y).isNaN = false := by
  rcases proper_of_not_isNaN hx with ⟨s, hs⟩ | hn
  · change (x / y).toModel.unpack.isNaN = false
    have hquot : (x / y).toModel.unpack = UnpackedFloat.unpack .binary32
        (UnpackedFloat.pack .binary32 (x.toModel.unpack.div .binary32 y.toModel.unpack)) := rfl
    rcases hy.unpack_sign with ⟨hzero, -⟩ | ⟨t, m, e, hm, ht, -⟩
    · exact absurd hzero hb
    · rw [hs, ht] at hquot
      rw [hquot.trans (unpack_packedInfinity _)]
      rfl
  · have hx := is_toReal (isFinite_of_number hn)
    by_cases hf : Fits (x.toReal / b)
    · exact (hx.div hy hb hf).isNaN
    · change (x / y).toModel.unpack.isNaN = false
      rw [hx.div_overflow hy hb hf]
      rfl

theorem Is.beq_iff (hx : x.Is a) (hy : y.Is b) : (x == y) = true ↔ a = b := by
  have hcompare := compare_extended (.inr hx.number) (.inr hy.number)
  rw [hx.extended, hy.extended, compare_coe] at hcompare
  change (x.toModel.unpack.compare y.toModel.unpack == some .eq) = true ↔ a = b
  rw [hcompare, beq_iff_eq, Option.some.injEq, compare_eq_iff_eq]

end Rally.Scalar
