import Rally.Proofs.Scalar.Signs

/-! Rounding keeps the order. What an operation gives for a larger operand is not smaller, also
where it is too large to be a number, and positive scalars have the order of their ranks. -/
namespace Rally.Scalar

open Rounding Float.Model

variable {x y z x' y' : Scalar} {a b c : ℝ} {u : UnpackedFloat} {s : UnpackedFloat.Sign}

/-- What a number is once it is rounded and packed. -/
noncomputable def outcome (a : ℝ) : EReal :=
  open Classical in if Fits a then (rnd a : ℝ) else if 0 < a then ⊤ else ⊥

theorem outcome_of_fits (h : Fits a) : outcome a = (rnd a : ℝ) := if_pos h

theorem outcome_of_pos (h : ¬ Fits a) (ha : 0 < a) : outcome a = ⊤ := (if_neg h).trans (if_pos ha)

theorem outcome_of_nonpos (h : ¬ Fits a) (ha : ¬ 0 < a) : outcome a = ⊥ :=
  (if_neg h).trans (if_neg ha)

theorem outcome_mono (h : a ≤ b) : outcome a ≤ outcome b := by
  by_cases ha : Fits a
  · by_cases hb : Fits b
    · rw [outcome_of_fits ha, outcome_of_fits hb, EReal.coe_le_coe_iff]
      exact rnd_mono h
    · have hpos : 0 < b := by
        by_contra hneg
        refine hb (ha.mono ?_)
        rw [abs_of_nonpos (by linarith), abs_of_nonpos (by linarith)]
        linarith
      exact outcome_of_pos hb hpos ▸ le_top
  · by_cases hpos : 0 < a
    · have hb : ¬ Fits b := by
        intro hb
        refine ha (hb.mono ?_)
        rwa [abs_of_pos hpos, abs_of_pos (hpos.trans_le h)]
      exact outcome_of_pos hb (hpos.trans_le h) ▸ le_top
    · exact outcome_of_nonpos ha hpos ▸ bot_le

theorem ext_of_rounds (hu : Rounds .binary32 a u)
    (hx : x.toModel.unpack = UnpackedFloat.unpack .binary32 (UnpackedFloat.pack .binary32 u)) :
    x.ext = outcome a := by
  by_cases hf : Fits a
  · rw [outcome_of_fits hf, (is_of_rounds hu hf hx).ext]
  · have hinf := infinity_of_rounds hu hf hx
    by_cases hpos : 0 < a
    · rw [if_pos hpos] at hinf
      rw [outcome_of_pos hf hpos, ext_eq_top hinf]
    · rw [if_neg hpos] at hinf
      rw [outcome_of_nonpos hf hpos, ext_eq_bot hinf]

/-! What is not a NaN is a number or one of the two infinities. -/

theorem isNaN_of_infinity (h : x.toModel.unpack = .infinity s) : x.isNaN = false := by
  change x.toModel.unpack.isNaN = false
  rw [h]
  rfl

theorem cases_of_not_isNaN (h : x.isNaN = false) : x.toModel.unpack = .infinity .negative ∨
    x.toModel.unpack = .infinity .positive ∨ ∃ a, x.Is a := by
  rcases proper_of_not_isNaN h with ⟨_ | _, hs⟩ | hn
  · exact .inl hs
  · exact .inr (.inl hs)
  · exact .inr (.inr ⟨_, is_toReal (isFinite_of_number hn)⟩)

/-- An operation on one operand that gives the rounded result of another on numbers, and that keeps
infinities. -/
structure Rises (F : Scalar → Scalar) (f : ℝ → ℝ) : Prop where
  mono : Monotone f
  number : ∀ {x a}, x.Is a → ∃ u, Rounds .binary32 (f a) u ∧
    (F x).toModel.unpack = UnpackedFloat.unpack .binary32 (UnpackedFloat.pack .binary32 u)
  infinity : ∀ {x s}, x.toModel.unpack = .infinity s → (F x).toModel.unpack = .infinity s

namespace Rises
variable {F : Scalar → Scalar} {f : ℝ → ℝ}

theorem isNaN (h : Rises F f) (hx : x.isNaN = false) : (F x).isNaN = false := by
  rcases proper_of_not_isNaN hx with ⟨s, hs⟩ | hn
  · exact isNaN_of_infinity (h.infinity hs)
  · obtain ⟨u, hu, hF⟩ := h.number (is_toReal (isFinite_of_number hn))
    exact isNaN_of_rounds hu hF

theorem ext (h : Rises F f) (hx : x.Is a) : (F x).ext = outcome (f a) := by
  obtain ⟨u, hu, hF⟩ := h.number hx
  exact ext_of_rounds hu hF

theorem le (h : Rises F f) (hxy : x ≤ y) : F x ≤ F y := by
  obtain ⟨hx, hy⟩ := isNaN_of_le hxy
  rw [le_iff_ext (h.isNaN hx) (h.isNaN hy)]
  rw [le_iff_ext hx hy] at hxy
  rcases cases_of_not_isNaN hx with hbot | htop | ⟨a, ha⟩
  · exact ext_eq_bot (h.infinity hbot) ▸ bot_le
  · rw [ext_eq_top htop, top_le_iff] at hxy
    rcases cases_of_not_isNaN hy with hbot | htop | ⟨b, hb⟩
    · rw [ext_eq_bot hbot] at hxy
      cases hxy
    · exact ext_eq_top (h.infinity htop) ▸ le_top
    · rw [hb.ext] at hxy
      exact absurd hxy (EReal.coe_ne_top b)
  · rcases cases_of_not_isNaN hy with hbot | htop | ⟨b, hb⟩
    · rw [ha.ext, ext_eq_bot hbot, le_bot_iff] at hxy
      exact absurd hxy (EReal.coe_ne_bot a)
    · exact ext_eq_top (h.infinity htop) ▸ le_top
    · rw [ha.ext, hb.ext, EReal.coe_le_coe_iff] at hxy
      rw [h.ext ha, h.ext hb]
      exact outcome_mono (h.mono hxy)

end Rises

/-! Sums and differences with a number. -/

theorem Is.rises_add_right (hz : z.Is c) : Rises (· + z) (· + c) where
  mono := fun _ _ h => add_le_add_left h c
  number := fun hx => ⟨_, hx.add_rounds hz, rfl⟩
  infinity := by
    intro x s hx
    refine hz.unpack_infinity (f := fun v => x.toModel.unpack.add .binary32 v) ?_ rfl
    rintro v ⟨t, y, hd⟩
    rw [hx]
    cases hd <;> rfl

theorem Is.rises_add_left (hz : z.Is c) : Rises (z + ·) (c + ·) where
  mono := fun _ _ h => add_le_add_right h c
  number := fun hx => ⟨_, hz.add_rounds hx, rfl⟩
  infinity := hz.unpack_add_infinity

theorem Is.rises_sub (hz : z.Is c) : Rises (· - z) (· - c) where
  mono := fun _ _ h => sub_le_sub_right h c
  number := fun hx => ⟨_, hx.sub_rounds hz, rfl⟩
  infinity := by
    intro x s hx
    refine hz.unpack_infinity (f := fun v => x.toModel.unpack.sub .binary32 v) ?_ rfl
    rintro v ⟨t, y, hd⟩
    rw [hx]
    cases hd <;> rfl

/-! Products with a positive number, and with the opposite of one. -/

theorem Is.rises_mul (hz : z.Is c) (hc : 0 < c) : Rises (z * ·) (c * ·) where
  mono := fun _ _ h => mul_le_mul_of_nonneg_left h hc.le
  number := fun hx => ⟨_, hz.mul_rounds hx, rfl⟩
  infinity := by
    intro x s hx
    have hprod : (z * x).toModel.unpack = UnpackedFloat.unpack .binary32
      (UnpackedFloat.pack .binary32 (z.toModel.unpack.mul .binary32 x.toModel.unpack)) := rfl
    rcases hz.unpack_sign with ⟨hzero, -⟩ | ⟨t, m, e, hm, ht, ⟨rfl, -⟩ | ⟨-, hneg⟩⟩
    · exact absurd hzero hc.ne'
    · rw [hprod, ht, hx]
      cases s <;> exact unpack_packedInfinity _
    · exact absurd hneg hc.not_gt

theorem ext_neg_one_mul (h : x.isNaN = false) : (-1 * x).isNaN = false ∧ (-1 * x).ext = -x.ext := by
  have hone : (-1 : Scalar).toModel.unpack = .finite .negative (2 ^ 23) (-23) (by decide) := rfl
  have hprod : (-1 * x).toModel.unpack = UnpackedFloat.unpack .binary32
      (UnpackedFloat.pack .binary32
        ((-1 : Scalar).toModel.unpack.mul .binary32 x.toModel.unpack)) := rfl
  rw [hone] at hprod
  rcases cases_of_not_isNaN h with hbot | htop | ⟨a, ha⟩
  · rw [hbot] at hprod
    have hinf := hprod.trans (unpack_packedInfinity .positive)
    refine ⟨isNaN_of_infinity hinf, ?_⟩
    rw [ext_eq_top hinf, ext_eq_bot hbot, EReal.neg_bot]
  · rw [htop] at hprod
    have hinf := hprod.trans (unpack_packedInfinity .negative)
    refine ⟨isNaN_of_infinity hinf, ?_⟩
    rw [ext_eq_bot hinf, ext_eq_top htop, EReal.neg_top]
  · have hneg := is_one.neg.mul_exact ha ((neg_one_mul a).symm ▸ ha.neg)
    refine ⟨hneg.isNaN, ?_⟩
    rw [hneg.ext, ha.ext, neg_one_mul, EReal.coe_neg]

theorem neg_one_mul_le (h : x ≤ y) : -1 * y ≤ -1 * x := by
  obtain ⟨hx, hy⟩ := isNaN_of_le h
  obtain ⟨hnx, hex⟩ := ext_neg_one_mul hx
  obtain ⟨hny, hey⟩ := ext_neg_one_mul hy
  rw [le_iff_ext hx hy] at h
  rw [le_iff_ext hny hnx, hex, hey]
  exact EReal.neg_le_neg_iff.mpr h

/-! Choices. -/

theorem isNaN_greatest (hx : x.isNaN = false) (hy : y.isNaN = false) :
    (x.greatest y).isNaN = false := by
  unfold Scalar.greatest
  split
  · exact hy
  · rw [if_neg (Bool.eq_false_iff.mp hx)]
    exact hx

theorem ext_greatest (hx : x.isNaN = false) (hy : y.isNaN = false) :
    (x.greatest y).ext = max x.ext y.ext := by
  unfold Scalar.greatest
  split
  · rename_i h
    rw [max_eq_right ((lt_iff_ext hx hy).mp h).le]
  · rename_i h
    rw [if_neg (Bool.eq_false_iff.mp hx),
      max_eq_left (not_lt.mp fun hlt => h ((lt_iff_ext hx hy).mpr hlt))]

theorem least_le_least (h : x ≤ x') (h' : y ≤ y') : x.least y ≤ x'.least y' := by
  obtain ⟨hx, hx'⟩ := isNaN_of_le h
  obtain ⟨hy, hy'⟩ := isNaN_of_le h'
  rw [le_iff_ext hx hx'] at h
  rw [le_iff_ext hy hy'] at h'
  rw [le_iff_ext (isNaN_least hx hy) (isNaN_least hx' hy'), ext_least hx hy, ext_least hx' hy']
  exact min_le_min h h'

theorem greatest_le_greatest (h : x ≤ x') (h' : y ≤ y') : x.greatest y ≤ x'.greatest y' := by
  obtain ⟨hx, hx'⟩ := isNaN_of_le h
  obtain ⟨hy, hy'⟩ := isNaN_of_le h'
  rw [le_iff_ext hx hx'] at h
  rw [le_iff_ext hy hy'] at h'
  rw [le_iff_ext (isNaN_greatest hx hy) (isNaN_greatest hx' hy'), ext_greatest hx hy,
    ext_greatest hx' hy']
  exact max_le_max h h'

/-! Ranks. -/

theorem unpackMantissa_single (w : UInt32) :
    (@UnpackedFloat.unpackMantissa .binary32 w.toBitVec).toNat = w.toNat % 2 ^ 23 := by
  simp [UnpackedFloat.unpackMantissa, BitVec.extractLsb]

theorem unpack_positive_of_pos (h : 0 < x) : x.toModel.unpack = .infinity .positive ∨
    ∃ m e hm, x.toModel.unpack = .finite .positive m e hm := by
  rw [lt_iff_unpack] at h
  cases hu : x.toModel.unpack with
  | notANumber => rw [hu] at h; cases h
  | infinity s =>
    cases s with
    | negative => rw [hu] at h; cases h
    | positive => exact .inl rfl
  | zero s => rw [hu] at h; cases h
  | finite s m e hm =>
    cases s with
    | negative => rw [hu] at h; cases h
    | positive => exact .inr ⟨m, e, hm, rfl⟩

theorem unpackSign_of_pos (h : 0 < x) :
    UnpackedFloat.Sign.ofBitVec (@UnpackedFloat.unpackSign .binary32 x.toBits.toBitVec) =
      .positive := by
  rcases unpack_positive_of_pos h with hinf | ⟨m, e, hm, hfin⟩
  · exact (sign_of_infinity hinf).symm
  · rcases proper_of_not_isNaN (isNaN_of_lt_right h) with ⟨s, hs⟩ | ⟨s, y, hd⟩
    · rw [hfin] at hs
      cases hs
    · have hs := sign_of_denotes hd
      rw [hfin] at hd
      cases hd
      exact hs.symm

theorem toBits_lt_of_pos (h : 0 < x) : x.toBits.toNat < 2 ^ 31 := by
  have hsign := unpackSign_of_pos h
  rw [ofBitVec_unpackSign] at hsign
  split at hsign
  · rename_i hlt
    simpa [UInt32.lt_iff_toNat_lt] using hlt
  · cases hsign

/-- What the bits of a positive scalar say: an infinity, one of the least numbers, or another. -/
inductive Fields (n : ℕ) : UnpackedFloat → Prop where
  | infinity (hn : n / 2 ^ 23 = 255) : Fields n (.infinity .positive)
  | least {m : ℕ} {e : ℤ} {hm} (hn : n / 2 ^ 23 = 0) (hm' : m = n % 2 ^ 23) (he : e = -149) :
    Fields n (.finite .positive m e hm)
  | finite {m : ℕ} {e : ℤ} {hm} (hn : 0 < n / 2 ^ 23) (hn' : n / 2 ^ 23 < 255)
      (hm' : m = 2 ^ 23 + n % 2 ^ 23) (he : e = (n / 2 ^ 23 : ℕ) - 150) :
    Fields n (.finite .positive m e hm)

theorem fields_of_pos (h : 0 < x) : Fields x.toBits.toNat x.toModel.unpack := by
  have hpos := unpack_positive_of_pos h
  have hlt := toBits_lt_of_pos h
  have hexp := unpackExponent_single x.toBits
  have hman := unpackMantissa_single x.toBits
  have hunpack : x.toModel.unpack = UnpackedFloat.unpack .binary32 x.toBits.toBitVec := rfl
  rw [Nat.mod_eq_of_lt (by omega)] at hexp
  rw [hunpack] at hpos ⊢
  unfold UnpackedFloat.unpack at hpos ⊢
  dsimp only at hpos ⊢
  rw [unpackSign_of_pos h] at hpos ⊢
  split
  · rename_i htop
    rw [htop] at hexp hpos
    split
    · exact .infinity hexp.symm
    · rename_i hnan
      rw [if_pos rfl, if_neg hnan] at hpos
      rcases hpos with hs | ⟨m, e, hm, hs⟩ <;> cases hs
  · rename_i htop
    rw [if_neg htop] at hpos
    split
    · rename_i hzero
      rw [if_pos hzero] at hpos
      rw [hzero] at hexp
      split
      · rename_i hman
        rw [dif_pos hman] at hpos
        rcases hpos with hs | ⟨m, e, hm, hs⟩ <;> cases hs
      · refine .least hexp.symm hman ?_
        rw [hzero]
        rfl
    · rename_i hzero
      have hne : x.toBits.toNat / 2 ^ 23 ≠ 255 := fun h255 =>
        htop (BitVec.eq_of_toNat_eq (hexp.trans h255))
      have hne' : x.toBits.toNat / 2 ^ 23 ≠ 0 := fun h0 =>
        hzero (BitVec.eq_of_toNat_eq (hexp.trans h0))
      refine .finite (by omega) (by omega) ?_ ?_
      · rw [toNat_append_one, hman]
      · have hbias : ((Format.binary32.exponentBias : ℤ) +
          Format.binary32.mantissaBitsWithoutImplicit) = 150 := rfl
        rw [hexp, hbias]

theorem lt_of_finite {m n : ℕ} {e f : ℤ} {hm : 0 < m} {hn : 0 < n}
    (h : UnpackedFloat.lt (.finite .positive m e hm) (.finite .positive n f hn) = true) :
    e < f ∨ e = f ∧ m < n := by
  have hlt : (compare e f).then (compare m n) = .lt := by
    simpa [UnpackedFloat.lt, UnpackedFloat.compare] using h
  rw [Ordering.then_eq_lt, compare_lt_iff_lt, compare_eq_iff_eq, compare_lt_iff_lt] at hlt
  exact hlt

theorem rank_of_pos (h : 0 < x) : x.rank = x.toBits.toNat := by
  have hlt : x.toBits.toNat < 0x80000000 := toBits_lt_of_pos h
  exact if_pos hlt

theorem rank_lt_rank (hx : 0 < x) (h : x < y) : x.rank < y.rank := by
  have hy : 0 < y := by
    have hnx := isNaN_of_lt_left h
    have hny := isNaN_of_lt_right h
    rw [lt_iff_ext is_zero.isNaN hnx] at hx
    rw [lt_iff_ext hnx hny] at h
    exact (lt_iff_ext is_zero.isNaN hny).mpr (hx.trans h)
  have hxf := fields_of_pos hx
  have hyf := fields_of_pos hy
  rw [rank_of_pos hx, rank_of_pos hy, Nat.cast_lt]
  rw [lt_iff_unpack] at h
  generalize x.toModel.unpack = u at hxf h
  generalize y.toModel.unpack = v at hyf h
  cases hxf with
  | infinity => cases hyf <;> cases h
  | least | finite =>
    cases hyf with
    | infinity => omega
    | least | finite =>
      have := lt_of_finite h
      omega

theorem le_of_rank_le (hx : 0 < x) (hy : 0 < y) (h : y.rank ≤ x.rank) : y ≤ x := by
  have hnx := isNaN_of_lt_right hx
  have hny := isNaN_of_lt_right hy
  rw [le_iff_ext hny hnx, ← not_lt, ← lt_iff_ext hnx hny]
  intro hlt
  have := rank_lt_rank hx hlt
  omega

end Rally.Scalar
