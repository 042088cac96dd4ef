import Rally.Proofs.Scalar.Selection
import Rally.Scalar.Trig

/-! Sine and cosine never give an infinity: what they go through in double precision stays small. -/
namespace Rally.Scalar

open Rounding Float.Model UnpackedFloat

variable {x y : Float} {a : ℝ} {j k l : ℤ}

/-! Doubles of a bounded size. -/

/-- A double is finite and at most two to the power of `k` in size. -/
structure Within (x : Float) (k : ℤ) : Prop where
  number : Number .binary64 x.toModel.unpack
  abs_le : |value x.toModel.unpack| ≤ 2 ^ k

theorem Within.mono (h : Within x j) (hjk : j ≤ k) : Within x k :=
  ⟨h.number, h.abs_le.trans (zpow_le_zpow_right₀ one_le_two hjk)⟩

theorem within_of_rounds {u : UnpackedFloat} (hu : Rounds .binary64 a u) (ha : |a| ≤ 2 ^ k)
    (hlow : -1074 ≤ k) (htop : k < 1024)
    (hx : x.toModel.unpack =
      UnpackedFloat.unpack .binary64 (UnpackedFloat.pack .binary64 u)) : Within x k := by
  obtain ⟨⟨s, y, hd⟩, hv⟩ := hu
  have hsize : |value u| ≤ 2 ^ k := by
    have hrep : Representable .binary64 (2 ^ k) := ⟨1, k, by decide, hlow, by simp⟩
    rw [hv]
    obtain ⟨hneg, hpos⟩ := abs_le.mp ha
    refine abs_le.mpr ⟨le_rounded hneg hrep.neg, rounded_le hpos hrep⟩
  have hy : y < 2 ^ maxExponent .binary64 := by
    rw [hd.value, abs_signed, abs_of_nonneg hd.nonneg] at hsize
    exact hsize.trans_lt (zpow_lt_zpow_right₀ one_lt_two htop)
  have hself : x.toModel.unpack = u := hx.trans (hd.unpack_pack (by decide) hy)
  exact ⟨hself ▸ ⟨s, y, hd⟩, hself ▸ hsize⟩

theorem abs_add_le_two_zpow {b : ℝ} (ha : |a| ≤ 2 ^ j) (hb : |b| ≤ 2 ^ k) (hj : j < l)
    (hk : k < l) :
    |a + b| ≤ 2 ^ l := by
  have hj : (2 : ℝ) ^ j ≤ 2 ^ (l - 1) := zpow_le_zpow_right₀ one_le_two (by omega)
  have hk : (2 : ℝ) ^ k ≤ 2 ^ (l - 1) := zpow_le_zpow_right₀ one_le_two (by omega)
  have hl : (2 : ℝ) ^ l = 2 ^ (l - 1) * 2 := by
    rw [← zpow_add_one₀ two_ne_zero]
    simp
  linarith [abs_add_le a b]

namespace Within

theorem add (hx : Within x j) (hy : Within y k) (hj : j < l) (hk : k < l) (hlow : -1074 ≤ l)
    (htop : l < 1024) : Within (x + y) l :=
  within_of_rounds (add_rounds hx.number hy.number)
    (abs_add_le_two_zpow hx.abs_le hy.abs_le hj hk) hlow htop rfl

theorem sub (hx : Within x j) (hy : Within y k) (hj : j < l) (hk : k < l) (hlow : -1074 ≤ l)
    (htop : l < 1024) : Within (x - y) l := by
  refine within_of_rounds (sub_rounds hx.number hy.number) ?_ hlow htop rfl
  rw [sub_eq_add_neg]
  exact abs_add_le_two_zpow hx.abs_le (by rw [abs_neg]; exact hy.abs_le) hj hk

theorem mul (hx : Within x j) (hy : Within y k) (hlow : -1074 ≤ j + k) (htop : j + k < 1024) :
    Within (x * y) (j + k) := by
  refine within_of_rounds (mul_rounds hx.number hy.number) ?_ hlow htop rfl
  rw [abs_mul, zpow_add₀ two_ne_zero]
  exact mul_le_mul hx.abs_le hy.abs_le (abs_nonneg _) (two_zpow_pos j).le

theorem neg (hx : Within x j) (hlow : -1074 ≤ j) (htop : j < 1024) : Within (-x) j := by
  refine within_of_rounds hx.number.neg.rounds ?_ hlow htop rfl
  rw [value_neg, abs_neg]
  exact hx.abs_le

end Within

theorem toNat_unpackExponent (w : UInt64) :
    (@unpackExponent .binary64 w.toBitVec).toNat = w.toNat / 2 ^ 52 % 2 ^ 11 := by
  simp [unpackExponent, BitVec.extractLsb, Nat.shiftRight_eq_div_pow]

/-- Bits without the largest exponent are those of a double of about the size that it says. -/
theorem within_ofBits {w : UInt64} {E : ℕ} (hw : w.toNat / 2 ^ 52 % 2 ^ 11 ≤ E) (hE : E < 2047) :
    Within (Float.ofBits w) (E - 1022) := by
  have hexp := toNat_unpackExponent w
  have hlast : (@unpackExponent .binary64 w.toBitVec).toNat + 1 < 2 ^ 11 := by omega
  obtain ⟨y, hd, hlt, -⟩ := @denotes_unpack .binary64 w.toBitVec hlast
  have hmax : maxExponent .binary64 = 1024 := rfl
  rw [hexp, hmax] at hlt
  have hself : (Float.ofBits w).toModel.unpack = UnpackedFloat.unpack .binary64 w.toBitVec :=
    hd.unpack_pack (by decide) (hlt.trans_le (zpow_le_zpow_right₀ one_le_two (by omega)))
  refine ⟨hself ▸ ⟨_, y, hd⟩, ?_⟩
  rw [hself, hd.value, abs_signed, abs_of_nonneg hd.nonneg]
  exact hlt.le.trans (zpow_le_zpow_right₀ one_le_two (by omega))

/-- A double of bounded size has no large exponent in its bits. -/
theorem Within.toBits (h : Within x k) (hlow : -1024 < k) :
    ((x.toBits.toNat / 2 ^ 52 % 2 ^ 11 : ℕ) : ℤ) < k + 1024 := by
  have hexp := toNat_unpackExponent x.toBits
  have hlt := (@unpackExponent .binary64 x.toBits.toBitVec).isLt
  have hsize : |value (UnpackedFloat.unpack .binary64 x.toBits.toBitVec)| ≤ 2 ^ k := h.abs_le
  have hnum : Number .binary64 (UnpackedFloat.unpack .binary64 x.toBits.toBitVec) := h.number
  have hne : (@unpackExponent .binary64 x.toBits.toBitVec) ≠ -1#_ := by
    intro htop
    obtain ⟨s, z, hd⟩ := hnum
    unfold UnpackedFloat.unpack at hd
    dsimp only at hd
    rw [if_pos htop] at hd
    split at hd <;> cases hd
  have hlast : (@unpackExponent .binary64 x.toBits.toBitVec).toNat + 1 < 2 ^ 11 := by
    have h2047 : (@unpackExponent .binary64 x.toBits.toBitVec).toNat ≠ 2047 := fun h =>
      hne (BitVec.eq_of_toNat_eq h)
    have hlt : _ < 2 ^ 11 := hlt
    omega
  obtain ⟨z, hd, -, hge⟩ := @denotes_unpack .binary64 x.toBits.toBitVec hlast
  have hmax : maxExponent .binary64 = 1024 := rfl
  rw [hexp, hmax] at hge
  rw [hd.value, abs_signed, abs_of_nonneg hd.nonneg] at hsize
  rcases Nat.eq_zero_or_pos (x.toBits.toNat / 2 ^ 52 % 2 ^ 11) with hz | hz
  · omega
  · have := (zpow_le_zpow_iff_right₀ one_lt_two).mp ((hge hz).trans hsize)
    omega

/-! Between single and double precision. -/

/-- Bits without the largest exponent are those of a number. -/
theorem denotes_single {w : UInt32} (hw : w.toNat / 2 ^ 23 % 2 ^ 8 < 255) :
    ∃ s y, Denotes .binary32 s y (UnpackedFloat.unpack .binary32 w.toBitVec) ∧
      y < 2 ^ (128 : ℤ) := by
  have hexp := unpackExponent_single w
  have hlast : (@unpackExponent .binary32 w.toBitVec).toNat + 1 < 2 ^ 8 := by omega
  obtain ⟨y, hd, hlt, -⟩ := @denotes_unpack .binary32 w.toBitVec hlast
  have hmax : maxExponent .binary32 = 128 := rfl
  rw [hexp, hmax] at hlt
  exact ⟨_, y, hd, hlt.trans_le (zpow_le_zpow_right₀ one_le_two (by omega))⟩

theorem isFinite_ofBits {w : UInt32} (hw : w.toNat / 2 ^ 23 % 2 ^ 8 < 255) :
    (Float32.ofBits w).isFinite = true := by
  obtain ⟨s, y, hd, hlt⟩ := denotes_single hw
  have hself : (Float32.ofBits w).toModel.unpack = UnpackedFloat.unpack .binary32 w.toBitVec :=
    hd.unpack_pack (by decide) hlt
  change (Float32.ofBits w).toModel.unpack.isFinite = true
  rw [hself]
  exact isFinite_of_number ⟨s, y, hd⟩

theorem roundShift_le (n k : ℕ) : roundShift n k ≤ n / 2 ^ k + 1 := by
  unfold roundShift
  dsimp only
  rw [Nat.shiftRight_eq_div_pow]
  split
  · rename_i hk
    subst hk
    omega
  · split <;> omega

theorem isFinite_ofBits_add {r : ℕ} (hr : r < 255 * 2 ^ 23) (n : ℕ) :
    (Float32.ofBits (r + (n >>> 63) <<< 31).toUInt32).isFinite = true := by
  apply isFinite_ofBits
  have hto : (r + (n >>> 63) <<< 31).toUInt32.toNat = (r + n / 2 ^ 63 * 2 ^ 31) % 2 ^ 32 := by
    rw [Nat.shiftRight_eq_div_pow, Nat.shiftLeft_eq]
    exact UInt32.toNat_ofNat'
  rw [hto]
  omega

/-- A double of bounded size is narrowed to a finite scalar. -/
theorem Within.narrow (h : Within x 100) : (Scalar.narrow x).isFinite = true := by
  have hbits := h.toBits (by decide)
  have hexp : (x.toBits.toNat % 0x8000000000000000) >>> 52 = x.toBits.toNat / 2 ^ 52 % 2 ^ 11 := by
    rw [Nat.shiftRight_eq_div_pow]
    omega
  unfold Scalar.narrow
  dsimp only
  rw [hexp]
  apply isFinite_ofBits_add
  split
  · omega
  · split
    · omega
    · split
      · refine (roundShift_le ..).trans_lt ?_
        rw [Nat.shiftLeft_eq]
        omega
      · split
        · norm_num
        · rename_i h897 h860
          refine (roundShift_le ..).trans_lt ?_
          have hpow : 2 ^ 30 ≤ 2 ^ (926 - x.toBits.toNat / 2 ^ 52 % 2 ^ 11) :=
            Nat.pow_le_pow_right two_pos (by omega)
          have hsum : 0x10000000000000 + x.toBits.toNat % 0x8000000000000000 % 0x10000000000000 ≤
              2 ^ 53 := by omega
          have hdiv := Nat.div_le_div hsum hpow (by norm_num)
          omega

/-- The size of a scalar, read off its bits. -/
theorem toNat_size (w : UInt32) : (w &&& 0x7fffffff).toNat = w.toNat % 2 ^ 31 := by
  rw [UInt32.toNat_and]
  exact Nat.and_two_pow_sub_one_eq_mod w.toNat 31

theorem isFinite_of_size {x : Scalar} (h : x.toBits &&& 0x7fffffff < 0x7f800000) :
    x.isFinite = true := by
  simp only [UInt32.lt_iff_toNat_lt, toNat_size, UInt32.reduceToNat] at h
  obtain ⟨s, y, hd, -⟩ := denotes_single (w := x.toBits) (by omega)
  exact isFinite_of_number ⟨s, y, hd⟩

theorem toNat_exponent (w : UInt32) :
    (w.toUInt64 >>> 23 &&& 0xff).toNat = w.toNat / 2 ^ 23 % 2 ^ 8 := by
  rw [UInt64.toNat_and, UInt64.toNat_shiftRight, UInt32.toNat_toUInt64,
    ← Nat.and_two_pow_sub_one_eq_mod, Nat.shiftRight_eq_div_pow]
  rfl

theorem or_fields (s : ℕ) {e f : ℕ} (he : e < 2 ^ 8) (hf : f < 2 ^ 23) :
    s * 2 ^ 63 / 2 ^ 52 % 2 ^ 11 ||| (e + 896) * 2 ^ 52 / 2 ^ 52 % 2 ^ 11 |||
      f * 2 ^ 29 / 2 ^ 52 % 2 ^ 11 = e + 896 := by
  have hs : s * 2 ^ 63 / 2 ^ 52 % 2 ^ 11 = 0 := by
    have hsplit : s * 2 ^ 63 = s * 2 ^ 11 * 2 ^ 52 := by ring
    rw [hsplit, Nat.mul_div_cancel _ (by norm_num), Nat.mul_mod_left]
  have hmid : (e + 896) * 2 ^ 52 / 2 ^ 52 % 2 ^ 11 = e + 896 := by
    rw [Nat.mul_div_cancel _ (by norm_num), Nat.mod_eq_of_lt (by omega)]
  have hend : f * 2 ^ 29 / 2 ^ 52 % 2 ^ 11 = 0 := by
    rw [Nat.div_eq_of_lt (by omega), Nat.zero_mod]
  rw [hs, hmid, hend, Nat.zero_or, Nat.or_zero]

theorem exponent_widen (w : UInt32) :
    (((w.toUInt64 >>> 31) <<< 63 ||| (((w.toUInt64 >>> 23 &&& 0xff) + 896) <<< 52) |||
      ((w.toUInt64 &&& 0x7fffff) <<< 29)).toNat / 2 ^ 52 % 2 ^ 11) =
      w.toNat / 2 ^ 23 % 2 ^ 8 + 896 := by
  have hw := w.toNat_lt
  have hs : (w.toUInt64 >>> 31 <<< 63).toNat = w.toNat / 2 ^ 31 * 2 ^ 63 := by
    simp [UInt64.toNat_shiftLeft, UInt64.toNat_shiftRight, Nat.shiftRight_eq_div_pow,
      Nat.shiftLeft_eq]
    omega
  have hplace : (((w.toUInt64 >>> 23 &&& 0xff) + 896) <<< 52).toNat =
      (w.toNat / 2 ^ 23 % 2 ^ 8 + 896) * 2 ^ 52 := by
    rw [UInt64.toNat_shiftLeft, UInt64.toNat_add, toNat_exponent, Nat.shiftLeft_eq]
    simp
    omega
  have hlow : ((w.toUInt64 &&& 0x7fffff) <<< 29).toNat = w.toNat % 2 ^ 23 * 2 ^ 29 := by
    rw [UInt64.toNat_shiftLeft, UInt64.toNat_and, UInt32.toNat_toUInt64, Nat.shiftLeft_eq]
    have : w.toNat &&& (0x7fffff : UInt64).toNat = w.toNat % 2 ^ 23 :=
      Nat.and_two_pow_sub_one_eq_mod w.toNat 23
    rw [this]
    simp
    omega
  rw [UInt64.toNat_or, UInt64.toNat_or, hs, hplace, hlow, Nat.or_div_two_pow, Nat.or_div_two_pow,
    Nat.or_mod_two_pow, Nat.or_mod_two_pow]
  exact or_fields _ (by omega) (by omega)

/-- A scalar that is neither small nor large is widened to a double below 128. -/
theorem within_widen {x : Scalar} (hlow : ¬ x.toBits &&& 0x7fffffff < 0x39800000)
    (hhigh : x.toBits &&& 0x7fffffff < 0x42f00000) : Within (widen x) 7 := by
  simp only [UInt32.lt_iff_toNat_lt, toNat_size, UInt32.reduceToNat] at hlow hhigh
  have hexp := toNat_exponent x.toBits
  have hne : x.toBits.toUInt64 >>> 23 &&& 0xff ≠ 0xff := by
    intro h
    rw [h] at hexp
    have hexp : 0xff = x.toBits.toNat / 2 ^ 23 % 2 ^ 8 := hexp
    omega
  have hne' : x.toBits.toUInt64 >>> 23 &&& 0xff ≠ 0 := by
    intro h
    rw [h] at hexp
    have hexp : 0 = x.toBits.toNat / 2 ^ 23 % 2 ^ 8 := hexp
    omega
  have hw := within_ofBits (E := 1029) ((exponent_widen x.toBits).trans_le (by omega)) (by decide)
  unfold widen
  dsimp only
  rw [if_neg hne, if_neg hne']
  exact hw.mono (by decide)

/-! Whole numbers as doubles. -/

theorem within_toFloat {n : UInt64} {k : ℕ} (h : n.toNat ≤ 2 ^ k) (htop : k < 1024) :
    Within n.toFloat k := by
  refine within_of_rounds (normalize_rounds n.toNat 0 .positive) ?_ (by omega) (by omega) rfl
  rw [zpow_zero, mul_one, Int.cast_natCast, Nat.abs_cast, zpow_natCast]
  exact_mod_cast h

theorem Within.abs (h : Within x k) (hlow : -1074 ≤ k) (htop : k < 1024) : Within x.abs k := by
  obtain ⟨⟨s, y, hd⟩, hsize⟩ := h
  have habs := denotes_abs hd
  refine within_of_rounds (Number.rounds ⟨_, y, habs⟩) ?_ hlow htop rfl
  rw [hd.value, abs_signed] at hsize
  rwa [habs.value, abs_signed]

/-- A number is cut off to a whole one that is no larger. -/
theorem toNat_roundToInt_le (s : Sign) (m : ℕ) (e : ℤ) :
    ((roundToInt s m e).toNat : ℝ) ≤ m * 2 ^ e := by
  have hvalue := decreaseExponent_value m e 0
  have hle : (decreaseExponent m e 0).2 ≤ 0 := by
    simp only [decreaseExponent]
    omega
  have hnn : (0 : ℝ) ≤ m * 2 ^ e := mul_nonneg (Nat.cast_nonneg _) (two_zpow_pos e).le
  unfold roundToInt shiftToExponent
  dsimp only
  generalize decreaseExponent m e 0 = d at hvalue hle ⊢
  have hloc := ((locates_exact d.1).shiftRight (0 - d.2).toNat).bounds.1
  have hshift : (d.1 : ℝ) / 2 ^ (0 - d.2).toNat = m * 2 ^ e := by
    rw [← hvalue, ← zpow_natCast, Int.toNat_of_nonneg (by omega), zero_sub, zpow_neg,
      div_inv_eq_mul]
  rw [hshift] at hloc
  cases s
  · refine le_trans ?_ hnn
    simp [Sign.apply]
  · simpa [Sign.apply] using hloc

theorem toNat_toInt_le {s : Sign} {z : ℝ} {u : UnpackedFloat} (h : Denotes .binary64 s z u)
    (low high : ℤ) : ((u.toInt low high).toNat : ℝ) ≤ z := by
  cases h with
  | zero hz => simp [toInt, hz]
  | finite hlt hmin hc hz => exact (toNat_roundToInt_le s _ _).trans hz.ge

theorem toNat_ofNatClamp_le (n : ℕ) : (UInt64.ofNatClamp n).toNat ≤ n := by
  unfold UInt64.ofNatClamp
  split
  · exact le_rfl
  · rename_i h
    exact (Nat.sub_le ..).trans (not_lt.mp h)

theorem Within.toUInt64 {k : ℕ} (h : Within x k) : x.toUInt64.toNat ≤ 2 ^ k := by
  obtain ⟨⟨s, y, hd⟩, hsize⟩ := h
  refine (toNat_ofNatClamp_le _).trans ?_
  rw [hd.value, abs_signed, abs_of_nonneg hd.nonneg, zpow_natCast] at hsize
  exact_mod_cast (toNat_toInt_le hd _ _).trans hsize

/-! Reduction. -/

theorem within_literal {w : UInt64} {E : ℕ} (k : ℤ) (hw : w.toNat / 2 ^ 52 % 2 ^ 11 ≤ E)
    (hE : E < 2047) (hk : (E : ℤ) - 1022 ≤ k) : Within (Float.ofBits w) k :=
  (within_ofBits hw hE).mono hk

theorem within_one : Within 1 1 := by
  have h : (1 : Float) = Float.ofBits 0x3ff0000000000000 := by decide +kernel
  rw [h]
  exact within_ofBits (E := 1023) (by decide) (by decide)

theorem within_ite {p : Prop} [Decidable p] (hx : Within x k) (hy : Within y k) :
    Within (if p then x else y) k := by
  split
  · exact hx
  · exact hy

theorem within_natAbs {n : ℤ} {k : ℕ} (h : n.natAbs ≤ 2 ^ k) (hk : k < 1024) :
    Within n.natAbs.toUInt64.toFloat k := by
  refine within_toFloat ?_ hk
  refine le_trans ?_ h
  exact UInt64.toNat_ofNat'.trans_le (Nat.mod_le ..)

theorem within_reduceSmall (h : Within x 7) : Within (reduceSmall x).rest 10 := by
  have hscaled : Within (x * Float.ofBits 0x41645f306dc9c883) 31 :=
    h.mul (within_literal (E := 1046) 24 (by decide) (by decide) (by decide)) (by decide)
      (by decide)
  have hsize := (hscaled.abs (by decide) (by decide)).toUInt64 (k := 31)
  unfold reduceSmall
  dsimp only
  -- The number of quarter turns is small, since that of parts of a turn is.
  generalize hn : ((if x * Float.ofBits 0x41645f306dc9c883 < 0 then
    -((x * Float.ofBits 0x41645f306dc9c883).abs.toUInt64.toNat : ℤ) else
    (x * Float.ofBits 0x41645f306dc9c883).abs.toUInt64.toNat) + 0x800000) / 0x1000000 = n
  have hturns : n.natAbs ≤ 2 ^ 8 := by
    split at hn <;> omega
  have hw := within_natAbs hturns (by decide)
  have hquarter := within_literal (w := 0x3ff921fb54442d18) (E := 1023) 1 (by decide) (by decide)
    (by decide)
  exact h.sub
    ((within_ite (hw.neg (by decide) (by decide)) hw).mul hquarter (by decide) (by decide))
    (by decide) (by decide) (by decide) (by decide)

theorem within_doubleOfWord (w : UInt64) : Within (doubleOfWord w) 64 := by
  have h (w : UInt64) : Within w.toFloat 64 := within_toFloat (k := 64) w.toNat_lt.le (by decide)
  exact within_ite (h w) ((h _).neg (by decide) (by decide))

theorem within_reduceLarge (w : UInt32) : Within (reduceLarge w).rest 10 := by
  have hunit := within_literal (w := 0x3c1921fb54442d18) (E := 961) (-61) (by decide) (by decide)
    (by decide)
  exact ((within_doubleOfWord _).mul hunit (by decide) (by decide)).mono (by decide)

/-! Polynomials. -/

theorem within_sinePolynomial {x2 : Float} (h : Within x 10) (h2 : Within x2 20) :
    Within (sinePolynomial x x2) 60 := by
  have h3 : Within (x * x2) 30 := h.mul h2 (by decide) (by decide)
  have hs : Within (Float.ofBits 0x3f81107605230bc4 + x2 * Float.ofBits 0xbf2994eb3774cf24) 9 :=
    (within_literal (E := 1016) 8 (by decide) (by decide) (by decide)).add
      (h2.mul (within_literal (E := 1010) (-12) (by decide) (by decide) (by decide)) (by decide)
        (by decide)) (by decide) (by decide) (by decide) (by decide)
  have hcubic := h3.mul (within_literal (w := 0xbfc555545995a603) (E := 1020) (-2) (by decide)
    (by decide) (by decide)) (by decide) (by decide)
  have hquintic := (h3.mul h2 (by decide) (by decide)).mul hs (by decide) (by decide)
  exact (h.add (l := 29) hcubic (by decide) (by decide) (by decide) (by decide)).add hquintic
    (by decide) (by decide) (by decide) (by decide)

theorem within_cosinePolynomial {x2 : Float} (h2 : Within x2 20) :
    Within (cosinePolynomial x2) 67 := by
  have h4 : Within (x2 * x2) 40 := h2.mul h2 (by decide) (by decide)
  have hc2 : Within (Float.ofBits 0xbf56c087e89a359d + x2 * Float.ofBits 0x3ef99343027bf8c3) 6 :=
    (within_literal (E := 1013) (-9) (by decide) (by decide) (by decide)).add
      (h2.mul (within_literal (E := 1007) (-15) (by decide) (by decide) (by decide)) (by decide)
        (by decide)) (by decide) (by decide) (by decide) (by decide)
  have hc1 : Within (1 + x2 * Float.ofBits 0xbfdffffffd0c621c) 20 :=
    within_one.add (h2.mul (within_literal (E := 1021) (-1) (by decide) (by decide) (by decide))
      (by decide) (by decide)) (by decide) (by decide) (by decide) (by decide)
  have hquartic := h4.mul (within_literal (w := 0x3fa55553e1068f19) (E := 1018) (-4) (by decide)
    (by decide) (by decide)) (by decide) (by decide)
  have hlast := (h4.mul h2 (by decide) (by decide)).mul hc2 (by decide) (by decide)
  exact (hc1.add (l := 37) hquartic (by decide) (by decide) (by decide) (by decide)).add hlast
    (by decide) (by decide) (by decide) (by decide)

theorem within_sineOfReduced {rest : Float} (n : ℕ) (h : Within rest 10) :
    Within (sineOfReduced n rest) 100 := by
  have h2 : Within (rest * rest) 20 := h.mul h (by decide) (by decide)
  unfold sineOfReduced
  split
  · exact (within_sinePolynomial h h2).mono (by decide)
  · exact (within_cosinePolynomial h2).mono (by decide)
  · exact (within_sinePolynomial (h.neg (by decide) (by decide)) h2).mono (by decide)
  · exact ((within_cosinePolynomial h2).neg (by decide) (by decide)).mono (by decide)

/-! Sine and cosine. -/

/-- The sine of an angle may be no number, but it is never infinite. -/
theorem isInf_sin (x : Scalar) : x.sin.isInf = false := by
  unfold sin
  dsimp only
  split
  · rename_i hsmall
    exact isInf_of_isFinite (isFinite_of_size (UInt32.lt_trans hsmall (by decide)))
  · rename_i hlow
    split
    · rename_i hhigh
      have hw := within_widen hlow (UInt32.lt_trans hhigh (by decide))
      have h2 := hw.mul hw (by decide) (by decide)
      exact isInf_of_isFinite ((within_sinePolynomial (hw.mono (by decide))
        (h2.mono (by decide))).mono (by decide)).narrow
    · split
      · rename_i hhigh
        have hw := within_widen hlow hhigh
        exact isInf_of_isFinite (within_sineOfReduced _ (within_reduceSmall hw)).narrow
      · split
        · have hs := within_sineOfReduced (reduceLarge (x.toBits &&& 0x7fffffff)).quarters
            (within_reduceLarge (x.toBits &&& 0x7fffffff))
          exact isInf_of_isFinite (within_ite (hs.neg (by decide) (by decide)) hs).narrow
        · decide +kernel

theorem isInf_cos (x : Scalar) : x.cos.isInf = false := by
  unfold cos
  dsimp only
  split
  · decide +kernel
  · rename_i hlow
    split
    · rename_i hhigh
      have hw := within_widen hlow (UInt32.lt_trans hhigh (by decide))
      have h2 := hw.mul hw (by decide) (by decide)
      exact isInf_of_isFinite ((within_cosinePolynomial (h2.mono (by decide))).mono
        (by decide)).narrow
    · split
      · rename_i hhigh
        have hw := within_widen hlow hhigh
        exact isInf_of_isFinite (within_sineOfReduced _ (within_reduceSmall hw)).narrow
      · split
        · exact isInf_of_isFinite (within_sineOfReduced _ (within_reduceLarge _)).narrow
        · decide +kernel

end Rally.Scalar
