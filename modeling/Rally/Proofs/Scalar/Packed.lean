import Rally.Proofs.Scalar.Unpacked

/-! Numbers packed into bits. A number that is not too large for the format is unpacked as it was,
and one that is too large as an infinity. -/
namespace Rally.Rounding

open Float.Model UnpackedFloat

variable {spec : Format} {m : ℕ} {e : ℤ} {s : Sign} {x y : ℝ} {u v : UnpackedFloat}

/-- The numbers of the format are below two to this power. -/
def maxExponent (spec : Format) : ℤ := 2 ^ (spec.exponentBits - 1)

theorem unpackSign_packComponents {exponent : BitVec spec.exponentBits}
    {mantissa : BitVec spec.mantissaBitsWithoutImplicit} :
    Sign.ofBitVec (unpackSign (packComponents spec s exponent mantissa)) = s := by
  have h : unpackSign (packComponents spec s exponent mantissa) = s.toBitVec := by
    ext i hi
    obtain rfl : i = 0 := by omega
    simp [unpackSign, packComponents, BitVec.getLsbD_eq_getElem, BitVec.getLsbD_append,
      BitVec.getElem_append]
  rw [h]
  cases s <;> rfl

theorem unpack_components (exponent : BitVec spec.exponentBits)
    (mantissa : BitVec spec.mantissaBitsWithoutImplicit) :
    unpack spec (packComponents spec s exponent mantissa) =
      if exponent = -1#_ then if mantissa = 0#_ then .infinity s else .notANumber
      else if exponent = 0#_ then
        if h : mantissa = 0#_ then .zero s
        else .finite s mantissa.toNat
          ((exponent.toNat : ℤ) - (spec.exponentBias + spec.mantissaBitsWithoutImplicit) + 1)
          (by simpa [BitVec.toNat_pos, BitVec.pos_iff_ne_zero])
      else .finite s (1#1 ++ mantissa).toNat
        ((exponent.toNat : ℤ) - (spec.exponentBias + spec.mantissaBitsWithoutImplicit))
        (by simp) := by
  simp only [UnpackedFloat.unpack, unpackMantissa_packComponents, unpackExponent_packComponents,
    unpackSign_packComponents]

theorem toNat_neg_one (spec : Format) :
    (-1#(spec.exponentBits)).toNat = 2 ^ spec.exponentBits - 1 := by
  rw [BitVec.neg_one_eq_allOnes, BitVec.toNat_allOnes]

theorem one_lt_two_pow_exponentBits (spec : Format) : 1 < 2 ^ spec.exponentBits :=
  Nat.one_lt_two_pow spec.he.ne'

theorem zero_ne_neg_one (spec : Format) : (0#(spec.exponentBits)) ≠ -1#(spec.exponentBits) := by
  intro h
  have h := congrArg BitVec.toNat h
  have hlt := one_lt_two_pow_exponentBits spec
  rw [toNat_neg_one, BitVec.toNat_ofNat, Nat.zero_mod] at h
  omega

theorem unpack_packedZero (s : Sign) : unpack spec (packedZero spec s) = .zero s := by
  rw [packedZero, unpack_components]
  exact (if_neg (zero_ne_neg_one spec)).trans rfl

theorem unpack_packedNaN : unpack spec (packedNaN spec) = .notANumber := by
  have hne : (1#(spec.mantissaBitsWithoutImplicit)) <<<
      (spec.mantissaBitsWithoutImplicit - 1) ≠ 0#_ := by
    intro h
    have h := congrArg BitVec.toNat h
    have hm := spec.hm
    rw [BitVec.toNat_shiftLeft, BitVec.toNat_ofNat, BitVec.toNat_ofNat, Nat.zero_mod,
      Nat.mod_eq_of_lt (Nat.one_lt_two_pow hm.ne'), Nat.one_shiftLeft,
      Nat.mod_eq_of_lt (Nat.pow_lt_pow_right one_lt_two (by omega))] at h
    exact absurd h (pow_ne_zero _ two_ne_zero)
  rw [packedNaN, unpack_components, if_pos rfl, if_neg hne]

theorem toNat_append_one {w : ℕ} (v : BitVec w) : (1#1 ++ v).toNat = 2 ^ w + v.toNat := by
  rw [BitVec.toNat_append, ← Nat.shiftLeft_add_eq_or_of_lt v.isLt, Nat.shiftLeft_eq]
  simp

theorem exponentBias_eq (spec : Format) : (spec.exponentBias : ℤ) = maxExponent spec - 1 := by
  have hpos : 1 ≤ 2 ^ (spec.exponentBits - 1) := Nat.one_le_two_pow
  rw [Format.exponentBias, maxExponent, Nat.cast_sub hpos]
  push_cast
  rfl

theorem two_pow_exponentBits (spec : Format) :
    ((2 ^ spec.exponentBits : ℕ) : ℤ) = 2 * maxExponent spec := by
  have he := spec.he
  conv_lhs => rw [← Nat.sub_add_cancel he]
  rw [pow_succ, maxExponent]
  push_cast
  ring

theorem minExponent_eq (spec : Format) :
    spec.minExponent = 2 - maxExponent spec - spec.mantissaBitsWithoutImplicit := by
  rw [Format.minExponent, Format.mantissaBits, maxExponent]
  push_cast
  ring

theorem two_le_maxExponent (h : 2 ≤ spec.exponentBits) : 2 ≤ maxExponent spec := by
  have hpow : (2 : ℤ) ^ 1 ≤ 2 ^ (spec.exponentBits - 1) :=
    pow_le_pow_right₀ one_le_two (by omega)
  exact hpow

/-- A mantissa of full length keeps all but its first bit. -/
theorem unpack_normal {n : ℕ} {hm : 0 < m} (hn : n + 1 < 2 ^ spec.exponentBits) (hpos : 0 < n)
    (hlow : 2 ^ spec.mantissaBitsWithoutImplicit ≤ m)
    (hhigh : m < 2 ^ (1 + spec.mantissaBitsWithoutImplicit))
    (he : e = n - (spec.exponentBias + spec.mantissaBitsWithoutImplicit)) :
    UnpackedFloat.unpack spec (packComponents spec s (BitVec.ofNat _ n) (BitVec.ofNat _ m)) =
      .finite s m e hm := by
  have hto : (BitVec.ofNat spec.exponentBits n).toNat = n := by
    rw [BitVec.toNat_ofNat, Nat.mod_eq_of_lt (by omega)]
  have hne : BitVec.ofNat spec.exponentBits n ≠ -1#_ := by
    intro h
    have h := congrArg BitVec.toNat h
    rw [hto, toNat_neg_one] at h
    omega
  have hne' : BitVec.ofNat spec.exponentBits n ≠ 0#_ := by
    intro h
    have h := congrArg BitVec.toNat h
    rw [hto, BitVec.toNat_ofNat, Nat.zero_mod] at h
    omega
  have hmant : (1#1 ++ BitVec.ofNat spec.mantissaBitsWithoutImplicit m).toNat = m := by
    rw [toNat_append_one, BitVec.toNat_ofNat, Nat.mod_eq_sub_mod hlow, Nat.mod_eq_of_lt]
    · omega
    · rw [pow_add, pow_one] at hhigh
      omega
  rw [unpack_components, if_neg hne, if_neg hne']
  simp only [hmant, hto, he]

/-- A shorter mantissa is kept as it is, with the least exponent. -/
theorem unpack_subnormal {hm : 0 < m} (hlt : m < 2 ^ spec.mantissaBitsWithoutImplicit) :
    UnpackedFloat.unpack spec (packComponents spec s 0#_ (BitVec.ofNat _ m)) =
      .finite s m spec.minExponent hm := by
  have hto : (BitVec.ofNat spec.mantissaBitsWithoutImplicit m).toNat = m := by
    rw [BitVec.toNat_ofNat, Nat.mod_eq_of_lt hlt]
  have hne : BitVec.ofNat spec.mantissaBitsWithoutImplicit m ≠ 0#_ := by
    intro h
    have h := congrArg BitVec.toNat h
    rw [hto, BitVec.toNat_ofNat, Nat.zero_mod] at h
    omega
  have hexp : ((0#(spec.exponentBits)).toNat : ℤ) -
      (spec.exponentBias + spec.mantissaBitsWithoutImplicit) + 1 = spec.minExponent := by
    rw [minExponent_eq, exponentBias_eq, BitVec.toNat_ofNat, Nat.zero_mod]
    push_cast
    ring
  rw [unpack_components, if_neg (zero_ne_neg_one spec), if_pos rfl, dif_neg hne]
  simp only [hto, hexp]

theorem log2_eq_iff (hm : 0 < m) {k : ℕ} : m.log2 = k ↔ 2 ^ k ≤ m ∧ m < 2 ^ (k + 1) :=
  Nat.log2_eq_iff hm.ne'

/-- A number that is not too large is packed without a change. -/
theorem Denotes.unpack_pack (h : Denotes spec s y u) (hbits : 2 ≤ spec.exponentBits)
    (hy : y < 2 ^ maxExponent spec) :
    UnpackedFloat.unpack spec (UnpackedFloat.pack spec u) = u := by
  cases h with
  | zero hz => exact unpack_packedZero s
  | @finite m e hm hlt hmin hc hv =>
    have hbias := exponentBias_eq spec
    have hpow := two_pow_exponentBits spec
    have hmin' := minExponent_eq spec
    have htop := two_le_maxExponent hbits
    have hsum : e + m.log2 < maxExponent spec := by
      have hle : (2 : ℝ) ^ (e + (m.log2 : ℤ)) < 2 ^ maxExponent spec := by
        rw [zpow_add₀ two_ne_zero, mul_comm]
        rw [hv] at hy
        exact (mul_le_mul_of_nonneg_right (two_pow_log2_le hm) (two_zpow_pos e).le).trans_lt hy
      exact (zpow_lt_zpow_iff_right₀ one_lt_two).mp hle
    unfold Format.mantissaBits at hlt hc
    rw [Nat.add_sub_cancel_left] at hc
    simp only [UnpackedFloat.pack]
    by_cases hlow : 2 ^ spec.mantissaBitsWithoutImplicit ≤ m
    · have hlog : m.log2 = spec.mantissaBitsWithoutImplicit :=
        (log2_eq_iff hm).mpr ⟨hlow, by rwa [add_comm] at hlt⟩
      rw [if_neg (by omega), if_pos (by rw [hlog, Format.mantissaBits, add_comm])]
      exact unpack_normal (by omega) (by omega) hlow hlt (by omega)
    · obtain rfl : e = spec.minExponent := hc.resolve_right hlow
      have hlog : m.log2 < spec.mantissaBitsWithoutImplicit :=
        (Nat.log2_lt hm.ne').mpr (not_le.mp hlow)
      rw [if_neg (by omega), if_neg (by unfold Format.mantissaBits; omega)]
      exact unpack_subnormal (not_le.mp hlow)

theorem unpack_packedInfinity (s : Sign) : unpack spec (packedInfinity spec s) = .infinity s := by
  rw [packedInfinity, unpack_components, if_pos rfl]
  exact if_pos rfl

/-! What is unpacked. -/

theorem mul_two_zpow_lt {k : ℕ} {top : ℤ} (hlt : m < 2 ^ k) (htop : e + k ≤ top) :
    (m : ℝ) * 2 ^ e < 2 ^ top := by
  have hlt : (m : ℝ) < 2 ^ (k : ℤ) := by
    rw [zpow_natCast]
    exact_mod_cast hlt
  refine (mul_lt_mul_of_pos_right hlt (two_zpow_pos e)).trans_le ?_
  rw [← zpow_add₀ two_ne_zero]
  exact zpow_le_zpow_right₀ one_le_two (by omega)

theorem two_zpow_le_mul {k : ℕ} {low : ℤ} (hle : 2 ^ k ≤ m) (hlow : low ≤ e + k) :
    2 ^ low ≤ (m : ℝ) * 2 ^ e := by
  have hle : (2 : ℝ) ^ (k : ℤ) ≤ m := by
    rw [zpow_natCast]
    exact_mod_cast hle
  refine le_trans ?_ (mul_le_mul_of_nonneg_right hle (two_zpow_pos e).le)
  rw [← zpow_add₀ two_ne_zero]
  exact zpow_le_zpow_right₀ one_le_two (by omega)

/-- A number that is too large is packed as an infinity. -/
theorem Denotes.unpack_pack_of_le (h : Denotes spec s y u) (hy : 2 ^ maxExponent spec ≤ y) :
    UnpackedFloat.unpack spec (UnpackedFloat.pack spec u) = .infinity s := by
  cases h with
  | zero hz =>
    rw [hz] at hy
    exact absurd hy (not_le.mpr (two_zpow_pos _))
  | @finite m e hm hlt hmin hc hv =>
    have hbias := exponentBias_eq spec
    have hpow := two_pow_exponentBits spec
    have hbits : spec.mantissaBits = 1 + spec.mantissaBitsWithoutImplicit := rfl
    have hexp : maxExponent spec < e + spec.mantissaBits := by
      by_contra hle
      exact absurd (hv ▸ hy) (not_le.mpr (mul_two_zpow_lt hlt (not_lt.mp hle)))
    simp only [UnpackedFloat.pack]
    rw [if_pos (by omega)]
    exact unpack_packedInfinity s

/-- Bits without the largest exponent are those of a number of about the size that the exponent
says, with the sign of the first bit. -/
theorem denotes_unpack {b : BitVec spec.numBits}
    (h : (unpackExponent b).toNat + 1 < 2 ^ spec.exponentBits) :
    ∃ y, Denotes spec (Sign.ofBitVec (unpackSign b)) y (UnpackedFloat.unpack spec b) ∧
      y < 2 ^ ((unpackExponent b).toNat + 2 - maxExponent spec) ∧
      (0 < (unpackExponent b).toNat →
        2 ^ ((unpackExponent b).toNat + 1 - maxExponent spec) ≤ y) := by
  have hbias := exponentBias_eq spec
  have hmin := minExponent_eq spec
  have hman := (unpackMantissa b).isLt
  have hbits : spec.mantissaBits = 1 + spec.mantissaBitsWithoutImplicit := rfl
  have hne : unpackExponent b ≠ -1#_ := by
    intro he
    have := (congrArg BitVec.toNat he).trans (toNat_neg_one spec)
    omega
  unfold UnpackedFloat.unpack
  dsimp only
  rw [if_neg hne]
  split
  · rename_i hz
    have hzero : (unpackExponent b).toNat = 0 := by rw [hz, BitVec.toNat_ofNat, Nat.zero_mod]
    rw [hzero]
    split
    · exact ⟨0, .zero rfl, two_zpow_pos _, fun h => absurd h (lt_irrefl 0)⟩
    · refine ⟨_, .finite ?_ (by omega) (.inl (by omega)) rfl, mul_two_zpow_lt hman (by omega),
        fun h => absurd h (lt_irrefl 0)⟩
      exact hman.trans_le (Nat.pow_le_pow_right two_pos (by omega))
  · rename_i hz
    have hpos : (unpackExponent b).toNat ≠ 0 := fun h =>
      hz (BitVec.eq_of_toNat_eq (by simpa using h))
    have happ := toNat_append_one (unpackMantissa b)
    have hlow : 2 ^ spec.mantissaBitsWithoutImplicit ≤ (1#1 ++ unpackMantissa b).toNat := by omega
    have hhigh : (1#1 ++ unpackMantissa b).toNat < 2 ^ spec.mantissaBits := by
      rw [hbits, pow_add]
      omega
    refine ⟨_, .finite hhigh (by omega) (.inr ?_) rfl, mul_two_zpow_lt hhigh (by omega),
      fun _ => two_zpow_le_mul hlow (by omega)⟩
    rw [hbits, Nat.add_sub_cancel_left]
    exact hlow

/-- The sign of a number is that of its first bit. -/
theorem sign_of_denotes {b : BitVec spec.numBits}
    (h : Denotes spec s y (UnpackedFloat.unpack spec b)) :
    s = Sign.ofBitVec (unpackSign b) := by
  unfold UnpackedFloat.unpack at h
  dsimp only at h
  split at h
  · split at h <;> cases h
  · split at h
    · split at h <;> cases h <;> rfl
    · cases h
      rfl

theorem sign_of_infinity {b : BitVec spec.numBits} (h : UnpackedFloat.unpack spec b = .infinity s) :
    s = Sign.ofBitVec (unpackSign b) := by
  unfold UnpackedFloat.unpack at h
  dsimp only at h
  split at h
  · split at h <;> cases h
    rfl
  · split at h
    · split at h <;> cases h
    · cases h

/-- What is unpacked is a number that is not too large, or no number. -/
theorem unpack_cases (b : BitVec spec.numBits) :
    (∃ s, UnpackedFloat.unpack spec b = .infinity s) ∨
      UnpackedFloat.unpack spec b = .notANumber ∨
      ∃ s y, Denotes spec s y (UnpackedFloat.unpack spec b) ∧ y < 2 ^ maxExponent spec := by
  have hpow := two_pow_exponentBits spec
  have hexp := (unpackExponent b).isLt
  by_cases htop : unpackExponent b = -1#_
  · unfold UnpackedFloat.unpack
    dsimp only
    rw [if_pos htop]
    split
    · exact .inl ⟨_, rfl⟩
    · exact .inr (.inl rfl)
  · have hne : (unpackExponent b).toNat ≠ 2 ^ spec.exponentBits - 1 := fun h =>
      htop (BitVec.eq_of_toNat_eq (h.trans (toNat_neg_one spec).symm))
    obtain ⟨y, hd, hlt, -⟩ := denotes_unpack (b := b) (by omega)
    refine .inr (.inr ⟨_, y, hd, hlt.trans_le ?_⟩)
    exact zpow_le_zpow_right₀ one_le_two (by omega)

end Rally.Rounding
