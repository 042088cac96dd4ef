import Mathlib

/-! Rounding of real numbers to a binary format: to the nearest number of the format, a tie to the
even one. There is no largest number here; what is too large for a format is treated where numbers
are packed. -/
namespace Rally.Rounding

open Float.Model UnpackedFloat

/-! The nearest integer. -/

/-- The integer nearest to `y`, a tie to the even one. -/
noncomputable def nearestInt (y : ℝ) : ℤ :=
  if Int.fract y < 1 / 2 then ⌊y⌋
  else if 1 / 2 < Int.fract y then ⌊y⌋ + 1
  else if Even ⌊y⌋ then ⌊y⌋
  else ⌊y⌋ + 1

/-- `n` is less than half a unit from `y`, or just half a unit and even. -/
def Nearest (n : ℤ) (y : ℝ) : Prop := |n - y| < 1 / 2 ∨ |n - y| = 1 / 2 ∧ Even n

variable {x y : ℝ} {m n : ℤ}

theorem Nearest.dist_le (h : Nearest n y) : |n - y| ≤ 1 / 2 :=
  h.elim le_of_lt fun h => h.1.le

theorem nearest_nearestInt (y : ℝ) : Nearest (nearestInt y) y := by
  have hf : Int.fract y = y - ⌊y⌋ := rfl
  have h0 := Int.fract_nonneg y
  have h1 := Int.fract_lt_one y
  unfold nearestInt
  split
  · refine .inl ?_
    rw [abs_sub_comm, abs_of_nonneg] <;> linarith
  · split
    · refine .inl ?_
      push_cast
      rw [abs_of_nonneg] <;> linarith
    · have he : Int.fract y = 1 / 2 := by linarith
      split
      · rename_i heven
        refine .inr ⟨?_, heven⟩
        rw [abs_sub_comm, abs_of_nonneg] <;> linarith
      · rename_i hodd
        refine .inr ⟨?_, Int.even_add_one.mpr hodd⟩
        push_cast
        rw [abs_of_nonneg] <;> linarith

theorem Nearest.unique (hm : Nearest m y) (hn : Nearest n y) : m = n := by
  have hd : |((m - n : ℤ) : ℝ)| ≤ |m - y| + |n - y| := by
    push_cast
    rw [abs_sub_comm (n : ℝ) y]
    exact abs_sub_le _ _ _
  have hle : |m - n| ≤ 1 := by
    have h := hm.dist_le
    have h' := hn.dist_le
    have : ((|m - n| : ℤ) : ℝ) ≤ 1 := by
      push_cast at hd ⊢
      linarith
    exact_mod_cast this
  by_contra hne
  -- Two integers next to each other are not both even.
  have hone : |m - n| = 1 := le_antisymm hle (Int.one_le_abs (sub_ne_zero.mpr hne))
  have hone' : |((m - n : ℤ) : ℝ)| = 1 := by exact_mod_cast hone
  rw [hone'] at hd
  rcases hm with hm | ⟨hm, hme⟩
  · have := hn.dist_le
    linarith
  · rcases hn with hn | ⟨-, hne'⟩
    · linarith
    · have heven : Even (m - n) := hme.sub hne'
      rcases (abs_eq zero_le_one).mp hone with h | h <;> rw [h] at heven <;> revert heven <;> decide

theorem nearestInt_eq (h : Nearest n y) : nearestInt y = n := (nearest_nearestInt y).unique h

theorem abs_nearestInt_sub_le (y : ℝ) : |nearestInt y - y| ≤ 1 / 2 :=
  (nearest_nearestInt y).dist_le

theorem nearestInt_intCast (n : ℤ) : nearestInt n = n := by
  refine nearestInt_eq (.inl ?_)
  simp

theorem nearestInt_neg (y : ℝ) : nearestInt (-y) = -nearestInt y := by
  refine nearestInt_eq ?_
  have hd : |((-nearestInt y : ℤ) : ℝ) - -y| = |nearestInt y - y| := by
    push_cast
    rw [neg_sub_neg, abs_sub_comm]
  rw [Nearest, hd, even_neg]
  exact nearest_nearestInt y

theorem nearestInt_mono (h : x ≤ y) : nearestInt x ≤ nearestInt y := by
  by_contra! hlt
  have hx := (abs_le.mp (abs_nearestInt_sub_le x)).2
  have hy := (abs_le.mp (abs_nearestInt_sub_le y)).1
  have hstep : (nearestInt y : ℝ) + 1 ≤ nearestInt x := by exact_mod_cast hlt
  have heq : x = y := by linarith
  rw [heq] at hlt
  exact lt_irrefl _ hlt

theorem nearestInt_nonneg (h : 0 ≤ y) : 0 ≤ nearestInt y := by
  have hm := nearestInt_mono h
  rwa [← Int.cast_zero, nearestInt_intCast] at hm

theorem nearestInt_pos (h : 1 / 2 < y) : 0 < nearestInt y := by
  have hy := (abs_le.mp (abs_nearestInt_sub_le y)).1
  have : (0 : ℝ) < nearestInt y := by linarith
  exact_mod_cast this

/-! Numbers of a format. -/

variable {spec : Format} {e k : ℤ}

theorem two_zpow_pos (e : ℤ) : (0 : ℝ) < 2 ^ e := zpow_pos two_pos e

/-- The exponent of the last place that a number of the size of `x` has. -/
noncomputable def place (spec : Format) (x : ℝ) : ℤ :=
  max (Int.log 2 |x| + 1 - spec.mantissaBits) spec.minExponent

/-- The number of the format that is nearest to `x`. -/
noncomputable def rounded (spec : Format) (x : ℝ) : ℝ :=
  nearestInt (x / 2 ^ place spec x) * 2 ^ place spec x

/-- `x` is a number of the format. -/
def Representable (spec : Format) (x : ℝ) : Prop :=
  ∃ (m e : ℤ), |m| ≤ 2 ^ spec.mantissaBits ∧ spec.minExponent ≤ e ∧ x = m * 2 ^ e

theorem place_neg (x : ℝ) : place spec (-x) = place spec x := by
  rw [place, place, abs_neg]

theorem rounded_neg (x : ℝ) : rounded spec (-x) = -rounded spec x := by
  rw [rounded, rounded, place_neg, neg_div, nearestInt_neg]
  push_cast
  ring

theorem rounded_zero : rounded spec 0 = 0 := by
  have h := nearestInt_intCast 0
  rw [Int.cast_zero] at h
  rw [rounded, zero_div, h, Int.cast_zero, zero_mul]

/-- A number is shorter than its place and as many bits as the format has. -/
theorem abs_lt_place (x : ℝ) : |x| < 2 ^ (spec.mantissaBits : ℤ) * 2 ^ place spec x := by
  rw [← zpow_add₀ two_ne_zero]
  refine lt_of_lt_of_le (Int.lt_zpow_succ_log_self one_lt_two _) ?_
  refine zpow_le_zpow_right₀ one_le_two ?_
  have := le_max_left (Int.log 2 |x| + 1 - spec.mantissaBits) spec.minExponent
  change _ ≤ _ + place spec x
  unfold place
  omega

theorem place_mono (spec : Format) (hx : 0 < x) (h : x ≤ y) : place spec x ≤ place spec y := by
  have hlog : Int.log 2 |x| ≤ Int.log 2 |y| := by
    refine Int.log_mono_right (abs_pos.mpr hx.ne') ?_
    rwa [abs_of_pos hx, abs_of_pos (hx.trans_le h)]
  exact max_le_max (by omega) le_rfl

theorem minExponent_le_place (spec : Format) (x : ℝ) : spec.minExponent ≤ place spec x :=
  le_max_right _ _

/-- The places of a number of the format end at its own last place or before. -/
theorem place_le_of_lt (he : spec.minExponent ≤ e) (h : |x| < 2 ^ (spec.mantissaBits : ℤ) * 2 ^ e) :
    place spec x ≤ e ∨ x = 0 := by
  rcases eq_or_ne x 0 with hx | hx
  · exact .inr hx
  · rw [← zpow_add₀ two_ne_zero] at h
    have hlog : Int.log 2 |x| < spec.mantissaBits + e :=
      (Int.lt_zpow_iff_log_lt one_lt_two (abs_pos.mpr hx)).mp h
    exact .inl (max_le (by omega) he)

/-- A whole number of places of the format. -/
theorem rounded_eq_of_mul (h : ∃ n : ℤ, x = n * 2 ^ place spec x) : rounded spec x = x := by
  obtain ⟨n, hn⟩ := h
  have hq : x / 2 ^ place spec x = n := by
    rw [div_eq_iff (two_zpow_pos _).ne']
    exact hn
  rw [rounded, hq, nearestInt_intCast]
  exact hn.symm

theorem exists_mul_of_le (m : ℤ) (h : k ≤ e) : ∃ n : ℤ, (m : ℝ) * 2 ^ e = n * 2 ^ k := by
  refine ⟨m * 2 ^ (e - k).toNat, ?_⟩
  have hsplit : (2 : ℝ) ^ e = 2 ^ (e - k).toNat * 2 ^ k := by
    rw [← zpow_natCast, Int.toNat_of_nonneg (by omega), ← zpow_add₀ two_ne_zero]
    congr 1
    omega
  rw [hsplit]
  push_cast
  ring

theorem one_le_mantissaBits (spec : Format) : 1 ≤ spec.mantissaBits := Nat.le_add_right 1 _

/-- A number of the format is rounded to itself. -/
theorem rounded_eq (h : Representable spec x) : rounded spec x = x := by
  obtain ⟨m, e, hm, he, rfl⟩ := h
  have hle : |(m : ℝ)| ≤ 2 ^ (spec.mantissaBits : ℤ) := by
    rw [zpow_natCast]
    exact_mod_cast hm
  have habs : |(m : ℝ) * 2 ^ e| = |(m : ℝ)| * 2 ^ e := by
    rw [abs_mul, abs_of_pos (two_zpow_pos e)]
  rcases hle.lt_or_eq with hlt | heq
  · have hlt' : |(m : ℝ) * 2 ^ e| < 2 ^ (spec.mantissaBits : ℤ) * 2 ^ e := by
      rw [habs]
      exact mul_lt_mul_of_pos_right hlt (two_zpow_pos e)
    rcases place_le_of_lt he hlt' with hp | hz
    · exact rounded_eq_of_mul (exists_mul_of_le m hp)
    · rw [hz, rounded_zero]
  · -- Such a power of two is short of one place.
    have hbits := one_le_mantissaBits spec
    have hplace : place spec (m * 2 ^ e) = e + 1 := by
      rw [place, habs, heq, ← zpow_add₀ two_ne_zero]
      have hlog : Int.log 2 ((2 : ℝ) ^ ((spec.mantissaBits : ℤ) + e)) = spec.mantissaBits + e :=
        Int.log_zpow one_lt_two _
      rw [hlog]
      omega
    have hm' : |m| = 2 ^ spec.mantissaBits := by
      rw [zpow_natCast] at heq
      exact_mod_cast heq
    obtain ⟨n, hn⟩ : ∃ n : ℤ, m = n * 2 := by
      have heven : (2 : ℤ) ∣ m := by
        rw [← dvd_abs, hm']
        exact dvd_pow_self 2 (by omega)
      obtain ⟨n, hn⟩ := heven
      exact ⟨n, hn.trans (mul_comm ..)⟩
    refine rounded_eq_of_mul ⟨n, ?_⟩
    rw [hplace, hn, zpow_add_one₀ two_ne_zero]
    push_cast
    ring

theorem rounded_nonneg (h : 0 ≤ x) : 0 ≤ rounded spec x := by
  have hq : (0 : ℝ) ≤ nearestInt (x / 2 ^ place spec x) := by
    exact_mod_cast nearestInt_nonneg (div_nonneg h (two_zpow_pos _).le)
  exact mul_nonneg hq (two_zpow_pos _).le

/-- A number above half of the least one is not rounded to zero. -/
theorem rounded_pos (h : 2 ^ (spec.minExponent - 1) < x) : 0 < rounded spec x := by
  have hx : 0 < x := (two_zpow_pos _).trans h
  have hq : 1 / 2 < x / 2 ^ place spec x := by
    rw [lt_div_iff₀ (two_zpow_pos _)]
    rcases max_choice (Int.log 2 |x| + 1 - spec.mantissaBits) spec.minExponent with hp | hp
    · have hbits := one_le_mantissaBits spec
      have hlog : (2 : ℝ) ^ Int.log 2 |x| ≤ |x| :=
        Int.zpow_log_le_self one_lt_two (abs_pos.mpr hx.ne')
      have hle : (2 : ℝ) ^ place spec x ≤ 2 ^ Int.log 2 |x| := by
        refine zpow_le_zpow_right₀ one_le_two ?_
        rw [place, hp]
        omega
      rw [abs_of_pos hx] at hlog hle
      linarith [two_zpow_pos (place spec x)]
    · rw [place, hp]
      rw [zpow_sub_one₀ two_ne_zero] at h
      linarith
  have hn : (0 : ℝ) < nearestInt (x / 2 ^ place spec x) := by exact_mod_cast nearestInt_pos hq
  exact mul_pos hn (two_zpow_pos _)

theorem rounded_le_of_mul (h : x ≤ n * 2 ^ place spec x) :
    rounded spec x ≤ n * 2 ^ place spec x := by
  refine mul_le_mul_of_nonneg_right ?_ (two_zpow_pos _).le
  have hq := nearestInt_mono ((div_le_iff₀ (two_zpow_pos _)).mpr h)
  rw [nearestInt_intCast] at hq
  exact_mod_cast hq

theorem le_rounded_of_mul (h : n * 2 ^ place spec x ≤ x) :
    n * 2 ^ place spec x ≤ rounded spec x := by
  refine mul_le_mul_of_nonneg_right ?_ (two_zpow_pos _).le
  have hq := nearestInt_mono ((le_div_iff₀ (two_zpow_pos _)).mpr h)
  rw [nearestInt_intCast] at hq
  exact_mod_cast hq

theorem rounded_mono_of_pos (hx : 0 < x) (h : x ≤ y) : rounded spec x ≤ rounded spec y := by
  have hy : 0 < y := hx.trans_le h
  have hbits := one_le_mantissaBits spec
  rcases (place_mono spec hx h).lt_or_eq with hlt | heq
  · -- A power of two lies in between, and both numbers have places up to it.
    have hmin := minExponent_le_place spec x
    have hpy : place spec y = Int.log 2 |y| + 1 - spec.mantissaBits := by
      rcases max_choice (Int.log 2 |y| + 1 - spec.mantissaBits) spec.minExponent with hp | hp
      · exact hp
      · unfold place at hlt hmin
        omega
    have hpx : Int.log 2 |x| + 1 - spec.mantissaBits ≤ place spec x := le_max_left _ _
    have hxk : x ≤ 2 ^ Int.log 2 |y| := by
      have hlog : |x| < 2 ^ (Int.log 2 |x| + 1) := Int.lt_zpow_succ_log_self one_lt_two _
      rw [abs_of_pos hx] at hlog
      refine hlog.le.trans (zpow_le_zpow_right₀ one_le_two ?_)
      rw [abs_of_pos hx] at hpx
      omega
    have hyk : (2 : ℝ) ^ Int.log 2 |y| ≤ y := by
      have hlog : (2 : ℝ) ^ Int.log 2 |y| ≤ |y| :=
        Int.zpow_log_le_self one_lt_two (abs_pos.mpr hy.ne')
      rwa [abs_of_pos hy] at hlog ⊢
    obtain ⟨n, hn⟩ := exists_mul_of_le (k := place spec x) (e := Int.log 2 |y|) 1 (by omega)
    obtain ⟨m, hm⟩ := exists_mul_of_le (k := place spec y) (e := Int.log 2 |y|) 1 (by omega)
    rw [Int.cast_one, one_mul] at hn hm
    calc rounded spec x ≤ n * 2 ^ place spec x := rounded_le_of_mul (hn ▸ hxk)
      _ = m * 2 ^ place spec y := hn.symm.trans hm
      _ ≤ rounded spec y := le_rounded_of_mul (hm ▸ hyk)
  · rw [rounded, rounded, heq]
    refine mul_le_mul_of_nonneg_right ?_ (two_zpow_pos _).le
    exact_mod_cast nearestInt_mono (div_le_div_of_nonneg_right h (two_zpow_pos _).le)

theorem rounded_mono (h : x ≤ y) : rounded spec x ≤ rounded spec y := by
  rcases lt_or_ge 0 x with hx | hx
  · exact rounded_mono_of_pos hx h
  · rcases lt_or_ge y 0 with hy | hy
    · have hneg : rounded spec (-y) ≤ rounded spec (-x) :=
        rounded_mono_of_pos (neg_pos.mpr hy) (neg_le_neg h)
      rwa [rounded_neg, rounded_neg, neg_le_neg_iff] at hneg
    · have hx' : 0 ≤ rounded spec (-x) := rounded_nonneg (neg_nonneg.mpr hx)
      rw [rounded_neg, neg_nonneg] at hx'
      exact hx'.trans (rounded_nonneg hy)

theorem rounded_le (h : x ≤ y) (hy : Representable spec y) : rounded spec x ≤ y :=
  (rounded_mono h).trans_eq (rounded_eq hy)

theorem le_rounded (h : y ≤ x) (hy : Representable spec y) : y ≤ rounded spec x :=
  (rounded_eq hy).symm.trans_le (rounded_mono h)

/-- Half a unit of the last place is the most that rounding changes. -/
theorem abs_rounded_sub_le (x : ℝ) : |rounded spec x - x| ≤ 2 ^ place spec x / 2 := by
  have hsplit : rounded spec x - x =
      (nearestInt (x / 2 ^ place spec x) - x / 2 ^ place spec x) * 2 ^ place spec x := by
    rw [rounded, sub_mul, div_mul_cancel₀ _ (two_zpow_pos _).ne']
  rw [hsplit, abs_mul, abs_of_pos (two_zpow_pos _)]
  have := mul_le_mul_of_nonneg_right (abs_nearestInt_sub_le (x / 2 ^ place spec x))
    (two_zpow_pos (place spec x)).le
  linarith

/-- The error is relative to the size, or to that of the least numbers. -/
theorem rounded_error (spec : Format) (x : ℝ) : |rounded spec x - x| ≤
    |x| / 2 ^ spec.mantissaBits + 2 ^ (spec.minExponent - 1) := by
  have hmin := (two_zpow_pos (spec.minExponent - 1)).le
  rcases eq_or_ne x 0 with rfl | hx
  · rw [rounded_zero, sub_zero, abs_zero, zero_div, zero_add]
    exact hmin
  refine (abs_rounded_sub_le x).trans ?_
  have hnn : 0 ≤ |x| / 2 ^ spec.mantissaBits := by positivity
  rcases max_choice (Int.log 2 |x| + 1 - spec.mantissaBits) spec.minExponent with hp | hp
  · have hlog : (2 : ℝ) ^ Int.log 2 |x| ≤ |x| := Int.zpow_log_le_self one_lt_two (abs_pos.mpr hx)
    have hplace : (2 : ℝ) ^ place spec x / 2 = 2 ^ Int.log 2 |x| / 2 ^ spec.mantissaBits := by
      rw [place, hp, zpow_sub₀ two_ne_zero, zpow_add_one₀ two_ne_zero, zpow_natCast]
      ring
    rw [hplace]
    have := div_le_div_of_nonneg_right hlog (pow_pos two_pos spec.mantissaBits).le
    linarith
  · rw [place, hp]
    rw [zpow_sub_one₀ two_ne_zero] at hmin ⊢
    linarith

/-- A number has no more places than the format has bits. -/
theorem abs_nearestInt_le (spec : Format) (x : ℝ) :
    |nearestInt (x / 2 ^ place spec x)| ≤ 2 ^ spec.mantissaBits := by
  have hlt : |x| ≤ 2 ^ (spec.mantissaBits : ℤ) * 2 ^ place spec x := (abs_lt_place x).le
  rw [zpow_natCast] at hlt
  obtain ⟨hlow, hhigh⟩ := abs_le.mp hlt
  have hp := two_zpow_pos (place spec x)
  have hle : nearestInt (x / 2 ^ place spec x) ≤ 2 ^ spec.mantissaBits := by
    have h := nearestInt_mono ((div_le_iff₀ hp).mpr hhigh)
    rwa [← Int.cast_two, ← Int.cast_pow, nearestInt_intCast] at h
  have hge : -2 ^ spec.mantissaBits ≤ nearestInt (x / 2 ^ place spec x) := by
    have h := nearestInt_mono ((le_div_iff₀ hp).mpr ((neg_mul ..).trans_le hlow))
    rwa [← Int.cast_two, ← Int.cast_pow, ← Int.cast_neg, nearestInt_intCast] at h
  exact abs_le.mpr ⟨hge, hle⟩

/-- A positive number has all the places that the format has, but for the least numbers. -/
theorem place_eq_or_le_nearestInt (hx : 0 < x) : place spec x = spec.minExponent ∨
    2 ^ (spec.mantissaBits - 1) ≤ nearestInt (x / 2 ^ place spec x) := by
  rcases max_choice (Int.log 2 |x| + 1 - spec.mantissaBits) spec.minExponent with hp | hp
  · have hbits := one_le_mantissaBits spec
    have hlog : (2 : ℝ) ^ Int.log 2 |x| ≤ |x| :=
      Int.zpow_log_le_self one_lt_two (abs_pos.mpr hx.ne')
    have hexp : Int.log 2 |x| = ((spec.mantissaBits - 1 : ℕ) : ℤ) + place spec x := by
      rw [place, hp]
      omega
    rw [abs_of_pos hx, ← abs_of_pos hx, hexp, zpow_add₀ two_ne_zero, abs_of_pos hx, zpow_natCast,
      ← le_div_iff₀ (two_zpow_pos _)] at hlog
    have h := nearestInt_mono hlog
    rw [← Int.cast_two, ← Int.cast_pow, nearestInt_intCast] at h
    exact .inr h
  · exact .inl hp

/-! What unpacked numbers and mantissas stand for. -/

/-- The real number lies at a mantissa or after it, as the two bits that are left say. -/
def Locates (em : ExtendedMantissa) (y : ℝ) : Prop :=
  match em.roundBit, em.stickyBit with
  | false, false => y = em.mantissa
  | false, true => em.mantissa < y ∧ y < em.mantissa + 1 / 2
  | true, false => y = em.mantissa + 1 / 2
  | true, true => em.mantissa + 1 / 2 < y ∧ y < em.mantissa + 1

/-- A size with a sign. -/
def signed : Sign → ℝ → ℝ
  | .negative, y => -y
  | .positive, y => y

/-- The value of an unpacked number. What is no number has no value, and zero stands for it. -/
noncomputable def value : UnpackedFloat → ℝ
  | .finite s m e _ => signed s (m * 2 ^ e)
  | _ => 0

end Rally.Rounding
