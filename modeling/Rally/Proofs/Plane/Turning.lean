import Rally.Plane
import Rally.Proofs.Scalar.Value

/-! Directions that are mirrored and scaled. In an axis the mirror makes no rounding error, and a
direction that is scaled to a unit keeps the sign of each component. -/
namespace Rally.Vec

open Scalar

/-- The components are finite and have these values. -/
structure Is (v : Vec) (a b : ℝ) : Prop where
  x : v.x.Is a
  y : v.y.Is b

/-- The components of a unit normal along an axis. -/
inductive Axial : ℝ → ℝ → Prop where
  | x (s : ℝ) (hs : s = 1 ∨ s = -1) : Axial s 0
  | y (t : ℝ) (ht : t = 1 ∨ t = -1) : Axial 0 t

variable {v w n : Vec} {a b s t : ℝ}

/-- Along an axis, a product with a normal is exact. -/
theorem Is.dot (hv : v.Is a b) (hn : n.Is s t) (h : Axial s t) : (v.dot n).Is (a * s + b * t) := by
  cases h with
  | x _ hs =>
    rw [mul_zero, add_zero]
    exact (hv.x.mul_sign hn.x hs).add_nothing (hv.y.mul_nothing hn.y)
  | y _ ht =>
    rw [mul_zero, zero_add]
    exact (hv.x.mul_nothing hn.x).nothing_add (hv.y.mul_sign hn.y ht)

theorem abs_mul_sign (hs : s = 1 ∨ s = -1) : |a * s| = |a| := by
  rcases hs with rfl | rfl
  · rw [mul_one]
  · rw [mul_neg_one, abs_neg]

theorem mul_sign_mul_sign (hs : s = 1 ∨ s = -1) : a * s * s = a := by
  rcases hs with rfl | rfl <;> ring

/-- A mirror along an axis turns one component around and leaves the other, without an error. -/
theorem Is.mirror (hv : v.Is a b) (hn : n.Is s t) (h : Axial s t) (ha : |a| ≤ 2 ^ (126 : ℤ))
    (hb : |b| ≤ 2 ^ (126 : ℤ)) :
    (v.mirror n).Is (a - 2 * (a * s + b * t) * s) (b - 2 * (a * s + b * t) * t) := by
  have hdot := hv.dot hn h
  cases h with
  | x _ hs =>
    rw [mul_zero, add_zero] at hdot ⊢
    have htwice := is_two.two_mul hdot ((abs_mul_sign hs).trans_le ha)
    have hx := htwice.mul_sign hn.x hs
    have hmir : a - 2 * (a * s) * s = -a := by
      rw [mul_assoc, mul_sign_mul_sign hs]
      ring
    rw [mul_zero, sub_zero]
    exact ⟨hv.x.sub_exact hx (hmir.symm ▸ hv.x.neg), hv.y.sub_nothing (htwice.mul_nothing hn.y)⟩
  | y _ ht =>
    rw [mul_zero, zero_add] at hdot
    rw [mul_zero, mul_zero, sub_zero, zero_add]
    have htwice := is_two.two_mul hdot ((abs_mul_sign ht).trans_le hb)
    have hy := htwice.mul_sign hn.y ht
    have hmir : b - 2 * (b * t) * t = -b := by
      rw [mul_assoc, mul_sign_mul_sign ht]
      ring
    exact ⟨hv.x.sub_nothing (htwice.mul_nothing hn.x), hv.y.sub_exact hy (hmir.symm ▸ hv.y.neg)⟩

/-- The components are those of a unit vector, up to rounding. -/
def NearUnit (a b : ℝ) : Prop := |a ^ 2 + b ^ 2 - 1| ≤ 1 / 100

theorem NearUnit.abs_left (h : NearUnit a b) : |a| ≤ 2 := by
  have := (abs_le.mp h).2
  refine abs_le_of_sq_le_sq ?_ zero_le_two
  linarith [sq_nonneg b]

theorem NearUnit.swap (h : NearUnit a b) : NearUnit b a := by
  rwa [NearUnit, add_comm]

theorem NearUnit.abs_right (h : NearUnit a b) : |b| ≤ 2 := h.swap.abs_left

theorem sq_le_eight (h : |a| ≤ 2) : |a * a| ≤ 8 := by
  rw [abs_mul]
  exact (mul_le_mul h h (abs_nonneg a) zero_le_two).trans (by norm_num)

theorem abs_sq_sub_sq_le (h : |a - b| ≤ s) (ha : |a| ≤ 4) (hb : |b| ≤ 4) :
    |a ^ 2 - b ^ 2| ≤ 8 * s := by
  have hsum : |a + b| ≤ 8 := (abs_add_le a b).trans (by linarith)
  rw [sq_sub_sq, abs_mul]
  exact mul_le_mul hsum h (abs_nonneg _) (by norm_num)

/-- The length of a direction that is about a unit is close to one. -/
theorem Is.length (hv : v.Is a b) (h : NearUnit a b) :
    ∃ l, v.length.Is l ∧ 0 ≤ l ∧ |l ^ 2 - (a ^ 2 + b ^ 2)| ≤ 1 / 10000 := by
  have ha := sq_le_eight h.abs_left
  have hb := sq_le_eight h.abs_right
  obtain ⟨hna, hna'⟩ := abs_le.mp (rnd_near ha)
  obtain ⟨hnb, hnb'⟩ := abs_le.mp (rnd_near hb)
  obtain ⟨hu, hu'⟩ := abs_le.mp h
  have hsum : |rnd (a * a) + rnd (b * b)| ≤ 8 := abs_le.mpr ⟨by linarith, by linarith⟩
  obtain ⟨hns, hns'⟩ := abs_le.mp (rnd_near hsum)
  have hdot := (hv.x.mul hv.x (fits_of_le_eight ha)).add (hv.y.mul hv.y (fits_of_le_eight hb))
    (fits_of_le_eight hsum)
  generalize rnd (rnd (a * a) + rnd (b * b)) = q at *
  have hq : 0 ≤ q := by linarith
  have hroot := Real.sqrt_nonneg q
  have hroot' : √q ≤ 2 := Real.sqrt_le_iff.mpr ⟨zero_le_two, by linarith⟩
  have habs : |√q| ≤ 4 := abs_le.mpr ⟨by linarith, by linarith⟩
  have hnear := rnd_near (habs.trans (by norm_num))
  have hl := rnd_nonneg hroot
  have hl' : |rnd (√q)| ≤ 4 := abs_le.mpr ⟨by linarith, by linarith [abs_le.mp hnear]⟩
  have hsq := abs_sq_sub_sq_le hnear hl' habs
  rw [Real.sq_sqrt hq] at hsq
  obtain ⟨hd, hd'⟩ := abs_le.mp hsq
  exact ⟨rnd (√q), hdot.sqrt hq (fits_of_le_eight (habs.trans (by norm_num))), hl,
    abs_le.mpr ⟨by linarith, by linarith⟩⟩

/-- The factor that makes a unit of a direction that is about one. -/
theorem Is.factor (hv : v.Is a b) (h : NearUnit a b) :
    ∃ r, (1 / v.length).Is r ∧ 3 / 4 ≤ r ∧ r ≤ 5 / 4 ∧
      |r ^ 2 * (a ^ 2 + b ^ 2) - 1| ≤ 1 / 1000 := by
  obtain ⟨l, hl, h0, hsq⟩ := hv.length h
  obtain ⟨hu, hu'⟩ := abs_le.mp h
  obtain ⟨hd, hd'⟩ := abs_le.mp hsq
  have hlow : 9 / 10 ≤ l := (sq_le_sq₀ (by norm_num) h0).mp (by linarith)
  have hhigh : l ≤ 11 / 10 := (sq_le_sq₀ h0 (by norm_num)).mp (by linarith)
  have hpos : 0 < l := by linarith
  have hinv : 1 / l ≤ 10 / 9 := by
    rw [div_le_div_iff₀ hpos (by norm_num)]
    linarith
  have hinv' : 10 / 11 ≤ 1 / l := by
    rw [div_le_div_iff₀ (by norm_num) hpos]
    linarith
  have habs : |1 / l| ≤ 8 := abs_le.mpr ⟨by linarith, by linarith⟩
  have hnear := rnd_near habs
  obtain ⟨hn, hn'⟩ := abs_le.mp hnear
  have hmul : 1 / l * l = 1 := one_div_mul_cancel hpos.ne'
  refine ⟨rnd (1 / l), is_one.div hl hpos.ne' (fits_of_le_eight habs), by linarith, by linarith, ?_⟩
  generalize rnd (1 / l) = r at *
  generalize 1 / l = i at *
  have hrl : |r * l - 1| ≤ 1 / 100000 := by
    have herr : r * l - 1 = (r - i) * l := by rw [sub_mul, hmul]
    rw [herr, abs_mul, abs_of_pos hpos]
    exact (mul_le_mul hnear hhigh h0 (by norm_num)).trans (by norm_num)
  obtain ⟨hr, hr'⟩ := abs_le.mp hrl
  have hone := abs_sq_sub_sq_le hrl (abs_le.mpr ⟨by linarith, by linarith⟩) (by norm_num)
  obtain ⟨ho, ho'⟩ := abs_le.mp hone
  have hr2 : r ^ 2 ≤ 2 := (pow_le_pow_left₀ (by linarith) (by linarith) 2).trans
    (by norm_num : (5 / 4 : ℝ) ^ 2 ≤ 2)
  have hrest : |r ^ 2 * (l ^ 2 - (a ^ 2 + b ^ 2))| ≤ 2 * (1 / 10000) := by
    rw [abs_mul, abs_of_nonneg (sq_nonneg r)]
    exact mul_le_mul hr2 hsq (abs_nonneg _) zero_le_two
  obtain ⟨he, he'⟩ := abs_le.mp hrest
  have hsplit : r ^ 2 * (a ^ 2 + b ^ 2) - 1 =
      (r * l) ^ 2 - 1 ^ 2 - r ^ 2 * (l ^ 2 - (a ^ 2 + b ^ 2)) := by ring
  rw [hsplit]
  exact abs_le.mpr ⟨by linarith, by linarith⟩

/-- A direction that is about a unit is scaled to one, and each component keeps its sign. -/
theorem Is.unit? (hv : v.Is a b) (h : NearUnit a b) :
    ∃ w r, v.unit? = some w ∧ 3 / 4 ≤ r ∧ w.Is (rnd (a * r)) (rnd (b * r)) ∧
      NearUnit (rnd (a * r)) (rnd (b * r)) := by
  obtain ⟨r, hr, hlow, hhigh, hsq⟩ := hv.factor h
  have hpos : 0 < 1 / v.length := (is_zero.lt_iff hr).mpr (by linarith)
  have hsize {c : ℝ} (hc : |c| ≤ 2) : |c * r| ≤ 3 := by
    rw [abs_mul, abs_of_nonneg (by linarith : 0 ≤ r)]
    exact (mul_le_mul hc hhigh (by linarith) zero_le_two).trans (by norm_num)
  have ha := hsize h.abs_left
  have hb := hsize h.abs_right
  have herr {c : ℝ} (hc : |c| ≤ 3) : |rnd c ^ 2 - c ^ 2| ≤ 1 / 100000 := by
    have hnear := rnd_near (hc.trans (by norm_num))
    have hsize : |rnd c| ≤ 4 := by
      have := abs_sub_abs_le_abs_sub (rnd c) c
      linarith
    exact (abs_sq_sub_sq_le hnear hsize (by linarith)).trans (by norm_num)
  refine ⟨_, r, if_pos ⟨hr.1, hpos⟩, hlow, ⟨hv.x.mul hr (fits_of_le_eight (by linarith)),
    hv.y.mul hr (fits_of_le_eight (by linarith))⟩, ?_⟩
  obtain ⟨hea, hea'⟩ := abs_le.mp (herr ha)
  obtain ⟨heb, heb'⟩ := abs_le.mp (herr hb)
  obtain ⟨hs, hs'⟩ := abs_le.mp hsq
  exact abs_le.mpr ⟨by linarith, by linarith⟩

/-- A scaled component of a direction keeps its sign. -/
theorem rnd_mul_neg {x : Scalar} (h : x.Is a) (ha : a < 0) (hs : 3 / 4 ≤ s) : rnd (a * s) < 0 := by
  have hsize := h.two_pow_le_abs ha.ne
  have hhalf : (2 : ℝ) ^ (-149 : ℤ) = 2 * 2 ^ (-150 : ℤ) := by norm_num
  rw [abs_of_neg ha, hhalf] at hsize
  have hp : (0 : ℝ) < 2 ^ (-150 : ℤ) := by positivity
  have hprod : 2 * 2 ^ (-150 : ℤ) * (3 / 4) ≤ -a * s :=
    mul_le_mul hsize hs (by norm_num) (by linarith)
  have hlarge : 2 ^ (-150 : ℤ) < -(a * s) := by
    generalize (2 : ℝ) ^ (-150 : ℤ) = p at *
    linarith
  have hpos : 0 < rnd (-(a * s)) := rnd_pos hlarge
  rw [rnd_neg] at hpos
  linarith

/-- The component along a normal changes its sign when it is turned around and scaled. -/
theorem rnd_neg_mul {x : Scalar} (h : x.Is a) (hs : s = 1 ∨ s = -1) {r : ℝ} (hr : 3 / 4 ≤ r) :
    (a * s < 0 → 0 < rnd (-a * r) * s) ∧ (0 ≤ a * s → rnd (-a * r) * s ≤ 0) := by
  have hr0 : 0 ≤ r := by linarith
  rw [neg_mul, rnd_neg]
  rcases hs with rfl | rfl
  · refine ⟨fun ha => ?_, fun ha => ?_⟩
    · have := rnd_mul_neg h (by linarith) hr
      linarith
    · have := rnd_nonneg (mul_nonneg (by linarith : 0 ≤ a) hr0)
      linarith
  · refine ⟨fun ha => ?_, fun ha => ?_⟩
    · have hpos := rnd_mul_neg h.neg (by linarith) hr
      rw [neg_mul, rnd_neg] at hpos
      linarith
    · have := rnd_nonpos (mul_nonpos_of_nonpos_of_nonneg (by linarith : a ≤ 0) hr0)
      linarith

theorem NearUnit.le_two_pow (h : NearUnit a b) : |a| ≤ 2 ^ (126 : ℤ) :=
  h.abs_left.trans (by norm_num)

/-- What was going toward a surface goes away from it after it was turned there, and the reverse. -/
theorem Is.turned (hv : v.Is a b) (h : NearUnit a b) (hn : n.Is s t) (hax : Axial s t) :
    ∃ c d, ((v.mirror n).unit?.getD (-v)).Is c d ∧ NearUnit c d ∧
      (a * s + b * t < 0 → 0 < c * s + d * t) ∧ (0 ≤ a * s + b * t → c * s + d * t ≤ 0) := by
  have hm := hv.mirror hn hax h.le_two_pow h.swap.le_two_pow
  cases hax with
  | x _ hs =>
    have hmir : a - 2 * (a * s + b * 0) * s = -a := by
      rcases hs with rfl | rfl <;> ring
    have hmir' : b - 2 * (a * s + b * 0) * 0 = b := by ring
    rw [hmir, hmir'] at hm
    have hunit : NearUnit (-a) b := by rwa [NearUnit, neg_sq]
    obtain ⟨w, r, hw, hr, his, hnear⟩ := hm.unit? hunit
    rw [hw]
    refine ⟨_, _, his, hnear, ?_⟩
    simpa only [mul_zero, add_zero] using rnd_neg_mul hv.x hs hr
  | y _ ht =>
    have hmir : a - 2 * (a * 0 + b * t) * 0 = a := by ring
    have hmir' : b - 2 * (a * 0 + b * t) * t = -b := by
      rcases ht with rfl | rfl <;> ring
    rw [hmir, hmir'] at hm
    have hunit : NearUnit a (-b) := by rwa [NearUnit, neg_sq]
    obtain ⟨w, r, hw, hr, his, hnear⟩ := hm.unit? hunit
    rw [hw]
    refine ⟨_, _, his, hnear, ?_⟩
    simpa only [mul_zero, zero_add] using rnd_neg_mul hv.y ht hr

end Rally.Vec
