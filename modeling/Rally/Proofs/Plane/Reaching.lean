import Rally.Proofs.Plane.Entries

/-! How far a point has come when it has gone along a ray that enters a box, and on which side of a
face an entry begins. Both hold up to rounding. -/
namespace Rally

open Scalar

namespace Scalar
variable {a c g i l m p s t u w z : ℝ}

/-- How far rounding takes a point beyond what it should keep to. -/
noncomputable def slack : ℝ := 1 / 100000

theorem rnd_le_add (h : |a| ≤ 32) : rnd a ≤ a + 1 / 400000 := by
  have := (abs_le.mp (rnd_error_le a)).2
  linarith

theorem neg_le_of_rnd_nonneg (h : 0 ≤ rnd a) : -2 ^ (-150 : ℤ) ≤ a := by
  by_contra hlt
  have hpos : 0 < rnd (-a) := rnd_pos (by linarith)
  rw [rnd_neg] at hpos
  linarith

/-- What is rounded is at least a power of two below zero only if it was. -/
theorem neg_two_zpow_le {k : ℤ} (hk : -149 ≤ k) (h : -2 ^ k < rnd a) : -2 ^ k ≤ a := by
  by_contra hlt
  have hle : rnd a ≤ -2 ^ k :=
    Rounding.rounded_le (not_le.mp hlt).le (representable_two_pow hk).neg
  linarith

/-- The inverse of a component of a direction. -/
theorem rnd_inv (ha : 2 ^ (-24 : ℤ) ≤ a) (ha' : a ≤ 2) :
    1 / 2 ≤ rnd (1 / a) ∧ rnd (1 / a) * a ≤ 1 + 1 / 8000000 := by
  have hpos : 0 < a := (Rounding.two_zpow_pos _).trans_le ha
  have hinv : 1 / 2 ≤ 1 / a := one_div_le_one_div_of_le hpos ha'
  have hhalf : (1 : ℝ) / 2 = 2 ^ (-1 : ℤ) := by norm_num
  refine ⟨?_, ?_⟩
  · rw [hhalf] at hinv ⊢
    exact Rounding.le_rounded hinv (representable_two_pow (by decide))
  · have herr := (abs_le.mp (rnd_error_le (1 / a))).2
    rw [abs_of_pos (by positivity)] at herr
    have hmul : 1 / a * a = 1 := one_div_mul_cancel hpos.ne'
    nlinarith

/-- The distance to a side, times the component of the direction, is the way to it. -/
theorem mul_le_of_le_quotient (hi : 0 ≤ i) (ha : 0 ≤ a) (ha' : a ≤ 2) (hg : 0 ≤ g) (hg' : g ≤ 9)
    (hia : i * a ≤ 1 + 1 / 8000000) (h : c ≤ rnd (g * i)) : c * a ≤ g + 1 / 400000 := by
  have hgi := mul_nonneg hg hi
  have herr := (abs_le.mp (rnd_error_le (g * i))).2
  rw [abs_of_nonneg hgi] at herr
  have hgia : g * (i * a) ≤ g * (1 + 1 / 8000000) := mul_le_mul_of_nonneg_left hia hg
  calc c * a ≤ (g * i + (g * i * (1 / 16000000) + 1 / 10 ^ 30)) * a :=
        mul_le_mul_of_nonneg_right (by linarith) ha
    _ = g * (i * a) + (g * (i * a) * (1 / 16000000) + 1 / 10 ^ 30 * a) := by ring
    _ ≤ g + 1 / 400000 := by linarith

/-- A ray and its mirror image come to a side and its mirror image at the same distance. -/
theorem quotient_neg (w p a : ℝ) :
    rnd (rnd (-w - -p) * rnd (1 / -a)) = rnd (rnd (w - p) * rnd (1 / a)) := by
  rw [← neg_sub', rnd_neg, div_neg, rnd_neg, neg_mul_neg]

/-- The product is not below zero, and so is what it was rounded from, up to the least numbers. -/
theorem neg_le_of_quotient {k j : ℤ} (hi : 2 ^ k ≤ i) (hk : k + j = -150) (hj : -149 ≤ j)
    (h : 0 ≤ rnd (rnd z * i)) : -2 ^ (j + 1) ≤ z := by
  have hgi := neg_le_of_rnd_nonneg h
  have hk0 := Rounding.two_zpow_pos k
  have hj0 := Rounding.two_zpow_pos j
  have hprod : (2 : ℝ) ^ k * 2 ^ j = 2 ^ (-150 : ℤ) := by
    rw [← zpow_add₀ two_ne_zero, hk]
  have htwice : (2 : ℝ) ^ (j + 1) = 2 ^ j * 2 := zpow_add_one₀ two_ne_zero j
  refine neg_two_zpow_le (by omega) ?_
  by_contra hlt
  nlinarith

/-- A point that goes no farther than to a side has not passed it. -/
theorem reach_le (ha : 2 ^ (-24 : ℤ) ≤ a) (ha' : a ≤ 2) (hw : |w| ≤ 16) (h0 : 0 ≤ c) (hc : c ≤ 2)
    (h : c ≤ rnd (rnd (w - p) * rnd (1 / a))) : rnd (p + rnd (c * a)) ≤ w + slack := by
  have hpos : 0 < a := (Rounding.two_zpow_pos _).trans_le ha
  obtain ⟨hi, hia⟩ := rnd_inv ha ha'
  obtain ⟨hw, hw'⟩ := abs_le.mp hw
  have hca : c * a ≤ 4 := by nlinarith
  have hca0 : 0 ≤ c * a := mul_nonneg h0 hpos.le
  have hz : -(1 / 1000000) ≤ w - p := by
    have hhalf : (2 : ℝ) ^ (-1 : ℤ) ≤ rnd (1 / a) := by
      norm_num at hi ⊢
      exact hi
    have hz := neg_le_of_quotient (j := -149) hhalf (by decide) (by decide) (h0.trans h)
    norm_num at hz
    linarith
  have hway : c * a ≤ max (w - p) 0 + 1 / 250000 := by
    rcases le_total (w - p) 8 with h8 | h8
    · have hg := (abs_le.mp (rnd_near (abs_le.mpr ⟨by linarith, h8⟩))).2
      have hle := le_max_left (w - p) 0
      rcases le_total 0 (rnd (w - p)) with hg0 | hg0
      · have := mul_le_of_le_quotient (by linarith) hpos.le ha' hg0 (by linarith) hia h
        linarith
      · -- The side lies behind the point, and it stays where it is.
        have hc0 : c ≤ 0 := h.trans (rnd_nonpos (mul_nonpos_of_nonpos_of_nonneg hg0 (by linarith)))
        have := mul_nonpos_of_nonpos_of_nonneg hc0 hpos.le
        have := le_max_right (w - p) 0
        linarith
    · linarith [le_max_left (w - p) 0]
  have hrnd := (abs_le.mp (rnd_near (abs_le.mpr ⟨by linarith, by linarith⟩ : |c * a| ≤ 8))).2
  have hsum : p + rnd (c * a) ≤ w + 6 / 1000000 := by
    rcases max_cases (w - p) 0 with ⟨hm, -⟩ | ⟨hm, -⟩ <;> rw [hm] at hway <;> linarith
  have hend := rnd_le_add (abs_le.mpr ⟨by linarith, by linarith⟩ : |w + 6 / 1000000| ≤ 32)
  have := rnd_mono hsum
  unfold slack
  linarith

/-- A point that hardly moves along an axis stays on its side there. -/
theorem stay_le (ha : |a| ≤ 1 / 8000000) (hw : |w| ≤ 16) (hp : p ≤ w) (h0 : 0 ≤ c) (hc : c ≤ 2) :
    rnd (p + rnd (c * a)) ≤ w + slack := by
  obtain ⟨hw, hw'⟩ := abs_le.mp hw
  have hca : |c * a| ≤ 1 / 4000000 := by
    rw [abs_mul, abs_of_nonneg h0]
    nlinarith [abs_nonneg a]
  have hrnd := (abs_le.mp (rnd_near (hca.trans (by norm_num)))).2
  have hway := (abs_le.mp hca).2
  have hsum : p + rnd (c * a) ≤ w + 2 / 1000000 := by linarith
  have hend := rnd_le_add (abs_le.mpr ⟨by linarith, by linarith⟩ : |w + 2 / 1000000| ≤ 32)
  have := rnd_mono hsum
  unfold slack
  linarith

end Scalar

/-! Boxes and rays in numbers. -/

/-- On an axis, a box spans from one number to another. -/
structure Box.Spans (b : Box) (k : Axis) (l m : ℝ) : Prop where
  low : (b.low.along k).Is l
  high : (b.high.along k).Is m
  abs_low : |l| ≤ 16
  abs_high : |m| ≤ 16

/-- A point, a direction and a box are given by numbers that are not too large. -/
structure Box.Given (b : Box) (o d : Vec) : Prop where
  box : ∀ k, ∃ l m, b.Spans k l m
  point : ∀ k, ∃ p, (o.along k).Is p ∧ |p| ≤ 2 ^ (26 : ℤ)
  direction : ∀ k, ∃ a, (d.along k).Is a

namespace Clip
variable {low origin dir : Scalar} {a l p : ℝ}

theorem is_parallelTolerance :
    ∃ v, parallelTolerance.Is v ∧ 2 ^ (-24 : ℤ) ≤ v ∧ v ≤ 1 / 8000000 := by
  have h : parallelTolerance.toModel.unpack = .finite .positive 14073749 (-47) (by decide) := rfl
  refine ⟨_, is_of_unpack h, ?_, ?_⟩ <;> norm_num [Rounding.signed]

theorem two_pow_le_of_not_parallel (hd : dir.Is a) (h : ¬ dir.abs < parallelTolerance) :
    2 ^ (-24 : ℤ) ≤ |a| := by
  obtain ⟨v, hv, hlow, -⟩ := is_parallelTolerance
  rw [hd.abs.lt_iff hv, not_lt] at h
  exact hlow.trans h

theorem le_of_parallel (hd : dir.Is a) (h : dir.abs < parallelTolerance) : |a| ≤ 1 / 8000000 := by
  obtain ⟨v, hv, -, hhigh⟩ := is_parallelTolerance
  rw [hd.abs.lt_iff hv] at h
  exact h.le.trans hhigh

/-- The distance to a side of a slab in numbers. -/
theorem is_toLow (hl : low.Is l) (ho : origin.Is p) (hd : dir.Is a) (hl' : |l| ≤ 16)
    (hp : |p| ≤ 2 ^ (26 : ℤ)) (hn : ¬ dir.abs < parallelTolerance) :
    (toLow low origin dir).Is (rnd (rnd (l - p) * rnd (1 / a))) := by
  have ha := two_pow_le_of_not_parallel hd hn
  have hpos : 0 < |a| := (Rounding.two_zpow_pos _).trans_le ha
  have hlp : |l - p| ≤ 2 ^ (27 : ℤ) := by
    have := abs_sub l p
    norm_num at hp ⊢
    linarith
  have hinv : |1 / a| ≤ 2 ^ (24 : ℤ) := by
    rw [abs_div, abs_one, div_le_iff₀ hpos]
    calc (1 : ℝ) = 2 ^ (24 : ℤ) * 2 ^ (-24 : ℤ) := by norm_num
      _ ≤ 2 ^ (24 : ℤ) * |a| := mul_le_mul_of_nonneg_left ha (Rounding.two_zpow_pos _).le
  have hprod : |rnd (l - p) * rnd (1 / a)| ≤ 2 ^ (51 : ℤ) := by
    rw [abs_mul]
    calc |rnd (l - p)| * |rnd (1 / a)| ≤ 2 ^ (27 : ℤ) * 2 ^ (24 : ℤ) :=
          mul_le_mul (abs_rnd_le (by decide) hlp) (abs_rnd_le (by decide) hinv) (abs_nonneg _)
            (Rounding.two_zpow_pos _).le
      _ = 2 ^ (51 : ℤ) := by norm_num
  exact (hl.sub ho (fits_of_le (by decide) (by decide) hlp)).mul
    (is_one.div hd (abs_pos.mp hpos) (fits_of_le (by decide) (by decide) hinv))
    (fits_of_le (by decide) (by decide) hprod)

end Clip

namespace Box
variable {b : Box} {o d : Vec} {reach : Scalar} {e : Entry} {k : Axis} {a c l m p s t : ℝ}

/-- How far a point lies beyond the face of a box with this normal. -/
noncomputable def beyond (b : Box) (n p : Vec) : ℝ :=
  n.x.toReal * p.x.toReal + n.y.toReal * p.y.toReal -
    (max (n.x.toReal * b.low.x.toReal) (n.x.toReal * b.high.x.toReal) +
      max (n.y.toReal * b.low.y.toReal) (n.y.toReal * b.high.y.toReal))

theorem beyond_face {f : Scalar} {v : Vec} (hf : f.Is s) (hv : (v.along k).Is p)
    (hl : (b.low.along k).Is l) (hm : (b.high.along k).Is m) :
    b.beyond (k.face f) v = s * p - max (s * l) (s * m) := by
  have h0 : (0 : Scalar).toReal = 0 := is_zero.2
  cases k <;> simp only [Axis.face, Vec.along] at hv hl hm ⊢ <;>
    simp [beyond, h0, hf.2, hv.2, hl.2, hm.2]

/-- The farther side of a box is at a distance that is a number. -/
theorem is_farSide (hb : b.Spans k l m) (ho : (o.along k).Is p) (hp : |p| ≤ 2 ^ (26 : ℤ))
    (hd : (d.along k).Is a) (hn : ¬ Parallel d k) :
    ∃ w, (w = l ∨ w = m) ∧ (b.farSide o d k).Is (rnd (rnd (w - p) * rnd (1 / a))) := by
  have hlow := Clip.is_toLow hb.low ho hd hb.abs_low hp hn
  have hhigh := Clip.is_toLow hb.high ho hd hb.abs_high hp hn
  unfold farSide Clip.farSide
  split
  · exact ⟨l, .inl rfl, hlow⟩
  · exact ⟨m, .inr rfl, hhigh⟩

/-- An entry comes before the farther side of each axis. -/
theorem entry_le_far (h : b.entry o d reach = some e) (hg : b.Given o d) (ht : e.distance.Is t)
    (hb : b.Spans k l m) (ho : (o.along k).Is p) (hp : |p| ≤ 2 ^ (26 : ℤ)) (hd : (d.along k).Is a) :
    |a| ≤ 1 / 8000000 ∧ l ≤ p ∧ p ≤ m ∨
      2 ^ (-24 : ℤ) ≤ |a| ∧ ∃ w, (w = l ∨ w = m) ∧ t ≤ rnd (rnd (w - p) * rnd (1 / a)) := by
  have hn (k : Axis) (hp : ¬ Parallel d k) : (b.farSide o d k).isNaN = false := by
    obtain ⟨l, m, hb⟩ := hg.box k
    obtain ⟨p, ho, hp'⟩ := hg.point k
    obtain ⟨a, hd⟩ := hg.direction k
    obtain ⟨w, -, hw⟩ := is_farSide hb ho hp' hd hp
    exact hw.isNaN
  rcases entry_far h hn k with ⟨hpar, hlow, hhigh⟩ | ⟨hpar, hle⟩
  · rw [ho.lt_iff hb.low, not_lt] at hlow
    rw [hb.high.lt_iff ho, not_lt] at hhigh
    exact .inl ⟨Clip.le_of_parallel hd hpar, hlow, hhigh⟩
  · obtain ⟨w, hw, hfar⟩ := is_farSide hb ho hp hd hpar
    rw [ht.ext, hfar.ext, EReal.coe_le_coe_iff] at hle
    exact .inr ⟨Clip.two_pow_le_of_not_parallel hd hpar, w, hw, hle⟩

/-- A point that goes to the entry into a box, and not toward a face, does not come to lie beyond
that face. -/
theorem le_of_entry (h : b.entry o d reach = some e) (hg : b.Given o d) (ht : e.distance.Is t)
    (hb : b.Spans k l m) (ho : (o.along k).Is p) (hp : |p| ≤ 2 ^ (26 : ℤ)) (hd : (d.along k).Is a)
    (ha : |a| ≤ 2) (h0 : 0 ≤ c) (hct : c ≤ t) (hc : c ≤ 2) (hs : s = 1 ∨ s = -1)
    (haway : 0 ≤ s * a) : s * rnd (p + rnd (c * a)) ≤ max (s * l) (s * m) + slack := by
  have hal := hb.abs_low
  have ham := hb.abs_high
  have hfar := entry_le_far h hg ht hb ho hp hd
  obtain ⟨ha1, ha2⟩ := abs_le.mp ha
  rcases hs with rfl | rfl
  · simp only [one_mul] at haway ⊢
    rcases hfar with ⟨hsmall, -, hpm⟩ | ⟨hlow, w, hw, hle⟩
    · exact (stay_le hsmall ham hpm h0 hc).trans (by gcongr; exact le_max_right l m)
    · rw [abs_of_nonneg haway] at hlow
      have hw16 : |w| ≤ 16 := by rcases hw with rfl | rfl <;> assumption
      have hwm : w ≤ max l m := by rcases hw with rfl | rfl <;> simp
      exact (reach_le hlow ha2 hw16 h0 hc (hct.trans hle)).trans (by gcongr)
  · -- The other way around, by the symmetry of rounding.
    have hturn : -1 * rnd (p + rnd (c * a)) = rnd (-p + rnd (c * -a)) := by
      rw [mul_neg, rnd_neg, ← neg_add, rnd_neg, neg_one_mul]
    rw [hturn]
    simp only [neg_one_mul] at haway ⊢
    rcases hfar with ⟨hsmall, hlp, -⟩ | ⟨hlow, w, hw, hle⟩
    · refine (stay_le (w := -l) (by rwa [abs_neg]) (by rwa [abs_neg]) (by linarith) h0 hc).trans ?_
      gcongr
      exact le_max_left (-l) (-m)
    · rw [← abs_neg, abs_of_nonneg haway] at hlow
      have hw16 : |-w| ≤ 16 := by rcases hw with rfl | rfl <;> rwa [abs_neg]
      have hwm : -w ≤ max (-l) (-m) := by rcases hw with rfl | rfl <;> simp
      have hle : c ≤ rnd (rnd (-w - -p) * rnd (1 / -a)) := quotient_neg w p a ▸ hct.trans hle
      exact (reach_le hlow (by linarith) hw16 h0 hc hle).trans (by gcongr)

/-- The nearer side of a box is only at a number of a distance along a ray with a direction. -/
theorem isNaN_of_nearSide (h : (b.nearSide o d k).isNaN = false) : (d.along k).isNaN = false := by
  cases hd : (d.along k).isNaN with
  | false => rfl
  | true =>
    have hside (low : Scalar) : (Clip.toLow low (o.along k) (d.along k)).isNaN = true :=
      isNaN_mul_right _ (isNaN_div_right _ hd)
    unfold nearSide Clip.nearSide at h
    split at h
    · rw [hside] at h
      cases h
    · rw [hside] at h
      cases h

/-- When the nearer side of a box is not behind a point, no side is. -/
theorem nonneg_of_nearSide (hb : b.Spans k l m) (ho : (o.along k).Is p) (hp : |p| ≤ 2 ^ (26 : ℤ))
    (hd : (d.along k).Is a) (hn : ¬ Parallel d k) (ht : (b.nearSide o d k).Is t) (h0 : 0 ≤ t) :
    0 ≤ rnd (rnd (l - p) * rnd (1 / a)) ∧ 0 ≤ rnd (rnd (m - p) * rnd (1 / a)) := by
  have hlow := Clip.is_toLow hb.low ho hd hb.abs_low hp hn
  have hhigh := Clip.is_toLow hb.high ho hd hb.abs_high hp hn
  unfold nearSide Clip.nearSide at ht
  split at ht
  · rename_i hlt
    rw [hhigh.lt_iff hlow] at hlt
    obtain rfl := ht.unique hhigh
    exact ⟨h0.trans hlt.le, h0⟩
  · rename_i hlt
    rw [hhigh.lt_iff hlow, not_lt] at hlt
    obtain rfl := ht.unique hlow
    exact ⟨h0, h0.trans hlt⟩

end Box

namespace Scalar
variable {a p w : ℝ}

/-- A side that a ray toward higher numbers does not find behind its origin is not lower. -/
theorem le_of_quotient_nonneg (ha : 0 < a) (ha' : a < 2 ^ (128 : ℤ))
    (h : 0 ≤ rnd (rnd (w - p) * rnd (1 / a))) : p ≤ w + slack := by
  have hinv : (2 : ℝ) ^ (-128 : ℤ) ≤ 1 / a := by
    rw [zpow_neg, inv_eq_one_div]
    exact one_div_le_one_div_of_le ha ha'.le
  have hrnd : (2 : ℝ) ^ (-128 : ℤ) ≤ rnd (1 / a) :=
    Rounding.le_rounded hinv (representable_two_pow (by decide))
  have hz := neg_le_of_quotient (j := -22) hrnd (by decide) (by decide) h
  norm_num at hz
  unfold slack
  linarith

end Scalar

namespace Box
variable {b : Box} {o d : Vec} {reach : Scalar} {e : Entry} {k : Axis} {r : ℝ}

/-- The normal of an entry is that of a face on whose outer side the ray begins. -/
theorem beyond_of_entry (h : b.entry o d reach = some e) (hr : reach.Is r)
    (hd : ∀ k, (d.along k).isInf = false) :
    ∃ k f s, f.Is s ∧ (s = 1 ∨ s = -1) ∧ e.normal = k.face f ∧
      ∀ {l m p : ℝ}, b.Spans k l m → (o.along k).Is p → |p| ≤ 2 ^ (26 : ℤ) →
        max (s * l) (s * m) ≤ s * p + slack := by
  obtain ⟨k, hn, hdist, hnormal, hnan⟩ := entry_face h
  obtain ⟨t, ht, h0, -⟩ := entry_distance h hr
  rw [hdist] at ht hnan
  obtain ⟨a, ha⟩ := finite_of_not (isNaN_of_nearSide hnan) (hd k)
  have hsize := Clip.two_pow_le_of_not_parallel ha hn
  have hbound := ha.abs_lt
  have hne : a ≠ 0 := abs_pos.mp ((Rounding.two_zpow_pos _).trans_le hsize)
  obtain ⟨s, hf, hs, hfacing⟩ := ha.neg_sign hne
  refine ⟨k, _, s, hf, hs, hnormal, fun {l m p} hb ho hp => ?_⟩
  obtain ⟨hl, hm⟩ := nonneg_of_nearSide hb ho hp ha hn ht h0
  rcases hs with rfl | rfl
  · have hneg : 0 < -a := by linarith
    rw [← abs_neg, abs_of_pos hneg] at hbound
    rw [← quotient_neg] at hl hm
    have hl := le_of_quotient_nonneg hneg hbound hl
    have hm := le_of_quotient_nonneg hneg hbound hm
    exact max_le (by linarith) (by linarith)
  · have hpos : 0 < a := by linarith
    rw [abs_of_pos hpos] at hbound
    have hl := le_of_quotient_nonneg hpos hbound hl
    have hm := le_of_quotient_nonneg hpos hbound hm
    exact max_le (by linarith) (by linarith)

end Box
end Rally
