import Rally.Proofs.Arena.Checks
import Rally.Proofs.Match.Unbounded

/-! A draw of an angle that checks its range, and why none of its checks fails for an angle that is
not negative and not too large. -/
namespace Rally

/-- The largest number. -/
def Scalar.most : Scalar := Float32.ofBits 0x7f7fffff

/-- The angles of serves are not negative, and small enough for the width of their range. -/
def Params.Sane (params : Params) : Prop :=
  0 ≤ params.serveAngle ∧ params.serveAngle ≤ Scalar.most / 4

instance : DecidablePred Params.Sane := fun params => by
  unfold Params.Sane
  infer_instance

namespace Dice

/-- A factor that keeps `topFraction` within the range, found by counting down its bits. -/
def fitScaleChecked (low high : Scalar) : Nat → Scalar → Checked Scalar
  | 0, scale => return scale
  | n + 1, scale =>
    if high < scale * topFraction + low then do
      let bits ← Checked.sub scale.toBits.toNat 1
      fitScaleChecked low high n (Float32.ofBits bits.toUInt32)
    else return scale

/-- A number from a range, which must be in order and have a finite width. -/
def betweenChecked (d : Dice) (low high : Scalar) : Checked (Scalar × Dice) :=
  let scale := (high - low) / topFraction
  if low ≤ high ∧ low.isFinite ∧ high.isFinite ∧ scale.isFinite then do
    let scale ← fitScaleChecked low high scale.toBits.toNat scale
    let fraction := Scalar.ofNat (d.word d.drawn >>> 9).toNat * Float32.ofBits 0x34000000
    return (fraction * scale + low, d.skip 1)
  else .error .range

def angleChecked (d : Dice) (limit : Scalar) : Checked (Scalar × Dice) :=
  if 0 < limit then d.betweenChecked (-limit) limit else return (0, d)

end Dice

open Scalar

variable {params : Params} {limit x : Scalar} {a : ℝ}

theorem Scalar.is_most : most.Is ((2 ^ 24 - 1) * 2 ^ 104) :=
  is_literal (m := 2 ^ 24 - 1) (e := 104) rfl (by norm_num)

theorem Scalar.is_quarter_most : (most / 4).Is ((2 ^ 24 - 1) * 2 ^ 102) :=
  is_literal (m := 2 ^ 24 - 1) (e := 102) rfl (by norm_num)

theorem Scalar.eq_zero_of_toBits (h : x.toBits = 0) : x = 0 := by
  obtain ⟨⟨bits, hv⟩⟩ := x
  obtain rfl : bits = 0 := h
  rfl

theorem Scalar.pred_eq (h : x.toBits.toNat ≠ 0) :
    Float32.ofBits (x.toBits.toNat - 1).toUInt32 = x.pred := by
  have hlast : (x.toBits.toNat - 1).toUInt32 = x.toBits - 1 := by
    have hlt := x.toBits.toNat_lt
    have hone : 1 ≤ x.toBits := UInt32.le_iff_toNat_le.mpr (Nat.one_le_iff_ne_zero.mpr h)
    apply UInt32.toNat_inj.mp
    have hsize : (x.toBits.toNat - 1).toUInt32.toNat = x.toBits.toNat - 1 :=
      Nat.mod_eq_of_lt (by omega)
    rw [UInt32.toNat_sub_of_le _ _ hone, hsize]
    rfl
  rw [hlast, Scalar.pred]

theorem Dice.is_topFraction : topFraction.Is (8388607 / 8388608) :=
  is_literal (m := 2 ^ 24 - 2) (e := -24) rfl (by norm_num)

/-- A sane limit is a number, and so is the width of the range on both sides of zero. -/
theorem Params.Sane.is_serveAngle (h : params.Sane) :
    ∃ a, params.serveAngle.Is a ∧ 0 ≤ a ∧ a ≤ (2 ^ 24 - 1) * 2 ^ 102 :=
  is_of_between is_zero is_quarter_most h.1 h.2

theorem Dice.isFinite_width (hx : limit.Is a) (h0 : 0 ≤ a) (ha : a ≤ (2 ^ 24 - 1) * 2 ^ 102) :
    ((limit - -limit) / topFraction).isFinite = true := by
  have hhalf : (most / 2).Is ((2 ^ 24 - 1) * 2 ^ 103) :=
    is_literal (m := 2 ^ 24 - 1) (e := 103) rfl (by norm_num)
  have hw0 : 0 ≤ a - -a := by linarith
  have hw : a - -a ≤ (2 ^ 24 - 1) * 2 ^ 103 := by linarith
  have hfits : Fits (a - -a) := by
    refine hhalf.fits.mono ?_
    rw [abs_of_nonneg hw0]
    exact hw.trans (le_abs_self _)
  have hr := hhalf.rnd_le hw
  have hr0 : 0 ≤ rnd (a - -a) := rnd_nonneg hw0
  refine ((hx.sub hx.neg hfits).div is_topFraction (by norm_num) (is_most.fits.mono ?_)).1
  rw [abs_of_nonneg (div_nonneg hr0 (by norm_num)), abs_of_nonneg (by norm_num),
    div_le_iff₀ (by norm_num)]
  exact hr.trans (by norm_num)

theorem Params.Sane.serves (h : params.Sane) : params.Serves := by
  obtain ⟨a, hx, h0, ha⟩ := h.is_serveAngle
  refine ⟨?_, fun _ => Dice.isFinite_width hx h0 ha⟩
  rw [hx.neg.le_iff hx]
  linarith

namespace Dice

/-- The least factor of all keeps within the range. -/
theorem not_lt_least (hx : limit.Is a) (h0 : 0 ≤ a) : ¬ limit < 0 * topFraction + -limit := by
  have hz : (0 * topFraction).Is 0 := by
    have hprod := is_zero.mul_exact is_topFraction (z := 0) (by rw [zero_mul]; exact is_zero)
    rwa [zero_mul] at hprod
  have hsum := hz.add_exact hx.neg (z := -limit) (by rw [zero_add]; exact hx.neg)
  rw [hx.lt_iff hsum]
  linarith

/-- As the least factor of all keeps within the range, none is less. -/
theorem fitScaleChecked_eq {low high : Scalar} (h : ¬ high < 0 * topFraction + low) (n : Nat)
    (scale : Scalar) : fitScaleChecked low high n scale = .ok (fitScale low high n scale) := by
  induction n generalizing scale with
  | zero => rfl
  | succ n ih =>
    rw [fitScaleChecked, fitScale]
    split
    · rename_i hlt
      have hbits : scale.toBits.toNat ≠ 0 := by
        intro hzero
        have h0 : scale.toBits = 0 := UInt32.toNat_inj.mp hzero
        rw [eq_zero_of_toBits h0] at hlt
        exact h hlt
      rw [Checked.sub_eq (Nat.one_le_iff_ne_zero.mpr hbits), Checked.ok_bind, pred_eq hbits]
      exact ih _
    · rfl

/-- No check of a draw fails for a sane limit. -/
theorem angleChecked_eq (h : params.Sane) (d : Dice) :
    ∃ roll, d.angle params.serveAngle = .ok roll ∧ d.angleChecked params.serveAngle = .ok roll := by
  obtain ⟨a, hx, h0, ha⟩ := h.is_serveAngle
  unfold angle angleChecked
  by_cases hpos : 0 < params.serveAngle
  · have hwidth := isFinite_width hx h0 ha
    have hle : -params.serveAngle ≤ params.serveAngle := h.serves.1
    refine ⟨_, (if_pos hpos).trans (if_pos hwidth), ?_⟩
    rw [if_pos hpos, betweenChecked, if_pos ⟨hle, hx.neg.1, hx.1, hwidth⟩,
      fitScaleChecked_eq (not_lt_least hx h0)]
    rfl
  · exact ⟨_, if_neg hpos, if_neg hpos⟩

end Dice
end Rally
