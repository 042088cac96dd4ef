import Rally.Proofs.Arena.Spending
import Rally.Proofs.Arena.Uses

/-! The travel of the paddles: each stays on its axis and within its limits, whatever is done with
the arena. -/
namespace Rally

/-- How far the center of a paddle may be from the x axis. -/
def Params.travel (params : Params) : Scalar :=
  ((params.height - params.paddleSize.y) / 2).positivePart

/-- A paddle as it was built, but for how far it has come and the way that it goes. -/
structure Paddle.OnAxis (side : Side) (params : Params) (p : Paddle) : Prop where
  x : p.position.x = (ofParams side params).position.x
  side : p.side = side
  size : p.size = params.paddleSize
  speed : p.speed = params.paddleSpeed
  travelLimit : p.travelLimit = params.travel
  direction : p.direction = -1 ∨ p.direction = 0 ∨ p.direction = 1
  finite : p.position.y.isFinite = true
  low : -params.travel ≤ p.position.y
  high : p.position.y ≤ params.travel

/-- Both paddles of an arena are on their axes. -/
def Arena.Railed (params : Params) (a : Arena) : Prop :=
  ∀ side, (a.paddles.get side).OnAxis side params

/-- A sweep takes some finite time. -/
def Use.Timed : Use → Prop
  | .sweep seconds => seconds.isFinite = true
  | _ => True

open Scalar

theorem Clock.isFinite_seconds (t : Nat) : (Clock.seconds t).isFinite = true := by
  have hthousand : (1000 : Scalar).Is 1000 :=
    is_literal (m := 1000 * 2 ^ 14) (e := -14) rfl (by norm_num)
  have hmillis := is_ofNat t
  have hsize : |rnd t.toUInt64.toNat / 1000| ≤ |rnd t.toUInt64.toNat| := by
    rw [abs_div]
    exact div_le_self (abs_nonneg _) (by norm_num)
  exact (hmillis.div hthousand (by norm_num) (hmillis.fits.mono hsize)).1

/-! The way of a paddle. -/

theorem clamped_direction (d : Int8) :
    let c : Int8 := if d < -1 then -1 else if 1 < d then 1 else d
    c = -1 ∨ c = 0 ∨ c = 1 := by
  intro c
  by_cases hlow : d < -1
  · exact .inl (if_pos hlow)
  by_cases hhigh : 1 < d
  · exact .inr (.inr ((if_neg hlow).trans (if_pos hhigh)))
  have hc : c = d := (if_neg hlow).trans (if_neg hhigh)
  rw [Int8.lt_iff_toInt_lt] at hlow hhigh
  have hcases : d.toInt = (-1 : Int8).toInt ∨ d.toInt = (0 : Int8).toInt ∨
      d.toInt = (1 : Int8).toInt := by
    change ¬ d.toInt < -1 at hlow
    change ¬ 1 < d.toInt at hhigh
    change d.toInt = -1 ∨ d.toInt = 0 ∨ d.toInt = 1
    omega
  rw [hc]
  exact hcases.imp Int8.toInt_inj.mp (.imp Int8.toInt_inj.mp Int8.toInt_inj.mp)

namespace Paddle.OnAxis
variable {side : Side} {params : Params} {p : Paddle} {limit u : ℝ} {seconds : Scalar}

theorem ofParams (hlimit : params.travel.Is limit) :
    (Paddle.ofParams side params).OnAxis side params := by
  have hnonneg : 0 ≤ limit := hlimit.of_positivePart
  have hy : (Paddle.ofParams side params).position.y = 0 := by cases side <;> rfl
  refine ⟨rfl, rfl, rfl, rfl, rfl, .inr (.inl rfl), ?_, ?_, ?_⟩ <;> rw [hy]
  · exact is_zero.1
  · exact (hlimit.neg.le_iff is_zero).mpr (neg_nonpos.mpr hnonneg)
  · exact (is_zero.le_iff hlimit).mpr hnonneg

theorem steer (h : p.OnAxis side params) (d : Int8) : (p.steer d).OnAxis side params :=
  ⟨h.x, h.side, h.size, h.speed, h.travelLimit, clamped_direction d, h.finite, h.low, h.high⟩

/-- However fast the paddle is, it comes no farther than it may. -/
theorem advance (h : p.OnAxis side params) (hspeed : params.paddleSpeed.isFinite = true)
    (hlimit : params.travel.Is limit) (hs : seconds.Is u) :
    (p.advance seconds).OnAxis side params := by
  obtain ⟨y, hy, hlo, hhi⟩ := is_of_between hlimit.neg hlimit h.low h.high
  obtain ⟨v, hv, hone⟩ := is_ofInt8 h.direction
  have hw : p.speed.Is params.paddleSpeed.toReal := by
    rw [h.speed]
    exact is_toReal hspeed
  have hsize : |v * params.paddleSpeed.toReal| ≤ |params.paddleSpeed.toReal| := by
    rw [abs_mul]
    exact mul_le_of_le_one_left (abs_nonneg _) hone
  have hway := (hv.mul hw (hw.fits.mono hsize)).isNaN_mul hs
  obtain ⟨z, hz, hzlo, hzhi⟩ :=
    is_confine (hy.isNaN_add hway) hlimit.neg hlimit (hlo.trans hhi)
  have hnew : (p.advance seconds).position.y.Is z := by
    rw [← h.travelLimit] at hz
    exact hz
  exact ⟨h.x, h.side, h.size, h.speed, h.travelLimit, h.direction, hnew.1,
    (hlimit.neg.le_iff hnew).mpr hzlo, (hnew.le_iff hlimit).mpr hzhi⟩

end Paddle.OnAxis

/-! The times for which the paddles move. -/

theorem eq_of_mem_stretch {d x : Scalar} (h : d ∈ stretch x) : d = x ∧ 0 < x := by
  unfold stretch at h
  split at h
  · exact ⟨by simpa using h, ‹_›⟩
  · cases h

namespace Sweep
variable {s : Sweep}

/-- The time left is a number, or none any more. -/
def Timed (s : Sweep) : Prop := s.remaining.isNaN = true ∨ ∃ r, s.remaining.Is r ∧ 0 ≤ r

/-- A stretch of the time left is a number, even if the ball flies too far for one. -/
theorem Timed.contactTime (h : s.Timed) (e : Entry) :
    (s.contactTime e).isNaN = true ∨
      ∃ r u, s.remaining.Is r ∧ (s.contactTime e).Is u ∧ 0 ≤ u ∧ u ≤ r := by
  rcases h with hn | ⟨r, hr, h0⟩
  · exact .inl (isNaN_mul_left _ hn)
  · have hpart :
        (if 0 < s.distance then (s.contact e / s.distance).confine 0 1 else 0).isNaN = true ∨
        ∃ q, (if 0 < s.distance then (s.contact e / s.distance).confine 0 1 else 0).Is q ∧
          0 ≤ q ∧ q ≤ 1 := by
      split
      · cases hq : (s.contact e / s.distance).isNaN with
        | true => exact .inl (isNaN_confine hq)
        | false => exact .inr (is_confine hq is_zero is_one zero_le_one)
      · exact .inr ⟨0, is_zero, le_rfl, zero_le_one⟩
    rcases hpart with hn | ⟨q, hq, hq0, hq1⟩
    · exact .inl (isNaN_mul_right _ hn)
    · exact .inr ⟨r, _, hr, hr.mul_part h0 hq hq0 hq1⟩

theorem Timed.meet (h : s.Timed) (surface : Surface) (e : Entry) : (s.meet surface e).Timed := by
  unfold Timed
  rw [remaining_meet]
  cases surface with
  | trigger => exact h
  | wall | goal | paddle =>
    rcases h.contactTime e with hn | ⟨r, u, hr, hu, hu0, hur⟩
    · exact .inl (isNaN_sub_right _ hn)
    · obtain ⟨hsub, hsub0, -⟩ := hr.sub_part hu hu0 hur
      exact .inr ⟨_, hsub, hsub0⟩

theorem Timed.stretch (h : s.Timed) : ∀ d ∈ stretch s.remaining, d.isFinite = true := by
  intro d hd
  obtain ⟨rfl, hpos⟩ := eq_of_mem_stretch hd
  rcases h with hn | ⟨r, hr, -⟩
  · rw [isNaN_of_lt_right hpos] at hn
    cases hn
  · exact hr.1

theorem Timed.stretchTo (h : s.Timed) (surface : Surface) (e : Entry) :
    ∀ d ∈ s.stretchTo surface e, d.isFinite = true := by
  have htime : ∀ d ∈ Rally.stretch (s.contactTime e), d.isFinite = true := by
    intro d hd
    obtain ⟨rfl, hpos⟩ := eq_of_mem_stretch hd
    rcases h.contactTime e with hn | ⟨-, u, -, hu, -⟩
    · rw [isNaN_of_lt_right hpos] at hn
      cases hn
    · exact hu.1
  cases surface with
  | trigger => simp [Sweep.stretchTo]
  | wall | goal | paddle => exact htime

theorem Timed.stretches (h : s.Timed) (passes : Nat) :
    ∀ d ∈ stretches passes s, d.isFinite = true := by
  induction passes generalizing s with
  | zero => exact h.stretch
  | succ passes ih =>
    rw [Sweep.stretches]
    split
    · split
      · exact h.stretch
      · exact List.forall_mem_append.mpr ⟨h.stretchTo _ _, ih (h.meet _ _)⟩
    · exact h.stretch

end Sweep

namespace Arena
variable {params : Params} {a b : Arena} {seconds : Scalar} {u : Use} {us : List Use}

/-- In a finite time the paddles move for finite times. -/
theorem isFinite_of_mem_stretches (h : seconds.isFinite = true) (a : Arena) :
    ∀ d ∈ a.stretches seconds, d.isFinite = true := by
  have hs : ¬ seconds ≤ 0 → (Sweep.start a seconds).Timed := fun hpos =>
    .inr ⟨_, is_toReal h, (not_le.mp fun hle => hpos ((is_toReal h |>.le_iff is_zero).mpr hle)).le⟩
  unfold stretches
  split
  · simp
  · split
    · exact (hs ‹_›).stretches _
    · exact (hs ‹_›).stretch

/-! Both paddles. -/

theorem Railed.ofParams {limit : ℝ} (hlimit : params.travel.Is limit) :
    (ofParams params).Railed params
  | .left => .ofParams hlimit
  | .right => .ofParams hlimit

section
variable {limit : ℝ} (hspeed : params.paddleSpeed.isFinite = true) (hlimit : params.travel.Is limit)
include hspeed hlimit

theorem Railed.advanceEach {ds : List Scalar} (hds : ∀ d ∈ ds, d.isFinite = true)
    {paddles : Sides Paddle} (h : ∀ side, (paddles.get side).OnAxis side params) :
    ∀ side, ((Rally.advanceEach paddles ds).get side).OnAxis side params := by
  induction ds generalizing paddles with
  | nil => exact h
  | cons d ds ih =>
    obtain ⟨hd, hrest⟩ := List.forall_mem_cons.mp hds
    refine ih hrest fun side => ?_
    rw [Sides.get_map]
    exact (h side).advance hspeed hlimit (is_toReal hd)

theorem Railed.sweep (h : a.Railed params) (hs : seconds.isFinite = true) :
    (a.sweep seconds).arena.Railed params := by
  intro side
  rw [paddles_sweep]
  exact advanceEach hspeed hlimit (isFinite_of_mem_stretches hs a) h side

theorem railed_use (hu : u.Timed) (ha : a.Railed params) (h : a.use u = .ok b) :
    b.Railed params := by
  refine use_paddles (T := fun seconds => seconds.isFinite = true)
    (fun direction hp => hp.steer direction) Clock.isFinite_seconds
    (fun hs ha => Railed.sweep hspeed hlimit ha hs) ?_ ha h
  rintro seconds rfl
  exact hu

end

/-- However an arena is used, as long as no time is infinite, each paddle stays on its axis and
within its limits, as it was built. -/
theorem paddles_on_axis (hspeed : params.paddleSpeed.isFinite = true)
    (hlimit : params.travel.isFinite = true) (hus : ∀ u ∈ us, u.Timed)
    (h : (ofParams params).useAll us = .ok a) (side : Side) :
    (a.paddles.get side).OnAxis side params := by
  have hlimit := is_toReal hlimit
  exact useAll_invariant (fun hu ha hb => railed_use hspeed hlimit hu ha hb) hus
    (Railed.ofParams hlimit) h side

/-- A paddle that would move infinitely far comes to its limit. -/
theorem paddles_on_axis_overflow :
    ∃ params us a, params = ({ paddleSpeed := 3e38 } : Params) ∧
      us = [Use.steer .left 100, .sweep 1000] ∧ (ofParams params).useAll us = .ok a ∧
      a.paddles.left.position.y = params.travel ∧
      ∀ side, (a.paddles.get side).OnAxis side params := by
  obtain ⟨a, h, hy⟩ := exists_ok
    (x := (ofParams { paddleSpeed := 3e38 }).useAll [.steer .left 100, .sweep 1000])
    (fun a => a.paddles.left.position.y = Params.travel { paddleSpeed := 3e38 }) (by decide +kernel)
  exact ⟨_, _, a, rfl, rfl, h, hy, paddles_on_axis (by decide +kernel) (by decide +kernel)
    (by simp [Use.Timed]; decide +kernel) h⟩

end Arena
end Rally
