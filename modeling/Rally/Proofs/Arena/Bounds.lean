import Rally.Proofs.Arena.Spending
import Rally.Proofs.Plane.Reaching
import Rally.Proofs.Plane.Turning

/-! In the default arena the numbers of a ball and of the paddles stay within
bounds, pass by pass. -/
namespace Rally

open Scalar Vec

/-! Measures. -/

namespace Scalar

theorem is_minSpeed : (8 : Scalar).Is 8 := is_literal (m := 2 ^ 23) (e := -20) rfl (by norm_num)

theorem is_maxSpeed : (22 : Scalar).Is 22 := is_literal (m := 11534336) (e := -19) rfl (by norm_num)

theorem is_paddleSpeed : (9 : Scalar).Is 9 := is_literal (m := 9437184) (e := -20) rfl (by norm_num)

theorem is_radius : (0.25 : Scalar).Is (1 / 4) :=
  is_literal (m := 2 ^ 23) (e := -25) rfl (by norm_num)

theorem is_margin : ∃ a, (0.05 : Scalar).Is a ∧ 0 ≤ a ∧ a ≤ 1 / 16 :=
  ⟨_, is_literal (m := 13421773) (e := -28) rfl rfl, by norm_num, by norm_num⟩

theorem is_epsilon : ∃ a, (1e-5 : Scalar).Is a ∧ 2 ^ (-17 : ℤ) ≤ a :=
  ⟨_, is_literal (m := 10995116) (e := -40) rfl rfl, by norm_num⟩

theorem is_acceleration : ∃ a, (1.08 : Scalar).Is a ∧ 1 ≤ a ∧ a ≤ 2 :=
  ⟨_, is_literal (m := 9059697) (e := -23) rfl rfl, by norm_num, by norm_num⟩

/-- A point that is far away is no farther after a short way. -/
theorem abs_rnd_add_le {p z : ℝ} (hp : |p| ≤ 2 ^ (26 : ℤ)) (hz : |z| ≤ 4) :
    |rnd (p + z)| ≤ 2 ^ (26 : ℤ) := by
  have hfar : (67108864 : Scalar).Is (2 ^ (26 : ℤ)) :=
    is_literal (m := 2 ^ 23) (e := 3) rfl (by norm_num)
  have hfour : (4 : Scalar).Is 4 := is_literal (m := 2 ^ 23) (e := -21) rfl (by norm_num)
  have hsum : |(2 : ℝ) ^ (26 : ℤ) + 4| ≤ 2 ^ (27 : ℤ) := by norm_num
  have hstay : (67108864 + 4 : Scalar) = 67108864 := by decide +kernel
  have hrnd : rnd (2 ^ (26 : ℤ) + 4) = 2 ^ (26 : ℤ) := by
    have h := hfar.add hfour (fits_of_le (by decide) (by decide) hsum)
    rw [hstay] at h
    exact h.unique hfar
  rw [abs_rnd, ← hrnd]
  exact rnd_mono ((abs_add_le p z).trans (add_le_add hp hz))

end Scalar

/-- What is kept of a ball that goes on in the default arena. -/
structure Ball.Sound (b : Ball) : Prop where
  radius : b.radius = 0.25
  maxSpeed : b.maxSpeed = 22
  acceleration : b.acceleration = 1.08
  speed : ∃ v, b.speed.Is v ∧ 8 ≤ v ∧ v ≤ 22
  position : ∀ k, ∃ p, (b.position.along k).Is p ∧ |p| ≤ 2 ^ (26 : ℤ)
  direction : ∃ c d, b.direction.Is c d ∧ NearUnit c d

/-- What is kept of a paddle of the default arena. -/
structure Paddle.Sound (p : Paddle) : Prop where
  size : p.size = ⟨0.4, 2.4⟩
  speed : p.speed = 9
  direction : p.direction = -1 ∨ p.direction = 0 ∨ p.direction = 1
  limit : ∃ l, p.travelLimit.Is l ∧ 0 ≤ l ∧ l ≤ 10
  position : ∀ k, ∃ c, (p.position.along k).Is c ∧ |c| ≤ 10

/-- What is kept of a sweep of the default arena. -/
structure Sweep.Sound (s : Sweep) : Prop where
  params : s.arena.params = {}
  ball : s.arena.ball.Sound
  paddle : ∀ side, (s.arena.paddles.get side).Sound
  side : ∀ side, (s.arena.paddles.get side).side = side
  remaining : ∃ r, s.remaining.Is r ∧ 0 ≤ r ∧ r ≤ 1 / 30

/-! The ball. -/

namespace Vec.Is
variable {v : Vec} {a b : ℝ}

theorem along (h : v.Is a b) (hu : NearUnit a b) (k : Axis) : ∃ c, (v.along k).Is c ∧ |c| ≤ 2 := by
  cases k with
  | x => exact ⟨a, h.x, hu.abs_left⟩
  | y => exact ⟨b, h.y, hu.abs_right⟩

end Vec.Is

namespace Ball
variable {b : Ball} {d : Scalar} {a c p : ℝ} {k : Axis}

theorem travel_along (hd : d.Is c) (h0 : 0 ≤ c) (hc : c ≤ 2) (hp : (b.position.along k).Is p)
    (hp' : |p| ≤ 2 ^ (26 : ℤ)) (ha : (b.direction.along k).Is a) (ha' : |a| ≤ 2) :
    ((b.travel d).position.along k).Is (rnd (p + rnd (c * a))) ∧
      |rnd (p + rnd (c * a))| ≤ 2 ^ (26 : ℤ) := by
  have hca : |c * a| ≤ 2 ^ (2 : ℤ) := by
    rw [abs_mul, abs_of_nonneg h0]
    norm_num
    nlinarith [abs_nonneg a]
  have hrnd : |rnd (c * a)| ≤ 4 := (abs_rnd_le (by decide) hca).trans (by norm_num)
  have hmul := hd.mul ha (fits_of_le (by decide) (by decide) hca)
  have hsum : |p + rnd (c * a)| ≤ 2 ^ (27 : ℤ) := by
    have := abs_add_le p (rnd (c * a))
    norm_num at hp' ⊢
    linarith
  have hadd := hp.add hmul (fits_of_le (by decide) (by decide) hsum)
  refine ⟨?_, abs_rnd_add_le hp' hrnd⟩
  cases k <;> exact hadd

namespace Sound

theorem travel (h : b.Sound) (hd : d.Is c) (h0 : 0 ≤ c) (hc : c ≤ 2) : (b.travel d).Sound := by
  refine ⟨h.radius, h.maxSpeed, h.acceleration, h.speed, fun k => ?_, h.direction⟩
  obtain ⟨p, hp, hp'⟩ := h.position k
  obtain ⟨c, e, hdir, hunit⟩ := h.direction
  obtain ⟨a, ha, ha'⟩ := hdir.along hunit k
  exact ⟨_, travel_along hd h0 hc hp hp' ha ha'⟩

theorem bounce {n : Vec} {s t : ℝ} (h : b.Sound) (hn : n.Is s t) (hax : Axial s t) :
    (b.bounce n).Sound := by
  obtain ⟨c, e, hdir, hunit⟩ := h.direction
  obtain ⟨c', e', hdir', hunit', -⟩ := hdir.turned hunit hn hax
  exact ⟨h.radius, h.maxSpeed, h.acceleration, h.speed, h.position, c', e', hdir', hunit'⟩

theorem accelerate (h : b.Sound) : b.accelerate.Sound := by
  refine ⟨h.radius, h.maxSpeed, h.acceleration, ?_, h.position, h.direction⟩
  obtain ⟨v, hv, hlow, hhigh⟩ := h.speed
  obtain ⟨f, hf, hf1, hf2⟩ := is_acceleration
  have hfaster : v ≤ v * f := le_mul_of_one_le_right (by linarith) hf1
  have hsize : |v * f| ≤ 2 ^ (6 : ℤ) := by
    rw [abs_of_nonneg (by linarith)]
    norm_num
    nlinarith
  have hmul := hv.mul hf (fits_of_le (by decide) (by decide) hsize)
  have hleast := hmul.least is_maxSpeed
  have heq : b.accelerate.speed = (b.speed * 1.08).least 22 := by
    rw [Ball.accelerate, h.maxSpeed, h.acceleration]
  rw [heq]
  refine ⟨_, hleast, le_min ?_ (by norm_num), min_le_right _ _⟩
  exact is_minSpeed.le_rnd (hlow.trans hfaster)

theorem stop (h : b.Sound) : b.stop.Sound :=
  ⟨h.radius, h.maxSpeed, h.acceleration, h.speed, h.position, h.direction⟩

end Sound
end Ball

/-! Paddles. -/

namespace Box
variable {center half : Vec} {k : Axis} {c h : ℝ}

theorem spans_around (hc : (center.along k).Is c) (hh : (half.along k).Is h) (hc' : |c| ≤ 10)
    (hh' : |h| ≤ 2) : ∃ l m, (around center half).Spans k l m := by
  have hbound {x : ℝ} (hx : |x| ≤ 12) : |x| ≤ 2 ^ (4 : ℤ) := hx.trans (by norm_num)
  have hsub : |c - h| ≤ 2 ^ (4 : ℤ) := hbound ((abs_sub c h).trans (by linarith))
  have hadd : |c + h| ≤ 2 ^ (4 : ℤ) := hbound ((abs_add_le c h).trans (by linarith))
  have hlow := hc.sub hh (fits_of_le (by decide) (by decide) hsub)
  have hhigh := hc.add hh (fits_of_le (by decide) (by decide) hadd)
  have hlow' := abs_rnd_le (by decide) hsub
  have hhigh' := abs_rnd_le (by decide) hadd
  norm_num at hlow' hhigh'
  refine ⟨min (rnd (c - h)) (rnd (c + h)), max (rnd (c - h)) (rnd (c + h)), ?_, ?_, ?_, ?_⟩
  · cases k <;> exact hlow.least hhigh
  · cases k <;> exact hlow.greatest hhigh
  · rcases min_choice (rnd (c - h)) (rnd (c + h)) with hm | hm <;> rw [hm] <;> assumption
  · rcases max_choice (rnd (c - h)) (rnd (c + h)) with hm | hm <;> rw [hm] <;> assumption

end Box

namespace Paddle
variable {p : Paddle} {seconds : Scalar} {t : ℝ}

/-- Half the size of a paddle. -/
theorem is_half (k : Axis) :
    ∃ h, ((⟨0.4 / 2, 2.4 / 2⟩ : Vec).along k).Is h ∧ |h| ≤ 2 := by
  cases k with
  | x =>
    exact ⟨_, is_literal (m := 13421773) (e := -26) rfl rfl, by norm_num⟩
  | y =>
    exact ⟨_, is_literal (m := 10066330) (e := -23) rfl rfl, by norm_num⟩

namespace Sound

theorem spans (h : p.Sound) (k : Axis) : ∃ l m, p.body.Spans k l m := by
  obtain ⟨c, hc, hc'⟩ := h.position k
  obtain ⟨a, ha, ha'⟩ := is_half k
  unfold body
  rw [h.size]
  exact Box.spans_around hc ha hc' ha'

/-- A paddle comes to lie between its limits. -/
theorem advance (h : p.Sound) (ht : seconds.Is t) (h0 : 0 ≤ t) (h1 : t ≤ 1) :
    (p.advance seconds).Sound := by
  refine ⟨h.size, h.speed, h.direction, h.limit, fun k => ?_⟩
  cases k with
  | x => exact h.position .x
  | y =>
    obtain ⟨y, hy, hy'⟩ := h.position .y
    obtain ⟨d, hd, hd'⟩ := is_ofInt8 h.direction
    obtain ⟨l, hl, hl0, hl'⟩ := h.limit
    have hstep : |d * 9| ≤ 2 ^ (4 : ℤ) := by
      rw [abs_mul]
      norm_num
      linarith
    have hway : |rnd (d * 9) * t| ≤ 2 ^ (4 : ℤ) := by
      rw [abs_mul, abs_of_nonneg h0]
      exact (mul_le_of_le_one_right (abs_nonneg _) h1).trans (abs_rnd_le (by decide) hstep)
    have hsum : |y + rnd (rnd (d * 9) * t)| ≤ 2 ^ (5 : ℤ) := by
      have hway := abs_rnd_le (by decide) hway
      have := abs_add_le y (rnd (rnd (d * 9) * t))
      norm_num at hway ⊢
      linarith
    have hspeed := hd.mul is_paddleSpeed (fits_of_le (by decide) (by decide) hstep)
    have hpath := hspeed.mul ht (fits_of_le (by decide) (by decide) hway)
    have hmoved := hy.add hpath (fits_of_le (by decide) (by decide) hsum)
    obtain ⟨e, he, hlow, hhigh⟩ := hmoved.confine hl.neg hl (by linarith)
    refine ⟨e, ?_, abs_le.mpr ⟨by linarith, by linarith⟩⟩
    rw [← h.speed] at he
    exact he

end Sound
end Paddle

/-! Passes. -/

namespace Sweep
variable {s : Sweep} {surface : Surface} {e : Entry} {box : Box} {r t : ℝ} {seconds : Scalar}

/-- How far the ball flies at most. -/
theorem Sound.distance (h : s.Sound) (hg : s.GoesOn) :
    ∃ f, s.distance.Is f ∧ 2 ^ (-14 : ℤ) ≤ f ∧ f ≤ 1 := by
  obtain ⟨v, hv, hlow, hhigh⟩ := h.ball.speed
  obtain ⟨r, hr, h0, h1⟩ := h.remaining
  obtain ⟨ε, hε, hε'⟩ := is_epsilon
  have hleft := hg.1
  rw [h.params] at hleft
  have hεr : ε < r := (hε.lt_iff hr).mp hleft
  have hone : |v * r| ≤ 2 ^ (0 : ℤ) := by
    rw [abs_of_nonneg (by nlinarith)]
    norm_num
    nlinarith
  have hsmall : (2 : ℝ) ^ (-14 : ℤ) ≤ v * r := by
    norm_num at hε' ⊢
    nlinarith
  refine ⟨_, hv.mul hr (fits_of_le (by decide) (by decide) hone),
    Rounding.le_rounded hsmall (representable_two_pow (by decide)), ?_⟩
  have := (abs_le.mp (abs_rnd_le (by decide) hone)).2
  norm_num at this
  exact this

theorem Sound.reach (h : s.Sound) (hg : s.GoesOn) : ∃ q, s.reach.Is q ∧ q ≤ 2 := by
  obtain ⟨f, hf, h0, h1⟩ := h.distance hg
  obtain ⟨m, hm, hm0, hm1⟩ := is_margin
  have hpos := (Rounding.two_zpow_pos (-14)).trans_le h0
  have hfar : |f + 1 / 4| ≤ 2 := abs_le.mpr ⟨by linarith, by linarith⟩
  obtain ⟨-, hn⟩ := abs_le.mp (rnd_near (hfar.trans (by norm_num)))
  have hn0 := rnd_nonneg (by linarith : 0 ≤ f + 1 / 4)
  have hall : |rnd (f + 1 / 4) + m| ≤ 2 ^ (1 : ℤ) := by
    norm_num
    exact abs_le.mpr ⟨by linarith, by linarith⟩
  refine ⟨rnd (rnd (f + 1 / 4) + m), ?_, ?_⟩
  · unfold Sweep.reach
    rw [h.ball.radius, h.params]
    exact (hf.add is_radius (fits_of_le_eight (hfar.trans (by norm_num)))).add hm
      (fits_of_le (by decide) (by decide) hall)
  · have := (abs_le.mp (abs_rnd_le (by decide) hall)).2
    norm_num at this
    exact this

/-- The contact with a surface is where the ray enters it, or before. -/
theorem Sound.contact (h : s.Sound) (ht : e.distance.Is t) (h0 : 0 ≤ t) (h2 : t ≤ 2) :
    ∃ c, (s.contact e).Is c ∧ 0 ≤ c ∧ c ≤ t := by
  have hsize : |t - 1 / 4| ≤ 8 := abs_le.mpr ⟨by linarith, by linarith⟩
  have hsub := ht.sub is_radius (fits_of_le_eight hsize)
  refine ⟨max (rnd (t - 1 / 4)) 0, ?_, le_max_right _ _, max_le ?_ h0⟩
  · unfold Sweep.contact
    rw [h.ball.radius]
    exact hsub.positivePart
  · exact ht.rnd_le (by linarith)

/-- The contact comes in the time that is left. -/
theorem Sound.contactTime (h : s.Sound) (hg : s.GoesOn) (hr : s.remaining.Is r) :
    ∃ u, (s.contactTime e).Is u ∧ 0 ≤ u ∧ u ≤ r := by
  obtain ⟨f, hf, -⟩ := h.distance hg
  obtain ⟨r', hr', h0, -⟩ := h.remaining
  obtain rfl := hr.unique hr'
  exact is_contactTime hr h0 (fun _ => hf.1) e

/-- Time is spent, but no more than is left. -/
theorem Sound.spend (h : s.Sound) (hr : s.remaining.Is r) {u : ℝ} (hu : seconds.Is u) (h0 : 0 ≤ u)
    (hur : u ≤ r) : (s.spend seconds).Sound := by
  obtain ⟨r', hr', h0r, h1r⟩ := h.remaining
  obtain rfl := hr.unique hr'
  obtain ⟨hsub, hsub0, hsubr⟩ := hr.sub_part hu h0 hur
  have hpaddle (side : Side) :
      ((s.arena.advancePaddles seconds).paddles.get side).Sound ∧
        ((s.arena.advancePaddles seconds).paddles.get side).side = side := by
    unfold Arena.advancePaddles
    split
    · rw [Sides.get_map]
      exact ⟨(h.paddle side).advance hu h0 (by linarith), h.side side⟩
    · exact ⟨h.paddle side, h.side side⟩
  refine ⟨(Arena.Moved.advancePaddles ..).params.trans h.params, ?_, fun side => (hpaddle side).1,
    fun side => (hpaddle side).2, _, hsub, hsub0, hsubr.trans h1r⟩
  rw [Sweep.spend, Arena.advancePaddles_ball]
  exact h.ball

theorem Sound.ballDid {f : Ball → Ball} (h : s.Sound) (hf : (f s.arena.ball).Sound) (i : Incident) :
    (s.ballDid f i).Sound := ⟨h.params, hf, h.paddle, h.side, h.remaining⟩

end Sweep

end Rally
