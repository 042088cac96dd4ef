import Rally.Proofs.Arena.Frame
import Rally.Proofs.Scalar.Overflow

/-! The time of a sweep is spent: whatever the ball meets, the paddles move for all of it, in
stretches that make it up exactly. -/
namespace Rally

/-- A stretch of time, if it is one. -/
def stretch (seconds : Scalar) : List Scalar := if 0 < seconds then [seconds] else []

/-- Moves both paddles for one stretch of time after another. -/
def advanceEach (paddles : Sides Paddle) (stretches : List Scalar) : Sides Paddle :=
  stretches.foldl (fun ps seconds => ps.map (·.advance seconds)) paddles

/-- The stretch up to the contact. Reaching a trigger takes no time. -/
def Sweep.stretchTo (s : Sweep) : Surface → Entry → List Scalar
  | .trigger _ _, _ => []
  | _, e => stretch (s.contactTime e)

/-- The stretches in which the paddles move while at most so many passes are
made, and after them. -/
def Sweep.stretches : Nat → Sweep → List Scalar
  | 0, s => stretch s.remaining
  | passes + 1, s =>
    if s.GoesOn then
      match s.strike with
      | none => stretch s.remaining
      | some (surface, e) => s.stretchTo surface e ++ stretches passes (s.meet surface e)
    else stretch s.remaining

/-- The stretches in which the paddles move in a sweep. -/
def Arena.stretches (seconds : Scalar) (a : Arena) : List Scalar :=
  if seconds ≤ 0 then []
  else if a.ball.moving ∧ (a.goals.find? (·.bounds.contains a.ball.position)).isNone then
    Sweep.stretches a.params.maxPasses (.start a seconds)
  else stretch seconds

/-- Some stretches make up a time. Subtracted from it one after another they leave nothing, and on
the way never less than nothing. -/
structure MakeUp (stretches : List Scalar) (seconds : Scalar) : Prop where
  positive : ∀ d ∈ stretches, 0 < d
  total : (stretches.foldl (· - ·) seconds == 0) = true
  within : ∀ x ∈ stretches.scanl (· - ·) seconds, 0 ≤ x ∧ x ≤ seconds

open Scalar

/-! The paddles move in the stretches. -/

theorem length_stretch_le (seconds : Scalar) : (stretch seconds).length ≤ 1 := by
  unfold stretch
  split <;> simp

theorem advanceEach_append (paddles : Sides Paddle) (ds es : List Scalar) :
    advanceEach paddles (ds ++ es) = advanceEach (advanceEach paddles ds) es :=
  List.foldl_append

theorem Arena.paddles_advance (a : Arena) (seconds : Scalar) :
    (a.advancePaddles seconds).paddles = advanceEach a.paddles (stretch seconds) := by
  unfold advancePaddles stretch
  split <;> rfl

namespace Sweep
variable {s : Sweep} {surface : Surface} {e : Entry}

theorem paddles_meet (s : Sweep) (surface : Surface) (e : Entry) :
    (s.meet surface e).arena.paddles = advanceEach s.arena.paddles (s.stretchTo surface e) := by
  cases surface with
  | trigger => rfl
  | wall | goal => exact Arena.paddles_advance ..
  | paddle =>
    simp only [meet]
    split <;> exact Arena.paddles_advance ..

theorem paddles_glide (s : Sweep) :
    s.glide.finish.arena.paddles = advanceEach s.arena.paddles (stretch s.remaining) := by
  have hnone : stretch 0 = [] := if_neg (by decide +kernel)
  have hfinish : s.glide.finish.arena.paddles = advanceEach s.glide.arena.paddles (stretch 0) :=
    Arena.paddles_advance ..
  rw [hfinish, hnone]
  exact Arena.paddles_advance ..

theorem paddles_run (passes : Nat) (s : Sweep) :
    (run passes s).finish.arena.paddles = advanceEach s.arena.paddles (stretches passes s) := by
  induction passes generalizing s with
  | zero => exact Arena.paddles_advance ..
  | succ passes ih =>
    rw [stretches]
    by_cases hg : s.GoesOn
    · rw [if_pos hg]
      cases hs : s.strike with
      | none =>
        rw [run_of_none hg hs]
        exact paddles_glide s
      | some x =>
        rw [run_of_strike hg hs, ih, paddles_meet, ← advanceEach_append]
    · rw [if_neg hg, run_of_not_goesOn hg]
      exact Arena.paddles_advance ..

/-- A pass has at most one stretch, and one more comes after the last. -/
theorem length_stretches_le (passes : Nat) (s : Sweep) :
    (stretches passes s).length ≤ passes + 1 := by
  induction passes generalizing s with
  | zero => exact length_stretch_le _
  | succ passes ih =>
    have hlast := length_stretch_le s.remaining
    rw [stretches]
    split
    · split
      · omega
      · rename_i surface e _
        have hto : (s.stretchTo surface e).length ≤ 1 := by
          cases surface with
          | trigger => exact Nat.zero_le _
          | wall | goal | paddle => exact length_stretch_le _
        have := ih (s.meet surface e)
        rw [List.length_append]
        omega
    · omega

end Sweep

/-! Stretches that make up a time, in terms of values. -/

/-- Subtracted one after another from a time, some stretches leave nothing of it. -/
inductive Spends : ℝ → List Scalar → Prop where
  | nil : Spends 0 []
  | cons {r u : ℝ} {d : Scalar} {ds : List Scalar} (hd : d.Is u) (hpos : 0 < u) (hle : u ≤ r)
      (rest : Spends (rnd (r - u)) ds) : Spends r (d :: ds)

namespace Spends
variable {x d : Scalar} {r u : ℝ} {ds : List Scalar}

theorem stretch_append (hx : x.Is r) (hd : d.Is u) (h0 : 0 ≤ u) (hle : u ≤ r)
    (rest : Spends (rnd (r - u)) ds) : Spends r (stretch d ++ ds) := by
  unfold stretch
  split
  · rename_i hpos
    exact .cons hd ((is_zero.lt_iff hd).mp hpos) hle rest
  · rename_i hpos
    obtain rfl : u = 0 := le_antisymm (not_lt.mp fun hu => hpos ((is_zero.lt_iff hd).mpr hu)) h0
    rw [sub_zero, hx.rnd_eq] at rest
    exact rest

/-- All of a time is one stretch. -/
theorem stretch_all (hx : x.Is r) (h0 : 0 ≤ r) : Spends r (stretch x) := by
  have hnone : rnd (r - r) = 0 := by
    rw [sub_self]
    exact is_zero.rnd_eq
  have h : Spends r (stretch x ++ []) := stretch_append hx hx h0 le_rfl (hnone ▸ .nil)
  rwa [List.append_nil] at h

theorem eq_zero (h : Spends r []) : r = 0 := by
  cases h
  rfl

theorem total (h : Spends r ds) (hx : x.Is r) : (ds.foldl (· - ·) x).Is 0 := by
  induction h generalizing x with
  | nil => exact hx
  | cons hd hpos hle _ ih => exact ih (hx.sub_part hd hpos.le hle).1

theorem within (h : Spends r ds) (hx : x.Is r) :
    ∀ y ∈ ds.scanl (· - ·) x, ∃ v, y.Is v ∧ 0 ≤ v ∧ v ≤ r := by
  induction h generalizing x with
  | nil =>
    intro y hy
    obtain rfl : y = x := by simpa using hy
    exact ⟨0, hx, le_rfl, le_rfl⟩
  | cons hd hpos hle _ ih =>
    obtain ⟨hsub, -, hless⟩ := hx.sub_part hd hpos.le hle
    intro y hy
    rw [List.scanl_cons, List.mem_cons] at hy
    rcases hy with rfl | hy
    · exact ⟨_, hx, hpos.le.trans hle, le_rfl⟩
    · obtain ⟨v, hv, h0, h1⟩ := ih hsub y hy
      exact ⟨v, hv, h0, h1.trans hless⟩

theorem positive (h : Spends r ds) : ∀ d ∈ ds, ∃ u, d.Is u ∧ 0 < u := by
  induction h with
  | nil => simp
  | cons hd hpos _ _ ih => exact List.forall_mem_cons.mpr ⟨⟨_, hd, hpos⟩, ih⟩

theorem makeUp (h : Spends r ds) (hx : x.Is r) : MakeUp ds x := by
  refine ⟨fun d hd => ?_, ((h.total hx).beq_iff is_zero).mpr rfl, fun y hy => ?_⟩
  · obtain ⟨u, hu, hpos⟩ := h.positive d hd
    exact (is_zero.lt_iff hu).mpr hpos
  · obtain ⟨v, hv, h0, h1⟩ := h.within hx y hy
    exact ⟨(is_zero.le_iff hv).mpr h0, (hv.le_iff hx).mpr h1⟩

end Spends

/-! A ball that does not fly too far for the numbers. -/

/-- A ball that is not faster than `top`, however often it speeds up. -/
structure Ball.SlowerThan (top : ℝ) (b : Ball) : Prop where
  speed : b.speed.isNaN = true ∨ b.speed.ext ≤ top
  maxSpeed : ∃ v, b.maxSpeed.Is v ∧ v ≤ top

theorem Ball.SlowerThan.accelerate {top : ℝ} {b : Ball} (h : b.SlowerThan top) :
    b.accelerate.SlowerThan top := by
  obtain ⟨v, hv, hle⟩ := h.maxSpeed
  refine ⟨?_, v, hv, hle⟩
  have hmax : b.maxSpeed.ext ≤ top := by
    rw [hv.ext]
    exact_mod_cast hle
  unfold Ball.accelerate Scalar.least
  dsimp only
  split
  · exact .inr hmax
  · rename_i hlt
    split
    · exact .inr hmax
    · rename_i hn
      rw [lt_iff_ext hv.isNaN (by simpa using hn), not_lt] at hlt
      exact .inr (hlt.trans hmax)

namespace Sweep
variable {s : Sweep} {surface : Surface} {e : Entry} {top whole r : ℝ}

/-- A sweep with some of its time left, in which the ball cannot fly too far. -/
structure InTime (top whole : ℝ) (s : Sweep) : Prop where
  ball : s.arena.ball.SlowerThan top
  remaining : ∃ r, s.remaining.Is r ∧ 0 ≤ r ∧ r ≤ whole

/-- If the ball does not fly too far for a number, it touches a surface in the time left, however
far away that is. -/
theorem is_contactTime (hr : s.remaining.Is r) (h0 : 0 ≤ r)
    (hfar : 0 < s.distance → s.distance.isFinite = true) (e : Entry) :
    ∃ u, (s.contactTime e).Is u ∧ 0 ≤ u ∧ u ≤ r := by
  have hpart : ∃ q, (if 0 < s.distance then (s.contact e / s.distance).confine 0 1 else 0).Is q ∧
      0 ≤ q ∧ q ≤ 1 := by
    split
    · rename_i hpos
      have hf := is_toReal (hfar hpos)
      have hf0 := ((is_zero.lt_iff hf).mp hpos).ne'
      exact is_confine (isNaN_div (isNaN_positivePart _) hf hf0) is_zero is_one zero_le_one
    · exact ⟨0, is_zero, le_rfl, zero_le_one⟩
  obtain ⟨q, hq, hq0, hq1⟩ := hpart
  exact ⟨_, hr.mul_part h0 hq hq0 hq1⟩

/-- A ball flies no farther than it would at the top speed in the whole time. -/
theorem InTime.distance (h : s.InTime top whole) (hf : Fits (top * whole)) (hpos : 0 < s.distance) :
    s.distance.isFinite = true := by
  obtain ⟨r, hr, h0, hle⟩ := h.remaining
  rcases hr.pos_of_mul_pos h0 hpos with hinf | ⟨v, hv, hv0⟩
  · -- An infinite speed is above the top.
    exfalso
    have hext : s.arena.ball.speed.ext = ⊤ := by
      rw [Scalar.ext, hinf]
      rfl
    rcases h.ball.speed with hn | htop
    · rw [unpack_of_isNaN hn] at hinf
      cases hinf
    · rw [hext] at htop
      exact absurd htop (not_le.mpr (EReal.coe_lt_top _))
  · have hvtop : v ≤ top := by
      have hspeed := h.ball.speed.resolve_left (Bool.eq_false_iff.mp hv.isNaN)
      rw [hv.ext] at hspeed
      exact_mod_cast hspeed
    have hvpos : 0 < v := pos_of_mul_pos_left hv0 h0
    have hsize : |v * r| ≤ |top * whole| := by
      rw [abs_of_pos hv0, abs_of_nonneg (mul_nonneg (hvpos.le.trans hvtop) (h0.trans hle))]
      exact mul_le_mul hvtop hle h0 (hvpos.le.trans hvtop)
    exact (hv.mul hr (hf.mono hsize)).1

theorem InTime.contactTime (h : s.InTime top whole) (hf : Fits (top * whole))
    (hr : s.remaining.Is r) (e : Entry) : ∃ u, (s.contactTime e).Is u ∧ 0 ≤ u ∧ u ≤ r := by
  obtain ⟨r', hr', h0, -⟩ := h.remaining
  obtain rfl := hr.unique hr'
  exact is_contactTime hr h0 (h.distance hf) e

theorem remaining_meet (s : Sweep) (surface : Surface) (e : Entry) :
    (s.meet surface e).remaining =
      match surface with
      | .trigger _ _ => s.remaining
      | _ => s.remaining - s.contactTime e := by
  cases surface with
  | trigger | wall | goal => rfl
  | paddle =>
    simp only [meet]
    split <;> rfl

theorem InTime.meet (h : s.InTime top whole) (hf : Fits (top * whole)) (hg : s.GoesOn)
    (surface : Surface) (e : Entry) : (s.meet surface e).InTime top whole := by
  refine ⟨?_, ?_⟩
  · refine meet_invariant (I := fun p => p.arena.ball.SlowerThan top) ?_ ?_ ?_ surface e hg.2 h.ball
    · intro p seconds hp
      simpa [Played.adjust] using hp
    · intro p distance _ hp
      exact ⟨hp.speed, hp.maxSpeed⟩
    · intro p i b _ hp hb
      cases hb with
      | trigger | wall | goal | stuck => exact ⟨hp.speed, hp.maxSpeed⟩
      | hit side normal =>
        have hbounce : (p.arena.ball.bounce normal).SlowerThan top := ⟨hp.speed, hp.maxSpeed⟩
        exact hbounce.accelerate
  · obtain ⟨r, hr, h0, hle⟩ := h.remaining
    obtain ⟨u, hu, hu0, hur⟩ := h.contactTime hf hr e
    obtain ⟨hsub, hsub0, hsubr⟩ := hr.sub_part hu hu0 hur
    rw [remaining_meet]
    cases surface with
    | trigger => exact ⟨r, hr, h0, hle⟩
    | wall | goal | paddle => exact ⟨_, hsub, hsub0, hsubr.trans hle⟩

theorem InTime.run (h : s.InTime top whole) (hf : Fits (top * whole)) (passes : Nat) :
    (run passes s).InTime top whole := by
  refine run_invariant (I := InTime top whole) ?_ (fun hg _ hs => hs.meet hf hg _ _) passes h
  intro s _ hs
  obtain ⟨r, -, h0, hle⟩ := hs.remaining
  have hball : s.glide.arena.ball = s.arena.ball.travel s.distance := Arena.advancePaddles_ball ..
  refine ⟨?_, 0, is_zero, le_rfl, h0.trans hle⟩
  rw [hball]
  exact ⟨hs.ball.speed, hs.ball.maxSpeed⟩

/-- From wherever a sweep has come to, its stretches make up the time left. -/
theorem InTime.spends (h : s.InTime top whole) (hf : Fits (top * whole)) (hr : s.remaining.Is r)
    (passes : Nat) : Spends r (stretches passes s) := by
  induction passes generalizing s r with
  | zero =>
    obtain ⟨r', hr', h0, -⟩ := h.remaining
    obtain rfl := hr.unique hr'
    exact .stretch_all hr h0
  | succ passes ih =>
    obtain ⟨r', hr', h0, -⟩ := h.remaining
    obtain rfl := hr.unique hr'
    rw [stretches]
    split
    · rename_i hg
      split
      · exact .stretch_all hr h0
      · rename_i surface e _
        have hnext := h.meet hf hg surface e
        have hleft := remaining_meet s surface e
        obtain ⟨u, hu, hu0, hur⟩ := h.contactTime hf hr e
        obtain ⟨hsub, -, -⟩ := hr.sub_part hu hu0 hur
        cases surface with
        | trigger => exact ih hnext (hleft ▸ hr)
        | wall | goal | paddle =>
          exact .stretch_append hr hu hu0 hur (ih hnext (hleft ▸ hsub))
    · exact .stretch_all hr h0

end Sweep

/-! A paddle that does not move. -/

/-- Nothing of a paddle has changed but perhaps the sign of a zero. -/
def Paddle.Remains (p q : Paddle) : Prop :=
  ∃ y, (y == p.position.y) = true ∧ q = { p with position := { p.position with y } }

/-- A paddle that stays at the height `y`, within its limits. -/
structure Paddle.StaysAt (y : ℝ) (p : Paddle) : Prop where
  direction : p.direction = 0
  speed : p.speed.isFinite = true
  height : p.position.y.Is y
  low : -p.travelLimit ≤ p.position.y
  high : p.position.y ≤ p.travelLimit

theorem Paddle.StaysAt.advance {y u : ℝ} {p : Paddle} {seconds : Scalar} (h : p.StaysAt y)
    (hs : seconds.Is u) : (p.advance seconds).StaysAt y := by
  have hzero : Scalar.ofInt8 p.direction = 0 := by
    rw [h.direction]
    decide +kernel
  have hway : (Scalar.ofInt8 p.direction * p.speed * seconds).Is 0 := by
    rw [hzero]
    exact (is_zero.nothing_mul (is_toReal h.speed)).nothing_mul hs
  have hnew := h.height.add_nothing hway
  have hext := hnew.ext.trans h.height.ext.symm
  have hlow := (le_iff_ext (isNaN_of_le h.low).1 h.height.isNaN).mp h.low
  have hhigh := (le_iff_ext h.height.isNaN (isNaN_of_le h.high).2).mp h.high
  have heq : (p.advance seconds).position.y =
      p.position.y + Scalar.ofInt8 p.direction * p.speed * seconds := by
    change Scalar.confine _ _ _ = _
    rw [Scalar.confine, if_neg, if_neg]
    · rw [lt_iff_ext (isNaN_of_le h.high).2 hnew.isNaN, hext]
      exact not_lt.mpr hhigh
    · rw [lt_iff_ext hnew.isNaN (isNaN_of_le h.low).1, hext]
      exact not_lt.mpr hlow
  refine ⟨h.direction, h.speed, heq ▸ hnew, ?_, ?_⟩
  · rw [heq]
    exact (le_iff_ext (isNaN_of_le h.low).1 hnew.isNaN).mpr (hext ▸ hlow)
  · rw [heq]
    exact (le_iff_ext hnew.isNaN (isNaN_of_le h.high).2).mpr (hext ▸ hhigh)

theorem staysAt_advanceEach {y : ℝ} {side : Side} {ds : List Scalar} {paddles : Sides Paddle}
    (hds : ∀ d ∈ ds, ∃ u, d.Is u ∧ 0 < u) (h : (paddles.get side).StaysAt y) :
    ((advanceEach paddles ds).get side).StaysAt y := by
  induction ds generalizing paddles with
  | nil => exact h
  | cons d ds ih =>
    obtain ⟨⟨u, hu, -⟩, hrest⟩ := List.forall_mem_cons.mp hds
    refine ih hrest ?_
    rw [Sides.get_map]
    exact h.advance hu

namespace Arena
variable {a : Arena} {seconds : Scalar}

theorem paddles_sweep (seconds : Scalar) (a : Arena) :
    (a.sweep seconds).arena.paddles = advanceEach a.paddles (a.stretches seconds) := by
  unfold stretches
  by_cases hs : seconds ≤ 0
  · rw [if_pos hs, sweep, if_pos hs]
    rfl
  · rw [if_neg hs]
    cases hm : a.ball.moving with
    | false =>
      rw [if_neg (by simp), sweep_of_rest hs hm]
      exact paddles_advance ..
    | true =>
      cases hg : a.goals.find? (·.bounds.contains a.ball.position) with
      | some goal =>
        rw [if_neg (by simp), sweep_of_goal hs hm hg]
        exact paddles_advance ..
      | none =>
        rw [if_pos (by simp), sweep_of_run hs hm hg]
        exact Sweep.paddles_run ..

theorem length_stretches_le (seconds : Scalar) (a : Arena) :
    (a.stretches seconds).length ≤ a.params.maxPasses + 1 := by
  unfold stretches
  split
  · exact Nat.zero_le _
  · split
    · exact Sweep.length_stretches_le ..
    · exact (length_stretch_le seconds).trans (Nat.le_add_left ..)

/-- All the time of a sweep is spent, and no more. -/
structure Spent (seconds : Scalar) (a : Arena) : Prop where
  /-- Both paddles move in one list of stretches. -/
  paddles : (a.sweep seconds).arena.paddles = advanceEach a.paddles (a.stretches seconds)
  makeUp : MakeUp (a.stretches seconds) seconds
  nonempty : 1 ≤ (a.stretches seconds).length
  few : (a.stretches seconds).length ≤ a.params.maxPasses + 1
  /-- After any number of passes, what is left is between nothing and all of it. -/
  left : ∀ passes, 0 ≤ (Sweep.run passes (.start a seconds)).remaining ∧
    (Sweep.run passes (.start a seconds)).remaining ≤ seconds
  /-- A paddle that does not move, and is within its limits, stays where it is. -/
  stays : ∀ side, (a.paddles.get side).direction = 0 →
    (a.paddles.get side).speed.isFinite = true →
    (a.paddles.get side).position.y.isFinite = true →
    -(a.paddles.get side).travelLimit ≤ (a.paddles.get side).position.y →
    (a.paddles.get side).position.y ≤ (a.paddles.get side).travelLimit →
    (a.paddles.get side).Remains ((a.sweep seconds).arena.paddles.get side)

/-- Whatever the ball meets in a sweep, all of the time is spent on the paddles, if the ball cannot
fly too far for the numbers in that time at the larger of its speed and its limit. -/
theorem time_is_spent (hs : 0 < seconds) (hfin : seconds.isFinite = true)
    (hmax : a.ball.maxSpeed.isFinite = true)
    (hreach : ((a.ball.speed.greatest a.ball.maxSpeed) * seconds + a.ball.radius +
      a.params.castMargin).isFinite = true) : a.Spent seconds := by
  have hsec := is_toReal hfin
  have hsecpos : 0 < seconds.toReal := (is_zero.lt_iff hsec).mp hs
  have hprod := isFinite_of_add (isFinite_of_add hreach)
  have htop := is_toReal (isFinite_of_mul hprod)
  have hfits := htop.fits_of_mul hsec hprod
  obtain ⟨hspeed, hle⟩ := le_greatest htop (is_toReal hmax)
  have hstart : (Sweep.start a seconds).InTime (a.ball.speed.greatest a.ball.maxSpeed).toReal
      seconds.toReal :=
    ⟨⟨hspeed, _, is_toReal hmax, hle⟩, _, hsec, hsecpos.le, le_rfl⟩
  have hspends : Spends seconds.toReal (a.stretches seconds) := by
    unfold stretches
    rw [if_neg fun hle => absurd ((hsec.le_iff is_zero).mp hle) (not_le.mpr hsecpos)]
    split
    · exact hstart.spends hfits hsec _
    · exact .stretch_all hsec hsecpos.le
  refine ⟨paddles_sweep seconds a, hspends.makeUp hsec, ?_, length_stretches_le seconds a, ?_, ?_⟩
  · refine List.length_pos_iff.mpr fun hnil => hsecpos.ne' ?_
    exact (hnil ▸ hspends).eq_zero
  · intro passes
    obtain ⟨r, hr, h0, hr'⟩ := (hstart.run hfits passes).remaining
    exact ⟨(is_zero.le_iff hr).mpr h0, (hr.le_iff hsec).mpr hr'⟩
  · intro side hdir hspeed hy hlow hhigh
    have hstays : (a.paddles.get side).StaysAt (a.paddles.get side).position.y.toReal :=
      ⟨hdir, hspeed, is_toReal hy, hlow, hhigh⟩
    have hafter : ((a.sweep seconds).arena.paddles.get side).StaysAt
        (a.paddles.get side).position.y.toReal := by
      rw [paddles_sweep]
      exact staysAt_advanceEach hspends.positive hstays
    obtain ⟨y, hmoved⟩ := (Moved.sweep a seconds).paddles side
    rw [hmoved] at hafter
    exact ⟨y, (hafter.height.beq_iff (is_toReal hy)).mpr rfl, hmoved⟩

/-- The ball flies through a trigger and off a paddle that does not move. -/
theorem time_is_spent_hit :
    ∃ a : Arena, (a.sweep 0.25).incidents = [.trigger .right 0, .hit .right] ∧
      (a.stretches 0.25).length = 2 ∧ a.Spent 0.25 ∧
      (a.paddles.get .right).Remains ((a.sweep 0.25).arena.paddles.get .right) := by
  let still : Arena := .ofParams { triggerOffsets := [], fanRays := 1 }
  let a : Arena :=
    { still with
      ball := { still.ball with position := ⟨7, 0⟩, speed := 10, moving := true }
      paddles := still.paddles.map fun p => { p with triggerOffsets := [1.5] } }
  have hreach : ((a.ball.speed.greatest a.ball.maxSpeed) * 0.25 + a.ball.radius +
      a.params.castMargin).isFinite = true := by decide +kernel
  have hspent : a.Spent 0.25 :=
    time_is_spent (by decide +kernel) (by decide +kernel) (by decide +kernel) hreach
  exact ⟨a, by decide +kernel, by decide +kernel, hspent,
    hspent.stays .right (by decide +kernel) (by decide +kernel) (by decide +kernel)
      (by decide +kernel) (by decide +kernel)⟩

end Arena
end Rally
