import Rally.Proofs.Arena.Bounds
import Rally.Proofs.Scalar.Trig

/-! Bounces. The ball leaves the surface that it bounces off, unless a paddle has moved
past it before the contact: the normal is found where the paddle will be, and need not
face the ball then. -/
namespace Rally

open Scalar Vec

/-- What happened at a bounce. -/
structure Bounce where
  incident : Incident
  normal : Vec
  /-- The direction of the ball before and after. -/
  before : Vec
  after : Vec
  /-- The center of the ball at the contact. -/
  center : Vec
  /-- The paddle that was struck, as it stood when the ball set out for it, and the time until the
  contact. -/
  struck : Option (Paddle × Scalar)
deriving DecidableEq

/-- Whether the ball bounced. -/
def Incident.bounced : Incident → Bool
  | .wall => true
  | .hit _ => true
  | _ => false

namespace Sweep

/-- The bounce with which a pass ends, if it does. -/
def bounce? (s : Sweep) (surface : Surface) (e : Entry) : Option Bounce :=
  let before := s.arena.ball.direction
  let after := (s.meet surface e).arena.ball.direction
  let there := s.arena.ball.travel (s.contact e)
  match surface with
  | .wall => some ⟨.wall, e.normal, before, after, there.position, none⟩
  | .paddle side =>
    let paddle := s.arena.paddles.get side
    let time := s.contactTime e
    (there.contactNormal (paddle.advance time) s.arena.params).map fun normal =>
      ⟨.hit side, normal, before, after, there.position, some (paddle, time)⟩
  | _ => none

/-- The bounces of at most so many passes. -/
def bounces : Nat → Sweep → List Bounce
  | 0, _ => []
  | passes + 1, s =>
    if s.GoesOn then
      match s.strike with
      | none => []
      | some (surface, e) => (s.bounce? surface e).toList ++ bounces passes (s.meet surface e)
    else []

end Sweep

/-- The bounces while an arena is moved through some seconds. -/
def Arena.bounces (seconds : Scalar) (a : Arena) : List Bounce :=
  if seconds ≤ 0 then []
  else if !a.ball.moving then []
  else
    match a.goals.find? (·.bounds.contains a.ball.position) with
    | some _ => []
    | none => Sweep.bounces a.params.maxPasses (.start a seconds)

namespace Bounce
variable (b : Bounce)

/-- The ball was moving toward the surface, and moves away from it. -/
def Leaves : Prop := b.before.dot b.normal < 0 ∧ 0 < b.after.dot b.normal

/-- The ball was not moving toward the face of the paddle that turned it, and moves no longer away
from it. That face was not behind the ball when it set out, and is not before it at the contact. -/
def Overtaken : Prop :=
  ∃ paddle time, b.struck = some (paddle, time) ∧
    0 ≤ b.before.dot b.normal ∧ b.after.dot b.normal ≤ 0 ∧
    paddle.body.beyond b.normal b.center ≤ slack ∧
    -slack ≤ (paddle.advance time).body.beyond b.normal b.center

end Bounce

/-! What happens is a bounce where one is listed. -/

namespace Sweep
variable {s : Sweep} {surface : Surface} {e : Entry}

theorem filter_meet (surface : Surface) (e : Entry) :
    (s.meet surface e).incidents.filter Incident.bounced =
      s.incidents.filter Incident.bounced ++
        (s.bounce? surface e).toList.map Bounce.incident := by
  cases surface with
  | wall => simp [meet, spend, ballDid, bounce?, Incident.bounced]
  | goal owner => simp [meet, spend, ballDid, bounce?, Incident.bounced]
  | trigger side level => simp [meet, bounce?, Incident.bounced]
  | paddle side =>
    unfold bounce? meet
    dsimp only
    cases (s.arena.ball.travel (s.contact e)).contactNormal
      ((s.arena.paddles.get side).advance (s.contactTime e)) s.arena.params with
    | none => simp [spend, ballDid, Incident.bounced]
    | some n => simp [spend, ballDid, Incident.bounced]

theorem filter_run (passes : Nat) (s : Sweep) :
    (run passes s).incidents.filter Incident.bounced =
      s.incidents.filter Incident.bounced ++ (bounces passes s).map Bounce.incident := by
  induction passes generalizing s with
  | zero => simp [run, bounces]
  | succ passes ih =>
    by_cases hg : s.GoesOn
    · cases hs : s.strike with
      | none =>
        rw [run_of_none hg hs, bounces, if_pos hg, hs]
        simp [glide]
      | some x =>
        obtain ⟨surface, e⟩ := x
        rw [run_of_strike hg hs, ih, filter_meet, bounces, if_pos hg, hs]
        simp
    · rw [run_of_not_goesOn hg, bounces, if_neg hg]
      simp

end Sweep

theorem Arena.filter_sweep (seconds : Scalar) (a : Arena) :
    (a.sweep seconds).incidents.filter Incident.bounced =
      (a.bounces seconds).map Bounce.incident := by
  unfold bounces
  by_cases hs : seconds ≤ 0
  · rw [if_pos hs, sweep, if_pos hs]
    rfl
  · rw [if_neg hs]
    cases hm : a.ball.moving with
    | false =>
      rw [sweep_of_rest hs hm]
      rfl
    | true =>
      cases hg : a.goals.find? (·.bounds.contains a.ball.position) with
      | some goal =>
        rw [sweep_of_goal hs hm hg]
        rfl
      | none =>
        rw [sweep_of_run hs hm hg]
        exact Sweep.filter_run _ _

/-! Normals. -/

namespace Axis
variable {f : Scalar} {v : Vec} {a b c s : ℝ}

/-- A direction against the normal of a face is its component on the axis of the face. -/
theorem face_is (k : Axis) (hf : f.Is s) (hs : s = 1 ∨ s = -1) (hv : v.Is a b)
    (hc : (v.along k).Is c) :
    ∃ x y, (k.face f).Is x y ∧ Axial x y ∧ a * x + b * y = s * c := by
  cases k with
  | x =>
    obtain rfl := hc.unique hv.x
    exact ⟨s, 0, ⟨hf, is_zero⟩, .x s hs, by ring⟩
  | y =>
    obtain rfl := hc.unique hv.y
    exact ⟨0, s, ⟨is_zero, hf⟩, .y s hs, by ring⟩

end Axis

/-- A ball may bounce off any face. -/
theorem Ball.Sound.bounce_face {b : Ball} {f : Scalar} {s : ℝ} (h : b.Sound) (k : Axis)
    (hf : f.Is s)
    (hs : s = 1 ∨ s = -1) : (b.bounce (k.face f)).Sound := by
  obtain ⟨c, d, hdir, hunit⟩ := h.direction
  obtain ⟨a, ha, -⟩ := hdir.along hunit k
  obtain ⟨x, y, hn, hax, -⟩ := k.face_is hf hs hdir ha
  exact h.bounce hn hax

/-- A ball that was moving toward a face moves away from it after a bounce, and the reverse. -/
theorem Ball.Sound.turns {b : Ball} {f : Scalar} {s a : ℝ} (h : b.Sound) (k : Axis) (hf : f.Is s)
    (hs : s = 1 ∨ s = -1) (ha : (b.direction.along k).Is a) :
    (s * a < 0 → b.direction.dot (k.face f) < 0 ∧
        0 < (b.bounce (k.face f)).direction.dot (k.face f)) ∧
      (0 ≤ s * a →
        0 ≤ b.direction.dot (k.face f) ∧ (b.bounce (k.face f)).direction.dot (k.face f) ≤ 0) := by
  obtain ⟨c, d, hdir, hunit⟩ := h.direction
  obtain ⟨x, y, hn, hax, hdot⟩ := k.face_is hf hs hdir ha
  obtain ⟨c', d', hdir', -, haway, hon⟩ := hdir.turned hunit hn hax
  have hbefore := hdir.dot hn hax
  have hafter := hdir'.dot hn hax
  rw [hdot] at haway hon hbefore
  refine ⟨fun hlt => ⟨?_, ?_⟩, fun hle => ⟨?_, ?_⟩⟩
  · exact (hbefore.lt_iff is_zero).mpr hlt
  · exact (is_zero.lt_iff hafter).mpr (haway hlt)
  · exact (is_zero.le_iff hbefore).mpr hle
  · exact (hafter.le_iff is_zero).mpr (hon hle)

/-- The face through which a ray along the path of a ball enters a box faces the ball. -/
theorem Ball.Sound.entry_face {b : Ball} {box : Box} {reach : Scalar} {e : Entry} (h : b.Sound)
    (he : box.entry b.position b.direction reach = some e) :
    ∃ (k : Axis) (f : Scalar) (s a : ℝ), f.Is s ∧ (s = 1 ∨ s = -1) ∧ e.normal = k.face f ∧
      (b.direction.along k).Is a ∧ s * a < 0 := by
  obtain ⟨k, hpar, -, hn, -⟩ := Box.entry_face he
  obtain ⟨c, d, hdir, hunit⟩ := h.direction
  obtain ⟨a, ha, -⟩ := hdir.along hunit k
  have hsize := Clip.two_pow_le_of_not_parallel ha hpar
  obtain ⟨s, hf, hs, hfacing⟩ := ha.neg_sign (abs_pos.mp ((Rounding.two_zpow_pos _).trans_le hsize))
  exact ⟨k, _, s, a, hf, hs, hn, ha, hfacing⟩

theorem Vec.isInf_atAngle (angle : Scalar) (k : Axis) :
    ((atAngle angle).along k).isInf = false := by
  cases k with
  | x => exact isInf_cos angle
  | y => exact isInf_sin angle

namespace Ball
variable {b : Ball} {paddle : Paddle} {n : Vec}

/-- The normal at a contact is that of a face of the paddle on whose outer side the ball is. -/
theorem contactNormal_face (hb : b.Sound) (hp : paddle.Sound)
    (h : b.contactNormal paddle {} = some n) :
    ∃ (k : Axis) (f : Scalar) (s : ℝ), f.Is s ∧ (s = 1 ∨ s = -1) ∧ n = k.face f ∧
      -slack ≤ paddle.body.beyond n b.position := by
  obtain ⟨e, he, rfl⟩ := Option.map_eq_some_iff.mp h
  obtain ⟨ray, -, hentry⟩ := List.mem_filterMap.mp (mem_of_argmin he)
  rw [hb.radius] at hentry
  have hreach : (0.25 + ({} : Params).castMargin + ({} : Params).fanReach).isFinite = true := by
    decide +kernel
  obtain ⟨k, f, s, hf, hs, hn, hside⟩ :=
    Box.beyond_of_entry hentry (is_toReal hreach) (isInf_atAngle _)
  obtain ⟨l, m, hspan⟩ := hp.spans k
  obtain ⟨p, hpos, hp'⟩ := hb.position k
  have hbeyond := Box.beyond_face hf hpos hspan.low hspan.high
  have hle := hside hspan hpos hp'
  refine ⟨k, f, s, hf, hs, hn, ?_⟩
  rw [hn, hbeyond]
  linarith

end Ball

namespace Sweep
variable {s : Sweep} {surface : Surface} {e : Entry} {b : Bounce}

/-- What is known of a contact. -/
structure Contact (s : Sweep) (e : Entry) (box : Box) (t c : ℝ) : Prop where
  entry : box.entry s.arena.ball.position s.arena.ball.direction s.reach = some e
  distance : e.distance.Is t
  contact : (s.contact e).Is c
  nonneg : 0 ≤ c
  le : c ≤ t
  le_two : c ≤ 2

theorem Sound.strike (h : s.Sound) (hg : s.GoesOn) (hs : s.strike = some (surface, e)) :
    ∃ box t c, (surface, box) ∈ s.arena.surfaces ∧ s.Contact e box t c ∧
      ∃ r u, s.remaining.Is r ∧ (s.contactTime e).Is u ∧ 0 ≤ u ∧ u ≤ r ∧ r ≤ 1 / 30 := by
  obtain ⟨box, hmem, hentry⟩ := mem_surfaces_of_strike hs
  obtain ⟨q, hq, hq2⟩ := h.reach hg
  obtain ⟨t, ht, h0, htq⟩ := Box.entry_distance hentry hq
  obtain ⟨c, hc, hc0, hct⟩ := h.contact ht h0 (htq.trans hq2)
  obtain ⟨r, hr, -, hr'⟩ := h.remaining
  obtain ⟨u, hu, hu0, hur⟩ := h.contactTime hg hr
  exact ⟨box, t, c, hmem, ⟨hentry, ht, hc, hc0, hct, hct.trans (htq.trans hq2)⟩, r, u, hr, hu, hu0,
    hur, hr'⟩

/-- A pass keeps the bounds. -/
theorem Sound.meet (h : s.Sound) (hg : s.GoesOn) (hs : s.strike = some (surface, e)) :
    (s.meet surface e).Sound := by
  obtain ⟨box, t, c, hmem, hc, r, u, hr, hu, hu0, hur, hr1⟩ := h.strike hg hs
  have htravel := h.ball.travel hc.contact hc.nonneg hc.le_two
  cases surface with
  | trigger side level => exact ⟨h.params, h.ball, h.paddle, h.side, h.remaining⟩
  | wall =>
    obtain ⟨k, f, σ, a, hf, hσ, hn, -, -⟩ := h.ball.entry_face hc.entry
    have hbounce := hn ▸ htravel.bounce_face k hf hσ
    exact (h.ballDid hbounce _).spend hr hu hu0 hur
  | goal owner => exact (h.ballDid htravel.stop _).spend hr hu hu0 hur
  | paddle side =>
    have hmet := (h.paddle side).advance hu hu0 (by linarith)
    simp only [Sweep.meet]
    split
    · rename_i n hn
      rw [h.params] at hn
      obtain ⟨k, f, σ, hf, hσ, rfl, -⟩ := Ball.contactNormal_face htravel hmet hn
      exact (h.ballDid (htravel.bounce_face k hf hσ).accelerate _).spend hr hu hu0 hur
    · exact (h.ballDid htravel.stop _).spend hr hu hu0 hur

theorem spend_ball (s : Sweep) (seconds : Scalar) :
    (s.spend seconds).arena.ball = s.arena.ball :=
  Arena.advancePaddles_ball ..

theorem Sound.leaves_wall (h : s.Sound) (hg : s.GoesOn) (hs : s.strike = some (.wall, e))
    (hb : s.bounce? .wall e = some b) : b.Leaves := by
  obtain ⟨box, t, c, -, hc, -⟩ := h.strike hg hs
  have htravel := h.ball.travel hc.contact hc.nonneg hc.le_two
  obtain ⟨k, f, σ, a, hf, hσ, hn, ha, hfacing⟩ := h.ball.entry_face hc.entry
  have hturn := (htravel.turns k hf hσ ha).1 hfacing
  obtain rfl := Option.some.inj hb
  unfold Bounce.Leaves
  simp only [Sweep.meet, spend_ball, hn]
  exact hturn

/-- A ball that is not moving toward a face of the paddle that it strikes does not come to lie
beyond that face as it stood before. -/
theorem Sound.not_beyond {side : Side} {t c a σ : ℝ} {f : Scalar} (h : s.Sound)
    (hc : s.Contact e (s.arena.paddles.get side).body t c) (k : Axis) (hf : f.Is σ)
    (hσ : σ = 1 ∨ σ = -1) (ha : (s.arena.ball.direction.along k).Is a) (ha2 : |a| ≤ 2)
    (haway : 0 ≤ σ * a) : (s.arena.paddles.get side).body.beyond (k.face f)
      (s.arena.ball.travel (s.contact e)).position ≤ slack := by
  obtain ⟨l, m, hspan⟩ := (h.paddle side).spans k
  obtain ⟨p, hp, hp'⟩ := h.ball.position k
  obtain ⟨d₁, d₂, hdir, hunit⟩ := h.ball.direction
  have hgiven : (s.arena.paddles.get side).body.Given s.arena.ball.position
      s.arena.ball.direction := by
    refine ⟨(h.paddle side).spans, h.ball.position, fun k => ?_⟩
    obtain ⟨a, ha, -⟩ := hdir.along hunit k
    exact ⟨a, ha⟩
  obtain ⟨hthere, -⟩ := Ball.travel_along hc.contact hc.nonneg hc.le_two hp hp' ha ha2
  have hle := Box.le_of_entry hc.entry hgiven hc.distance hspan hp hp' ha ha2 hc.nonneg hc.le
    hc.le_two hσ haway
  rw [Box.beyond_face hf hthere hspan.low hspan.high]
  linarith

theorem Sound.leaves_or_overtaken (h : s.Sound) (hg : s.GoesOn) {side : Side}
    (hs : s.strike = some (.paddle side, e)) (hb : s.bounce? (.paddle side) e = some b) :
    b.Leaves ∨ b.Overtaken := by
  obtain ⟨box, t, c, hmem, hc, r, u, hr, hu, hu0, hur, hr1⟩ := h.strike hg hs
  obtain rfl := Arena.body_of_mem_surfaces h.side hmem
  have htravel := h.ball.travel hc.contact hc.nonneg hc.le_two
  have hmet := (h.paddle side).advance hu hu0 (by linarith)
  obtain ⟨n, hn, rfl⟩ := Option.map_eq_some_iff.mp hb
  have hnormal := hn
  rw [h.params] at hnormal
  obtain ⟨k, f, σ, hf, hσ, rfl, hbeyond⟩ := Ball.contactNormal_face htravel hmet hnormal
  obtain ⟨d₁, d₂, hdir, hunit⟩ := h.ball.direction
  obtain ⟨a, ha, ha2⟩ := hdir.along hunit k
  obtain ⟨haway, hon⟩ := htravel.turns k hf hσ ha
  unfold Bounce.Leaves Bounce.Overtaken
  simp only [Sweep.meet, hn, spend_ball]
  rcases lt_or_ge (σ * a) 0 with hlt | hge
  · exact .inl (haway hlt)
  · obtain ⟨hbefore, hafter⟩ := hon hge
    exact .inr ⟨_, _, rfl, hbefore, hafter, h.not_beyond hc k hf hσ ha ha2 hge, hbeyond⟩

/-- A pass that ends with a bounce. -/
theorem Sound.bounce? (h : s.Sound) (hg : s.GoesOn) (hs : s.strike = some (surface, e))
    (hb : s.bounce? surface e = some b) :
    (b.incident = .wall → b.Leaves) ∧ (b.Leaves ∨ b.Overtaken) := by
  cases surface with
  | wall =>
    have hleaves := h.leaves_wall hg hs hb
    exact ⟨fun _ => hleaves, .inl hleaves⟩
  | paddle side =>
    refine ⟨fun hwall => ?_, h.leaves_or_overtaken hg hs hb⟩
    obtain ⟨n, -, rfl⟩ := Option.map_eq_some_iff.mp hb
    cases hwall
  | goal owner => cases hb
  | trigger side level => cases hb

theorem Sound.bounces {passes : ℕ} (h : s.Sound) : ∀ b ∈ bounces passes s,
    (b.incident = .wall → b.Leaves) ∧ (b.Leaves ∨ b.Overtaken) := by
  induction passes generalizing s with
  | zero => simp [Sweep.bounces]
  | succ passes ih =>
    intro b hb
    unfold Sweep.bounces at hb
    split at hb
    · rename_i hg
      split at hb
      · cases hb
      · rename_i surface e hs
        rcases List.mem_append.mp hb with hb | hb
        · exact h.bounce? hg hs (Option.mem_toList.mp hb)
        · exact ih (h.meet hg hs) b hb
    · cases hb

end Sweep

/-! Arenas in play. -/

/-- A direction of length one, up to rounding. -/
structure Vec.Unitary (v : Vec) : Prop where
  x : -1.001 ≤ v.x ∧ v.x ≤ 1.001
  y : -1.001 ≤ v.y ∧ v.y ≤ 1.001
  dot_self : 0.999 ≤ v.dot v ∧ v.dot v ≤ 1.001

/-- A ball anywhere between the walls and the goal lines. -/
structure Ball.InPlay (b : Ball) (p : Params) : Prop where
  radius : b.radius = p.ballRadius
  maxSpeed : b.maxSpeed = p.maxSpeed
  acceleration : b.acceleration = p.acceleration
  speed : p.minSpeed ≤ b.speed ∧ b.speed ≤ p.maxSpeed
  x : -(p.width / 2) ≤ b.position.x ∧ b.position.x ≤ p.width / 2
  y : -(p.height / 2) ≤ b.position.y ∧ b.position.y ≤ p.height / 2
  direction : b.direction.Unitary

/-- A paddle anywhere between its limits, going either way or resting. -/
structure Paddle.InPlay (q : Paddle) (side : Side) (p : Params) : Prop where
  built : ∃ y direction, q = { Paddle.ofParams side p with
    position := { (Paddle.ofParams side p).position with y }
    direction }
  y : -q.travelLimit ≤ q.position.y ∧ q.position.y ≤ q.travelLimit
  direction : q.direction = -1 ∨ q.direction = 0 ∨ q.direction = 1

/-- An arena with the default measures. -/
structure Arena.InPlay (a : Arena) : Prop where
  params : a.params = {}
  ball : a.ball.InPlay a.params
  paddle : ∀ side, (a.paddles.get side).InPlay side a.params

theorem Vec.Unitary.near {v : Vec} (h : v.Unitary) : ∃ a b, v.Is a b ∧ NearUnit a b := by
  obtain ⟨hi, hhi, hhi'⟩ : ∃ c, (1.001 : Scalar).Is c ∧ c ≤ 1002 / 1000 :=
    ⟨_, is_literal (m := 8396997) (e := -23) rfl rfl, by norm_num⟩
  obtain ⟨lo, hlo, hlo'⟩ : ∃ c, (0.999 : Scalar).Is c ∧ 998 / 1000 ≤ c :=
    ⟨_, is_literal (m := 16760439) (e := -24) rfl rfl, by norm_num⟩
  obtain ⟨a, ha, ha1, ha2⟩ := is_of_between hhi.neg hhi h.x.1 h.x.2
  obtain ⟨b, hb, hb1, hb2⟩ := is_of_between hhi.neg hhi h.y.1 h.y.2
  obtain ⟨q, hq, hq1, hq2⟩ := is_of_between hlo hhi h.dot_self.1 h.dot_self.2
  have haa : |a * a| ≤ 8 := sq_le_eight (abs_le.mpr ⟨by linarith, by linarith⟩)
  have hbb : |b * b| ≤ 8 := sq_le_eight (abs_le.mpr ⟨by linarith, by linarith⟩)
  obtain ⟨hna, hna'⟩ := abs_le.mp (rnd_near haa)
  obtain ⟨hnb, hnb'⟩ := abs_le.mp (rnd_near hbb)
  have hsum : |rnd (a * a) + rnd (b * b)| ≤ 8 := abs_le.mpr ⟨by nlinarith, by nlinarith⟩
  obtain ⟨hns, hns'⟩ := abs_le.mp (rnd_near hsum)
  have hdot := (ha.mul ha (fits_of_le_eight haa)).add (hb.mul hb (fits_of_le_eight hbb))
    (fits_of_le_eight hsum)
  obtain rfl := hq.unique hdot
  exact ⟨a, b, ⟨ha, hb⟩, abs_le.mpr ⟨by linarith, by linarith⟩⟩

theorem Ball.InPlay.sound {b : Ball} (h : b.InPlay {}) : b.Sound := by
  have hw : (({} : Params).width / 2).Is 10 :=
    is_literal (m := 10485760) (e := -20) rfl (by norm_num)
  have hh : (({} : Params).height / 2).Is 6 :=
    is_literal (m := 12582912) (e := -21) rfl (by norm_num)
  refine ⟨h.radius, h.maxSpeed, h.acceleration,
    is_of_between is_minSpeed is_maxSpeed h.speed.1 h.speed.2, fun k => ?_, h.direction.near⟩
  cases k with
  | x =>
    obtain ⟨c, hc, hlow, hhigh⟩ := is_of_between hw.neg hw h.x.1 h.x.2
    refine ⟨c, hc, (abs_le.mpr ⟨hlow, hhigh⟩).trans (by norm_num)⟩
  | y =>
    obtain ⟨c, hc, hlow, hhigh⟩ := is_of_between hh.neg hh h.y.1 h.y.2
    refine ⟨c, hc, (abs_le.mpr ⟨hlow, hhigh⟩).trans (by norm_num)⟩

theorem Paddle.InPlay.sound {q : Paddle} {side : Side} (h : q.InPlay side {}) :
    q.Sound ∧ q.side = side := by
  obtain ⟨⟨y, direction, rfl⟩, hy, hdir⟩ := h
  have hlimit : ∃ l, (Paddle.ofParams side {}).travelLimit.Is l ∧ 0 ≤ l ∧ l ≤ 9 := by
    cases side <;>
      exact is_of_between is_zero is_paddleSpeed (by decide +kernel) (by decide +kernel)
  have hx : ∃ c, (Paddle.ofParams side {}).position.x.Is c ∧ -9 ≤ c ∧ c ≤ 9 := by
    cases side <;>
      exact is_of_between is_paddleSpeed.neg is_paddleSpeed (by decide +kernel) (by decide +kernel)
  obtain ⟨l, hl, h0, h9⟩ := hlimit
  obtain ⟨x, hx, hx1, hx2⟩ := hx
  obtain ⟨c, hc, hlow, hhigh⟩ := is_of_between hl.neg hl hy.1 hy.2
  refine ⟨⟨rfl, rfl, hdir, ⟨l, hl, h0, by linarith⟩, fun k => ?_⟩, rfl⟩
  cases k with
  | x => exact ⟨x, hx, abs_le.mpr ⟨by linarith, by linarith⟩⟩
  | y => exact ⟨c, hc, abs_le.mpr ⟨by linarith, by linarith⟩⟩

theorem Arena.InPlay.sound {a : Arena} {seconds : Scalar} (h : a.InPlay) (h0 : ¬ seconds ≤ 0)
    (h1 : seconds ≤ 0.033) : (Sweep.start a seconds).Sound := by
  obtain ⟨hparams, hball, hpaddle⟩ := h
  rw [hparams] at hball hpaddle
  obtain ⟨c, hc, hc'⟩ : ∃ c, (0.033 : Scalar).Is c ∧ c ≤ 1 / 30 :=
    ⟨_, is_literal (m := 8858370) (e := -28) rfl rfl, by norm_num⟩
  refine ⟨hparams, hball.sound, fun side => (hpaddle side).sound.1,
    fun side => (hpaddle side).sound.2, ?_⟩
  have hnan := (isNaN_of_le h1).1
  rw [le_iff_ext hnan is_zero.isNaN, is_zero.ext, not_le] at h0
  rw [le_iff_ext hnan hc.isNaN, hc.ext] at h1
  obtain ⟨r, hr, hr0, hrc⟩ := is_of_ext hnan h0.le h1
  exact ⟨r, hr, hr0, hrc.trans hc'⟩

namespace Arena

/-- Whatever the ball bounces off, a wall or a paddle, it was moving toward it before and moves away
from it afterwards, unless it was overtaken by the paddle. -/
theorem bounce_leaves_unless_overtaken {a : Arena} {seconds : Scalar} (h : a.InPlay)
    (hs : seconds ≤ 0.033) :
    (a.bounces seconds).map Bounce.incident =
        (a.sweep seconds).incidents.filter Incident.bounced ∧
      ∀ b ∈ a.bounces seconds,
        (b.incident = .wall → b.Leaves) ∧ (b.Leaves ∨ b.Overtaken) := by
  refine ⟨(filter_sweep seconds a).symm, fun b hb => ?_⟩
  unfold bounces at hb
  split at hb
  · cases hb
  · rename_i h0
    split at hb
    · cases hb
    · split at hb
      · cases hb
      · exact (h.sound h0 hs).bounces b hb

end Arena

/-! A ball that is overtaken. -/

namespace Paddle

/-- The triggers of the default paddle are listed from the outermost one on. -/
theorem triggerOffsets_default (side : Side) :
    (Paddle.ofParams side {}).triggerOffsets = [1.5, 0.8, 0.3] := by
  have hfilter : ([1.5, 0.8, 0.3] : List Scalar).filter (fun offset => 0 < offset) =
      [1.5, 0.8, 0.3] := by decide +kernel
  have hsorted : ([1.5, 0.8, 0.3] : List Scalar).Pairwise fun a b => b.rank ≤ a.rank := by
    decide +kernel
  change List.mergeSort (([1.5, 0.8, 0.3] : List Scalar).filter fun offset => 0 < offset) _ = _
  rw [hfilter]
  exact List.mergeSort_of_pairwise (by simpa using hsorted)

/-- The default paddle of a side at some height, going some way, with its triggers in order. -/
def placed (side : Side) (y : Scalar) (direction : Int8) : Paddle :=
  let paddle := Paddle.ofParams side { triggerOffsets := [] }
  { paddle with
    position := { paddle.position with y }
    direction
    triggerOffsets := [1.5, 0.8, 0.3] }

theorem placed_inPlay {side : Side} {y : Scalar} {direction : Int8}
    (hy : -(placed side y direction).travelLimit ≤ y ∧ y ≤ (placed side y direction).travelLimit)
    (hd : direction = -1 ∨ direction = 0 ∨ direction = 1) :
    (placed side y direction).InPlay side {} := by
  refine ⟨⟨y, direction, ?_⟩, hy, hd⟩
  have hsame : placed side y direction =
      { placed side y direction with
        triggerOffsets := (Paddle.ofParams side {}).triggerOffsets } := by
    rw [triggerOffsets_default]
    rfl
  rw [hsame]
  cases side <;> rfl

end Paddle

namespace Arena

/-- The ball comes to the face of the right paddle near its lower end, and the paddle moves up. -/
def slipping : Arena :=
  { Arena.ofParams {} with
    ball := { Ball.ofParams {} with
      position := ⟨7.9375, -1.625⟩
      direction := ⟨0.9486834, -0.3162278⟩
      speed := 22
      moving := true }
    paddles := ⟨.placed .left 0 0, .placed .right (-0.75) 1⟩ }

theorem slipping_inPlay : slipping.InPlay := by
  refine ⟨rfl, ⟨rfl, rfl, rfl, ?_, ?_, ?_, ⟨?_, ?_, ?_⟩⟩, fun side => ?_⟩
  case refine_7 =>
    cases side with
    | left => exact Paddle.placed_inPlay (by decide +kernel) (.inr (.inl rfl))
    | right => exact Paddle.placed_inPlay (by decide +kernel) (.inr (.inr rfl))
  all_goals decide +kernel

/-- At the contact the lower end of the paddle has passed the center of the ball. The nearest face
is the one below, which the ball moves away from, and it is turned toward that face. -/
theorem bounce_leaves_unless_overtaken_slipping :
    slipping.InPlay ∧ (0.033 : Scalar) ≤ 0.033 ∧
      (slipping.sweep 0.033).incidents.filter Incident.bounced = [.hit .right] ∧
      ∃ b ∈ slipping.bounces 0.033, b.normal = ⟨0, -1⟩ ∧ ¬ b.Leaves ∧ b.Overtaken := by
  have hs : (0.033 : Scalar) ≤ 0.033 := by decide +kernel
  have hb : (slipping.bounces 0.033).map (fun b => (b.incident, b.normal,
      decide (b.before.dot b.normal < 0))) = [(.hit .right, ⟨0, -1⟩, false)] := by decide +kernel
  obtain ⟨hincidents, hall⟩ := bounce_leaves_unless_overtaken slipping_inPlay hs
  obtain ⟨b, hone, hb⟩ := List.map_eq_singleton_iff.mp hb
  obtain ⟨hincident, hnormal, hbefore⟩ : b.incident = .hit .right ∧ b.normal = ⟨0, -1⟩ ∧
      decide (b.before.dot b.normal < 0) = false := by simpa using hb
  rw [hone] at hincidents hall ⊢
  have hnot : ¬ b.Leaves := fun h => of_decide_eq_false hbefore h.1
  have hmem : b ∈ [b] := List.mem_singleton_self b
  refine ⟨slipping_inPlay, hs, ?_, b, hmem, hnormal, hnot, (hall b hmem).2.resolve_left hnot⟩
  rw [← hincidents, List.map_singleton, hincident]

end Arena
end Rally
