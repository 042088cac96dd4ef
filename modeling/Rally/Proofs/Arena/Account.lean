import Rally.Proofs.Arena.Bounces
import Rally.Proofs.Arena.Frame
import Rally.Proofs.Arena.Halting
import Rally.Proofs.Arena.Observers

/-! What happens in a sweep accounts for all that becomes of the ball. -/
namespace Rally

/-- Whether a paddle hit the ball. -/
def Incident.isHit : Incident → Bool
  | .hit _ => true
  | _ => false

namespace Ball
variable {b c d : Ball}

/-- The same ball elsewhere, on its way or at rest. -/
def Flown (b c : Ball) : Prop :=
  ∃ position direction moving resumeAt, c = { b with position, direction, moving, resumeAt }

theorem Flown.refl (b : Ball) : b.Flown b := ⟨_, _, _, _, rfl⟩

theorem Flown.trans (hbc : b.Flown c) (hcd : c.Flown d) : b.Flown d := by
  obtain ⟨_, _, _, _, rfl⟩ := hbc
  obtain ⟨position, direction, moving, resumeAt, rfl⟩ := hcd
  exact ⟨position, direction, moving, resumeAt, rfl⟩

/-- Speeding up makes the same of the ball wherever it is. -/
theorem Flown.accelerate (h : b.Flown c) : b.accelerate.Flown c.accelerate := by
  obtain ⟨position, direction, moving, resumeAt, rfl⟩ := h
  exact ⟨position, direction, moving, resumeAt, rfl⟩

theorem flown_travel (b : Ball) (distance : Scalar) : b.Flown (b.travel distance) :=
  ⟨_, _, _, _, rfl⟩

theorem flown_bounce (b : Ball) (normal : Vec) : b.Flown (b.bounce normal) := ⟨_, _, _, _, rfl⟩

theorem flown_stop (b : Ball) : b.Flown b.stop := ⟨_, _, _, _, rfl⟩

/-- Only a paddle hit makes another ball of it. -/
theorem Met.flown {i : Incident} (h : b.Met i c) :
    (if i.isHit then b.accelerate else b).Flown c := by
  cases h with
  | trigger => exact .refl b
  | wall normal => exact flown_bounce b normal
  | hit side normal => exact (flown_bounce b normal).accelerate
  | goal | stuck => exact flown_stop b

theorem Met.direction {i : Incident} (h : b.Met i c) (hi : i.bounced = false) :
    c.direction = b.direction := by
  cases h with
  | trigger | goal | stuck => rfl
  | wall | hit => cases hi

/-- Paddle hits change the speed of a ball and nothing else. -/
theorem iterate_accelerate (b : Ball) (hits : Nat) :
    Ball.accelerate^[hits] b = { b with speed := (Ball.accelerate^[hits] b).speed } := by
  induction hits with
  | zero => rfl
  | succ hits ih =>
    rw [Function.iterate_succ_apply', ih]
    rfl

end Ball

/-- The ball is as the incidents have made it, and has its first direction if none was a bounce. -/
structure Played.Follows (a : Arena) (p : Played) : Prop where
  flown : (Ball.accelerate^[p.incidents.countP Incident.isHit] a.ball).Flown p.arena.ball
  direction : (∀ i ∈ p.incidents, i.bounced = false) → p.arena.ball.direction = a.ball.direction

theorem Played.Follows.did {a : Arena} {p : Played} {i : Incident} {b : Ball} (h : p.Follows a)
    (hb : p.arena.ball.Met i b) : (p.did i b).Follows a := by
  refine ⟨?_, fun hn => ?_⟩
  · rw [Played.did, List.countP_append, List.countP_singleton]
    refine .trans ?_ hb.flown
    split
    · rw [Function.iterate_succ_apply']
      exact h.flown.accelerate
    · exact h.flown
  · rw [Played.did, hb.direction (hn i (by simp [Played.did]))]
    exact h.direction fun j hj => hn j (List.mem_append_left _ hj)

/-- No trigger has been reported twice, since those that have been are left out of what the ball can
reach. -/
structure Sweep.ReportsOnce (s : Sweep) : Prop where
  nodup : (s.incidents.filter Incident.reported).Nodup
  crossed : ∀ side level, .trigger side level ∈ s.incidents → .trigger side level ∈ s.crossed

namespace Sweep
variable {s : Sweep} {surface : Surface} {e : Entry}

/-- A trigger that has been reported is not struck again. -/
theorem not_crossed_of_strike (h : s.strike = some (surface, e)) : surface ∉ s.crossed := by
  rw [strike_eq] at h
  obtain ⟨x, -, hx⟩ := List.mem_filterMap.mp (Scalar.mem_of_argmin h)
  have hsurface : surface = x.1 := sight_surface hx
  intro hc
  rw [sight, if_pos (hsurface ▸ hc)] at hx
  cases hx

theorem ReportsOnce.silent {t : Sweep} {i : Incident} (h : s.ReportsOnce)
    (hi : t.incidents = s.incidents ++ [i]) (hc : t.crossed = s.crossed)
    (hn : i.reported = false) : t.ReportsOnce := by
  refine ⟨?_, fun side level hm => ?_⟩
  · rw [hi, List.filter_append]
    simpa [hn] using h.nodup
  · rw [hi] at hm
    rcases List.mem_append.mp hm with hm | hm
    · exact hc ▸ h.crossed side level hm
    · rw [← List.mem_singleton.mp hm] at hn
      cases hn

theorem ReportsOnce.meet (h : s.ReportsOnce) (hs : s.strike = some (surface, e)) :
    (s.meet surface e).ReportsOnce := by
  cases surface with
  | trigger side level =>
    have hnew : .trigger side level ∉ s.incidents.filter Incident.reported := by
      intro hm
      exact not_crossed_of_strike hs (h.crossed side level (List.mem_filter.mp hm).1)
    refine ⟨?_, fun other n hm => ?_⟩
    · have hone : [Incident.trigger side level].filter Incident.reported =
          [.trigger side level] := rfl
      simp only [Sweep.meet, List.filter_append, hone]
      refine List.nodup_append.mpr ⟨h.nodup, List.nodup_singleton _, ?_⟩
      rintro i hi j hj rfl
      exact hnew (List.mem_singleton.mp hj ▸ hi)
    · rcases List.mem_append.mp hm with hm | hm
      · exact List.mem_cons_of_mem _ (h.crossed other n hm)
      · rw [List.mem_singleton] at hm
        cases hm
        exact List.mem_cons_self
  | wall => exact h.silent (i := .wall) rfl rfl rfl
  | goal owner => exact h.silent (i := .goal owner.opponent) rfl rfl rfl
  | paddle side =>
    simp only [Sweep.meet]
    split
    · exact h.silent (i := .hit side) rfl rfl rfl
    · exact h.silent (i := .stuck side) rfl rfl rfl

theorem reportsOnce_run (passes : Nat) (h : s.ReportsOnce) : (run passes s).ReportsOnce :=
  run_invariant (I := ReportsOnce) (fun _ hs => ⟨hs.nodup, hs.crossed⟩)
    (fun _ hstrike hs => hs.meet hstrike) passes h

theorem length_meet (s : Sweep) (surface : Surface) (e : Entry) :
    (s.meet surface e).incidents.length = s.incidents.length + 1 := by
  cases surface with
  | trigger | wall | goal => simp [meet, spend, ballDid]
  | paddle side =>
    simp only [meet]
    split <;> simp [spend, ballDid]

/-- There is at most one incident for each pass. -/
theorem length_run (passes : Nat) (s : Sweep) :
    (run passes s).incidents.length ≤ s.incidents.length + passes := by
  induction passes generalizing s with
  | zero => exact Nat.le_refl _
  | succ passes ih =>
    by_cases hg : s.GoesOn
    · cases hs : s.strike with
      | none =>
        rw [run_of_none hg hs]
        exact Nat.le_add_right ..
      | some x =>
        rw [run_of_strike hg hs]
        have := ih (s.meet x.1 x.2)
        rw [length_meet] at this
        omega
    · rw [run_of_not_goesOn hg]
      exact Nat.le_add_right ..

end Sweep

namespace Arena
variable {a : Arena} {seconds : Scalar}

theorem follows_sweep (seconds : Scalar) (a : Arena) : (a.sweep seconds).Follows a := by
  refine sweep_invariant (I := fun p => p.Follows a) ?_ ?_ ?_ seconds ⟨.refl _, fun _ => rfl⟩
  · intro p seconds hp
    refine ⟨?_, ?_⟩
    · simpa [Played.adjust] using hp.flown
    · simpa [Played.adjust] using hp.direction
  · intro p distance _ hp
    exact ⟨hp.flown.trans (Ball.flown_travel ..), hp.direction⟩
  · intro p i b _ hp hb
    exact hp.did hb

/-- The sweep that an arena makes has no more incidents than passes, and none is reported twice. -/
theorem reports_sweep (seconds : Scalar) (a : Arena) :
    (a.sweep seconds).incidents.length ≤ max 1 a.params.maxPasses ∧
      ((a.sweep seconds).incidents.filter Incident.reported).Nodup := by
  by_cases hs : seconds ≤ 0
  · simp [sweep, hs, Played.start]
  · cases hm : a.ball.moving with
    | false =>
      rw [sweep_of_rest hs hm]
      simp [Played.start]
    | true =>
      cases hg : a.goals.find? (·.bounds.contains a.ball.position) with
      | some goal =>
        rw [sweep_of_goal hs hm hg]
        simp [Incident.reported]
      | none =>
        rw [sweep_of_run hs hm hg]
        have hstart : (Sweep.start a seconds).ReportsOnce := ⟨List.nodup_nil, by simp [Sweep.start]⟩
        have hlength := Sweep.length_run a.params.maxPasses (.start a seconds)
        refine ⟨?_, (Sweep.reportsOnce_run a.params.maxPasses hstart).nodup⟩
        simp only [Sweep.start, List.length_nil, Nat.zero_add] at hlength
        exact Nat.le_trans hlength (Nat.le_max_right ..)

/-- A sweep stops a ball just if the last thing that happens in it does. -/
theorem stopped_iff (seconds : Scalar) (a : Arena) :
    (a.ball.moving = true ∧ (a.sweep seconds).arena.ball.moving = false) ↔
      ∃ i, (a.sweep seconds).incidents.getLast? = some i ∧ i.halts = true := by
  have hl := stopsLast_sweep seconds a
  constructor
  · rintro ⟨hm, hstop⟩
    rcases going_sweep seconds hm with hgo | ⟨i, hi, hs⟩
    · simp [hgo] at hstop
    · exact ⟨i, hl.getLast? hi hs, hs⟩
  · rintro ⟨i, hi, hs⟩
    have hmem := List.mem_of_getLast? hi
    refine ⟨?_, ((Ball.not_live_iff _).mp (hl.rests i hmem hs)).1⟩
    by_contra hm
    have hnone := (rests_sweep seconds (by simpa using hm)).1
    rw [hnone] at hmem
    cases hmem

end Arena

/-- What has happened accounts for what has become of an arena. -/
structure Played.Accounts (a : Arena) (p : Played) : Prop where
  length : p.incidents.length ≤ max 1 a.params.maxPasses
  /-- No trigger is reported twice. -/
  reports : (p.incidents.filter Incident.reported).Nodup
  speed : p.arena.ball.speed =
    (Ball.accelerate^[p.incidents.countP Incident.isHit] a.ball).speed
  direction : (∀ i ∈ p.incidents, i.bounced = false) → p.arena.ball.direction = a.ball.direction
  stopped : (a.ball.moving = true ∧ p.arena.ball.moving = false) ↔
    ∃ i, p.incidents.getLast? = some i ∧ i.halts = true
  minSpeed : p.arena.ball.minSpeed = a.ball.minSpeed
  maxSpeed : p.arena.ball.maxSpeed = a.ball.maxSpeed
  acceleration : p.arena.ball.acceleration = a.ball.acceleration
  radius : p.arena.ball.radius = a.ball.radius
  /-- All else is as it was, but for the places of the paddles on their way. -/
  moved : a.Moved p.arena

/-- Whatever the arena is and however long a sweep: at most one thing happens for each pass that is
allowed, and no trigger reports the ball twice. The ball is faster by just its paddle hits, has
turned only if it has bounced, and has stopped just if that is the last that happened. Nothing else
changes but the heights of the paddles. -/
theorem Arena.incidents_account (a : Arena) (seconds : Scalar) :
    (a.sweep seconds).Accounts a := by
  obtain ⟨hlength, hreports⟩ := reports_sweep seconds a
  obtain ⟨hflown, hdirection⟩ := follows_sweep seconds a
  obtain ⟨_, _, _, _, hball⟩ := hflown
  have hlimits := Ball.iterate_accelerate a.ball ((a.sweep seconds).incidents.countP Incident.isHit)
  refine ⟨hlength, hreports, ?_, hdirection, stopped_iff seconds a, ?_, ?_, ?_, ?_,
    .sweep a seconds⟩
  · rw [hball]
  all_goals
    rw [hball, hlimits]

end Rally
