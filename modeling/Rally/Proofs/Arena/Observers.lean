import Rally.Proofs.Arena.Laws
import Rally.Proofs.Arena.Passes

/-! Triggers report the ball and do nothing to it: an arena without them goes the same way. -/
namespace Rally

/-! Taking the triggers away. -/

/-- The paddle without its triggers. -/
def Paddle.bare (p : Paddle) : Paddle := { p with triggerOffsets := [] }

/-- The arena without its triggers. -/
def Arena.bare (a : Arena) : Arena := { a with paddles := a.paddles.map Paddle.bare }

/-- Whether an incident is the report of a trigger. -/
def Incident.reported : Incident → Bool
  | .trigger _ _ => true
  | _ => false

/-- What is left when the triggers and their reports are taken away. -/
def Played.bare (p : Played) : Played :=
  ⟨p.arena.bare, p.incidents.filter fun i => !i.reported⟩

/-- Whether a surface is that of a trigger. -/
def Surface.ofTrigger : Surface → Bool
  | .trigger _ _ => true
  | _ => false

/-- The sweep without triggers that has come as far. -/
def Sweep.bare (s : Sweep) : Sweep :=
  { toPlayed := s.toPlayed.bare, remaining := s.remaining, crossed := [] }

/-! Sweeps that come to an end by themselves. -/

/-- Whether nothing is left to do after at most so many passes, so that they are not cut short. -/
def Sweep.settles : Nat → Sweep → Bool
  | 0, s => ¬ s.GoesOn
  | passes + 1, s =>
    if s.GoesOn then
      match s.strike with
      | none => true
      | some (surface, e) => settles passes (s.meet surface e)
    else true

/-- A sweep of the arena is not cut short by the limit on its passes. -/
def Arena.Settles (seconds : Scalar) (a : Arena) : Prop :=
  seconds ≤ 0 ∨ a.ball.moving = false ∨ (a.goals.find? (·.bounds.contains a.ball.position)).isSome ∨
    Sweep.settles a.params.maxPasses (.start a seconds) = true

instance (a : Arena) (seconds : Scalar) : Decidable (a.Settles seconds) :=
  inferInstanceAs (Decidable (_ ∨ _))

variable {a : Arena} {s : Sweep} {p : Played}

/-! What stays when the triggers are taken away. -/

theorem Paddle.surfaces_bare (p : Paddle) :
    p.bare.surfaces = p.surfaces.filter fun x => !x.1.ofTrigger := by
  have hnone : (p.triggers.map fun t => (Surface.trigger p.side t.level, t.bounds)).filter
      (fun x => !x.1.ofTrigger) = [] := by
    simp [Surface.ofTrigger]
  rw [surfaces, surfaces, List.filter_cons_of_pos (by rfl), hnone]
  rfl

theorem Arena.bare_ball (a : Arena) : a.bare.ball = a.ball := rfl

theorem Arena.surfaces_bare (a : Arena) :
    a.bare.surfaces = a.surfaces.filter fun x => !x.1.ofTrigger := by
  have hwalls : (a.walls.map (Surface.wall, ·)).filter (fun x => !x.1.ofTrigger) =
      a.walls.map (Surface.wall, ·) := by
    simp [List.filter_eq_self, Surface.ofTrigger]
  have hgoals : (a.goals.map fun g => (Surface.goal g.owner, g.bounds)).filter
      (fun x => !x.1.ofTrigger) = a.goals.map fun g => (Surface.goal g.owner, g.bounds) := by
    simp [List.filter_eq_self, Surface.ofTrigger]
  simp only [surfaces, List.filter_append, hwalls, hgoals, ← Paddle.surfaces_bare]
  rfl

theorem Arena.bare_advancePaddles (a : Arena) (seconds : Scalar) :
    (a.advancePaddles seconds).bare = a.bare.advancePaddles seconds := by
  unfold advancePaddles
  split <;> rfl

theorem Arena.bare_steerAll (side : Side) (after : Nat) (xs : List Sample) (a : Arena) :
    (a.steerAll side after xs).bare = a.bare.steerAll side after xs := by
  unfold steerAll
  induction xs generalizing a with
  | nil => rfl
  | cons x xs ih =>
    rw [List.foldl_cons, List.foldl_cons, ih]
    congr 1
    split
    · cases side <;> rfl
    · rfl

theorem Played.bare_adjust {f g : Arena → Arena} (h : (f p.arena).bare = g p.arena.bare) :
    (p.adjust f).bare = p.bare.adjust g := by
  simp [adjust, bare, h]

theorem Played.bare_andThen {f g : Arena → Played} (h : (f p.arena).bare = g p.arena.bare) :
    (p.andThen f).bare = p.bare.andThen g := by
  simp [andThen, bare, ← h]

namespace Sweep

theorem bare_ballDid (f : Ball → Ball) {i : Incident} (h : i.reported = false) :
    (s.ballDid f i).bare = s.bare.ballDid f i := by
  simp [ballDid, bare, Played.bare, List.filter_append, h, Arena.bare]

theorem bare_spend (seconds : Scalar) : (s.spend seconds).bare = s.bare.spend seconds := by
  simp [spend, bare, Played.bare, Arena.bare_advancePaddles]

theorem bare_glide : s.glide.bare = s.bare.glide := by
  simp only [glide, bare, Played.bare, Arena.bare_advancePaddles]
  rfl

theorem bare_finish (s : Sweep) : s.finish.bare = s.bare.finish :=
  Played.bare_adjust (Arena.bare_advancePaddles _ _)

/-! One pass of both sweeps. -/

theorem sight_surface {x : Surface × Box} {e : Surface × Entry} (h : s.sight x = some e) :
    e.1 = x.1 := by
  unfold sight at h
  split at h
  · cases h
  · obtain ⟨_, -, rfl⟩ := Option.map_eq_some_iff.mp h
    rfl

/-- Only triggers have been crossed. -/
def CrossedTriggers (s : Sweep) : Prop := ∀ x ∈ s.crossed, x.ofTrigger = true

theorem sight_bare (h : s.CrossedTriggers) {x : Surface × Box} (hx : x.1.ofTrigger = false) :
    s.bare.sight x = s.sight x := by
  have hc : x.1 ∉ s.crossed := by
    intro hm
    simp [h x.1 hm] at hx
  unfold sight
  rw [if_neg hc, if_neg (by simp [bare])]
  rfl

/-- Without triggers the ball sees the other surfaces just as with them. -/
theorem sights_bare (h : s.CrossedTriggers) : s.bare.arena.surfaces.filterMap s.bare.sight =
    (s.arena.surfaces.filterMap s.sight).filter fun e => !e.1.ofTrigger := by
  change s.arena.bare.surfaces.filterMap s.bare.sight = _
  rw [Arena.surfaces_bare]
  induction s.arena.surfaces with
  | nil => rfl
  | cons x xs ih =>
    cases hx : x.1.ofTrigger with
    | true =>
      rw [List.filter_cons_of_neg (by simp [hx]), ih]
      cases hs : s.sight x with
      | none => rw [List.filterMap_cons_none hs]
      | some e =>
        rw [List.filterMap_cons_some hs, List.filter_cons_of_neg]
        simp [sight_surface hs, hx]
    | false =>
      rw [List.filter_cons_of_pos (by simp [hx])]
      have hb := sight_bare h hx
      cases hs : s.sight x with
      | none => rw [List.filterMap_cons_none (hb.trans hs), List.filterMap_cons_none hs, ih]
      | some e =>
        rw [List.filterMap_cons_some (hb.trans hs), List.filterMap_cons_some hs, ih,
          List.filter_cons_of_pos]
        simp [sight_surface hs, hx]

theorem strike_bare_none (h : s.CrossedTriggers) (hs : s.strike = none) : s.bare.strike = none := by
  rw [strike_eq, Scalar.argmin_eq_none] at hs ⊢
  rw [sights_bare h, hs]
  rfl

/-- What the ball strikes with triggers around it strikes without them, if it is not one of them. -/
theorem strike_bare (h : s.CrossedTriggers) {surface : Surface} {e : Entry}
    (hs : s.strike = some (surface, e)) (ht : surface.ofTrigger = false) :
    s.bare.strike = some (surface, e) := by
  rw [strike_eq] at hs ⊢
  rw [sights_bare h]
  exact Scalar.argmin_filter hs (by simp [ht])

theorem meet_trigger {surface : Surface} (ht : surface.ofTrigger = true) (e : Entry) :
    (s.meet surface e).bare = s.bare := by
  cases surface with
  | trigger side level => simp [meet, bare, Played.bare, Incident.reported]
  | wall | goal | paddle => cases ht

theorem bare_meet {surface : Surface} (ht : surface.ofTrigger = false) (e : Entry) :
    (s.meet surface e).bare = s.bare.meet surface e := by
  cases surface with
  | trigger side level => cases ht
  | wall =>
    simp only [meet]
    rw [bare_spend, bare_ballDid _ rfl]
    rfl
  | goal owner =>
    simp only [meet]
    rw [bare_spend, bare_ballDid _ rfl]
    rfl
  | paddle side =>
    -- The paddle at the contact has the same solid part, so the fan finds the same normal.
    have hpaddle : (s.bare.arena.paddles.get side).advance (s.bare.contactTime e) =
        ((s.arena.paddles.get side).advance (s.contactTime e)).bare := by
      cases side <;> rfl
    have hnormal : (s.bare.arena.ball.travel (s.bare.contact e)).contactNormal
        ((s.bare.arena.paddles.get side).advance (s.bare.contactTime e)) s.bare.arena.params =
        (s.arena.ball.travel (s.contact e)).contactNormal
          ((s.arena.paddles.get side).advance (s.contactTime e)) s.arena.params := by
      rw [hpaddle]
      rfl
    simp only [meet, hnormal, bare_spend]
    split
    · rw [bare_ballDid _ rfl]
      rfl
    · rw [bare_ballDid _ rfl]
      rfl

theorem crossed_meet (h : s.CrossedTriggers) (surface : Surface) (e : Entry) :
    (s.meet surface e).CrossedTriggers := by
  cases surface with
  | trigger side level =>
    intro x hx
    rcases List.mem_cons.mp hx with rfl | hx
    · rfl
    · exact h x hx
  | wall | goal owner => exact h
  | paddle side =>
    simp only [meet]
    split <;> exact h

/-- Both sweeps come to the same end, the one without triggers in no more passes: where the other
one reaches a trigger, it waits. -/
theorem run_bare {passes more : Nat} (h : s.CrossedTriggers) (hs : settles passes s = true)
    (hle : passes ≤ more) : run more s.bare = (run passes s).bare := by
  induction passes generalizing s more with
  | zero =>
    have hg : ¬ s.GoesOn := by simpa [settles] using hs
    exact run_of_not_goesOn (s := s.bare) hg more
  | succ passes ih =>
    by_cases hg : s.GoesOn
    · obtain ⟨more, rfl⟩ : ∃ m, more = m + 1 := ⟨more - 1, by omega⟩
      rw [settles, if_pos hg] at hs
      cases hstrike : s.strike with
      | none =>
        rw [run_of_none hg hstrike, bare_glide]
        exact run_of_none (s := s.bare) hg (strike_bare_none h hstrike) more
      | some x =>
        obtain ⟨surface, e⟩ := x
        rw [hstrike] at hs
        have hc := crossed_meet h surface e
        rw [run_of_strike hg hstrike]
        cases ht : surface.ofTrigger with
        | true =>
          rw [← ih hc hs (Nat.le_of_succ_le hle), meet_trigger ht]
        | false =>
          rw [run_of_strike (s := s.bare) hg (strike_bare h hstrike ht), ← bare_meet ht]
          exact ih hc hs (Nat.le_of_succ_le_succ hle)
    · rw [run_of_not_goesOn hg]
      exact run_of_not_goesOn (s := s.bare) hg more

end Sweep

/-! Sweeps, and replays that are made of them. -/

/-- A sweep that is made: where it starts, and how long it is. -/
structure Slice where
  arena : Arena
  seconds : Scalar

/-- A sweep that is not cut short by the limit on its passes. -/
def Slice.Settles (s : Slice) : Prop := s.arena.Settles s.seconds

instance (s : Slice) : Decidable s.Settles := inferInstanceAs (Decidable (s.arena.Settles _))

/-- What happens in a sweep. -/
def Slice.played (s : Slice) : Played := s.arena.sweep s.seconds

namespace Arena

/-- The sweeps from one instant to another. -/
def slices (start stop : Nat) (a : Arena) : List Slice :=
  if stop ≤ start then []
  else
    match a.ball.resumeAt with
    | some at' =>
      if !a.ball.moving && at' < stop then
        if start < at' then
          let first : Slice := ⟨a, Clock.seconds (at' - start)⟩
          [first, ⟨first.played.arena.release at', Clock.seconds (stop - at')⟩]
        else [⟨a.release start, Clock.seconds (stop - start)⟩]
      else [⟨a, Clock.seconds (stop - start)⟩]
    | none => [⟨a, Clock.seconds (stop - start)⟩]

/-- The sweeps of a replay from `cursor` on. -/
def replaySlices (start stop cursor : Nat) (left right : List Sample) (a : Arena) : List Slice :=
  match _h : nextTime left right with
  | none => a.slices cursor stop
  | some t =>
    if stop < t then a.slices cursor stop
    else
      a.slices cursor t ++
        replaySlices start stop (max cursor t) (left.dropWhile (·.time = t))
          (right.dropWhile (·.time = t))
          (((a.advance cursor t).arena.steerAll .left start
            (left.takeWhile (·.time = t))).steerAll .right start (right.takeWhile (·.time = t)))
termination_by left.length + right.length
decreasing_by exact length_dropWhile_nextTime _h

variable {seconds : Scalar} {start stop cursor t : Nat} {left right : List Sample}

theorem replaySlices_of_none (h : nextTime left right = none) :
    a.replaySlices start stop cursor left right = a.slices cursor stop := by
  rw [replaySlices]
  split
  · rfl
  · simp_all

theorem replaySlices_of_lt (h : nextTime left right = some t) (ht : stop < t) :
    a.replaySlices start stop cursor left right = a.slices cursor stop := by
  rw [replaySlices]
  split
  · simp_all
  · simp_all

theorem replaySlices_of_le (h : nextTime left right = some t) (ht : t ≤ stop) :
    a.replaySlices start stop cursor left right = a.slices cursor t ++
      replaySlices start stop (max cursor t) (left.dropWhile (·.time = t))
        (right.dropWhile (·.time = t))
        (((a.advance cursor t).arena.steerAll .left start
          (left.takeWhile (·.time = t))).steerAll .right start
          (right.takeWhile (·.time = t))) := by
  rw [replaySlices]
  split
  · simp_all
  · rename_i u hu
    obtain rfl : t = u := Option.some.inj (h.symm.trans hu)
    rw [if_neg (by omega)]

theorem slices_of_none (hr : a.ball.resumeAt = none) (h : start < stop) :
    a.slices start stop = [⟨a, Clock.seconds (stop - start)⟩] := by
  unfold slices
  rw [if_neg (by omega), hr]

/-- What happens from one instant to another is what happens in its sweeps. -/
theorem advance_incidents (start stop : Nat) (a : Arena) : (a.advance start stop).incidents =
    (a.slices start stop).flatMap fun s => s.played.incidents := by
  unfold advance slices
  by_cases hle : stop ≤ start
  · rw [if_pos hle, if_pos hle]
    rfl
  · rw [if_neg hle, if_neg hle]
    cases a.ball.resumeAt with
    | none => simp [Slice.played]
    | some t =>
      by_cases hd : (!a.ball.moving && t < stop) = true
      · simp only [if_pos hd]
        by_cases ht : start < t
        · simp [ht, Played.andThen, Played.adjust, Slice.played]
        · simp [ht, Slice.played]
      · simp only [if_neg hd]
        simp [Slice.played]

/-- What happens in a replay is what happens in its sweeps. -/
theorem replayFrom_incidents : (a.replayFrom start stop cursor left right).incidents =
    (a.replaySlices start stop cursor left right).flatMap fun s => s.played.incidents := by
  induction cursor, left, right, a using replayFrom.induct start stop with
  | case1 cursor left right a hn =>
    rw [replayFrom_of_none hn, replaySlices_of_none hn, advance_incidents]
  | case2 cursor left right a t ht hlt =>
    rw [replayFrom_of_lt ht hlt, replaySlices_of_lt ht hlt, advance_incidents]
  | case3 cursor left right a t ht hlt ih =>
    have hle := Nat.le_of_not_lt hlt
    rw [replayFrom_of_le ht hle, replaySlices_of_le ht hle, List.flatMap_append,
      ← advance_incidents, ← ih (a.advance cursor t).arena]
    rfl

/-! Without triggers. -/

/-- A sweep that is not cut short goes the same way without triggers. -/
theorem sweep_bare (h : a.Settles seconds) : a.bare.sweep seconds = (a.sweep seconds).bare := by
  by_cases hs : seconds ≤ 0
  · unfold sweep
    rw [if_pos hs, if_pos hs]
    rfl
  · cases hm : a.ball.moving with
    | false =>
      rw [sweep_of_rest hs hm, sweep_of_rest (a := a.bare) hs hm, ← bare_advancePaddles]
      rfl
    | true =>
      cases hg : a.goals.find? (·.bounds.contains a.ball.position) with
      | some goal =>
        rw [sweep_of_goal hs hm hg, sweep_of_goal (a := a.bare) hs hm hg]
        simp only [Played.bare, bare_advancePaddles]
        rfl
      | none =>
        have hrun : Sweep.settles a.params.maxPasses (.start a seconds) = true := by
          simpa [Settles, hs, hm, hg] using h
        have hsame := Sweep.run_bare (s := .start a seconds) (by simp [Sweep.start,
          Sweep.CrossedTriggers]) hrun (Nat.le_refl _)
        rw [sweep_of_run hs hm hg, sweep_of_run (a := a.bare) hs hm hg, Sweep.bare_finish, ← hsame]
        rfl

theorem advance_bare (h : ∀ s ∈ a.slices start stop, s.Settles) :
    a.bare.advance start stop = (a.advance start stop).bare := by
  unfold slices at h
  unfold advance
  rw [bare_ball]
  by_cases hle : stop ≤ start
  · rw [if_pos hle, if_pos hle]
    rfl
  · rw [if_neg hle] at h ⊢
    rw [if_neg hle]
    cases hr : a.ball.resumeAt with
    | none =>
      simp only [hr] at h
      have hs := List.forall_mem_singleton.mp h
      exact sweep_bare hs
    | some t =>
      simp only [hr] at h
      by_cases hd : (!a.ball.moving && t < stop) = true
      · simp only [if_pos hd] at h ⊢
        by_cases ht : start < t
        · simp only [if_pos ht] at h ⊢
          obtain ⟨hs, hnext⟩ := List.forall_mem_cons.mp h
          have hfirst : a.bare.sweep (Clock.seconds (t - start)) = _ := sweep_bare hs
          have hlast := List.forall_mem_singleton.mp hnext
          rw [Played.adjust_andThen, Played.adjust_andThen, hfirst]
          refine (Played.bare_andThen ?_).symm
          exact (sweep_bare hlast).symm
        · simp only [if_neg ht] at h ⊢
          have hs := List.forall_mem_singleton.mp h
          exact sweep_bare hs
      · simp only [if_neg hd] at h ⊢
        have hs := List.forall_mem_singleton.mp h
        exact sweep_bare hs

theorem replayFrom_bare (h : ∀ s ∈ a.replaySlices start stop cursor left right, s.Settles) :
    a.bare.replayFrom start stop cursor left right =
      (a.replayFrom start stop cursor left right).bare := by
  induction cursor, left, right, a using replayFrom.induct start stop with
  | case1 cursor left right a hn =>
    rw [replaySlices_of_none hn] at h
    rw [replayFrom_of_none hn, replayFrom_of_none hn, advance_bare h]
  | case2 cursor left right a t ht hlt =>
    rw [replaySlices_of_lt ht hlt] at h
    rw [replayFrom_of_lt ht hlt, replayFrom_of_lt ht hlt, advance_bare h]
  | case3 cursor left right a t ht hlt ih =>
    have hle := Nat.le_of_not_lt hlt
    rw [replaySlices_of_le ht hle] at h
    have hfirst := advance_bare fun s hs => h s (List.mem_append_left _ hs)
    have hnext := ih (a.advance cursor t).arena fun s hs => h s (List.mem_append_right _ hs)
    rw [replayFrom_of_le ht hle, replayFrom_of_le ht hle, hfirst]
    refine (Played.bare_andThen ?_).symm
    rw [← hnext, bare_steerAll, bare_steerAll]

/-- Triggers only observe. If the passes of a sweep are not cut short, the same arena without
triggers comes to the same state, the triggers apart, and the same happens in the same order, the
reports of triggers apart. So it is with a replay if none of the sweeps that it is made of are cut
short. -/
theorem triggers_only_observe :
    (∀ (a : Arena) (seconds : Scalar), a.Settles seconds →
      a.bare.sweep seconds = (a.sweep seconds).bare) ∧
    ∀ (a : Arena) (start stop : Nat) (samples : Sides (List Sample)),
      let slices := a.replaySlices start stop start samples.left samples.right
      (a.replay start stop samples).incidents = slices.flatMap (·.played.incidents) ∧
      ((∀ s ∈ slices, s.Settles) →
        a.bare.replay start stop samples = (a.replay start stop samples).bare) :=
  ⟨fun _ _ => sweep_bare, fun _ _ _ _ => ⟨replayFrom_incidents, replayFrom_bare⟩⟩

/-- An arena in which the ball flies at the right paddle. -/
def approach : Arena :=
  let still : Arena := .ofParams { triggerOffsets := [], fanRays := 1 }
  { still with
    ball := { still.ball with position := ⟨7, 0⟩, speed := 10, moving := true }
    paddles := still.paddles.map fun p => { p with triggerOffsets := [1.5] } }

/-- The ball flies through a trigger and off a paddle, in one sweep and in a window. -/
theorem triggers_only_observe_hit :
    approach.Settles 0.25 ∧
      (approach.sweep 0.25).incidents = [.trigger .right 0, .hit .right] ∧
      (approach.bare.sweep 0.25).incidents = [.hit .right] ∧
      (approach.bare.sweep 0.25).arena.ball = (approach.sweep 0.25).arena.ball ∧
      (∀ s ∈ approach.replaySlices 0 250 0 [] [], s.Settles) ∧
      approach.bare.replay 0 250 ⟨[], []⟩ = (approach.replay 0 250 ⟨[], []⟩).bare := by
  have hi : (approach.sweep 0.25).incidents = [.trigger .right 0, .hit .right] := by decide +kernel
  have hs : approach.Settles 0.25 := by decide +kernel
  have hr : ∀ s ∈ approach.replaySlices 0 250 0 [] [], s.Settles := by
    have htime : Clock.seconds 250 = 0.25 := by decide +kernel
    rw [replaySlices_of_none rfl, slices_of_none rfl (by decide), List.forall_mem_singleton, htime]
    exact hs
  obtain ⟨hsweep, hreplay⟩ := triggers_only_observe
  have hb := hsweep approach 0.25 hs
  refine ⟨hs, hi, ?_, ?_, hr, (hreplay approach 0 250 ⟨[], []⟩).2 hr⟩
  · simp only [hb, Played.bare, hi]
    rfl
  · rw [hb, Played.bare, bare_ball]

end Arena
end Rally
