import Rally.Arena.Sweep
import Rally.Proofs.Scalar.Argmin

/-! The passes of a sweep, one by one. -/
namespace Rally

/-- There is time left, and the ball moves. -/
def Sweep.GoesOn (s : Sweep) : Prop :=
  s.arena.params.timeEpsilon < s.remaining ∧ s.arena.ball.moving = true

instance (s : Sweep) : Decidable s.GoesOn := inferInstanceAs (Decidable (_ ∧ _))

/-- A paddle is struck at its body. -/
theorem Arena.body_of_mem_surfaces {a : Arena} {side : Side} {box : Box}
    (hside : ∀ side, (a.paddles.get side).side = side) (h : (.paddle side, box) ∈ a.surfaces) :
    box = (a.paddles.get side).body := by
  have hpaddle (p : Paddle) (hp : (.paddle side, box) ∈ p.surfaces) :
      side = p.side ∧ box = p.body := by
    simpa [Paddle.surfaces] using hp
  have hl : a.paddles.left.side = .left := hside .left
  have hr : a.paddles.right.side = .right := hside .right
  simp only [Arena.surfaces, List.mem_append] at h
  rcases h with ((h | h) | h) | h
  · simp at h
  · simp at h
  · obtain ⟨rfl, rfl⟩ := hpaddle _ h
    rw [hl]
    rfl
  · obtain ⟨rfl, rfl⟩ := hpaddle _ h
    rw [hr]
    rfl

@[simp] theorem Arena.advancePaddles_ball (a : Arena) (seconds : Scalar) :
    (a.advancePaddles seconds).ball = a.ball := by
  unfold advancePaddles
  split <;> rfl

namespace Sweep
variable {s : Sweep} {surface : Surface} {e : Entry}

/-- How far ahead of the center of the ball surfaces are looked for. -/
def reach (s : Sweep) : Scalar := s.distance + s.arena.ball.radius + s.arena.params.castMargin

/-- Where the ball would enter a surface that it can still reach. -/
def sight (s : Sweep) (x : Surface × Box) : Option (Surface × Entry) :=
  if x.1 ∈ s.crossed then none
  else (x.2.entry s.arena.ball.position s.arena.ball.direction s.reach).map (x.1, ·)

theorem strike_eq (s : Sweep) : s.strike =
    Scalar.argmin (fun e => e.2.distance) (s.arena.surfaces.filterMap s.sight) := rfl

/-- What the ball strikes is a surface of the arena, where a ray along its path enters it. -/
theorem mem_surfaces_of_strike (h : s.strike = some (surface, e)) :
    ∃ box, (surface, box) ∈ s.arena.surfaces ∧
      box.entry s.arena.ball.position s.arena.ball.direction s.reach = some e := by
  rw [strike_eq] at h
  obtain ⟨x, hx, hsight⟩ := List.mem_filterMap.mp (Scalar.mem_of_argmin h)
  unfold sight at hsight
  split at hsight
  · cases hsight
  · obtain ⟨e', he, heq⟩ := Option.map_eq_some_iff.mp hsight
    cases heq
    exact ⟨x.2, hx, he⟩

theorem run_of_not_goesOn (h : ¬ s.GoesOn) (passes : Nat) : run passes s = s := by
  cases passes with
  | zero => rfl
  | succ passes => exact if_neg h

theorem run_of_none (hg : s.GoesOn) (h : s.strike = none) (passes : Nat) :
    run (passes + 1) s = s.glide := by
  unfold GoesOn at hg
  rw [run, if_pos hg, h]

theorem run_of_strike (hg : s.GoesOn) (h : s.strike = some (surface, e)) (passes : Nat) :
    run (passes + 1) s = run passes (s.meet surface e) := by
  unfold GoesOn at hg
  rw [run, if_pos hg, h]

/-- What the start of a sweep has and every pass keeps, a sweep keeps. -/
theorem run_invariant {I : Sweep → Prop} (glide : ∀ {s : Sweep}, s.GoesOn → I s → I s.glide)
    (meet : ∀ {s : Sweep} {surface : Surface} {e : Entry}, s.GoesOn →
      s.strike = some (surface, e) → I s → I (s.meet surface e))
    (passes : Nat) {s : Sweep} (h : I s) : I (run passes s) := by
  induction passes generalizing s with
  | zero => exact h
  | succ passes ih =>
    by_cases hg : s.GoesOn
    · cases hs : s.strike with
      | none =>
        rw [run_of_none hg hs]
        exact glide hg h
      | some x =>
        rw [run_of_strike hg hs]
        exact ih (meet hg hs h)
    · rw [run_of_not_goesOn hg]
      exact h

end Sweep

namespace Arena
variable {a : Arena} {seconds : Scalar}

theorem sweep_of_rest (hs : ¬ seconds ≤ 0) (hm : a.ball.moving = false) :
    a.sweep seconds = .start (a.advancePaddles seconds) := by
  unfold sweep
  rw [if_neg hs, if_pos (by simp [hm])]

theorem sweep_of_goal (hs : ¬ seconds ≤ 0) (hm : a.ball.moving = true) {goal : Goal}
    (hg : a.goals.find? (·.bounds.contains a.ball.position) = some goal) : a.sweep seconds =
      ⟨{ a with ball := a.ball.stop }.advancePaddles seconds, [.goal goal.owner.opponent]⟩ := by
  unfold sweep
  rw [if_neg hs, if_neg (by simp [hm]), hg]

theorem sweep_of_run (hs : ¬ seconds ≤ 0) (hm : a.ball.moving = true)
    (hg : a.goals.find? (·.bounds.contains a.ball.position) = none) :
    a.sweep seconds = (Sweep.run a.params.maxPasses (.start a seconds)).finish := by
  unfold sweep
  rw [if_neg hs, if_neg (by simp [hm]), hg]

end Arena

/-! What a sweep is made of. -/

/-- What becomes of the ball when something happens to it, where it is. -/
inductive Ball.Met (b : Ball) : Incident → Ball → Prop where
  | trigger (side : Side) (level : Nat) : b.Met (.trigger side level) b
  | wall (normal : Vec) : b.Met .wall (b.bounce normal)
  | hit (side : Side) (normal : Vec) : b.Met (.hit side) (b.bounce normal).accelerate
  | goal (scorer : Side) : b.Met (.goal scorer) b.stop
  | stuck (side : Side) : b.Met (.stuck side) b.stop

/-- Something happens to the ball. -/
def Played.did (p : Played) (i : Incident) (b : Ball) : Played :=
  ⟨{ p.arena with ball := b }, p.incidents ++ [i]⟩

/-- Moves the ball along its direction. -/
def Arena.travel (distance : Scalar) (a : Arena) : Arena :=
  { a with ball := a.ball.travel distance }

section
variable {I : Played → Prop}
  (paddles : ∀ {p : Played} (seconds : Scalar), I p → I (p.adjust (·.advancePaddles seconds)))
  (travel : ∀ {p : Played} (distance : Scalar), p.arena.ball.moving = true → I p →
    I (p.adjust (Arena.travel distance)))
  (did : ∀ {p : Played} {i : Incident} {b : Ball}, p.arena.ball.moving = true → I p →
    p.arena.ball.Met i b → I (p.did i b))

include paddles travel did

/-- In a pass the paddles move, the ball goes some way, and something happens to it: what all of
these keep, a pass keeps. -/
theorem Sweep.meet_invariant {s : Sweep} (surface : Surface) (e : Entry)
    (hm : s.arena.ball.moving = true) (hs : I s.toPlayed) : I (s.meet surface e).toPlayed := by
  have hthere {i : Incident} {b : Ball} (hb : (s.arena.ball.travel (s.contact e)).Met i b) :
      I ((s.adjust (Arena.travel (s.contact e))).did i b) :=
    did hm (travel _ hm hs) hb
  cases surface with
  | trigger side level => exact did hm hs (.trigger side level)
  | wall => exact paddles _ (hthere (.wall e.normal))
  | goal owner => exact paddles _ (hthere (.goal owner.opponent))
  | paddle side =>
    simp only [Sweep.meet]
    split
    · exact paddles _ (hthere (.hit side _))
    · exact paddles _ (hthere (.stuck side))

/-- What these keep, a sweep keeps. -/
theorem Arena.sweep_invariant (seconds : Scalar) {a : Arena} (h : I (.start a)) :
    I (a.sweep seconds) := by
  by_cases hs : seconds ≤ 0
  · rw [sweep, if_pos hs]
    exact h
  · cases hm : a.ball.moving with
    | false =>
      rw [sweep_of_rest hs hm]
      exact paddles seconds h
    | true =>
      cases hg : a.goals.find? (·.bounds.contains a.ball.position) with
      | some goal =>
        rw [sweep_of_goal hs hm hg]
        exact paddles seconds (did hm h (.goal goal.owner.opponent))
      | none =>
        rw [sweep_of_run hs hm hg]
        have hrun : I (Sweep.run a.params.maxPasses (.start a seconds)).toPlayed :=
          Sweep.run_invariant (I := fun s => I s.toPlayed)
            (fun hgo hs => paddles _ (travel _ hgo.2 hs))
            (fun hgo _ hs => Sweep.meet_invariant paddles travel did _ _ hgo.2 hs) _ h
        exact paddles _ hrun

end

end Rally
