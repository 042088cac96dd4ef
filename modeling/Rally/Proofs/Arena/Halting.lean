import Rally.Proofs.Arena.Serving
import Rally.Proofs.Arena.Stops

/-! In one window the ball is stopped at most once, at the very end, and is else left as it goes. -/
namespace Rally

/-- A window with any time in it ends after the instant at which a served ball is to leave. -/
def Ball.DueIn (b : Ball) (start stop : Nat) : Prop :=
  start < stop ∧ ∃ t, b.resumeAt = some t ∧ t < stop

namespace Played
variable {p : Played}

/-- Nothing stopped the ball before that which has stopped it. -/
theorem StopsLast.split (h : p.StopsLast) {i : Incident} (hi : i ∈ p.incidents)
    (hs : i.halts = true) :
    ∃ before, p.incidents = before ++ [i] ∧ ∀ j ∈ before, j.halts = false := by
  rcases List.eq_nil_or_concat' p.incidents with hn | ⟨before, x, hx⟩
  · rw [hn] at hi
    cases hi
  · have ho := h.order
    rw [hx] at hi ho
    obtain ⟨-, -, hcross⟩ := List.pairwise_append.mp ho
    have hbefore : ∀ j ∈ before, j.halts = false := fun j hj =>
      hcross j hj x (List.mem_singleton_self x)
    rcases List.mem_append.mp hi with hi | hi
    · simp [hbefore i hi] at hs
    · obtain rfl := List.mem_singleton.mp hi
      exact ⟨before, hx, hbefore⟩

theorem StopsLast.getLast? (h : p.StopsLast) {i : Incident} (hi : i ∈ p.incidents)
    (hs : i.halts = true) : p.incidents.getLast? = some i := by
  obtain ⟨before, hp, -⟩ := h.split hi hs
  simp [hp]

theorem StopsLast.countP_le (h : p.StopsLast) : p.incidents.countP Incident.halts ≤ 1 := by
  by_cases hn : ∃ i ∈ p.incidents, i.halts = true
  · obtain ⟨i, hi, hs⟩ := hn
    obtain ⟨before, hp, hb⟩ := h.split hi hs
    have hzero : before.countP Incident.halts = 0 := by
      rw [List.countP_eq_zero]
      intro j hj
      simp [hb j hj]
    rw [hp, List.countP_append, hzero, Nat.zero_add]
    exact List.countP_le_length
  · have hzero : p.incidents.countP Incident.halts = 0 := by
      rw [List.countP_eq_zero]
      intro i hi hs
      exact hn ⟨i, hi, hs⟩
    omega

/-- The ball moves, unless something that happened has stopped it. -/
def Going (p : Played) : Prop :=
  p.arena.ball.moving = true ∨ ∃ i ∈ p.incidents, i.halts = true

end Played

/-! A ball that moves goes on. -/

namespace Arena
variable {a : Arena} {start stop cursor : Nat} {left right : List Sample}

theorem going_sweep (seconds : Scalar) (h : a.ball.moving = true) : (a.sweep seconds).Going := by
  refine sweep_invariant (I := Played.Going) ?_ ?_ ?_ seconds (.inl h)
  · intro p seconds hp
    simpa [Played.adjust, Played.Going] using hp
  · intro p distance hm _
    exact .inl hm
  · intro p i b hm _ hb
    cases hb with
    | trigger | wall | hit => exact .inl hm
    | goal scorer => exact .inr ⟨.goal scorer, by simp [Played.did], rfl⟩
    | stuck side => exact .inr ⟨.stuck side, by simp [Played.did], rfl⟩

theorem going_law : Law fun a p => a.ball.moving = true → p.Going := by
  refine ⟨fun a h => .inl h, fun a seconds h => going_sweep seconds h, ?_, ?_⟩
  · intro a p f hp hf h
    rcases hp h with hm | ⟨i, hi, hs⟩
    · rcases hf hm with hm | ⟨i, hi, hs⟩
      · exact .inl hm
      · exact .inr ⟨i, List.mem_append_right _ hi, hs⟩
    · exact .inr ⟨i, List.mem_append_left _ hi, hs⟩
  · intro a p now hp h
    refine hp ?_
    unfold release Ball.release
    split
    · rfl
    · exact h

theorem going_replay (samples : Sides (List Sample)) (h : a.ball.moving = true) :
    (a.replay start stop samples).Going := by
  refine going_law.replayFrom ?_ start stop start samples.left samples.right a h
  intro a p side after xs hp hm
  exact hp (by simpa using hm)

/-- Once the cursor has come to the end of a window, the ball rests. -/
theorem replayFrom_ended (h : stop ≤ cursor) :
    a.Rests (a.replayFrom start stop cursor left right) := by
  induction cursor, left, right, a using replayFrom.induct start stop with
  | case1 cursor left right a hn =>
    rw [replayFrom_of_none hn, advance_of_le h]
    exact ⟨rfl, rfl⟩
  | case2 cursor left right a t ht hlt =>
    rw [replayFrom_of_lt ht hlt, advance_of_le h]
    exact ⟨rfl, rfl⟩
  | case3 cursor left right a t ht hlt ih =>
    have hle := Nat.le_of_not_lt hlt
    rw [replayFrom_of_le ht hle, advance_of_le (Nat.le_trans hle h), Played.start_andThen]
    obtain ⟨hi, hb⟩ := ih a (Nat.le_trans h (Nat.le_max_left ..))
    exact ⟨hi, hb.trans (by simp)⟩

/-- A ball that is neither moving nor due in a window rests in it. -/
theorem replay_not_due (samples : Sides (List Sample)) (hm : a.ball.moving = false)
    (hd : ¬ a.ball.DueIn start stop) : a.Rests (a.replay start stop samples) := by
  rcases Nat.lt_or_ge start stop with hlt | hle
  · refine replay_idle samples hm fun t ht => Nat.le_of_not_lt fun hts => ?_
    exact hd ⟨hlt, t, ht, hts⟩
  · exact replayFrom_ended hle

/-- Whatever the arena and the samples are, at most one thing stops the ball in a window. It is the
last that happens, and then the ball neither moves nor is to move later. If nothing stops it, a ball
that moves goes on. Nothing happens to a ball that is neither moving nor due in the window. -/
theorem stops_once_and_last (a : Arena) (start stop : Nat) (samples : Sides (List Sample)) :
    let p := a.replay start stop samples
    p.incidents.countP Incident.halts ≤ 1 ∧
      (∀ i ∈ p.incidents, i.halts = true → p.incidents.getLast? = some i ∧
        p.arena.ball.moving = false ∧ p.arena.ball.resumeAt = none) ∧
      (a.ball.moving = true → (∀ i ∈ p.incidents, i.halts = false) → p.arena.ball.moving = true) ∧
      (a.ball.moving = false → ¬ a.ball.DueIn start stop →
        p.incidents = [] ∧ p.arena.ball = a.ball) := by
  intro p
  have hl : p.StopsLast := stopsLast_replayFrom
  refine ⟨hl.countP_le, fun i hi hs => ⟨hl.getLast? hi hs, ?_⟩, fun hm hn => ?_, fun hm hd => ?_⟩
  · exact (Ball.not_live_iff _).mp (hl.rests i hi hs)
  · rcases going_replay samples hm with hgo | ⟨i, hi, hs⟩
    · exact hgo
    · simp [hn i hi] at hs
  · exact replay_not_due samples hm hd

/-- A ball in a goal is stopped there in the first slice of a window with two more to come; a ball
in the center moves on; a ball that is to leave when the window ends stays. -/
theorem stops_once_and_last_goal :
    ∃ (a b c : Arena) (samples : Sides (List Sample)), samples = ⟨[⟨10, 1⟩], [⟨20, -1⟩]⟩ ∧
      a = { Arena.ofParams { triggerOffsets := [] } with
        ball := { Ball.ofParams {} with position := ⟨11, 0⟩, moving := true } } ∧
      b = { Arena.ofParams { triggerOffsets := [] } with
        ball := { Ball.ofParams {} with moving := true } } ∧
      c = { Arena.ofParams { triggerOffsets := [] } with
        ball := { Ball.ofParams {} with resumeAt := some 50 } } ∧
      (a.replay 0 50 samples).incidents = [.goal .left] ∧
      (a.replay 0 50 samples).arena.ball.moving = false ∧
      (b.replay 0 50 samples).incidents = [] ∧ (b.replay 0 50 samples).arena.ball.moving = true ∧
      ¬ c.ball.DueIn 0 50 ∧ (c.replay 0 50 samples).arena.ball = c.ball := by
  let samples : Sides (List Sample) := ⟨[⟨10, 1⟩], [⟨20, -1⟩]⟩
  let still : Arena := .ofParams { triggerOffsets := [] }
  let a : Arena :=
    { still with ball := { Ball.ofParams {} with position := ⟨11, 0⟩, moving := true } }
  let b : Arena := { still with ball := { Ball.ofParams {} with moving := true } }
  let c : Arena := { still with ball := { Ball.ofParams {} with resumeAt := some 50 } }
  have ha : (a.replay 0 50 samples).incidents = [.goal .left] := by decide +kernel
  have hb : (b.replay 0 50 samples).incidents = [] := by decide +kernel
  have hc : ¬ c.ball.DueIn 0 50 := by
    rintro ⟨-, t, ht, hlt⟩
    obtain rfl := Option.some.inj ht
    omega
  obtain ⟨-, hstopped, -, -⟩ := stops_once_and_last a 0 50 samples
  obtain ⟨-, -, hgoes, -⟩ := stops_once_and_last b 0 50 samples
  obtain ⟨-, -, -, hrests⟩ := stops_once_and_last c 0 50 samples
  refine ⟨a, b, c, samples, rfl, rfl, rfl, rfl, ha, ?_, hb, hgoes rfl (by simp [hb]), hc,
    (hrests rfl hc).2⟩
  exact (hstopped (.goal .left) (by simp [ha]) rfl).2.1

end Arena
end Rally
