import Rally.Proofs.Arena.Laws

/-! A ball that has been served moves until something stops it, and a ball that rests stays. -/
namespace Rally

/-- The ball moves, or it has been served and will move. -/
def Ball.Live (b : Ball) : Prop := b.moving = true ∨ b.resumeAt.isSome = true

namespace Ball
variable (b : Ball)

theorem not_live_iff : ¬ b.Live ↔ b.moving = false ∧ b.resumeAt = none := by
  simp [Live]

@[simp] theorem live_spawn (direction : Vec) (resumeAt : Nat) :
    (b.spawn direction resumeAt).Live := .inr rfl

@[simp] theorem not_live_stop : ¬ b.stop.Live := by simp [Live, stop]

@[simp] theorem live_travel (distance : Scalar) : (b.travel distance).Live ↔ b.Live := Iff.rfl

@[simp] theorem live_bounce (normal : Vec) : (b.bounce normal).Live ↔ b.Live := Iff.rfl

@[simp] theorem live_accelerate : b.accelerate.Live ↔ b.Live := Iff.rfl

/-- To let the ball go is to keep it alive. -/
@[simp] theorem live_release (now : Nat) : (b.release now).Live ↔ b.Live := by
  unfold release
  split
  · rename_i hd
    refine iff_of_true (.inl rfl) (.inr ?_)
    cases h : b.resumeAt <;> simp_all [due]
  · exact Iff.rfl

end Ball

/-- Whether an incident stops the ball. -/
def Incident.halts : Incident → Bool
  | .goal _ => true
  | .stuck _ => true
  | _ => false

/-- The ball is live, unless something that happened has stopped it. -/
def Played.Kept (p : Played) : Prop := p.arena.ball.Live ∨ ∃ i ∈ p.incidents, i.halts = true

namespace Arena
variable {a : Arena} {start stop cursor : Nat} {left right : List Sample}

theorem kept_sweep (seconds : Scalar) (h : a.ball.Live) : (a.sweep seconds).Kept := by
  refine sweep_invariant (I := Played.Kept) ?_ ?_ ?_ seconds (.inl h)
  · intro p seconds hp
    simpa [Played.adjust, Played.Kept] using hp
  · intro p distance _ hp
    simpa [Played.adjust, travel, Played.Kept] using hp
  · rintro p i b _ (hlive | ⟨j, hj, hs⟩) hb
    · cases hb with
      | trigger => exact .inl hlive
      | wall | hit => exact .inl (by simpa [Played.did] using hlive)
      | goal scorer => exact .inr ⟨.goal scorer, by simp [Played.did], rfl⟩
      | stuck side => exact .inr ⟨.stuck side, by simp [Played.did], rfl⟩
    · exact .inr ⟨j, List.mem_append_left _ hj, hs⟩

theorem kept_law : Law fun a p => a.ball.Live → p.Kept := by
  refine ⟨fun a h => .inl h, fun a seconds => kept_sweep seconds, ?_, ?_⟩
  · intro a p f hp hf h
    rcases hp h with hb | ⟨i, hi, hs⟩
    · rcases hf hb with hb | ⟨i, hi, hs⟩
      · exact .inl hb
      · exact .inr ⟨i, List.mem_append_right _ hi, hs⟩
    · exact .inr ⟨i, List.mem_append_left _ hi, hs⟩
  · intro a p now hp h
    exact hp (by simpa [release] using h)

theorem kept_replayFrom (h : a.ball.Live) :
    (a.replayFrom start stop cursor left right).Kept := by
  refine kept_law.replayFrom ?_ start stop cursor left right a h
  intro a p side after xs hp hb
  exact hp (by simpa using hb)

/-- Nothing happens to a ball that rests. -/
def Rests (a : Arena) (p : Played) : Prop := p.incidents = [] ∧ p.arena.ball = a.ball

theorem Rests.andThen {p : Played} {f : Arena → Played} (hp : a.Rests p)
    (hf : p.arena.Rests (f p.arena)) : a.Rests (p.andThen f) := by
  refine ⟨?_, hf.2.trans hp.2⟩
  simp [Played.andThen, hp.1, hf.1]

theorem rests_sweep (seconds : Scalar) (h : a.ball.moving = false) : a.Rests (a.sweep seconds) := by
  unfold sweep
  split
  · exact ⟨rfl, rfl⟩
  · rw [if_pos (by simp [h])]
    exact ⟨rfl, advancePaddles_ball ..⟩

theorem rests_law : Law fun a p => ¬ a.ball.Live → a.Rests p := by
  refine ⟨fun a _ => ⟨rfl, rfl⟩, fun a seconds h => ?_, fun {a p f} hp hf h => ?_, ?_⟩
  · exact rests_sweep seconds ((Ball.not_live_iff _).mp h).1
  · have hrest := hp h
    exact hrest.andThen (hf (by rwa [hrest.2]))
  · intro a p now hp h
    obtain ⟨hi, hb⟩ := hp (by simpa [release] using h)
    refine ⟨hi, hb.trans ?_⟩
    simp [release, Ball.release, Ball.due, (Ball.not_live_iff _).mp h]

theorem rests_replayFrom (h : ¬ a.ball.Live) :
    a.Rests (a.replayFrom start stop cursor left right) := by
  refine rests_law.replayFrom ?_ start stop cursor left right a h
  intro a p side after xs hp hb
  obtain ⟨hi, hc⟩ := hp (by simpa using hb)
  exact ⟨hi, hc.trans (steerAll_ball ..)⟩

end Arena
end Rally
