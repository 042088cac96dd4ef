import Rally.Proofs.Arena.Live

/-! What stops the ball is the last that happens in a replay. -/
namespace Rally

/-- Only the last of what has happened can have stopped the ball, and then the ball rests. -/
structure Played.StopsLast (p : Played) : Prop where
  order : p.incidents.Pairwise fun i _ => i.halts = false
  rests : ∀ i ∈ p.incidents, i.halts = true → ¬ p.arena.ball.Live

theorem Played.StopsLast.of_nil {p : Played} (h : p.incidents = []) : p.StopsLast := by
  refine ⟨?_, ?_⟩ <;> simp [h]

/-- As long as the ball lives, nothing has stopped it. -/
theorem Played.StopsLast.not_halts {p : Played} (h : p.StopsLast) (hb : p.arena.ball.Live) :
    ∀ i ∈ p.incidents, i.halts = false := by
  intro i hi
  cases hs : i.halts with
  | false => rfl
  | true => exact absurd hb (h.rests i hi hs)

/-- Something more has happened to a ball that nothing had stopped. -/
theorem Played.StopsLast.snoc {p q : Played} {i : Incident} (h : p.StopsLast)
    (hb : p.arena.ball.Live) (hq : q.incidents = p.incidents ++ [i])
    (hi : i.halts = true → ¬ q.arena.ball.Live) : q.StopsLast := by
  have hnot := h.not_halts hb
  refine ⟨?_, ?_⟩
  · rw [hq]
    refine List.pairwise_append.mpr ⟨h.order, List.pairwise_singleton .., ?_⟩
    intro j hj _ _
    exact hnot j hj
  · rw [hq]
    intro j hj hs
    rcases List.mem_append.mp hj with hj | hj
    · simp [hnot j hj] at hs
    · rw [List.mem_singleton.mp hj] at hs
      exact hi hs

namespace Arena
variable {a : Arena} {start stop cursor : Nat} {left right : List Sample}

theorem stopsLast_sweep (seconds : Scalar) (a : Arena) : (a.sweep seconds).StopsLast := by
  refine sweep_invariant (I := Played.StopsLast) ?_ ?_ ?_ seconds (.of_nil rfl)
  · intro p seconds hp
    exact ⟨hp.order, fun i hi hs hb => hp.rests i hi hs (by simpa [Played.adjust] using hb)⟩
  · intro p distance _ hp
    exact ⟨hp.order, fun i hi hs hb => hp.rests i hi hs (by simpa [Played.adjust, travel] using hb)⟩
  · intro p i b hm hp hb
    refine hp.snoc (.inl hm) rfl ?_
    cases hb <;> simp [Incident.halts, Played.did]

/-- Once something has stopped the ball, nothing more happens, since a ball that rests stays. -/
theorem stopsLast_law : Law fun a p => (¬ a.ball.Live → a.Rests p) ∧ p.StopsLast := by
  have hrests := rests_law
  refine ⟨fun a => ⟨hrests.start a, .of_nil rfl⟩,
    fun a seconds => ⟨hrests.sweep a seconds, stopsLast_sweep seconds a⟩, ?_, ?_⟩
  · rintro a p f ⟨hp, hl⟩ ⟨hf, hm⟩
    refine ⟨hrests.andThen hp hf, ?_⟩
    by_cases hb : p.arena.ball.Live
    · have hnot := hl.not_halts hb
      refine ⟨?_, fun i hi hs => ?_⟩
      · refine List.pairwise_append.mpr ⟨hl.order, hm.order, ?_⟩
        intro i hi _ _
        exact hnot i hi
      · rcases List.mem_append.mp hi with hi | hi
        · simp [hnot i hi] at hs
        · exact hm.rests i hi hs
    · obtain ⟨hi, hc⟩ := hf hb
      have hsame : (p.andThen f).incidents = p.incidents := by simp [Played.andThen, hi]
      refine ⟨?_, fun i hi hs => ?_⟩
      · rw [hsame]
        exact hl.order
      · simpa [Played.andThen, hc] using hb
  · rintro a p now ⟨hp, hl⟩
    exact ⟨hrests.release now hp, hl⟩

theorem stopsLast_replayFrom : (a.replayFrom start stop cursor left right).StopsLast := by
  refine (stopsLast_law.replayFrom ?_ start stop cursor left right a).2
  rintro a p side after xs ⟨hp, hl⟩
  refine ⟨fun hb => ?_, hl⟩
  obtain ⟨hi, hc⟩ := hp (by simpa using hb)
  exact ⟨hi, hc.trans (steerAll_ball ..)⟩

end Arena
end Rally
