import Rally.Proofs.Arena.Serving

/-! A window can be cut at its inputs: what happens in it does not depend on where the cuts are. -/
namespace Rally

/-- A window may be cut at its ends and at the samples of both sides. -/
def CutAt (start stop : Nat) (samples : Sides (List Sample)) (t : Nat) : Prop :=
  t = start ∨ t = stop ∨ ∃ side, ∃ s ∈ samples.get side, s.time = t

/-- Replays one window after another. Each ends at the next cut, and the last one at `stop`. -/
def Arena.replayParts (samples : Sides (List Sample)) (stop : Nat) :
    List Nat → Nat → Arena → Played
  | [], start, a => a.replay start stop samples
  | t :: cuts, start, a => (a.replay start t samples).andThen (replayParts samples stop cuts t)

variable {start stop cursor t : Nat} {samples : Sides (List Sample)} {a : Arena}

/-- Cuts stay cuts of the rest of the window, which starts at the first of them. -/
theorem CutAt.rest {u : Nat} (h : CutAt start stop samples u) (hs : start ≤ t) (ht : t ≤ u) :
    CutAt t stop samples u := by
  rcases h with rfl | h
  · exact .inl (Nat.le_antisymm hs ht)
  · exact .inr h

/-- A sample in a window makes its instant the last of the part that ends with it. -/
theorem getLastD_instants {side : Side} {s : Sample} (hs : s ∈ samples.get side)
    (ht : start < s.time) : (instants start s.time samples).getLastD start = s.time := by
  have hmem : s ∈ samples.left ++ samples.right := by
    cases side with
    | left => exact List.mem_append_left _ hs
    | right => exact List.mem_append_right _ hs
  have hin : s.time ∈ instants start s.time samples :=
    mem_instants.mpr ⟨⟨ht, Nat.le_refl _⟩, s, hmem, rfl⟩
  obtain ⟨before, after, heq⟩ := List.mem_iff_append.mp hin
  have hnone : after = [] := by
    refine List.eq_nil_iff_forall_not_mem.mpr fun u hu => ?_
    have hu' : u ∈ instants start s.time samples := by simp [heq, hu]
    have hle : u ≤ s.time := (mem_instants.mp hu').1.2
    have hord := instants_increasing start s.time samples
    rw [heq] at hord
    have hlt := (List.pairwise_cons.mp (List.pairwise_append.mp hord).2.1).1 u hu
    omega
  simp [heq, hnone]

namespace Arena

/-- The way along a timeline is the way along its first part and then along the rest, if nothing
moves between the last instant of the first part and the cut. -/
theorem along_append {ts us : List Nat} (h : ts.getLastD cursor = t) :
    a.along samples stop (ts ++ us) cursor =
      (a.along samples t ts cursor).andThen (along samples stop us t) := by
  induction ts generalizing a cursor with
  | nil =>
    obtain rfl : cursor = t := h
    rw [List.nil_append, along, advance_of_le (Nat.le_refl _), Played.start_andThen]
  | cons u ts ih =>
    rw [List.getLastD_cons] at h
    simp only [List.cons_append, along]
    rw [Played.andThen_assoc]
    exact Played.andThen_congr (ih h)

/-- A sample is an instant at which the replay stops anyway; at an end of the window one of the two
parts has no time in it. -/
theorem replay_append (ho : ∀ side, InOrder (samples.get side)) (hs : start ≤ t) (ht : t ≤ stop)
    (hc : CutAt start stop samples t) :
    a.replay start stop samples =
      (a.replay start t samples).andThen (replay t stop samples) := by
  have hempty (u : Nat) : replay u u samples = Played.start :=
    funext fun _ => replay_of_le (Nat.le_refl _) ho
  rcases Nat.eq_or_lt_of_le hs with rfl | hlt
  · rw [hempty, Played.start_andThen]
  · rcases hc with rfl | rfl | ⟨side, s, hmem, rfl⟩
    · omega
    · rw [hempty, Played.andThen_start]
    · have hrest : replay s.time stop samples =
          along samples stop (instants s.time stop samples) s.time :=
        funext fun _ => replay_along ho
      rw [hrest, replay_along ho, replay_along ho, instants_append samples hs ht]
      exact along_append (getLastD_instants hmem hlt)

/-- A window can be cut at its ends and at any sample of either side, at one of them or at many one
after another. The parts, each replayed from all the samples, come to the same arena as the whole,
and the same things happen in the same order. -/
theorem replay_is_its_parts (start stop : Nat) (a : Arena) {samples : Sides (List Sample)}
    (ho : ∀ side, InOrder (samples.get side)) :
    (∀ t, start ≤ t → t ≤ stop → CutAt start stop samples t →
      a.replay start stop samples =
        (a.replay start t samples).andThen (replay t stop samples)) ∧
    (∀ cuts : List Nat, (start :: (cuts ++ [stop])).Pairwise (· ≤ ·) →
      (∀ t ∈ cuts, CutAt start stop samples t) →
      a.replay start stop samples = a.replayParts samples stop cuts start) := by
  refine ⟨fun t hs ht hc => replay_append ho hs ht hc, fun cuts hord hcuts => ?_⟩
  induction cuts generalizing start a with
  | nil => rfl
  | cons t cuts ih =>
    obtain ⟨hstart, hrest⟩ := List.pairwise_cons.mp hord
    have hle := (List.pairwise_cons.mp hrest).1
    rw [replay_append ho (hstart t (by simp)) (hle stop (by simp)) (hcuts t (by simp)), replayParts]
    refine Played.andThen_congr (ih t _ hrest fun u hu => ?_)
    have hcut : CutAt start stop samples u := hcuts u (by simp [hu])
    exact hcut.rest (hstart t (by simp)) (hle u (by simp [hu]))

/-- The ball leaves just at a cut, where both sides turn, and a trigger and a paddle report it after
the last one. -/
theorem replay_is_its_parts_launch :
    ∃ (a : Arena) (samples : Sides (List Sample)),
      a.ball.resumeAt = some 20 ∧ samples = ⟨[⟨20, 1⟩], [⟨20, -1⟩, ⟨35, 0⟩]⟩ ∧
      a.replay 10 290 samples = (a.replay 10 20 samples).andThen (replay 20 290 samples) ∧
      a.replay 10 290 samples = a.replayParts samples 290 [10, 20, 35, 290] 10 ∧
      (a.replay 10 290 samples).incidents = [.trigger .right 0, .hit .right] := by
  let samples : Sides (List Sample) := ⟨[⟨20, 1⟩], [⟨20, -1⟩, ⟨35, 0⟩]⟩
  let still : Arena := .ofParams { triggerOffsets := [], fanRays := 1 }
  let a : Arena :=
    { still with
      ball := { still.ball with position := ⟨6.5, 0⟩, speed := 10, resumeAt := some 20 }
      paddles := still.paddles.map fun p => { p with triggerOffsets := [1.5] } }
  have ho : ∀ side, InOrder (samples.get side) := by
    intro side
    cases side <;> simp [samples, InOrder, Sides.get]
  have hcuts : ∀ t ∈ [10, 20, 35, 290], CutAt 10 290 samples t := by
    intro t ht
    simp only [List.mem_cons, List.not_mem_nil, or_false] at ht
    rcases ht with rfl | rfl | rfl | rfl
    · exact .inl rfl
    · exact .inr (.inr ⟨.left, ⟨20, 1⟩, by simp [samples, Sides.get]⟩)
    · exact .inr (.inr ⟨.right, ⟨35, 0⟩, by simp [samples, Sides.get]⟩)
    · exact .inr (.inl rfl)
  obtain ⟨hone, hmany⟩ := replay_is_its_parts 10 290 a ho
  exact ⟨a, samples, rfl, rfl, hone 20 (by decide) (by decide) (hcuts 20 (by simp)),
    hmany _ (by decide) hcuts, by decide +kernel⟩

end Arena
end Rally
