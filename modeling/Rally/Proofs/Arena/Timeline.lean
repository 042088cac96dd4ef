import Mathlib.Data.Finset.Sort
import Rally.Proofs.Arena.Replay
import Rally.Proofs.Side
import Rally.Stepper

/-! A replay merges the inputs of both sides into one timeline: from each instant at which a side
has samples it goes to the next one. -/
namespace Rally

/-- The instants of a window at which a side has samples, each once and in order. -/
def instants (start stop : Nat) (samples : Sides (List Sample)) : List Nat :=
  (((samples.left ++ samples.right).map Sample.time).toFinset.filter
    fun t => start < t ∧ t ≤ stop).sort

namespace Arena

/-- Each paddle takes the way of the last sample that its side has at an instant, if it has one. -/
def turnAt (t : Nat) (samples : Sides (List Sample)) (a : Arena) : Arena :=
  Stepper.steerLast .right (samples.right.filter (·.time = t))
    (Stepper.steerLast .left (samples.left.filter (·.time = t)) a)

/-- Moves everything from `cursor` to one instant after another, at each of which the paddles turn,
and from the last of them to `stop`. -/
def along (samples : Sides (List Sample)) (stop : Nat) : List Nat → Nat → Arena → Played
  | [], cursor, a => a.advance cursor stop
  | t :: ts, cursor, a =>
    (a.advance cursor t).andThen fun b => along samples stop ts t (b.turnAt t samples)

end Arena

variable {start stop cursor t : Nat} {samples : Sides (List Sample)} {side : Side}
  {left right xs : List Sample} {a : Arena}

/-! The instants of a window. -/

theorem mem_instants : t ∈ instants start stop samples ↔
    (start < t ∧ t ≤ stop) ∧ ∃ s ∈ samples.left ++ samples.right, s.time = t := by
  simp only [instants, Finset.mem_sort, Finset.mem_filter, List.mem_toFinset, List.mem_map]
  exact and_comm

theorem instants_increasing (start stop : Nat) (samples : Sides (List Sample)) :
    (instants start stop samples).Pairwise (· < ·) :=
  (Finset.sortedLT_sort _).pairwise

/-- They are the only increasing list of just these instants. -/
theorem eq_instants {ts : List Nat} (h : ts.Pairwise (· < ·)) (hm : ∀ t, t ∈ ts ↔
      (start < t ∧ t ≤ stop) ∧ ∃ s ∈ samples.left ++ samples.right, s.time = t) :
    instants start stop samples = ts := by
  refine (instants_increasing ..).sortedLT.eq_of_mem_iff h.sortedLT fun t => ?_
  rw [hm, mem_instants]

theorem instants_eq_nil
    (h : ∀ s ∈ samples.left ++ samples.right, start < s.time → stop < s.time) :
    instants start stop samples = [] := by
  refine eq_instants List.Pairwise.nil fun t => ?_
  simp only [List.not_mem_nil, false_iff, not_and, and_imp]
  rintro hlt hle ⟨s, hs, rfl⟩
  have := h s hs hlt
  omega

/-- What the window does not have makes no instants of it. -/
theorem instants_filter {P : Sample → Bool}
    (h : ∀ s : Sample, start < s.time → s.time ≤ stop → P s = true) :
    instants start stop (samples.map (List.filter P)) = instants start stop samples := by
  refine eq_instants (instants_increasing ..) fun t => ?_
  rw [mem_instants]
  refine and_congr_right fun hw => ?_
  simp only [Sides.map, ← List.filter_append, List.mem_filter, and_assoc]
  refine exists_congr fun s => and_congr_right fun _ => ?_
  constructor
  · rintro rfl
    exact ⟨h s hw.1 hw.2, rfl⟩
  · exact And.right

theorem mem_instants_after {u : Nat} :
    u ∈ instants start stop (samples.map (List.filter (t < ·.time))) ↔
      u ∈ instants start stop samples ∧ t < u := by
  simp only [mem_instants, Sides.map, ← List.filter_append, List.mem_filter, decide_eq_true_eq,
    and_assoc, and_congr_right_iff]
  intro _ _
  constructor
  · rintro ⟨s, hs, hts, rfl⟩
    exact ⟨⟨s, hs, rfl⟩, hts⟩
  · rintro ⟨⟨s, hs, rfl⟩, hts⟩
    exact ⟨s, hs, hts, rfl⟩

/-- The first instant of a window is the least one, and the others come after it. -/
theorem instants_eq_cons (hw : start < t ∧ t ≤ stop)
    (ht : ∃ s ∈ samples.left ++ samples.right, s.time = t)
    (hmin : ∀ s ∈ samples.left ++ samples.right, t ≤ s.time) :
    instants start stop samples =
      t :: instants start stop (samples.map (List.filter (t < ·.time))) := by
  refine eq_instants ?_ fun u => ?_
  · refine List.pairwise_cons.mpr ⟨fun u hu => ?_, instants_increasing ..⟩
    exact (mem_instants_after.mp hu).2
  · rw [← mem_instants, List.mem_cons, mem_instants_after]
    constructor
    · rintro (rfl | ⟨hu, -⟩)
      · exact mem_instants.mpr ⟨hw, ht⟩
      · exact hu
    · intro hu
      obtain ⟨-, s, hs, rfl⟩ := mem_instants.mp hu
      rcases Nat.eq_or_lt_of_le (hmin s hs) with rfl | hlt
      · exact .inl rfl
      · exact .inr ⟨hu, hlt⟩

namespace Arena

/-! What the paddles do at one instant. -/

theorem steer_steer (side : Side) (d e : Int8) (a : Arena) :
    (a.steer side d).steer side e = a.steer side e := by
  cases side <;> rfl

theorem foldl_steer (side : Side) (xs : List Sample) (e : Int8) (a : Arena) :
    (xs.foldl (fun a s => a.steer side s.direction) a).steer side e = a.steer side e := by
  induction xs generalizing a with
  | nil => rfl
  | cons x xs ih => rw [List.foldl_cons, ih, steer_steer]

/-- Of samples that all take effect at once, the last one prevails. -/
theorem steerAll_eq_steerLast (h : ∀ s ∈ xs, start < s.time) :
    a.steerAll side start xs = Stepper.steerLast side xs a := by
  rw [steerAll_of_lt h]
  unfold Stepper.steerLast
  rcases List.eq_nil_or_concat xs with rfl | ⟨ys, x, rfl⟩
  · rfl
  · simp [foldl_steer]

/-- Samples that come too early for a window do nothing. -/
theorem steerAll_of_le (h : ∀ s ∈ xs, s.time ≤ start) : a.steerAll side start xs = a := by
  unfold steerAll
  induction xs with
  | nil => rfl
  | cons x xs ih =>
    have hx := h x (by simp)
    rw [List.foldl_cons, if_neg (by omega)]
    exact ih fun s hs => h s (by simp [hs])

theorem mem_filter_time {s : Sample} (h : s ∈ xs.filter (·.time = t)) : s.time = t := by
  simpa using (List.mem_filter.mp h).2

theorem steerAt_eq_turnAt (h : start < t) : a.steerAt start t samples = a.turnAt t samples := by
  have hlt : ∀ xs : List Sample, ∀ s ∈ xs.filter (·.time = t), start < s.time := by
    intro xs s hs
    rwa [mem_filter_time hs]
  unfold steerAt turnAt
  rw [steerAll_eq_steerLast (hlt _), steerAll_eq_steerLast (hlt _)]

theorem steerAt_of_le (h : t ≤ start) : a.steerAt start t samples = a := by
  have hle : ∀ xs : List Sample, ∀ s ∈ xs.filter (·.time = t), s.time ≤ start := by
    intro xs s hs
    rwa [mem_filter_time hs]
  unfold steerAt
  rw [steerAll_of_le (hle _), steerAll_of_le (hle _)]

theorem turnAt_filter {P : Sample → Bool} (h : ∀ s : Sample, s.time = t → P s = true) :
    a.turnAt t (samples.map (List.filter P)) = a.turnAt t samples := by
  have hf (xs : List Sample) : (xs.filter P).filter (·.time = t) = xs.filter (·.time = t) := by
    rw [List.filter_filter]
    refine List.filter_congr fun s _ => ?_
    by_cases hs : s.time = t <;> simp [hs, h]
  simp only [turnAt, Sides.map, hf]

/-! The way along the timeline. -/

theorem advance_of_le (h : stop ≤ start) (a : Arena) : a.advance start stop = .start a := by
  unfold advance
  rw [if_pos h]

/-- Samples that come at none of the instants on the way change nothing. -/
theorem along_filter {ts : List Nat} {P : Sample → Bool}
    (h : ∀ t ∈ ts, ∀ s : Sample, s.time = t → P s = true) :
    a.along (samples.map (List.filter P)) stop ts cursor = a.along samples stop ts cursor := by
  induction ts generalizing a cursor with
  | nil => rfl
  | cons t ts ih =>
    unfold along
    congr 1
    funext b
    rw [turnAt_filter (h t (by simp))]
    exact ih fun u hu => h u (by simp [hu])

/-- From a cursor that has passed no sample of the window, a replay goes along the timeline. -/
theorem replayFrom_eq_along (hl : InOrder left) (hr : InOrder right) (hc : start ≤ cursor)
    (hahead : ∀ s ∈ left ++ right, start < s.time → cursor ≤ s.time) :
    a.replayFrom start stop cursor left right =
      a.along ⟨left, right⟩ stop (instants start stop ⟨left, right⟩) cursor := by
  induction cursor, left, right, a using replayFrom.induct start stop with
  | case1 cursor left right a hn =>
    obtain ⟨rfl, rfl⟩ := nextTime_eq_none hn
    rw [replayFrom_of_none hn, instants_eq_nil (by simp)]
    rfl
  | case2 cursor left right a t ht hlt =>
    have hmin := (nextTime_least hl hr ht).2
    rw [replayFrom_of_lt ht hlt, instants_eq_nil fun s hs _ => Nat.lt_of_lt_of_le hlt (hmin s hs)]
    rfl
  | case3 cursor left right a t ht hlt ih =>
    obtain ⟨hmem, hmin⟩ := nextTime_least hl hr ht
    have hml : ∀ s ∈ left, t ≤ s.time := fun s hs => hmin s (List.mem_append_left _ hs)
    have hmr : ∀ s ∈ right, t ≤ s.time := fun s hs => hmin s (List.mem_append_right _ hs)
    have hrest : ∀ s ∈ left.filter (t < ·.time) ++ right.filter (t < ·.time),
        start < s.time → max cursor t ≤ s.time := by
      intro s hs hst
      rw [← List.filter_append] at hs
      obtain ⟨hs, hts⟩ := List.mem_filter.mp hs
      have := hahead s hs hst
      have : t < s.time := by simpa using hts
      omega
    let later : Sides (List Sample) := Sides.map ⟨left, right⟩ (List.filter (t < ·.time))
    have hnext (b : Arena) :
        (b.steerAt start t ⟨left, right⟩).replayFrom start stop (max cursor t) later.left
          later.right = (b.steerAt start t ⟨left, right⟩).along later stop
            (instants start stop later) (max cursor t) := by
      rw [hl.dropWhile_eq hml, hr.dropWhile_eq hmr, hl.takeWhile_eq hml, hr.takeWhile_eq hmr] at ih
      exact ih b (hl.filter _) (hr.filter _) (by omega) hrest
    rw [replayFrom_step hl hr ht (Nat.le_of_not_lt hlt)]
    rcases Nat.lt_or_ge start t with hst | hst
    · -- The first instant of the window: the replay and the timeline both stop there.
      obtain ⟨s, hs, rfl⟩ := hmem
      have hct := hahead s hs hst
      rw [instants_eq_cons ⟨hst, Nat.le_of_not_lt hlt⟩ ⟨s, hs, rfl⟩ hmin]
      unfold along
      congr 1
      funext b
      refine (hnext b).trans ?_
      rw [steerAt_eq_turnAt hst, Nat.max_eq_right hct]
      refine along_filter fun u hu x hx => ?_
      simpa [hx] using (mem_instants_after.mp hu).2
    · -- Samples from before the window: nothing moves, and nothing takes effect.
      have hct : t ≤ cursor := by omega
      have hP : ∀ s : Sample, start < s.time → s.time ≤ stop → decide (t < s.time) = true := by
        intro s hs _
        simp only [decide_eq_true_eq]
        omega
      rw [advance_of_le hct, Played.start_andThen]
      refine (hnext a).trans ?_
      rw [steerAt_of_le hst, Nat.max_eq_left hct, instants_filter hP]
      refine along_filter fun u hu x hx => ?_
      obtain ⟨hw, -⟩ := mem_instants.mp hu
      exact hP x (hx ▸ hw.1) (hx ▸ hw.2)

theorem replay_along (h : ∀ side, InOrder (samples.get side)) :
    a.replay start stop samples = a.along samples stop (instants start stop samples) start :=
  replayFrom_eq_along (h .left) (h .right) (Nat.le_refl _) fun _ _ hs => hs.le

/-- Samples outside the window change nothing. -/
theorem replay_filter (h : ∀ side, InOrder (samples.get side)) :
    a.replay start stop (samples.map (List.filter fun s => start < s.time ∧ s.time ≤ stop)) =
      a.replay start stop samples := by
  have hf : ∀ side, InOrder ((samples.map
      (List.filter fun s => start < s.time ∧ s.time ≤ stop)).get side) := by
    intro side
    rw [Sides.get_map]
    exact (h side).filter _
  rw [replay_along hf, replay_along h, instants_filter fun s hs ht => by simp [hs, ht]]
  refine along_filter fun u hu x hx => ?_
  obtain ⟨hw, -⟩ := mem_instants.mp hu
  simpa [hx] using hw

/-- The samples of both sides, each in the order of its times, are replayed as one timeline. It has
the instants of the window at which a side has samples, each once and in order. At each of them the
arena has been moved up to it, and then each paddle takes the way of the last sample that its side
has there. Samples outside the window change nothing, and in an empty window nothing happens. -/
theorem replay_is_timeline (start stop : Nat) (a : Arena)
    (h : ∀ side, InOrder (samples.get side)) :
    a.replay start stop samples = a.along samples stop (instants start stop samples) start ∧
      a.replay start stop (samples.map (List.filter fun s => start < s.time ∧ s.time ≤ stop)) =
        a.replay start stop samples ∧
      (stop ≤ start → a.replay start stop samples = .start a) := by
  refine ⟨replay_along h, replay_filter h, fun hle => ?_⟩
  rw [replay_along h, instants_eq_nil fun s _ hs => Nat.lt_of_le_of_lt hle hs]
  exact advance_of_le hle a

/-- Both sides turn at one instant, one of them twice; one sample comes too early and one too late.
-/
theorem replay_is_timeline_together :
    ∃ samples : Sides (List Sample),
      samples = ⟨[⟨5, 1⟩, ⟨20, 1⟩, ⟨20, -1⟩, ⟨60, 0⟩], [⟨20, 1⟩, ⟨35, -1⟩]⟩ ∧
      (∀ side, InOrder (samples.get side)) ∧ instants 10 50 samples = [20, 35] ∧
      (ofParams {}).replay 10 50 samples =
        ((ofParams {}).advance 10 20).andThen fun b =>
          ((b.turnAt 20 samples).advance 20 35).andThen fun b =>
            (b.turnAt 35 samples).advance 35 50 := by
  have ho : ∀ side, InOrder ((⟨[⟨5, 1⟩, ⟨20, 1⟩, ⟨20, -1⟩, ⟨60, 0⟩], [⟨20, 1⟩, ⟨35, -1⟩]⟩ :
      Sides (List Sample)).get side) := by
    intro side
    cases side <;> simp [InOrder, Sides.get]
  have hi : instants 10 50 ⟨[⟨5, 1⟩, ⟨20, 1⟩, ⟨20, -1⟩, ⟨60, 0⟩], [⟨20, 1⟩, ⟨35, -1⟩]⟩ =
      [20, 35] := by
    refine eq_instants (by decide) fun t => ?_
    simp
    omega
  obtain ⟨hr, -⟩ := replay_is_timeline 10 50 (ofParams {}) ho
  rw [hi] at hr
  exact ⟨_, rfl, ho, hi, hr⟩

end Arena
end Rally
