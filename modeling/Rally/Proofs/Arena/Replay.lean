import Rally.Arena.Replay
import Rally.Proofs.InputLog.Retention

/-! Replaying inputs: each takes effect at its own instant, between what was before and after. -/
namespace Rally

/-- What is changed after something has happened is changed once that has happened. -/
theorem Played.andThen_adjust (p : Played) (f : Arena → Played) (g : Arena → Arena) :
    (p.andThen f).adjust g = p.andThen fun a => (f a).adjust g := rfl

theorem nextTime_eq_none {left right : List Sample} (h : nextTime left right = none) :
    left = [] ∧ right = [] := by
  cases left <;> cases right <;> simp_all [nextTime]

theorem InOrder.head_le {s : Sample} {xs : List Sample} (h : InOrder (s :: xs)) :
    ∀ a ∈ s :: xs, s.time ≤ a.time := by
  intro a ha
  rcases List.mem_cons.mp ha with rfl | ha
  · exact Nat.le_refl _
  · exact (List.pairwise_cons.mp h).1 a ha

theorem nextTime_least {left right : List Sample} {t : Nat} (hl : InOrder left)
    (hr : InOrder right) (h : nextTime left right = some t) :
    (∃ s ∈ left ++ right, s.time = t) ∧ ∀ s ∈ left ++ right, t ≤ s.time := by
  cases left with
  | nil =>
    cases right with
    | nil => simp [nextTime] at h
    | cons r right =>
      obtain rfl : r.time = t := by simpa [nextTime] using h
      exact ⟨⟨r, by simp, rfl⟩, hr.head_le⟩
  | cons l left =>
    cases right with
    | nil =>
      obtain rfl : l.time = t := by simpa [nextTime] using h
      exact ⟨⟨l, by simp, rfl⟩, by simpa using hl.head_le⟩
    | cons r right =>
      obtain rfl : min l.time r.time = t := by simpa [nextTime] using h
      constructor
      · rcases Nat.le_total l.time r.time with hlr | hlr
        · exact ⟨l, by simp, by omega⟩
        · exact ⟨r, by simp, by omega⟩
      · intro s hs
        rcases List.mem_append.mp hs with hs | hs
        · have := hl.head_le s hs
          omega
        · have := hr.head_le s hs
          omega

/-- The next instant is the least of all samples. -/
theorem nextTime_eq_some {left right : List Sample} {t : Nat} (hl : InOrder left)
    (hr : InOrder right) : nextTime left right = some t ↔
      (∃ s ∈ left ++ right, s.time = t) ∧ ∀ s ∈ left ++ right, t ≤ s.time := by
  refine ⟨nextTime_least hl hr, ?_⟩
  rintro ⟨⟨s, hs, rfl⟩, hmin⟩
  cases h : nextTime left right with
  | none =>
    obtain ⟨rfl, rfl⟩ := nextTime_eq_none h
    simp at hs
  | some u =>
    obtain ⟨⟨a, ha, rfl⟩, hu⟩ := nextTime_least hl hr h
    have h₁ := hmin a ha
    have h₂ := hu s hs
    rw [Nat.le_antisymm h₂ h₁]

namespace Arena
variable {a : Arena} {start stop cursor t : Nat} {left right : List Sample}

@[simp] theorem steerAll_ball (side : Side) (after : Nat) (samples : List Sample) (a : Arena) :
    (a.steerAll side after samples).ball = a.ball := by
  unfold steerAll
  induction samples generalizing a with
  | nil => rfl
  | cons s samples ih =>
    rw [List.foldl_cons, ih]
    split <;> rfl

theorem replayFrom_of_none (h : nextTime left right = none) :
    a.replayFrom start stop cursor left right = a.advance cursor stop := by
  rw [replayFrom]
  split
  · rfl
  · simp_all

theorem replayFrom_of_lt (h : nextTime left right = some t) (ht : stop < t) :
    a.replayFrom start stop cursor left right = a.advance cursor stop := by
  rw [replayFrom]
  split
  · simp_all
  · simp_all

theorem replayFrom_of_le (h : nextTime left right = some t) (ht : t ≤ stop) :
    a.replayFrom start stop cursor left right =
      (a.advance cursor t).andThen fun a =>
        replayFrom start stop (max cursor t) (left.dropWhile (·.time = t))
          (right.dropWhile (·.time = t))
          ((a.steerAll .left start (left.takeWhile (·.time = t))).steerAll .right start
            (right.takeWhile (·.time = t))) := by
  rw [replayFrom]
  split
  · simp_all
  · rename_i u hu
    obtain rfl : t = u := Option.some.inj (h.symm.trans hu)
    rw [if_neg (by omega)]

/-- Samples that all come after an instant all take effect. -/
theorem steerAll_of_lt {side : Side} {after : Nat} {xs : List Sample}
    (h : ∀ s ∈ xs, after < s.time) :
    a.steerAll side after xs = xs.foldl (fun a s => a.steer side s.direction) a := by
  unfold steerAll
  induction xs generalizing a with
  | nil => rfl
  | cons x xs ih =>
    rw [List.foldl_cons, List.foldl_cons, if_pos (h x (by simp))]
    exact ih fun s hs => h s (by simp [hs])

/-- It does not matter after which instant a replay takes samples that come after either. -/
theorem replayFrom_after {before : Nat} (h : ∀ s ∈ left ++ right, start < s.time)
    (hb : ∀ s ∈ left ++ right, before < s.time) :
    a.replayFrom start stop cursor left right = a.replayFrom before stop cursor left right := by
  induction cursor, left, right, a using replayFrom.induct start stop with
  | case1 cursor left right a hn => rw [replayFrom_of_none hn, replayFrom_of_none hn]
  | case2 cursor left right a u hu hlt => rw [replayFrom_of_lt hu hlt, replayFrom_of_lt hu hlt]
  | case3 cursor left right a u hu hle ih =>
    have hu' := Nat.le_of_not_lt hle
    have hrest : ∀ s ∈ left.dropWhile (·.time = u) ++ right.dropWhile (·.time = u),
        s ∈ left ++ right := by
      intro s hs
      rcases List.mem_append.mp hs with hs | hs
      · exact List.mem_append_left _ ((List.dropWhile_sublist _).subset hs)
      · exact List.mem_append_right _ ((List.dropWhile_sublist _).subset hs)
    have htl : ∀ s ∈ left.takeWhile (·.time = u), s ∈ left ++ right := fun s hs =>
      List.mem_append_left _ ((List.takeWhile_sublist _).subset hs)
    have htr : ∀ s ∈ right.takeWhile (·.time = u), s ∈ left ++ right := fun s hs =>
      List.mem_append_right _ ((List.takeWhile_sublist _).subset hs)
    rw [replayFrom_of_le hu hu', replayFrom_of_le hu hu']
    congr 1
    funext b
    rw [ih b (fun s hs => h s (hrest s hs)) (fun s hs => hb s (hrest s hs)),
      steerAll_of_lt fun s hs => h s (htl s hs), steerAll_of_lt fun s hs => h s (htr s hs),
      steerAll_of_lt fun s hs => hb s (htl s hs), steerAll_of_lt fun s hs => hb s (htr s hs)]

/-- The samples of both sides at one instant take effect. -/
def steerAt (after t : Nat) (samples : Sides (List Sample)) (a : Arena) : Arena :=
  (a.steerAll .left after (samples.left.filter (·.time = t))).steerAll .right after
    (samples.right.filter (·.time = t))

theorem replayFrom_step (hl : InOrder left) (hr : InOrder right)
    (h : nextTime left right = some t) (ht : t ≤ stop) :
    a.replayFrom start stop cursor left right =
      (a.advance cursor t).andThen fun a =>
        replayFrom start stop (max cursor t) (left.filter (t < ·.time))
          (right.filter (t < ·.time)) (a.steerAt start t ⟨left, right⟩) := by
  obtain ⟨-, hmin⟩ := (nextTime_eq_some hl hr).mp h
  have hml : ∀ s ∈ left, t ≤ s.time := fun s hs => hmin s (List.mem_append_left _ hs)
  have hmr : ∀ s ∈ right, t ≤ s.time := fun s hs => hmin s (List.mem_append_right _ hs)
  rw [replayFrom_of_le h ht, hl.dropWhile_eq hml, hr.dropWhile_eq hmr, hl.takeWhile_eq hml,
    hr.takeWhile_eq hmr]
  rfl

theorem steerAt_filter {after u : Nat} {P : Sample → Bool}
    (h : ∀ s : Sample, s.time = u → P s = true) :
    steerAt after u ⟨left.filter P, right.filter P⟩ = steerAt after u ⟨left, right⟩ := by
  have hf (xs : List Sample) : (xs.filter P).filter (·.time = u) = xs.filter (·.time = u) := by
    rw [List.filter_filter]
    refine List.filter_congr fun s _ => ?_
    by_cases hs : s.time = u <;> simp [hs, h]
  funext a
  simp [steerAt, hf]

/-- A replay up to a sample's instant, the samples of that instant, and a replay of the rest: that
is a replay. -/
theorem replayFrom_cut (hl : InOrder left) (hr : InOrder right)
    (ht : ∃ s ∈ left ++ right, s.time = t) (hts : t ≤ stop) :
    a.replayFrom start stop cursor left right =
      ((a.replayFrom start t cursor (left.filter (·.time < t)) (right.filter (·.time < t))).adjust
        (steerAt start t ⟨left, right⟩)).andThen
        (replayFrom start stop (max cursor t) (left.filter (t < ·.time))
          (right.filter (t < ·.time))) := by
  induction cursor, left, right, a using replayFrom.induct start stop with
  | case1 cursor left right a hn =>
    obtain ⟨rfl, rfl⟩ := nextTime_eq_none hn
    simp at ht
  | case2 cursor left right a u hu hlt =>
    obtain ⟨s, hs, rfl⟩ := ht
    have := (nextTime_least hl hr hu).2 s hs
    omega
  | case3 cursor left right a u hu hle ih =>
    obtain ⟨hmem, hmin⟩ := nextTime_least hl hr hu
    have hml : ∀ s ∈ left, u ≤ s.time := fun s hs => hmin s (List.mem_append_left _ hs)
    have hmr : ∀ s ∈ right, u ≤ s.time := fun s hs => hmin s (List.mem_append_right _ hs)
    rw [hl.dropWhile_eq hml, hr.dropWhile_eq hmr, hl.takeWhile_eq hml, hr.takeWhile_eq hmr] at ih
    rw [replayFrom_step hl hr hu (Nat.le_of_not_lt hle)]
    obtain ⟨s, hs, hst⟩ := ht
    rcases Nat.eq_or_lt_of_le (hst ▸ hmin s hs : u ≤ t) with rfl | hut
    · -- Nothing comes before the first instant.
      have hnone (xs : List Sample) (hx : ∀ s ∈ xs, u ≤ s.time) :
          xs.filter (·.time < u) = [] := by
        refine List.filter_eq_nil_iff.mpr fun s hs => ?_
        simpa using hx s hs
      rw [hnone left hml, hnone right hmr, replayFrom_of_none rfl]
      rfl
    · have hfirst : nextTime (left.filter (·.time < t)) (right.filter (·.time < t)) = some u := by
        obtain ⟨v, hv, rfl⟩ := hmem
        rw [nextTime_eq_some (hl.filter _) (hr.filter _), ← List.filter_append]
        refine ⟨⟨v, List.mem_filter.mpr ⟨hv, by simpa using hut⟩, rfl⟩, fun w hw => ?_⟩
        exact hmin w (List.mem_filter.mp hw).1
      have hrest : ∃ s ∈ left.filter (u < ·.time) ++ right.filter (u < ·.time), s.time = t := by
        rw [← List.filter_append]
        exact ⟨s, List.mem_filter.mpr ⟨hs, by simpa [hst] using hut⟩, hst⟩
      have hmax : max (max cursor u) t = max cursor t := by omega
      rw [replayFrom_step (hl.filter _) (hr.filter _) hfirst hut.le, Played.andThen_adjust,
        Played.andThen_assoc]
      congr 1
      funext b
      have hb := ih b (hl.filter _) (hr.filter _) hrest
      rw [hmax, filter_later hut.le, filter_later hut.le, filter_between, filter_between] at hb
      rw [steerAt_filter (P := fun s => s.time < t) fun s hs => by simpa [hs] using hut]
      rw [steerAt_filter (P := fun s => u < s.time) fun s hs => by simpa [hs] using hut] at hb
      exact hb

/-- A sample of a window takes effect at its own instant: after all that is simulated up to it from
the samples before, and before all that is simulated from then on. -/
theorem replay_cut {samples : Sides (List Sample)} {side : Side} {s : Sample}
    (ho : ∀ side, InOrder (samples.get side))
    (hw : ∀ side, ∀ s ∈ samples.get side, start < s.time ∧ s.time ≤ stop)
    (hs : s ∈ samples.get side) :
    a.replay start stop samples =
      ((a.replay start s.time (samples.map (List.filter (·.time < s.time)))).adjust
        (steerAt start s.time samples)).andThen
        (replay s.time stop (samples.map (List.filter (s.time < ·.time)))) := by
  have hl : InOrder samples.left := ho .left
  have hr : InOrder samples.right := ho .right
  have hmem : s ∈ samples.left ++ samples.right := by
    cases side with
    | left => exact List.mem_append_left _ hs
    | right => exact List.mem_append_right _ hs
  have hstart : ∀ x ∈ samples.left ++ samples.right, start < x.time := by
    intro x hx
    rcases List.mem_append.mp hx with hx | hx
    · exact (hw .left x hx).1
    · exact (hw .right x hx).1
  have hlt := hstart s hmem
  refine (replayFrom_cut hl hr ⟨s, hmem, rfl⟩ (hw side s hs).2).trans ?_
  rw [Nat.max_eq_right hlt.le]
  congr 1
  funext b
  refine replayFrom_after ?_ ?_
  · rw [← List.filter_append]
    intro x hx
    exact hstart x (List.mem_filter.mp hx).1
  · rw [← List.filter_append]
    intro x hx
    simpa using (List.mem_filter.mp hx).2

@[simp] theorem steerAll_other {side : Side} {after : Nat} {xs : List Sample} :
    (a.steerAll side after xs).paddles.get side.opponent = a.paddles.get side.opponent := by
  unfold steerAll
  induction xs generalizing a with
  | nil => rfl
  | cons x xs ih =>
    rw [List.foldl_cons, ih]
    split
    · exact Sides.get_modify_opponent ..
    · rfl

/-- The last sample of an instant decides the way of the paddle from then on. -/
theorem steerAll_direction {side : Side} {after : Nat} {xs : List Sample} {s : Sample}
    (hv : s.Valid) (h : ∀ s ∈ xs, after < s.time) (hs : xs.getLast? = some s) :
    ((a.steerAll side after xs).paddles.get side).direction = s.direction := by
  obtain ⟨ys, rfl⟩ := List.getLast?_eq_some_iff.mp hs
  rw [steerAll_of_lt h, List.foldl_append]
  simp only [List.foldl_cons, List.foldl_nil, steer, Sides.get_modify_same, Paddle.steer]
  simp only [Sample.Valid, not_or] at hv
  rw [if_neg hv.1, if_neg hv.2]

theorem steerAt_direction {side : Side} {after : Nat} {samples : Sides (List Sample)} {s : Sample}
    (hv : s.Valid) (ht : after < t)
    (hs : ((samples.get side).filter (·.time = t)).getLast? = some s) :
    ((a.steerAt after t samples).paddles.get side).direction = s.direction := by
  have hlt (xs : List Sample) : ∀ s ∈ xs.filter (·.time = t), after < s.time := by
    intro s hs
    have := (List.mem_filter.mp hs).2
    simp only [decide_eq_true_eq] at this
    omega
  unfold steerAt
  cases side with
  | left =>
    rw [show Side.left = Side.right.opponent from rfl, steerAll_other]
    exact steerAll_direction hv (hlt _) hs
  | right => exact steerAll_direction hv (hlt _) hs

end Arena
end Rally
