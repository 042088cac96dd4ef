import Rally.Proofs.Arena.Live
import Rally.Proofs.Arena.Timeline
import Rally.Proofs.Stepper.Window

/-! A ball that has been served rests until it is due, and leaves just then. -/
namespace Rally

/-- A ball that rests until an instant. -/
structure Ball.Due (b : Ball) (t : Nat) : Prop where
  moving : b.moving = false
  resumeAt : b.resumeAt = some t

/-- Lets the ball go. -/
def Ball.launch (b : Ball) : Ball := { b with moving := true, resumeAt := none }

/-- Lets the ball of an arena go. -/
def Arena.launch (a : Arena) : Arena := { a with ball := a.ball.launch }

/-- Equal continuations from where something has led to make no difference. -/
theorem Played.andThen_congr {p : Played} {f g : Arena → Played} (h : f p.arena = g p.arena) :
    p.andThen f = p.andThen g := by
  rw [andThen, andThen, h]

/-- The instants of a window are those of its first part and those of its second. -/
theorem instants_append {start t stop : Nat} (samples : Sides (List Sample)) (hs : start ≤ t)
    (ht : t ≤ stop) :
    instants start stop samples = instants start t samples ++ instants t stop samples := by
  refine eq_instants (List.pairwise_append.mpr
    ⟨instants_increasing .., instants_increasing .., ?_⟩) fun u => ?_
  · intro u hu v hv
    have := (mem_instants.mp hu).1
    have := (mem_instants.mp hv).1
    omega
  · rw [List.mem_append, mem_instants, mem_instants, ← or_and_right]
    refine and_congr_left fun _ => ?_
    omega

namespace Arena
variable {a : Arena} {start stop cursor t : Nat} {left right : List Sample}
  {samples : Sides (List Sample)}

/-! The ball rests. -/

/-- A ball that is neither moving nor due before an instant rests up to it. -/
theorem advance_idle (hm : a.ball.moving = false) (hd : ∀ t, a.ball.resumeAt = some t → stop ≤ t) :
    a.Rests (a.advance start stop) := by
  unfold advance
  split
  · exact ⟨rfl, rfl⟩
  · cases hr : a.ball.resumeAt with
    | none => exact rests_sweep _ hm
    | some t =>
      have := hd t hr
      simp only
      rw [if_neg (by simp; omega)]
      exact rests_sweep _ hm

theorem replayFrom_idle (hm : a.ball.moving = false)
    (hd : ∀ t, a.ball.resumeAt = some t → stop ≤ t) :
    a.Rests (a.replayFrom start stop cursor left right) := by
  induction cursor, left, right, a using replayFrom.induct start stop with
  | case1 cursor left right a hn =>
    rw [replayFrom_of_none hn]
    exact advance_idle hm hd
  | case2 cursor left right a t ht hlt =>
    rw [replayFrom_of_lt ht hlt]
    exact advance_idle hm hd
  | case3 cursor left right a t ht hlt ih =>
    have hle := Nat.le_of_not_lt hlt
    have hfirst : a.Rests (a.advance cursor t) :=
      advance_idle hm fun u hu => Nat.le_trans hle (hd u hu)
    have hball : ∀ b : Arena, b.ball = a.ball → ((b.steerAll .left start
        (left.takeWhile (·.time = t))).steerAll .right start
        (right.takeWhile (·.time = t))).ball = a.ball := by
      intro b hb
      rw [steerAll_ball, steerAll_ball, hb]
    have hb := hball _ hfirst.2
    rw [replayFrom_of_le ht hle]
    obtain ⟨hi, hc⟩ := ih (a.advance cursor t).arena (by rw [hb]; exact hm) (by rw [hb]; exact hd)
    exact hfirst.andThen ⟨hi, hc.trans (hb.trans hfirst.2.symm)⟩

theorem replay_idle (samples : Sides (List Sample)) (hm : a.ball.moving = false)
    (hd : ∀ t, a.ball.resumeAt = some t → stop ≤ t) : a.Rests (a.replay start stop samples) :=
  replayFrom_idle hm hd

/-! The ball leaves. -/

/-- An arena in which the ball moves goes on as a whole. -/
theorem advance_moving (h : a.ball.moving = true) (hlt : start < stop) :
    a.advance start stop = a.sweep (Clock.seconds (stop - start)) := by
  unfold advance
  rw [if_neg (by omega)]
  cases a.ball.resumeAt with
  | none => rfl
  | some t => simp [h]

theorem release_due (h : a.ball.Due t) {now : Nat} (hn : t ≤ now) : a.release now = a.launch := by
  simp [release, Ball.release, Ball.due, h.moving, h.resumeAt, hn, launch, Ball.launch]

/-- A ball that was due before leaves at once. -/
theorem advance_late (h : a.ball.Due t) (ht : t ≤ cursor) (hs : cursor < stop) :
    a.advance cursor stop = a.launch.advance cursor stop := by
  rw [advance_moving (a := a.launch) rfl hs]
  unfold advance
  rw [if_neg (by omega)]
  simp only [h.resumeAt]
  rw [if_pos (by simp [h.moving]; omega), if_neg (by omega), release_due h ht]

/-- A ball that is due on the way leaves when it is. -/
theorem advance_launch (h : a.ball.Due t) (hc : cursor ≤ t) (hs : t < stop) :
    a.advance cursor stop = ((a.advance cursor t).adjust launch).andThen (advance t stop) := by
  rcases Nat.eq_or_lt_of_le hc with rfl | hlt
  · rw [advance_late h (Nat.le_refl _) hs, advance_of_le (Nat.le_refl _)]
    exact (Played.start_andThen ..).symm
  · have hfirst : a.advance cursor t = a.sweep (Clock.seconds (t - cursor)) := by
      unfold advance
      rw [if_neg (by omega)]
      simp [h.resumeAt]
    have hdue : (a.sweep (Clock.seconds (t - cursor))).arena.ball.Due t := by
      rw [(rests_sweep _ h.moving).2]
      exact h
    rw [hfirst]
    unfold advance
    rw [if_neg (by omega)]
    simp only [h.resumeAt]
    rw [if_pos (by simp [h.moving, hs]), if_pos hlt, Played.adjust_andThen, Played.adjust_andThen]
    refine Played.andThen_congr ?_
    rw [release_due hdue (Nat.le_refl _)]
    exact (advance_moving rfl hs).symm

theorem turnAt_ball (t : Nat) (samples : Sides (List Sample)) (a : Arena) :
    (a.turnAt t samples).ball = a.ball := by
  simp [turnAt]

/-- On the timeline, the ball leaves between the instants up to the one at which it is due and those
after it. -/
theorem along_launch {ts us : List Nat} (h : a.ball.Due t) (hc : cursor ≤ t) (hs : t < stop)
    (hts : ∀ u ∈ ts, u ≤ t) (hus : ∀ u ∈ us, t < u) :
    a.along samples stop (ts ++ us) cursor =
      ((a.along samples t ts cursor).adjust launch).andThen (along samples stop us t) := by
  induction ts generalizing a cursor with
  | nil =>
    cases us with
    | nil => exact advance_launch h hc hs
    | cons u us =>
      have hu := hus u (by simp)
      simp only [List.nil_append, along]
      rw [advance_launch h hc hu, Played.andThen_assoc]
  | cons u ts ih =>
    have hu := hts u (by simp)
    simp only [List.cons_append, along]
    rw [Played.andThen_adjust, Played.andThen_assoc]
    refine Played.andThen_congr ?_
    refine ih ?_ hu fun v hv => hts v (by simp [hv])
    rw [turnAt_ball, (advance_idle h.moving fun v hv => ?_).2]
    · exact h
    · rw [h.resumeAt] at hv
      exact Option.some.inj hv ▸ hu

theorem along_late {us : List Nat} (h : a.ball.Due t) (ht : t ≤ start) (hs : start < stop)
    (hus : ∀ u ∈ us, start < u) :
    a.along samples stop us start = a.launch.along samples stop us start := by
  cases us with
  | nil => exact advance_late h ht hs
  | cons u us =>
    simp only [along]
    rw [advance_late h ht (hus u (by simp))]

/-- In a window without time nothing happens. -/
theorem replay_of_le (h : stop ≤ start) (ho : ∀ side, InOrder (samples.get side)) :
    a.replay start stop samples = .start a := by
  rw [replay_along ho, instants_eq_nil fun _ _ hlt => Nat.lt_of_le_of_lt h hlt]
  exact advance_of_le h a

/-- A ball rests from the start of a window to the instant at which it is due. -/
theorem replay_due (h : a.ball.Due t) (ho : ∀ side, InOrder (samples.get side)) :
    a.Rests (a.replay start (max t start) samples) := by
  rcases Nat.le_total start t with hle | hle
  · rw [Nat.max_eq_left hle]
    exact replay_idle samples h.moving fun u hu =>
      Nat.le_of_eq (Option.some.inj (h.resumeAt.symm.trans hu))
  · rw [Nat.max_eq_right hle, replay_of_le (Nat.le_refl _) ho]
    exact ⟨rfl, rfl⟩

/-- A ball that is due within a window or before it rests until then, as if the window ended there,
and moves from then on, as if the window began there. -/
theorem replay_release (h : a.ball.Due t) (hs : max t start < stop)
    (ho : ∀ side, InOrder (samples.get side)) :
    a.replay start stop samples =
      ((a.replay start (max t start) samples).adjust launch).andThen
        (replay (max t start) stop samples) := by
  have hafter : ∀ u ∈ instants (max t start) stop samples, max t start < u := fun u hu =>
    (mem_instants.mp hu).1.1
  have hrest : replay (max t start) stop samples =
      along samples stop (instants (max t start) stop samples) (max t start) := by
    funext b
    exact replay_along ho
  rw [hrest, replay_along ho]
  rcases Nat.le_total start t with hle | hle
  · rw [Nat.max_eq_left hle] at hs hafter ⊢
    rw [replay_along ho, instants_append samples hle hs.le]
    exact along_launch h hle hs (fun u hu => (mem_instants.mp hu).1.2) hafter
  · rw [Nat.max_eq_right hle] at hs hafter ⊢
    rw [replay_of_le (Nat.le_refl _) ho, along_late h hle hs hafter]
    exact (Played.start_andThen ..).symm

/-! The speed of a serve is always the same. -/

theorem minSpeed_sweep (a : Arena) (seconds : Scalar) :
    (a.sweep seconds).arena.ball.minSpeed = a.ball.minSpeed := by
  refine sweep_invariant (I := fun p => p.arena.ball.minSpeed = a.ball.minSpeed) ?_ ?_ ?_
    seconds rfl
  · intro p seconds hp
    simpa [Played.adjust] using hp
  · intro p distance _ hp
    exact hp
  · intro p i b _ hp hb
    cases hb <;> exact hp

theorem minSpeed_law : Law fun a p => p.arena.ball.minSpeed = a.ball.minSpeed := by
  refine ⟨fun _ => rfl, minSpeed_sweep, fun hp hf => hf.trans hp, ?_⟩
  intro a p now hp
  rw [hp]
  unfold release Ball.release
  split <;> rfl

theorem minSpeed_replay (samples : Sides (List Sample)) :
    (a.replay start stop samples).arena.ball.minSpeed = a.ball.minSpeed := by
  refine minSpeed_law.replayFrom ?_ start stop start samples.left samples.right a
  intro a p side after xs hp
  rw [hp, steerAll_ball]

end Arena
end Rally
