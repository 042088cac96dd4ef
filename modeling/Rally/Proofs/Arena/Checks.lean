import Rally.Proofs.Arena.Frame
import Rally.Proofs.Scalar.Overflow

/-! A replay that checks each operation with a condition on what it is given, and why none of its
checks fails. -/
namespace Rally

/-- Why an operation fails. -/
inductive Trap where
  /-- The bounds for a number are out of order. -/
  | bounds
  /-- A range for a random number is empty, or has no finite width. -/
  | range
  /-- A list is not in order, or has no such slice. -/
  | slice
  /-- A difference is negative. -/
  | difference
  /-- A sum has too many bits. -/
  | sum
  /-- There are more ticks than can be counted. -/
  | ticks
deriving DecidableEq

/-- A computation that checks its operations. -/
abbrev Checked := Except Trap

namespace Checked

/-- The difference of two numbers, which must not be negative. -/
def sub (a b : Nat) : Checked Nat := if b ≤ a then .ok (a - b) else .error .difference

/-- The sum of two numbers, which must not have more than so many bits. -/
def add (bits a b : Nat) : Checked Nat := if a + b < 2 ^ bits then .ok (a + b) else .error .sum

/-- A number moved between two bounds, which must be in order. -/
def confine (x lo hi : Scalar) : Checked Scalar :=
  if lo ≤ hi then .ok (x.confine lo hi) else .error .bounds

variable {α β : Type} {a b bits : Nat} {lo hi : Scalar}

@[simp] theorem ok_bind (a : α) (f : α → Checked β) : (Except.ok a >>= f) = f a := rfl

@[simp] theorem pure_eq (a : α) : (pure a : Checked α) = .ok a := rfl

theorem sub_eq (h : b ≤ a) : sub a b = .ok (a - b) := if_pos h

theorem add_eq (h : a + b < 2 ^ bits) : add bits a b = .ok (a + b) := if_pos h

theorem confine_eq (x : Scalar) (h : lo ≤ hi) : confine x lo hi = .ok (x.confine lo hi) := if_pos h

theorem mapM_eq {f : α → Checked β} {g : α → β} (h : ∀ a, f a = .ok (g a)) (xs : List α) :
    xs.mapM f = .ok (xs.map g) := by
  have hf : f = fun a => pure (g a) := funext h
  rw [hf, List.mapM_pure]
  rfl

end Checked

/-! A sweep that checks its operations. -/

def Paddle.advanceChecked (p : Paddle) (seconds : Scalar) : Checked Paddle := do
  let y := p.position.y + Scalar.ofInt8 p.direction * p.speed * seconds
  let y ← Checked.confine y (-p.travelLimit) p.travelLimit
  return { p with position := { p.position with y } }

def Arena.advancePaddlesChecked (a : Arena) (seconds : Scalar) : Checked Arena :=
  if 0 < seconds then do
    let left ← a.paddles.left.advanceChecked seconds
    let right ← a.paddles.right.advanceChecked seconds
    return { a with paddles := ⟨left, right⟩ }
  else return a

def Params.fanAngleChecked (p : Params) (heading : Scalar) (ray : Nat) : Checked Scalar := do
  let rays := max p.fanRays 1
  if rays = 1 then return heading - Scalar.halfPi + 0.5 * Scalar.pi
  else
    let gaps ← Checked.sub rays 1
    return heading - Scalar.halfPi + Scalar.ofNat ray / Scalar.ofNat gaps * Scalar.pi

def Ball.contactNormalChecked (b : Ball) (paddle : Paddle) (p : Params) : Checked (Option Vec) := do
  let reach := b.radius + p.castMargin + p.fanReach
  let heading := Scalar.angle b.direction.y b.direction.x
  let entries ← (List.range (max p.fanRays 1)).mapM fun ray => do
    let angle ← p.fanAngleChecked heading ray
    return paddle.body.entry b.position (.atAngle angle) reach
  return (Scalar.argmin Entry.distance (entries.filterMap id)).map Entry.normal

namespace Sweep
variable (s : Sweep)

def contactTimeChecked (e : Entry) : Checked Scalar :=
  if 0 < s.distance then do
    let part ← Checked.confine (s.contact e / s.distance) 0 1
    return s.remaining * part
  else return s.remaining * 0

def spendChecked (seconds : Scalar) : Checked Sweep := do
  let arena ← s.arena.advancePaddlesChecked seconds
  return { s with arena, remaining := s.remaining - seconds }

def meetChecked (surface : Surface) (e : Entry) : Checked Sweep := do
  let time ← s.contactTimeChecked e
  match surface with
  | .trigger side level =>
    return { s with
      crossed := surface :: s.crossed, incidents := s.incidents ++ [.trigger side level] }
  | .wall => (s.ballDid (fun b => (b.travel (s.contact e)).bounce e.normal) .wall).spendChecked time
  | .goal owner =>
    (s.ballDid (fun b => (b.travel (s.contact e)).stop) (.goal owner.opponent)).spendChecked time
  | .paddle side =>
    let paddle ← (s.arena.paddles.get side).advanceChecked time
    match ← (s.arena.ball.travel (s.contact e)).contactNormalChecked paddle s.arena.params with
    | some normal =>
      (s.ballDid (fun b => ((b.travel (s.contact e)).bounce normal).accelerate)
        (.hit side)).spendChecked time
    | none =>
      (s.ballDid (fun b => (b.travel (s.contact e)).stop) (.stuck side)).spendChecked time

def glideChecked : Checked Sweep := do
  let arena ←
    { s.arena with ball := s.arena.ball.travel s.distance }.advancePaddlesChecked s.remaining
  return { s with arena, remaining := 0 }

def runChecked : Nat → Sweep → Checked Sweep
  | 0, s => return s
  | passes + 1, s =>
    if s.arena.params.timeEpsilon < s.remaining ∧ s.arena.ball.moving then
      match s.strike with
      | none => s.glideChecked
      | some (surface, e) => do
        let s ← s.meetChecked surface e
        runChecked passes s
    else return s

def finishChecked : Checked Played := do
  let arena ← s.arena.advancePaddlesChecked s.remaining
  return { s.toPlayed with arena }

end Sweep

/-! A replay that checks its operations. -/

def Played.andThenChecked (p : Played) (f : Arena → Checked Played) : Checked Played := do
  let q ← f p.arena
  return ⟨q.arena, p.incidents ++ q.incidents⟩

namespace Arena

def sweepChecked (seconds : Scalar) (a : Arena) : Checked Played :=
  if seconds ≤ 0 then return .start a
  else if !a.ball.moving then do
    let a ← a.advancePaddlesChecked seconds
    return .start a
  else
    match a.goals.find? (·.bounds.contains a.ball.position) with
    | some goal => do
      let a ← { a with ball := a.ball.stop }.advancePaddlesChecked seconds
      return ⟨a, [.goal goal.owner.opponent]⟩
    | none => do
      let s ← Sweep.runChecked a.params.maxPasses (.start a seconds)
      s.finishChecked

/-- A sweep from one instant to another, which must not be earlier. -/
def sweepBetween (start stop : Nat) (a : Arena) : Checked Played := do
  let time ← Checked.sub stop start
  a.sweepChecked (Clock.seconds time)

def advanceChecked (start stop : Nat) (a : Arena) : Checked Played :=
  if stop ≤ start then return .start a
  else
    match a.ball.resumeAt with
    | some at' =>
      if !a.ball.moving && at' < stop then
        if start < at' then do
          let first ← a.sweepBetween start at'
          (first.adjust (release at')).andThenChecked (sweepBetween at' stop)
        else (a.release start).sweepBetween start stop
      else a.sweepBetween start stop
    | none => a.sweepBetween start stop

def replayFromChecked (start stop cursor : Nat) (left right : List Sample) (a : Arena) :
    Checked Played :=
  match _h : nextTime left right with
  | none => a.advanceChecked cursor stop
  | some t =>
    if stop < t then a.advanceChecked cursor stop
    else do
      let first ← a.advanceChecked cursor t
      first.andThenChecked fun a =>
        replayFromChecked start stop (max cursor t) (left.dropWhile (·.time = t))
          (right.dropWhile (·.time = t))
          ((a.steerAll .left start (left.takeWhile (·.time = t))).steerAll .right start
            (right.takeWhile (·.time = t)))
termination_by left.length + right.length
decreasing_by exact length_dropWhile_nextTime _h

def replayChecked (start stop : Nat) (samples : Sides (List Sample)) (a : Arena) : Checked Played :=
  a.replayFromChecked start stop start samples.left samples.right

end Arena

/-! No check of a sweep fails. -/

/-- The limits of a paddle are in order. -/
def Paddle.Reined (p : Paddle) : Prop := -p.travelLimit ≤ p.travelLimit

/-- The limits of both paddles are in order. -/
def Arena.Reined (a : Arena) : Prop := ∀ side, (a.paddles.get side).Reined

theorem Paddle.reined_ofParams (side : Side) (params : Params) : (ofParams side params).Reined :=
  Scalar.neg_positivePart_le _

theorem Paddle.Reined.advanceChecked {p : Paddle} (h : p.Reined) (seconds : Scalar) :
    p.advanceChecked seconds = .ok (p.advance seconds) := by
  rw [Paddle.advanceChecked, Checked.confine_eq _ h]
  rfl

theorem Params.fanAngleChecked_eq (p : Params) (heading : Scalar) (ray : Nat) :
    p.fanAngleChecked heading ray = .ok (p.fanAngle heading ray) := by
  unfold fanAngleChecked fanAngle
  simp only
  split
  · rfl
  · rw [Checked.sub_eq (by omega)]
    rfl

theorem Ball.contactNormalChecked_eq (b : Ball) (paddle : Paddle) (p : Params) :
    b.contactNormalChecked paddle p = .ok (b.contactNormal paddle p) := by
  simp only [contactNormalChecked, p.fanAngleChecked_eq, Checked.ok_bind, Checked.pure_eq]
  rw [Checked.mapM_eq fun _ => rfl]
  simp [contactNormal, List.filterMap_map]

namespace Arena.Reined
variable {a b : Arena}

theorem ofParams (params : Params) : (Arena.ofParams params).Reined
  | .left => Paddle.reined_ofParams .left params
  | .right => Paddle.reined_ofParams .right params

/-- Limits do not change when paddles move. -/
theorem moved (h : a.Reined) (hab : a.Moved b) : b.Reined := by
  intro side
  obtain ⟨y, hy⟩ := hab.paddles side
  rw [hy]
  exact h side

theorem advancePaddles (h : a.Reined) (seconds : Scalar) : (a.advancePaddles seconds).Reined :=
  h.moved (Moved.advancePaddles a seconds)

theorem steer (h : a.Reined) (side : Side) (direction : Int8) : (a.steer side direction).Reined :=
  steer_invariant (fun _ hp => hp) h side direction

theorem steerAll (h : a.Reined) (side : Side) (after : Nat) (xs : List Sample) :
    (a.steerAll side after xs).Reined :=
  steerAll_invariant (fun _ hp => hp) h side after xs

theorem replay (h : a.Reined) (start stop : Nat) (samples : Sides (List Sample)) :
    (a.replay start stop samples).arena.Reined := by
  have hlaw : Law fun a p => a.Reined → p.arena.Reined :=
    ⟨fun _ => id, fun a seconds h => h.moved (Moved.sweep a seconds), fun hp hf h => hf (hp h),
      fun _ hp h => hp h⟩
  refine hlaw.replayFrom ?_ start stop start samples.left samples.right a h
  intro a p side after xs hp h
  exact hp (h.steerAll side after xs)

theorem advancePaddlesChecked (h : a.Reined) (seconds : Scalar) :
    a.advancePaddlesChecked seconds = .ok (a.advancePaddles seconds) := by
  have hl : a.paddles.left.Reined := h .left
  have hr : a.paddles.right.Reined := h .right
  unfold Arena.advancePaddlesChecked Arena.advancePaddles
  split
  · rw [hl.advanceChecked, hr.advanceChecked]
    rfl
  · rfl

end Arena.Reined

namespace Sweep
variable {s : Sweep} {surface : Surface} {e : Entry}

theorem contactTimeChecked_eq (s : Sweep) (e : Entry) :
    s.contactTimeChecked e = .ok (s.contactTime e) := by
  unfold contactTimeChecked contactTime
  split
  · rw [Checked.confine_eq _ ((Scalar.is_zero.le_iff Scalar.is_one).mpr zero_le_one)]
    rfl
  · rfl

theorem spendChecked_eq (h : s.arena.Reined) (seconds : Scalar) :
    s.spendChecked seconds = .ok (s.spend seconds) := by
  rw [spendChecked, h.advancePaddlesChecked]
  rfl

theorem meetChecked_eq (h : s.arena.Reined) (surface : Surface) (e : Entry) :
    s.meetChecked surface e = .ok (s.meet surface e) := by
  have hspend (f : Ball → Ball) (i : Incident) :
      (s.ballDid f i).spendChecked (s.contactTime e) =
        .ok ((s.ballDid f i).spend (s.contactTime e)) :=
    spendChecked_eq (s := s.ballDid f i) h _
  rw [meetChecked, contactTimeChecked_eq, Checked.ok_bind]
  cases surface with
  | trigger => rfl
  | wall | goal => exact hspend ..
  | paddle side =>
    simp only [(h side).advanceChecked, Ball.contactNormalChecked_eq, Checked.ok_bind, meet]
    cases (s.arena.ball.travel (s.contact e)).contactNormal
      ((s.arena.paddles.get side).advance (s.contactTime e)) s.arena.params with
    | some normal => exact hspend ..
    | none => exact hspend ..

theorem reined_meet (hg : s.GoesOn) (h : s.arena.Reined) (surface : Surface) (e : Entry) :
    (s.meet surface e).arena.Reined := by
  refine meet_invariant (I := fun p => p.arena.Reined) ?_ ?_ ?_ surface e hg.2 h
  · intro p seconds hp
    exact hp.advancePaddles seconds
  · intro p distance _ hp
    exact hp
  · intro p i b _ hp _
    exact hp

theorem glideChecked_eq (h : s.arena.Reined) : s.glideChecked = .ok s.glide := by
  have htravel : { s.arena with ball := s.arena.ball.travel s.distance }.Reined := h
  rw [glideChecked, htravel.advancePaddlesChecked]
  rfl

theorem reined_glide (h : s.arena.Reined) : s.glide.arena.Reined := by
  have htravel : { s.arena with ball := s.arena.ball.travel s.distance }.Reined := h
  exact htravel.advancePaddles s.remaining

theorem reined_run (passes : Nat) (h : s.arena.Reined) : (run passes s).arena.Reined :=
  run_invariant (I := fun s => s.arena.Reined) (fun _ h => reined_glide h)
    (fun hg _ h => reined_meet hg h _ _) passes h

theorem runChecked_eq (passes : Nat) (h : s.arena.Reined) :
    runChecked passes s = .ok (run passes s) := by
  induction passes generalizing s with
  | zero => rfl
  | succ passes ih =>
    by_cases hg : s.GoesOn
    · have hgo : s.arena.params.timeEpsilon < s.remaining ∧ s.arena.ball.moving = true := hg
      cases hs : s.strike with
      | none =>
        rw [run_of_none hg hs, runChecked, hs, if_pos hgo]
        exact glideChecked_eq h
      | some x =>
        rw [run_of_strike hg hs, runChecked, hs, if_pos hgo]
        simp only [meetChecked_eq h, Checked.ok_bind]
        exact ih (reined_meet hg h _ _)
    · rw [run_of_not_goesOn hg, runChecked]
      exact if_neg hg

end Sweep

/-! No check of a replay fails. -/

theorem Played.andThenChecked_eq (p : Played) {f : Arena → Checked Played} {g : Arena → Played}
    (h : f p.arena = .ok (g p.arena)) : p.andThenChecked f = .ok (p.andThen g) := by
  rw [andThenChecked, h]
  rfl

namespace Arena.Reined
variable {a : Arena} {start stop cursor : Nat} {left right : List Sample}

theorem finishChecked {s : Sweep} (h : s.arena.Reined) : s.finishChecked = .ok s.finish := by
  rw [Sweep.finishChecked, h.advancePaddlesChecked]
  rfl

theorem sweepChecked (h : a.Reined) (seconds : Scalar) :
    a.sweepChecked seconds = .ok (a.sweep seconds) := by
  unfold Arena.sweepChecked Arena.sweep
  split
  · rfl
  · split
    · rw [h.advancePaddlesChecked]
      rfl
    · cases a.goals.find? (·.bounds.contains a.ball.position) with
      | some goal =>
        have hstop : { a with ball := a.ball.stop }.Reined := h
        simp only [hstop.advancePaddlesChecked]
        rfl
      | none =>
        have hstart : (Sweep.start a seconds).arena.Reined := h
        simp only [Sweep.runChecked_eq _ hstart, Checked.ok_bind]
        exact finishChecked (Sweep.reined_run _ hstart)

theorem sweepBetween (h : a.Reined) (hle : start ≤ stop) :
    a.sweepBetween start stop = .ok (a.sweep (Clock.seconds (stop - start))) := by
  rw [Arena.sweepBetween, Checked.sub_eq hle]
  exact h.sweepChecked _

theorem advanceChecked (h : a.Reined) (start stop : Nat) :
    a.advanceChecked start stop = .ok (a.advance start stop) := by
  unfold Arena.advanceChecked Arena.advance
  split
  · rfl
  · have hle : start ≤ stop := by omega
    have hrelease : (a.release start).Reined := h
    cases a.ball.resumeAt with
    | none => exact h.sweepBetween hle
    | some at' =>
      simp only
      split
      · rename_i hdue
        have hat : at' < stop := by simpa using (Bool.and_eq_true_iff.mp hdue).2
        split
        · rename_i hs
          have hfirst : (a.sweep (Clock.seconds (at' - start))).arena.Reined :=
            h.moved (Moved.sweep a _)
          have hrest :
              ((a.sweep (Clock.seconds (at' - start))).adjust (release at')).arena.Reined := hfirst
          rw [h.sweepBetween hs.le, Checked.ok_bind]
          exact Played.andThenChecked_eq _ (hrest.sweepBetween hat.le)
        · exact hrelease.sweepBetween hle
      · exact h.sweepBetween hle

theorem replayFromChecked (h : a.Reined) (start stop cursor : Nat) (left right : List Sample) :
    a.replayFromChecked start stop cursor left right =
      .ok (a.replayFrom start stop cursor left right) := by
  induction cursor, left, right, a using replayFrom.induct start stop with
  | case1 cursor left right a hn =>
    rw [replayFrom_of_none hn, Arena.replayFromChecked]
    split
    · exact h.advanceChecked cursor stop
    · simp_all
  | case2 cursor left right a t ht hlt =>
    rw [replayFrom_of_lt ht hlt, Arena.replayFromChecked]
    split
    · simp_all
    · rename_i u hu
      obtain rfl : t = u := Option.some.inj (ht.symm.trans hu)
      rw [if_pos hlt]
      exact h.advanceChecked cursor stop
  | case3 cursor left right a t ht hlt ih =>
    rw [replayFrom_of_le ht (Nat.le_of_not_lt hlt), Arena.replayFromChecked]
    split
    · simp_all
    · rename_i u hu
      obtain rfl : t = u := Option.some.inj (ht.symm.trans hu)
      rw [if_neg hlt, h.advanceChecked, Checked.ok_bind]
      have hfirst : (a.advance cursor t).arena.Reined := h.moved (Moved.law.advance cursor t a)
      exact Played.andThenChecked_eq _ (ih _ ((hfirst.steerAll _ _ _).steerAll _ _ _))

theorem replayChecked (h : a.Reined) (start stop : Nat) (samples : Sides (List Sample)) :
    a.replayChecked start stop samples = .ok (a.replay start stop samples) :=
  h.replayFromChecked start stop start samples.left samples.right

end Arena.Reined
end Rally
