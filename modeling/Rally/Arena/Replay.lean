import Rally.Arena.Sweep
import Rally.InputLog

/-!
Moving an arena from one instant to another, with the inputs of both sides taking effect on the way.
-/

namespace Rally

namespace Arena

/-- Lets a served ball go if it is due. -/
def release (now : Nat) (a : Arena) : Arena :=
  { a with ball := a.ball.release now }

/-- Moves everything from one instant to another, and lets a served ball go on the way. -/
def advance (start stop : Nat) (a : Arena) : Played :=
  if stop ≤ start then .start a
  else
    match a.ball.resumeAt with
    | some at' =>
      if !a.ball.moving && at' < stop then
        if start < at' then
          ((a.sweep (Clock.seconds (at' - start))).adjust (release at')).andThen
            (sweep (Clock.seconds (stop - at')))
        else (a.release start).sweep (Clock.seconds (stop - start))
      else a.sweep (Clock.seconds (stop - start))
    | none => a.sweep (Clock.seconds (stop - start))

/-- Steers the paddle of a side by those of the samples that come after an instant. -/
def steerAll (side : Side) (after : Nat) (samples : List Sample) (a : Arena) : Arena :=
  samples.foldl (fun a s => if after < s.time then a.steer side s.direction else a) a

end Arena

/-- The time of the earlier of the first samples of two lists. -/
def nextTime : List Sample → List Sample → Option Nat
  | s :: _, t :: _ => some (min s.time t.time)
  | s :: _, [] => some s.time
  | [], t :: _ => some t.time
  | [], [] => none

theorem length_dropWhile_le {α : Type} (p : α → Bool) (xs : List α) :
    (xs.dropWhile p).length ≤ xs.length :=
  (List.dropWhile_sublist p).length_le

theorem length_dropWhile_nextTime {ls rs : List Sample} {t : Nat} (h : nextTime ls rs = some t) :
    (ls.dropWhile (·.time = t)).length + (rs.dropWhile (·.time = t)).length <
      ls.length + rs.length := by
  have hl := length_dropWhile_le (fun s : Sample => decide (s.time = t)) ls
  have hr := length_dropWhile_le (fun s : Sample => decide (s.time = t)) rs
  cases ls with
  | nil =>
    cases rs with
    | nil => simp [nextTime] at h
    | cons r rs =>
      have hr := length_dropWhile_le (fun s : Sample => decide (s.time = t)) rs
      simp [nextTime] at h
      simp [h]
      omega
  | cons l ls =>
    have hl' := length_dropWhile_le (fun s : Sample => decide (s.time = t)) ls
    cases rs with
    | nil =>
      simp [nextTime] at h
      simp [h]
      omega
    | cons r rs =>
      have hr' := length_dropWhile_le (fun s : Sample => decide (s.time = t)) rs
      simp only [nextTime, Option.some.injEq] at h
      by_cases hlt : l.time = t
      · simp [hlt] at hr ⊢
        omega
      · have hrt : r.time = t := by omega
        simp [hrt] at hl ⊢
        omega

namespace Arena

/-- Replays the samples of both sides from `cursor` on. Those at one instant take effect together,
and those that do not come after `start` take none. -/
def replayFrom (start stop cursor : Nat) (left right : List Sample) (a : Arena) : Played :=
  match _h : nextTime left right with
  | none => a.advance cursor stop
  | some t =>
    if stop < t then a.advance cursor stop
    else
      (a.advance cursor t).andThen fun a =>
        replayFrom start stop (max cursor t) (left.dropWhile (·.time = t))
          (right.dropWhile (·.time = t))
          ((a.steerAll .left start (left.takeWhile (·.time = t))).steerAll .right start
            (right.takeWhile (·.time = t)))
termination_by left.length + right.length
decreasing_by exact length_dropWhile_nextTime _h

/-- Moves everything from one instant to another, with the samples of both sides taking effect at
their times. Samples outside the window take none. -/
def replay (start stop : Nat) (samples : Sides (List Sample)) (a : Arena) : Played :=
  a.replayFrom start stop start samples.left samples.right

end Arena
end Rally
