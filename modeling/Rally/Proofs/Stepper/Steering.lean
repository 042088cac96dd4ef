import Rally.Proofs.Arena.Frame
import Rally.Proofs.Arena.Timeline
import Rally.Proofs.Stepper.Window

/-! However a window is taken, each paddle ends up going the way of its newest input. -/
namespace Rally

/-- The way of the newest of some samples, or `way` if there is none. -/
def newestWay (way : Int8) (xs : List Sample) : Int8 :=
  (xs.getLast?.map Sample.direction).getD way

theorem newestWay_append (way : Int8) (xs ys : List Sample) :
    newestWay way (xs ++ ys) = newestWay (newestWay way xs) ys := by
  unfold newestWay
  rw [List.getLast?_append]
  cases ys.getLast? <;> rfl

theorem newestWay_split (way : Int8) (P : Sample → Bool) (xs : List Sample) :
    newestWay (newestWay way (xs.takeWhile P)) (xs.dropWhile P) = newestWay way xs := by
  rw [← newestWay_append, List.takeWhile_append_dropWhile]

namespace Arena
variable {a : Arena} {start stop cursor : Nat} {left right : List Sample}

/-- The way that the paddle of a side goes. -/
def way (a : Arena) (side : Side) : Int8 := (a.paddles.get side).direction

theorem steerAll_follow {side : Side} {xs : List Sample}
    (h : ∀ s ∈ xs, s.Valid ∧ start < s.time) : a.steerAll side start xs =
      { a with paddles := a.paddles.modify side (·.follow xs) } := by
  rw [steerAll_eq_steerLast fun s hs => (h s hs).2]
  exact Stepper.steerLast_eq a fun s hs => (h s hs).1

theorem advance_way (start stop : Nat) (a : Arena) (side : Side) :
    (a.advance start stop).arena.way side = a.way side :=
  (Moved.law.advance start stop a).direction side

theorem replayFrom_way (hl : InOrder left) (hr : InOrder right)
    (h : ∀ s ∈ left ++ right, s.Valid ∧ start < s.time ∧ s.time ≤ stop) (side : Side) :
    (a.replayFrom start stop cursor left right).arena.way side =
      newestWay (a.way side) ((⟨left, right⟩ : Sides (List Sample)).get side) := by
  induction cursor, left, right, a using replayFrom.induct start stop with
  | case1 cursor left right a hn =>
    obtain ⟨rfl, rfl⟩ := nextTime_eq_none hn
    rw [replayFrom_of_none hn, advance_way]
    cases side <;> rfl
  | case2 cursor left right a t ht hlt =>
    obtain ⟨⟨s, hs, rfl⟩, -⟩ := nextTime_least hl hr ht
    have := (h s hs).2.2
    omega
  | case3 cursor left right a t ht hlt ih =>
    have hsub (xs : List Sample) : ∀ s ∈ xs.dropWhile (·.time = t), s ∈ xs :=
      fun s hs => (List.dropWhile_sublist _).subset hs
    have htake (xs : List Sample) : ∀ s ∈ xs.takeWhile (·.time = t), s ∈ xs :=
      fun s hs => (List.takeWhile_sublist _).subset hs
    have hrest : ∀ s ∈ left.dropWhile (·.time = t) ++ right.dropWhile (·.time = t),
        s.Valid ∧ start < s.time ∧ s.time ≤ stop := by
      intro s hs
      rcases List.mem_append.mp hs with hs | hs
      · exact h s (List.mem_append_left _ (hsub left s hs))
      · exact h s (List.mem_append_right _ (hsub right s hs))
    have hleft : ∀ s ∈ left.takeWhile (·.time = t), s.Valid ∧ start < s.time := by
      intro s hs
      have := h s (List.mem_append_left _ (htake left s hs))
      exact ⟨this.1, this.2.1⟩
    have hright : ∀ s ∈ right.takeWhile (·.time = t), s.Valid ∧ start < s.time := by
      intro s hs
      have := h s (List.mem_append_right _ (htake right s hs))
      exact ⟨this.1, this.2.1⟩
    have hway := advance_way cursor t a side
    rw [replayFrom_of_le ht (Nat.le_of_not_lt hlt)]
    refine (ih (a.advance cursor t).arena (hl.sublist (List.dropWhile_sublist _))
      (hr.sublist (List.dropWhile_sublist _)) hrest).trans ?_
    rw [steerAll_follow hright, steerAll_follow hleft]
    -- What takes effect now and what is left make up all the samples of the side.
    cases side with
    | left =>
      change newestWay (newestWay ((a.advance cursor t).arena.way .left) _) _ = newestWay _ left
      rw [hway]
      exact newestWay_split ..
    | right =>
      change newestWay (newestWay ((a.advance cursor t).arena.way .right) _) _ = newestWay _ right
      rw [hway]
      exact newestWay_split ..

end Arena

namespace Stepper
variable {s : Stepper} {now : Nat} {logs : Sides InputLog}

theorem simulated_way (a : Arena) (ho : ∀ side, InOrder ((s.inputs now logs).get side))
    (h : ∀ side, ∀ x ∈ (s.inputs now logs).get side,
      x.Valid ∧ s.lastTick < x.time ∧ x.time ≤ now) (side : Side) :
    (s.simulated now a logs).arena.way side =
      newestWay (a.way side) ((s.inputs now logs).get side) := by
  refine Arena.replayFrom_way (ho .left) (ho .right) (fun x hx => ?_) side
  rcases List.mem_append.mp hx with hx | hx
  · exact h .left x hx
  · exact h .right x hx

theorem resume_way (a : Arena) (h : ∀ side, ∀ x ∈ (s.inputs now logs).get side, x.Valid)
    (side : Side) : (s.resume now a logs).2.1.way side =
      newestWay (a.way side) ((s.inputs now logs).get side) := by
  rw [resume_arena _ _ _ _ h]
  cases side <;> rfl

end Stepper
end Rally
