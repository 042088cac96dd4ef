import Rally.InputLog
import Mathlib.Data.List.TakeWhile

/-! A log is in the order of its times, so that what is taken from it is told by times alone. -/
namespace Rally

/-- A property that only a front of a list has selects that front. -/
theorem takeWhile_eq_filter {α : Type} {P : α → Bool} {xs : List α}
    (h : xs.Pairwise fun x y => P y = true → P x = true) : xs.takeWhile P = xs.filter P := by
  induction xs with
  | nil => rfl
  | cons x xs ih =>
    obtain ⟨hx, hxs⟩ := List.pairwise_cons.mp h
    cases hp : P x with
    | true => simp [hp, ih hxs]
    | false =>
      have hn : xs.filter P = [] := by
        refine List.filter_eq_nil_iff.mpr fun y hy hpy => ?_
        simp [hx y hy hpy] at hp
      simp [hp, hn]

theorem dropWhile_eq_filter {α : Type} {P : α → Bool} {xs : List α}
    (h : xs.Pairwise fun x y => P y = true → P x = true) :
    xs.dropWhile P = xs.filter fun x => !P x := by
  induction xs with
  | nil => rfl
  | cons x xs ih =>
    obtain ⟨hx, hxs⟩ := List.pairwise_cons.mp h
    cases hp : P x with
    | true => simp [hp, ih hxs]
    | false =>
      have hn : ∀ y ∈ xs, (!P y) = true := by
        intro y hy
        cases hpy : P y with
        | true => simp [hx y hy hpy] at hp
        | false => rfl
      simp [hp, List.filter_eq_self.mpr hn]

theorem filter_later {u t : Nat} (h : u ≤ t) (xs : List Sample) :
    (xs.filter (u < ·.time)).filter (t < ·.time) = xs.filter (t < ·.time) := by
  rw [List.filter_filter]
  refine List.filter_congr fun s _ => ?_
  simp only [← Bool.decide_and, decide_eq_decide]
  omega

theorem filter_between (u t : Nat) (xs : List Sample) :
    (xs.filter (u < ·.time)).filter (·.time < t) =
      (xs.filter (·.time < t)).filter (u < ·.time) := by
  rw [List.filter_filter, List.filter_filter]
  refine List.filter_congr fun s _ => ?_
  rw [Bool.and_comm]

theorem filter_window {u after : Nat} (h : u ≤ after) (upto : Nat) (xs : List Sample) :
    (xs.filter (u < ·.time)).filter (fun s => after < s.time ∧ s.time ≤ upto) =
      xs.filter fun s => after < s.time ∧ s.time ≤ upto := by
  rw [List.filter_filter]
  refine List.filter_congr fun s _ => ?_
  simp only [← Bool.decide_and, decide_eq_decide]
  omega

/-- Samples stand in the order of their times. -/
def InOrder (xs : List Sample) : Prop := xs.Pairwise fun a b => a.time ≤ b.time

namespace InOrder
variable {xs : List Sample} {t : Nat}

theorem filter (h : InOrder xs) (P : Sample → Bool) : InOrder (xs.filter P) :=
  List.Pairwise.filter P h

theorem takeWhile_le (h : InOrder xs) (t : Nat) :
    xs.takeWhile (·.time ≤ t) = xs.filter (·.time ≤ t) := by
  refine takeWhile_eq_filter (h.imp ?_)
  intro a b hab hb
  simp only [decide_eq_true_eq] at hb ⊢
  omega

theorem dropWhile_le (h : InOrder xs) (t : Nat) :
    xs.dropWhile (·.time ≤ t) = xs.filter (t < ·.time) := by
  rw [dropWhile_eq_filter]
  · refine List.filter_congr fun a _ => ?_
    simp [← decide_not]
  · refine h.imp ?_
    intro a b hab hb
    simp only [decide_eq_true_eq] at hb ⊢
    omega

/-- What comes up to an instant stands before what comes after it. -/
theorem split (h : InOrder xs) (t : Nat) :
    xs = xs.filter (·.time ≤ t) ++ xs.filter (t < ·.time) := by
  rw [← h.takeWhile_le, ← h.dropWhile_le, List.takeWhile_append_dropWhile]

/-- So it is with the samples of any kind. -/
theorem filter_split (h : InOrder xs) (t : Nat) {P Q R : Sample → Prop} [DecidablePred P]
    [DecidablePred Q] [DecidablePred R] (hq : ∀ s, Q s ↔ P s ∧ s.time ≤ t)
    (hr : ∀ s, R s ↔ P s ∧ t < s.time) : xs.filter P = xs.filter Q ++ xs.filter R := by
  refine ((h.filter _).split t).trans ?_
  simp only [List.filter_filter, hq, hr, Bool.decide_and, Bool.and_comm]

/-- The samples at the least instant of a list are its front. -/
theorem front (h : InOrder xs) (ht : ∀ a ∈ xs, t ≤ a.time) :
    xs.Pairwise fun a b => decide (b.time = t) = true → decide (a.time = t) = true := by
  refine List.Pairwise.imp_of_mem ?_ h
  intro a b ha hb hab hbt
  have := ht a ha
  simp only [decide_eq_true_eq] at hbt ⊢
  omega

theorem takeWhile_eq (h : InOrder xs) (ht : ∀ a ∈ xs, t ≤ a.time) :
    xs.takeWhile (·.time = t) = xs.filter (·.time = t) :=
  takeWhile_eq_filter (h.front ht)

theorem dropWhile_eq (h : InOrder xs) (ht : ∀ a ∈ xs, t ≤ a.time) :
    xs.dropWhile (·.time = t) = xs.filter (t < ·.time) := by
  rw [dropWhile_eq_filter (h.front ht)]
  refine List.filter_congr fun a ha => ?_
  have := ht a ha
  simp only [← decide_not, decide_eq_decide]
  omega

theorem le_last (h : InOrder xs) {b : Sample} (hb : xs.getLast? = some b) :
    ∀ a ∈ xs, a.time ≤ b.time := by
  obtain ⟨ys, rfl⟩ := List.getLast?_eq_some_iff.mp hb
  intro a ha
  rcases List.mem_append.mp ha with ha | ha
  · exact (List.pairwise_append.mp h).2.2 a ha b (by simp)
  · simp [List.mem_singleton.mp ha]

theorem snoc (h : InOrder xs) {s : Sample} (hs : ∀ a, xs.getLast? = some a → a.time ≤ s.time) :
    InOrder (xs ++ [s]) := by
  refine List.pairwise_append.mpr ⟨h, List.pairwise_singleton .., ?_⟩
  intro a ha b hb
  rw [List.mem_singleton.mp hb]
  cases hl : xs.getLast? with
  | none => simp [List.getLast?_eq_none_iff.mp hl] at ha
  | some last => exact (h.le_last hl a ha).trans (hs last hl)

theorem suffix {ys : List Sample} (h : InOrder xs) (hs : ys <:+ xs) : InOrder ys :=
  List.Pairwise.sublist hs.sublist h

end InOrder

end Rally
