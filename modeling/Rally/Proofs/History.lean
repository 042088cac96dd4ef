import Mathlib.Data.List.Basic

/-! Histories: what is true of each moment of one after all before it, and
clocks that only go on. -/
namespace Rally

variable {α β : Type} {P : List α → α → Prop} {h : List α} {x : α}

/-- Each moment of a history is as it should be after those before it. -/
def Throughout (P : List α → α → Prop) (h : List α) : Prop :=
  ∀ h₁ x h₂, h = h₁ ++ x :: h₂ → P h₁ x

theorem Throughout.nil : Throughout P [] := by
  intro h₁ x h₂ he
  simp at he

theorem Throughout.snoc (hh : Throughout P h) (hx : P h x) : Throughout P (h ++ [x]) := by
  intro h₁ y h₂ heq
  rcases List.eq_nil_or_concat h₂ with rfl | ⟨h₂, z, rfl⟩
  · obtain ⟨rfl, hy⟩ := List.append_inj' heq rfl
    cases hy
    exact hx
  · have heq' : h ++ [x] = (h₁ ++ y :: h₂) ++ [z] := by simpa using heq
    obtain ⟨rfl, -⟩ := List.append_inj' heq' rfl
    exact hh _ _ _ rfl

theorem count_toList [DecidableEq β] (o : Option β) (b : β) :
    o.toList.count b = if o = some b then 1 else 0 := by
  cases o with
  | none => simp
  | some c =>
    by_cases he : c = b
    · simp [he]
    · simp [he, List.count_cons_of_ne he]

/-- How often something has come of the moments of a history, after one more. -/
theorem count_filterMap_snoc [DecidableEq β] (f : α → Option β) (h : List α) (x : α) (b : β) :
    ((h ++ [x]).filterMap f).count b =
      (h.filterMap f).count b + if f x = some b then 1 else 0 := by
  have hx : [x].filterMap f = (f x).toList := by cases hf : f x <;> simp [hf]
  rw [List.filterMap_append, List.count_append, hx, count_toList]

/-- The times of some moments go on from an instant, and never back: so does the first, from that
instant, and so do the others, from the first. -/
theorem ascending_cons {f : α → Option Nat} {clock : Nat} {xs : List α} :
    (clock :: (x :: xs).filterMap f).Pairwise (· ≤ ·) ↔
      clock ≤ (f x).getD clock ∧ ((f x).getD clock :: xs.filterMap f).Pairwise (· ≤ ·) := by
  cases hn : f x with
  | none => simp [hn]
  | some now =>
    simp only [List.filterMap_cons, hn, Option.getD_some, List.pairwise_cons, List.mem_cons,
      forall_eq_or_imp]
    constructor
    · rintro ⟨⟨h, -⟩, hr⟩
      exact ⟨h, hr⟩
    · rintro ⟨h, hr⟩
      exact ⟨⟨h, fun u hu => Nat.le_trans h (hr.1 u hu)⟩, hr⟩

end Rally
