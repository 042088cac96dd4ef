import Mathlib.Data.List.Induction
import Rally.Scalar

/-! The first of the members with the lowest rank. -/
namespace Rally.Scalar
variable {α : Type} {key : α → Scalar} {xs : List α} {x : α}

/-- A member that comes later is taken only if it is strictly lower. -/
theorem argmin_concat (key : α → Scalar) (xs : List α) (b : α) :
    argmin key (xs ++ [b]) = match argmin key xs with
      | none => some b
      | some best => some (if rank (key b) < rank (key best) then b else best) := by
  cases xs with
  | nil => rfl
  | cons a xs => simp [argmin, List.foldl_append]

theorem argmin_eq_none : argmin key xs = none ↔ xs = [] := by
  cases xs <;> simp [argmin]

theorem mem_of_argmin (h : argmin key xs = some x) : x ∈ xs := by
  induction xs using List.reverseRecOn generalizing x with
  | nil => cases h
  | append_singleton xs b ih =>
    rw [argmin_concat] at h
    cases hm : argmin key xs with
    | none =>
      obtain rfl : b = x := by simpa [hm] using h
      simp
    | some best =>
      rw [hm] at h
      have hx := Option.some.inj h
      split at hx
      · simp [← hx]
      · simp [← hx, ih hm]

theorem rank_argmin_le (h : argmin key xs = some x) : ∀ y ∈ xs, rank (key x) ≤ rank (key y) := by
  induction xs using List.reverseRecOn generalizing x with
  | nil => cases h
  | append_singleton xs b ih =>
    rw [argmin_concat] at h
    intro y hy
    cases hm : argmin key xs with
    | none =>
      obtain rfl := argmin_eq_none.mp hm
      obtain rfl : b = x := by simpa [argmin] using h
      obtain rfl : y = b := by simpa using hy
      exact Int.le_refl _
    | some best =>
      rw [hm] at h
      have hx := Option.some.inj h
      rcases List.mem_append.mp hy with hy | hy
      · have hbest := ih hm y hy
        split at hx <;> subst hx <;> omega
      · obtain rfl := List.mem_singleton.mp hy
        split at hx <;> subst hx <;> omega

/-- The lowest of all is the lowest of any part that it belongs to. -/
theorem argmin_filter {p : α → Bool} (h : argmin key xs = some x) (hp : p x = true) :
    argmin key (xs.filter p) = some x := by
  induction xs using List.reverseRecOn generalizing x with
  | nil => cases h
  | append_singleton xs b ih =>
    rw [argmin_concat] at h
    cases hm : argmin key xs with
    | none =>
      obtain rfl := argmin_eq_none.mp hm
      obtain rfl : b = x := by simpa [argmin] using h
      simp [hp, argmin]
    | some best =>
      rw [hm] at h
      have hx := Option.some.inj h
      rw [List.filter_append]
      by_cases hlt : rank (key b) < rank (key best)
      · obtain rfl : b = x := by simpa [hlt] using hx
        have hfilter : [b].filter p = [b] := by simp [hp]
        rw [hfilter, argmin_concat]
        cases hf : argmin key (xs.filter p) with
        | none => rfl
        | some y =>
          -- What is left of the earlier ones is no lower than their lowest.
          have hy := rank_argmin_le hm y (List.mem_filter.mp (mem_of_argmin hf)).1
          have hby : rank (key b) < rank (key y) := by omega
          simp [hby]
      · obtain rfl : best = x := by simpa [hlt] using hx
        have hbest := ih hm hp
        by_cases hb : p b = true
        · have hfilter : [b].filter p = [b] := by simp [hb]
          rw [hfilter, argmin_concat, hbest]
          simp [hlt]
        · simp [hb, hbest]

end Rally.Scalar
