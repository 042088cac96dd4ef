/-! Results of computations that can fail. -/
namespace Rally

variable {ε α β : Type} {x : Except ε α} {f : α → Except ε β} {b : β}

/-- A computation that gives a result went through all its parts. -/
theorem bind_eq_ok : x >>= f = .ok b ↔ ∃ a, x = .ok a ∧ f a = .ok b := by
  cases x with
  | error e => simp [bind, Except.bind]
  | ok a => simp [bind, Except.bind]

/-- A computation whose result passes a test. -/
theorem exists_ok (t : α → Prop) [DecidablePred t]
    (h : x.toOption.any (fun a => t a) = true) : ∃ a, x = .ok a ∧ t a := by
  cases x with
  | error e => simp [Except.toOption] at h
  | ok a => exact ⟨a, rfl, by simpa [Except.toOption] using h⟩

end Rally
