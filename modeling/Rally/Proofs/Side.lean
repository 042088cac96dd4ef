import Rally.Side

/-! Sides and the values held for them: what holds of both holds of one and of the other. -/
namespace Rally

@[simp] theorem Side.opponent_ne (side : Side) : side.opponent ≠ side := by
  cases side <;> simp [opponent]

@[simp] theorem Side.opponent_opponent (side : Side) : side.opponent.opponent = side := by
  cases side <;> rfl

theorem Side.eq_opponent_of_ne {side other : Side} (h : other ≠ side) : other = side.opponent := by
  cases side <;> cases other <;> first | rfl | exact absurd rfl h

theorem Side.forall_iff {P : Side → Prop} (side : Side) :
    (∀ s, P s) ↔ P side ∧ P side.opponent := by
  constructor
  · intro h
    exact ⟨h _, h _⟩
  · rintro ⟨h, ho⟩ s
    cases side <;> cases s <;> assumption

theorem Side.exists_iff {P : Side → Prop} (side : Side) :
    (∃ s, P s) ↔ P side ∨ P side.opponent := by
  constructor
  · rintro ⟨s, h⟩
    cases side <;> cases s <;> first | exact .inl h | exact .inr h
  · rintro (h | h) <;> exact ⟨_, h⟩

namespace Sides
variable {α β : Type} (s : Sides α) (side : Side) (a : α)

@[simp] theorem get_set_same : (s.set side a).get side = a := get_modify_same ..

@[simp] theorem get_set_opponent : (s.set side a).get side.opponent = s.get side.opponent :=
  get_modify_opponent ..

@[simp] theorem get_opponent_modify (f : α → α) :
    (s.modify side.opponent f).get side = s.get side := by
  cases side <;> rfl

@[simp] theorem get_opponent_set : (s.set side.opponent a).get side = s.get side :=
  get_opponent_modify ..

theorem modify_eq_set (f : α → α) : s.modify side f = s.set side (f (s.get side)) := by
  cases side <;> rfl

theorem get_modify_of_ne {other : Side} (f : α → α) (h : other ≠ side) :
    (s.modify side f).get other = s.get other := by
  cases side <;> cases other <;> first | rfl | exact absurd rfl h

theorem get_set_of_ne {other : Side} (h : other ≠ side) : (s.set side a).get other = s.get other :=
  get_modify_of_ne s side _ h

@[simp] theorem set_get : s.set side (s.get side) = s := by
  cases side <;> rfl

@[simp] theorem get_map (f : α → β) : (s.map f).get side = f (s.get side) := by
  cases side <;> rfl

/-- A value of some side is the one that has been set, or an old one of the other side. -/
theorem get_set_cases (other : Side) :
    other = side ∧ (s.set side a).get other = a ∨
      other ≠ side ∧ (s.set side a).get other = s.get other := by
  by_cases h : other = side
  · subst h
    exact .inl ⟨rfl, get_set_same ..⟩
  · exact .inr ⟨h, get_set_of_ne s side a h⟩

end Sides

end Rally
