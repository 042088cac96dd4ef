/-!
The two sides of a match, and values held for each of them.
-/

namespace Rally

/-- A side, named for the goal it defends. -/
inductive Side where
  | left
  | right
deriving DecidableEq

/-- The side at the other end. -/
def Side.opponent : Side → Side
  | .left => .right
  | .right => .left

/-- One value for each side. -/
structure Sides (α : Type) where
  left : α
  right : α
deriving DecidableEq

namespace Sides
variable {α β : Type}

/-- The same value for both sides. -/
def both (a : α) : Sides α := ⟨a, a⟩

/-- The value of a side. -/
def get (s : Sides α) : Side → α
  | .left => s.left
  | .right => s.right

/-- Changes the value of one side. -/
def modify (s : Sides α) (side : Side) (f : α → α) : Sides α :=
  match side with
  | .left => { s with left := f s.left }
  | .right => { s with right := f s.right }

/-- Replaces the value of one side. -/
def set (s : Sides α) (side : Side) (a : α) : Sides α :=
  s.modify side fun _ => a

/-- Changes both values. -/
def map (s : Sides α) (f : α → β) : Sides β :=
  ⟨f s.left, f s.right⟩

/-- The first side with a value that passes the test. -/
def find? (s : Sides α) (p : α → Bool) : Option Side :=
  if p s.left then some .left else if p s.right then some .right else none

@[simp] theorem get_modify_same (s : Sides α) (side : Side) (f : α → α) :
    (s.modify side f).get side = f (s.get side) := by
  cases side <;> rfl

@[simp] theorem get_modify_opponent (s : Sides α) (side : Side) (f : α → α) :
    (s.modify side f).get side.opponent = s.get side.opponent := by
  cases side <;> rfl

end Sides
end Rally
