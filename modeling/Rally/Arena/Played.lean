import Rally.Arena

/-!
What happens in an arena, and how it adds up.
-/

namespace Rally

/-- Something the ball did. -/
inductive Incident where
  /-- It bounced off a wall. -/
  | wall
  /-- It bounced off the paddle of a side. -/
  | hit (side : Side)
  /-- It reached a trigger. -/
  | trigger (side : Side) (level : Nat)
  /-- It reached the goal of the scorer's opponent, and stopped. -/
  | goal (scorer : Side)
  /-- It reached a paddle of which no ray of the fan found a face, and stopped. -/
  | stuck (side : Side)
deriving DecidableEq

/-- An arena, and what has happened in it since some instant. -/
structure Played where
  arena : Arena
  incidents : List Incident
deriving DecidableEq

namespace Played
variable (p : Played)

/-- Nothing has happened. -/
def start (a : Arena) : Played := ⟨a, []⟩

/-- Continues, keeping what happened before. -/
def andThen (f : Arena → Played) : Played :=
  ⟨(f p.arena).arena, p.incidents ++ (f p.arena).incidents⟩

/-- Changes the arena while nothing happens. -/
def adjust (f : Arena → Arena) : Played :=
  { p with arena := f p.arena }

/-- Adds one incident. -/
def add (i : Incident) : Played :=
  { p with incidents := p.incidents ++ [i] }

@[simp] theorem start_andThen (a : Arena) (f : Arena → Played) : (start a).andThen f = f a := by
  simp [start, andThen]

@[simp] theorem andThen_start : p.andThen start = p := by
  simp [start, andThen]

theorem andThen_assoc (f g : Arena → Played) :
    (p.andThen f).andThen g = p.andThen fun a => (f a).andThen g := by
  simp [andThen]

end Played
end Rally
