/-!
A feed that many read, each at its own pace, and that keeps only the last items.

A reader that fell behind is told once how many items it missed, and goes on with the oldest one
that is left.
-/

namespace Rally

structure Feed (α : Type) where
  /-- How many items are kept. -/
  capacity : Nat
  /-- How many items have been sent. -/
  sent : Nat
  /-- The last items, oldest first. -/
  kept : List α
  /-- Nothing will be sent any more. -/
  closed : Bool
deriving DecidableEq

/-- What a reader gets. -/
inductive Reading (α : Type) where
  | item (a : α)
  /-- So many items have been missed. -/
  | lagged (missed : Nat)
  /-- There is nothing new yet. -/
  | empty
  /-- There will be nothing new. -/
  | closed
deriving DecidableEq

namespace Feed
variable {α : Type} (f : Feed α)

/-- An empty feed that keeps at least `n` items, and at least one. Their
number is a power of two. -/
def withCapacity (n : Nat) : Feed α := ⟨(max n 1).nextPowerOfTwo, 0, [], false⟩

/-- Sends an item, dropping the oldest if there is no room. -/
def send (a : α) : Feed α :=
  if f.closed then f
  else
    { f with
      sent := f.sent + 1
      kept := (f.kept ++ [a]).drop (f.kept.length + 1 - f.capacity) }

/-- Sends items in order. -/
def sendAll (items : List α) : Feed α := items.foldl send f

def close : Feed α := { f with closed := true }

/-- The number of the oldest item that is kept. -/
def oldest : Nat := f.sent - f.kept.length

/-- Reads the item with a number, and gives the number to go on with. -/
def read (position : Nat) : Reading α × Nat :=
  if position < f.oldest then (.lagged (f.oldest - position), f.oldest)
  else
    match f.kept[position - f.oldest]? with
    | some a => (.item a, position + 1)
    | none => (if f.closed then .closed else .empty, position)

end Feed
end Rally
