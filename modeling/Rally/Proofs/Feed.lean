import Mathlib.Data.List.Basic
import Rally.Feed

/-! What a feed keeps of all that has been sent, and how far what a reader gets accounts for it. -/
namespace Rally

variable {α : Type}

/-- The item that a reader got, if it was one. -/
def Reading.item? : Reading α → Option α
  | .item a => some a
  | _ => none

namespace Feed
variable {f : Feed α} {all : List α} {a : α} {position : Nat}

/-- The feed is open, and of all items that have been sent it keeps as many of the last ones as
there is room for. -/
structure Carries (f : Feed α) (all : List α) : Prop where
  sent : f.sent = all.length
  kept : f.kept = all.drop (all.length - f.capacity)
  goesOn : f.closed = false

@[simp] theorem capacity_send (f : Feed α) (a : α) : (f.send a).capacity = f.capacity := by
  unfold send
  split <;> rfl

@[simp] theorem capacity_sendAll (f : Feed α) (as : List α) :
    (f.sendAll as).capacity = f.capacity := by
  induction as generalizing f with
  | nil => rfl
  | cons a as ih => exact (ih (f.send a)).trans (capacity_send f a)

namespace Carries

theorem withCapacity (n : Nat) : (Feed.withCapacity n : Feed α).Carries [] :=
  ⟨rfl, List.drop_nil.symm, rfl⟩

theorem oldest (h : f.Carries all) : f.oldest = all.length - f.capacity := by
  rw [Feed.oldest, h.sent, h.kept, List.length_drop]
  omega

theorem send_eq (h : f.Carries all) (a : α) : f.send a =
    { f with
      sent := f.sent + 1
      kept := (f.kept ++ [a]).drop (f.kept.length + 1 - f.capacity) } :=
  if_neg (by simp [h.goesOn])

theorem send (h : f.Carries all) (a : α) : (f.send a).Carries (all ++ [a]) := by
  rw [h.send_eq]
  refine ⟨by simp [h.sent], ?_, h.goesOn⟩
  have hlength : f.kept.length = all.length - (all.length - f.capacity) := by
    rw [h.kept, List.length_drop]
  change (f.kept ++ [a]).drop (f.kept.length + 1 - f.capacity) =
    (all ++ [a]).drop ((all ++ [a]).length - f.capacity)
  rw [List.length_append, List.length_singleton, hlength, h.kept,
    ← List.drop_append_of_le_length (Nat.sub_le _ _), List.drop_drop]
  congr 1
  omega

theorem sendAll (h : f.Carries all) (as : List α) : (f.sendAll as).Carries (all ++ as) := by
  induction as generalizing f all with
  | nil => simpa [Feed.sendAll] using h
  | cons a as ih => simpa [Feed.sendAll] using ih (h.send a)

/-- What a reader gets: how many items it missed, the next item, or nothing new. -/
theorem read (h : f.Carries all) (hp : position ≤ all.length) :
    position < f.oldest ∧ f.read position = (.lagged (f.oldest - position), f.oldest) ∨
      (∃ a, f.oldest ≤ position ∧ all[position]? = some a ∧
        f.read position = (.item a, position + 1)) ∨
      position = all.length ∧ f.read position = (.empty, position) := by
  by_cases hlag : position < f.oldest
  · exact .inl ⟨hlag, if_pos hlag⟩
  · have hkept : f.kept[position - f.oldest]? = all[position]? := by
      rw [h.kept, List.getElem?_drop, ← h.oldest, Nat.add_sub_cancel' (Nat.le_of_not_lt hlag)]
    refine .inr ?_
    rw [Feed.read, if_neg hlag, hkept, h.goesOn]
    cases hget : all[position]? with
    | some a => exact .inl ⟨a, Nat.le_of_not_lt hlag, rfl, rfl⟩
    | none => exact .inr ⟨Nat.le_antisymm hp (List.getElem?_eq_none_iff.mp hget), rfl⟩

end Carries

/-- What a reader got accounts for all these items in order: it got them one by one, or was told how
many it missed. Only items that may be missed were. -/
inductive Accounts (may : α → Prop) : List (Reading α) → List α → Prop where
  | nil : Accounts may [] []
  | item {rs as} (h : Accounts may rs as) (a : α) : Accounts may (rs ++ [.item a]) (as ++ [a])
  | lagged {rs as} (h : Accounts may rs as) (gap : List α) (hgap : ∀ a ∈ gap, may a) :
      Accounts may (rs ++ [.lagged gap.length]) (as ++ gap)
  | empty {rs as} (h : Accounts may rs as) : Accounts may (rs ++ [.empty]) as

/-- The items that a reader got. -/
def items (rs : List (Reading α)) : List α := rs.filterMap Reading.item?

@[simp] theorem items_concat (rs : List (Reading α)) (r : Reading α) :
    items (rs ++ [r]) = items rs ++ r.item?.toList := by
  cases hr : r.item? <;> simp [items, hr]

namespace Accounts
variable {may : α → Prop} {rs : List (Reading α)} {as : List α}

theorem sublist (h : Accounts may rs as) : (items rs).Sublist as := by
  induction h with
  | nil => exact .slnil
  | item h a ih => simpa [Reading.item?] using ih
  | lagged h gap hgap ih => simpa [Reading.item?] using ih.trans (List.sublist_append_left _ gap)
  | empty h ih => simpa [Reading.item?] using ih

theorem mem_or (h : Accounts may rs as) : ∀ a ∈ as, a ∈ items rs ∨ may a := by
  induction h with
  | nil => simp
  | item h a ih =>
    intro b hb
    rcases List.mem_append.mp hb with hb | hb
    · exact (ih b hb).imp (by simp +contextual [Reading.item?]) id
    · exact .inl (by simpa [Reading.item?] using .inr (List.mem_singleton.mp hb))
  | lagged h gap hgap ih =>
    intro b hb
    rcases List.mem_append.mp hb with hb | hb
    · exact (ih b hb).imp (by simp +contextual [Reading.item?]) id
    · exact .inr (hgap b hb)
  | empty h ih =>
    intro b hb
    exact (ih b hb).imp (by simp +contextual [Reading.item?]) id

end Accounts
end Feed
end Rally
