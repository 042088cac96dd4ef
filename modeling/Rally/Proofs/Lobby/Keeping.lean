import Rally.Proofs.Lobby.Index

/-! A match keeps its place in a lobby until the identifier that it bears is removed, and then has
lost it for good. -/
namespace Rally.Lobby
variable {l : Lobby} {f : Fixture} {room : Nat} {id : Uuid} {x : Listing} {d : Deal}
  {deals : List Deal}

/-- A match is found under its identifier, in its own room, and each of its players is in it. -/
def Lists (l : Lobby) (room : Nat) (f : Fixture) : Prop :=
  l.find? f.id = some ⟨room, f⟩ ∧
    ∀ side, l.seatOf? (f.players.get side) = some ⟨f.players.get side, f.id⟩

/-- Nothing is listed in a room. -/
def Vacant (l : Lobby) (room : Nat) : Prop := ∀ x ∈ l.listings, x.room ≠ room

theorem Orderly.lists_iff (h : l.Orderly) : l.Lists room f ↔ ⟨room, f⟩ ∈ l.listings := by
  constructor
  · intro hl
    exact List.mem_of_find?_eq_some hl.1
  · intro hx
    have hfind := h.find?_eq_some.mpr ⟨hx, rfl⟩
    exact ⟨hfind, fun side => h.seatOf?_eq_some.mpr ⟨_, hfind, side, rfl⟩⟩

theorem Vacant.not_lists (h : l.Vacant room) : ¬ l.Lists room f := fun hl =>
  h _ (List.mem_of_find?_eq_some hl.1) rfl

/-! What a deal does to the listings. -/

/-- Only what is created is listed anew. -/
theorem mem_listings_deal (h : x ∈ (l.deal d).listings) :
    x ∈ l.listings ∨ d = .create x.fixture x.room := by
  cases d with
  | create g n =>
    simp only [deal, create_eq] at h
    split at h
    · exact .inl h
    · rcases List.mem_append.mp h with h | h
      · exact .inl h
      · rw [List.mem_singleton.mp h]
        exact .inr rfl
  | remove id =>
    refine .inl ?_
    simp only [deal, remove] at h
    split at h
    · exact h
    · exact (List.mem_filter.mp h).1

/-- Only the removal under its identifier takes a listing away. -/
theorem mem_listings_of_ne (hx : x ∈ l.listings) (hd : d ≠ .remove x.fixture.id) :
    x ∈ (l.deal d).listings := by
  cases d with
  | create g n =>
    simp only [deal, create_eq]
    split
    · exact hx
    · exact List.mem_append_left _ hx
  | remove id =>
    simp only [deal, remove]
    split
    · exact hx
    · refine List.mem_filter.mpr ⟨hx, ?_⟩
      simp only [ne_eq, decide_eq_true_eq]
      rintro rfl
      exact hd rfl

theorem Orderly.not_mem_removed (h : l.Orderly) :
    ∀ x ∈ (l.deal (.remove id)).listings, x.fixture.id ≠ id := by
  have hf := h.forgets id
  refine Orderly.find?_eq_none.mp ?_
  change (l.remove id).2.find? id = none
  cases hx : l.find? id with
  | none => rw [hf.unknown hx, hx]
  | some x => exact (hf.known x hx).2.1

theorem Vacant.deal (h : l.Vacant room) (hd : ∀ f, d ≠ .create f room) :
    (l.deal d).Vacant room := by
  rintro x hx rfl
  rcases mem_listings_deal hx with hx | rfl
  · exact h x hx rfl
  · exact hd _ rfl

/-! Any number of deals. -/

theorem Vacant.run (h : l.Vacant room) (hd : ∀ f, .create f room ∉ deals) :
    (l.run deals).Vacant room := by
  unfold Lobby.run
  refine List.foldlRecOn (motive := fun l : Lobby => l.Vacant room) deals Lobby.deal h ?_
  intro l h d hm
  refine h.deal fun f => ?_
  rintro rfl
  exact hd f hm

/-- A match that is alone in its room, in which no other is created, keeps its place just until its
identifier is removed. -/
theorem lists_run_iff (h : l.Orderly) (hl : l.Lists room f)
    (halone : ∀ x ∈ l.listings, x.room = room → x.fixture = f)
    (hd : ∀ g, .create g room ∉ deals) : (l.run deals).Lists room f ↔ .remove f.id ∉ deals := by
  induction deals generalizing l with
  | nil => simpa [run] using hl
  | cons d deals ih =>
    have hrest : ∀ g, .create g room ∉ deals := fun g hg => hd g (List.mem_cons_of_mem _ hg)
    have hfirst : ∀ g, d ≠ .create g room := by
      rintro g rfl
      exact hd g (List.mem_cons_self ..)
    by_cases hr : d = .remove f.id
    · subst hr
      have hv : (l.deal (.remove f.id)).Vacant room := by
        intro x hx hroom
        have hne := h.not_mem_removed x hx
        rcases mem_listings_deal hx with hx | hx
        · exact hne (congrArg Fixture.id (halone x hx hroom))
        · cases hx
      refine iff_of_false (hv.run hrest).not_lists ?_
      simp
    · have halone' : ∀ x ∈ (l.deal d).listings, x.room = room → x.fixture = f := by
        rintro x hx rfl
        rcases mem_listings_deal hx with hx | rfl
        · exact halone x hx rfl
        · exact absurd rfl (hfirst _)
      have hl' := (h.deal d).lists_iff.mpr (mem_listings_of_ne (h.lists_iff.mp hl) hr)
      rw [List.mem_cons, not_or, and_iff_right (Ne.symm hr)]
      exact ih (h.deal d) hl' halone' hrest

end Rally.Lobby
