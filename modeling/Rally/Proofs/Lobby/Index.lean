import Mathlib.Data.List.Find
import Mathlib.Data.List.Nodup
import Mathlib.Data.List.Perm.Basic
import Rally.Lobby
import Rally.Proofs.Side

/-! The two indexes of a lobby, of matches by their identifiers and of seats by their players, after
any matches have been created and removed. -/
namespace Rally

/-- Where keys are distinct, who is found by a key is whoever has it. -/
theorem find?_eq_some_of_nodup {α β : Type} [DecidableEq β] {f : α → β} {xs : List α}
    (h : (xs.map f).Nodup) {x : α} {b : β} :
    xs.find? (fun y => f y = b) = some x ↔ x ∈ xs ∧ f x = b := by
  constructor
  · intro hx
    exact ⟨List.mem_of_find?_eq_some hx, by simpa using List.find?_some hx⟩
  · rintro ⟨hx, hb⟩
    cases hf : xs.find? (fun y => f y = b) with
    | none =>
      have := List.find?_eq_none.mp hf x hx
      simp [hb] at this
    | some y =>
      have hy : f y = b := by simpa using List.find?_some hf
      rw [List.inj_on_of_nodup_map h (List.mem_of_find?_eq_some hf) hx (hy.trans hb.symm)]

/-- A player is one of the two of a match. -/
def Fixture.Plays (f : Fixture) (player : Uuid) : Prop := ∃ side, f.players.get side = player

theorem Fixture.plays_iff {f : Fixture} {player : Uuid} :
    f.Plays player ↔ player = f.players.left ∨ player = f.players.right := by
  rw [Plays, Side.exists_iff .left]
  exact or_congr eq_comm eq_comm

/-- The seats of the two players of a match. -/
def Fixture.seats (f : Fixture) : List Seat :=
  [⟨f.players.left, f.id⟩, ⟨f.players.right, f.id⟩]

theorem Fixture.mem_seats {f : Fixture} {s : Seat} :
    s ∈ f.seats ↔ s.game = f.id ∧ f.Plays s.player := by
  rw [plays_iff]
  obtain ⟨player, game⟩ := s
  simp only [seats, List.mem_cons, Seat.mk.injEq, List.not_mem_nil, or_false]
  constructor
  · rintro (⟨rfl, rfl⟩ | ⟨rfl, rfl⟩)
    · exact ⟨rfl, .inl rfl⟩
    · exact ⟨rfl, .inr rfl⟩
  · rintro ⟨rfl, rfl | rfl⟩
    · exact .inl ⟨rfl, rfl⟩
    · exact .inr ⟨rfl, rfl⟩

/-- Something that is done to a lobby. -/
inductive Deal where
  | create (fixture : Fixture) (room : Nat)
  /-- A match is forgotten because somebody removes it, or because it has ended. -/
  | remove (id : Uuid)
deriving DecidableEq

namespace Lobby
variable {l : Lobby} {f : Fixture} {room : Nat} {id player game : Uuid} {x : Listing}

def deal (l : Lobby) : Deal → Lobby
  | .create fixture room => (l.create fixture room).2
  | .remove id => (l.remove id).2

def run (l : Lobby) (deals : List Deal) : Lobby := deals.foldl deal l

theorem run_append (l : Lobby) (deals more : List Deal) :
    l.run (deals ++ more) = (l.run deals).run more :=
  List.foldl_append

/-- Why a match is not let in, if it is not: the first reason that there is. -/
def denial? (l : Lobby) (f : Fixture) : Option Denial :=
  if f.players.left = f.players.right then some .samePlayer
  else if (l.find? f.id).isSome then some (.alreadyExists f.id)
  else ([f.players.left, f.players.right].find? fun p => (l.seatOf? p).isSome).map .playerBusy

/-- The lobby with one more match, in a given room. -/
def list (l : Lobby) (f : Fixture) (room : Nat) : Lobby :=
  ⟨l.listings ++ [⟨room, f⟩], l.seats ++ f.seats⟩

/-! Creating a match. -/

/-- A seat that has been given to a player who had none is taken away without a trace. -/
theorem unseat_seat (h : l.seatOf? player = none) : (l.seat player game).unseat player = l := by
  have hs : l.seats.filter (·.player ≠ player) = l.seats := by
    refine List.filter_eq_self.mpr fun s hs => ?_
    simpa using List.find?_eq_none.mp h s hs
  simp only [unseat, seat, List.filter_append, hs]
  simp

theorem seatOf?_seat {other : Uuid} (h : other ≠ player) :
    (l.seat player game).seatOf? other = l.seatOf? other := by
  simp [seatOf?, seat, List.find?_append, Ne.symm h]

/-- The seats of two players are claimed both or not at all. -/
theorem claim_pair {left right : Uuid} (h : left ≠ right) :
    l.claim game [] [left, right] =
      match [left, right].find? fun p => (l.seatOf? p).isSome with
      | some busy => (.error (.playerBusy busy), l)
      | none => (.ok (), (l.seat left game).seat right game) := by
  cases hl : l.seatOf? left with
  | some s => simp [claim, hl]
  | none =>
    have hr : (l.seat left game).seatOf? right = l.seatOf? right := seatOf?_seat h.symm
    cases hs : l.seatOf? right with
    | some s => simp [claim, hl, hr, hs, unseat_seat hl]
    | none => simp [claim, hl, hr, hs]

/-- A match is let in, or denied for the first reason that there is, with nothing changed. -/
theorem create_eq (l : Lobby) (f : Fixture) (room : Nat) : l.create f room =
    match l.denial? f with
    | some denial => (.error denial, l)
    | none => (.ok (), l.list f room) := by
  unfold create denial?
  by_cases hp : f.players.left = f.players.right
  · rw [if_pos hp, if_pos hp]
  · rw [if_neg hp, if_neg hp]
    by_cases hf : (l.find? f.id).isSome
    · rw [if_pos hf, if_pos hf]
    · rw [if_neg hf, if_neg hf, claim_pair hp]
      cases hb : [f.players.left, f.players.right].find? fun p => (l.seatOf? p).isSome with
      | some busy => rfl
      | none => simp [seat, list, Fixture.seats]

theorem denial?_eq_none : l.denial? f = none ↔ f.players.left ≠ f.players.right ∧
    l.find? f.id = none ∧ ∀ player, f.Plays player → l.seatOf? player = none := by
  simp only [denial?, Fixture.plays_iff, forall_eq_or_imp, forall_eq]
  by_cases hp : f.players.left = f.players.right
  · simp [hp]
  · by_cases hf : (l.find? f.id).isSome
    · rw [if_neg hp, if_pos hf]
      simp [Option.isSome_iff_ne_none.mp hf]
    · simp [hp, Option.not_isSome_iff_eq_none.mp hf]

/-! What holds of every lobby. -/

/-- Identifiers and players are listed once, and the seats are those of the
players of the matches. -/
structure Orderly (l : Lobby) : Prop where
  ids : (l.listings.map (·.fixture.id)).Nodup
  players : (l.seats.map (·.player)).Nodup
  distinct : ∀ x ∈ l.listings, x.fixture.players.left ≠ x.fixture.players.right
  seats : ∀ s, s ∈ l.seats ↔ ∃ x ∈ l.listings, s ∈ x.fixture.seats

namespace Orderly

theorem find?_eq_some (h : l.Orderly) : l.find? id = some x ↔ x ∈ l.listings ∧ x.fixture.id = id :=
  find?_eq_some_of_nodup h.ids

theorem find?_eq_none : l.find? id = none ↔ ∀ x ∈ l.listings, x.fixture.id ≠ id := by
  simp [find?, List.find?_eq_none]

/-- A player has a seat in a match just if it is listed and the player is one of its two. -/
theorem seatOf?_eq_some (h : l.Orderly) : l.seatOf? player = some ⟨player, id⟩ ↔
    ∃ x, l.find? id = some x ∧ x.fixture.Plays player := by
  rw [seatOf?, find?_eq_some_of_nodup h.players, and_iff_left rfl, h.seats]
  refine exists_congr fun x => ?_
  rw [h.find?_eq_some, Fixture.mem_seats, and_assoc, @eq_comm _ id]

theorem seatOf?_eq_none (h : l.Orderly) :
    l.seatOf? player = none ↔ ∀ x ∈ l.listings, ¬ x.fixture.Plays player := by
  constructor
  · intro hn x hx hp
    have hs := h.seatOf?_eq_some.mpr ⟨x, h.find?_eq_some.mpr ⟨hx, rfl⟩, hp⟩
    simp [hn] at hs
  · intro hn
    refine List.find?_eq_none.mpr fun s hs => ?_
    obtain ⟨x, hx, hsx⟩ := (h.seats s).mp hs
    have hp := (Fixture.mem_seats.mp hsx).2
    simp only [decide_eq_true_eq]
    rintro rfl
    exact hn x hx hp

/-- The matches of one player are one match. -/
theorem single (h : l.Orderly) {y : Listing} (hx : x ∈ l.listings) (hy : y ∈ l.listings)
    (hpx : x.fixture.Plays player) (hpy : y.fixture.Plays player) : x = y := by
  have hsx := h.seatOf?_eq_some.mpr ⟨x, h.find?_eq_some.mpr ⟨hx, rfl⟩, hpx⟩
  have hsy := h.seatOf?_eq_some.mpr ⟨y, h.find?_eq_some.mpr ⟨hy, rfl⟩, hpy⟩
  rw [hsx] at hsy
  have hid : x.fixture.id = y.fixture.id := congrArg Seat.game (Option.some.inj hsy)
  exact List.inj_on_of_nodup_map h.ids hx hy hid

/-- There are two seats for each match. -/
theorem length_seats (h : l.Orderly) : l.seats.length = 2 * l.listings.length := by
  have hblocks : (l.listings.flatMap (·.fixture.seats)).Nodup := by
    refine List.nodup_flatMap.mpr ⟨fun x hx => ?_, ?_⟩
    · simpa [Fixture.seats] using h.distinct x hx
    · refine (List.pairwise_map.mp h.ids).imp fun {x y} hxy s hs hsy => ?_
      exact hxy ((Fixture.mem_seats.mp hs).1.symm.trans (Fixture.mem_seats.mp hsy).1)
  have hperm : l.seats.Perm (l.listings.flatMap (·.fixture.seats)) := by
    refine (List.perm_ext_iff_of_nodup h.players.of_map hblocks).mpr fun s => ?_
    rw [h.seats, List.mem_flatMap]
  rw [hperm.length_eq, List.length_flatMap]
  simp [Fixture.seats, Nat.mul_comm]

theorem empty : Orderly {} := by
  refine ⟨?_, ?_, ?_, ?_⟩ <;> simp

/-- A match that is let in joins the others. -/
theorem list (h : l.Orderly) (hd : l.denial? f = none) (room : Nat) :
    (l.list f room).Orderly := by
  obtain ⟨hp, hf, hs⟩ := denial?_eq_none.mp hd
  refine ⟨?_, ?_, ?_, fun s => ?_⟩
  · simp only [Lobby.list, List.map_append, List.map_cons, List.map_nil]
    refine List.nodup_append.mpr ⟨h.ids, by simp, ?_⟩
    rintro _ ha _ hb rfl
    obtain ⟨x, hx, rfl⟩ := List.mem_map.mp ha
    exact find?_eq_none.mp hf x hx (List.mem_singleton.mp hb)
  · simp only [Lobby.list, List.map_append]
    refine List.nodup_append.mpr ⟨h.players, by simpa [Fixture.seats] using hp, ?_⟩
    rintro _ ha _ hb rfl
    obtain ⟨s, hsl, rfl⟩ := List.mem_map.mp ha
    obtain ⟨t, ht, hst⟩ := List.mem_map.mp hb
    have hplays := (Fixture.mem_seats.mp ht).2
    rw [hst] at hplays
    have := List.find?_eq_none.mp (hs _ hplays) s hsl
    simp at this
  · intro x hx
    rcases List.mem_append.mp hx with hx | hx
    · exact h.distinct x hx
    · rw [List.mem_singleton.mp hx]
      exact hp
  · simp only [Lobby.list, List.mem_append, h.seats, List.mem_singleton, or_and_right, exists_or,
      exists_eq_left]

/-- What is left of an orderly lobby when a match is removed. -/
theorem remove_eq (h : l.Orderly) (hx : l.find? id = some x) : l.remove id =
    (some x, ⟨l.listings.filter (·.fixture.id ≠ id), l.seats.filter (·.game ≠ id)⟩) := by
  obtain ⟨hmem, rfl⟩ := h.find?_eq_some.mp hx
  simp only [Lobby.remove, hx, release, List.filter_filter]
  congr 2
  refine List.filter_congr fun s hs => ?_
  obtain ⟨y, hy, hsy⟩ := (h.seats s).mp hs
  rw [← Bool.decide_and, decide_eq_decide]
  constructor
  · rintro ⟨hr, hl⟩ hg
    -- A seat in this match belongs to one of its two players.
    have hxy := List.inj_on_of_nodup_map h.ids hmem hy
      (hg.symm.trans (Fixture.mem_seats.mp hsy).1)
    rw [← hxy] at hsy
    simp only [Fixture.seats, List.mem_cons, List.not_mem_nil, or_false] at hsy
    exact hsy.elim hl hr
  · intro hg
    refine ⟨?_, ?_⟩ <;> rintro rfl <;> exact hg rfl

theorem without (h : l.Orderly) (id : Uuid) : Orderly
    ⟨l.listings.filter (·.fixture.id ≠ id), l.seats.filter (·.game ≠ id)⟩ := by
  refine ⟨h.ids.sublist (List.filter_sublist.map _), h.players.sublist (List.filter_sublist.map _),
    fun x hx => h.distinct x (List.mem_filter.mp hx).1, fun s => ?_⟩
  simp only [List.mem_filter, h.seats, decide_eq_true_eq]
  constructor
  · rintro ⟨⟨x, hx, hs⟩, hg⟩
    exact ⟨x, ⟨hx, fun he => hg ((Fixture.mem_seats.mp hs).1.trans he)⟩, hs⟩
  · rintro ⟨x, ⟨hx, hne⟩, hs⟩
    exact ⟨⟨x, hx, hs⟩, fun he => hne ((Fixture.mem_seats.mp hs).1.symm.trans he)⟩

theorem deal (h : l.Orderly) (d : Deal) : (l.deal d).Orderly := by
  cases d with
  | create f room =>
    simp only [Lobby.deal, create_eq]
    cases hd : l.denial? f with
    | some denial => exact h
    | none => exact h.list hd room
  | remove id =>
    simp only [Lobby.deal]
    cases hf : l.find? id with
    | none => simpa [Lobby.remove, hf] using h
    | some x =>
      rw [h.remove_eq hf]
      exact h.without id

end Orderly

theorem orderly_run (deals : List Deal) : (run {} deals).Orderly := by
  unfold run
  exact List.foldlRecOn deals Lobby.deal .empty fun l h d _ => h.deal d

/-! The laws of creating and removing. -/

/-- The two indexes say the same. -/
structure Agreed (l : Lobby) : Prop where
  /-- A player is in a match just if that is listed and the player is one of its two. -/
  seats : ∀ player id, l.seatOf? player = some ⟨player, id⟩ ↔
    ∃ x, l.find? id = some x ∧ x.fixture.Plays player
  /-- No player is in two matches. -/
  single : ∀ player, ∀ x ∈ l.listings, ∀ y ∈ l.listings, x.fixture.Plays player →
    y.fixture.Plays player → x = y
  /-- Neither index has two entries under one key. -/
  keys : (l.listings.map (·.fixture.id)).Nodup ∧ (l.seats.map (·.player)).Nodup
  size : l.seats.length = 2 * l.listings.length

theorem Orderly.agreed (h : l.Orderly) : l.Agreed :=
  ⟨fun _ _ => h.seatOf?_eq_some, fun _ _ hx _ hy => h.single hx hy, ⟨h.ids, h.players⟩,
    h.length_seats⟩

/-- A match is let in just if there is no reason against it. The first reason denies it, and then
nothing changes. -/
structure Admits (l : Lobby) (f : Fixture) (room : Nat) : Prop where
  reasons : l.denial? f = none ↔ f.players.left ≠ f.players.right ∧
    (∀ x ∈ l.listings, x.fixture.id ≠ f.id) ∧
    ∀ x ∈ l.listings, ∀ player, f.Plays player → ¬ x.fixture.Plays player
  denied : ∀ denial, l.denial? f = some denial → l.create f room = (.error denial, l)
  admitted : l.denial? f = none → (l.create f room).1 = .ok () ∧
    (l.create f room).2.find? f.id = some ⟨room, f⟩ ∧
    ∀ player, f.Plays player → (l.create f room).2.seatOf? player = some ⟨player, f.id⟩
  others : (∀ id, id ≠ f.id → (l.create f room).2.find? id = l.find? id) ∧
    ∀ player, ¬ f.Plays player → (l.create f room).2.seatOf? player = l.seatOf? player

theorem find?_list (h : id ≠ f.id) : (l.list f room).find? id = l.find? id := by
  simp [find?, list, List.find?_append, Ne.symm h]

theorem seatOf?_list (h : ¬ f.Plays player) :
    (l.list f room).seatOf? player = l.seatOf? player := by
  have hn : f.seats.find? (fun s => s.player = player) = none := by
    refine List.find?_eq_none.mpr fun s hs => ?_
    simp only [decide_eq_true_eq]
    rintro rfl
    exact h (Fixture.mem_seats.mp hs).2
  simp [seatOf?, list, List.find?_append, hn]

theorem Orderly.admits (h : l.Orderly) (f : Fixture) (room : Nat) : l.Admits f room := by
  have hc := create_eq l f room
  refine ⟨?_, fun denial hd => ?_, fun hd => ?_, ?_⟩
  · rw [denial?_eq_none, Orderly.find?_eq_none]
    refine and_congr_right fun _ => and_congr_right fun _ => ?_
    simp only [h.seatOf?_eq_none]
    exact ⟨fun hn x hx player hp => hn player hp x hx, fun hn player hp x hx => hn x hx player hp⟩
  · rw [hc, hd]
  · have ho := h.list hd room
    have hfind : (l.list f room).find? f.id = some ⟨room, f⟩ :=
      ho.find?_eq_some.mpr ⟨by simp [Lobby.list], rfl⟩
    rw [hc, hd]
    exact ⟨rfl, hfind, fun player hp => ho.seatOf?_eq_some.mpr ⟨_, hfind, hp⟩⟩
  · rw [hc]
    cases hd : l.denial? f with
    | some denial => exact ⟨fun _ _ => rfl, fun _ _ => rfl⟩
    | none => exact ⟨fun id hid => find?_list hid, fun player hp => seatOf?_list hp⟩

/-- A match that is removed leaves nothing behind, and nothing else goes with it. -/
structure Forgets (l : Lobby) (id : Uuid) : Prop where
  unknown : l.find? id = none → l.remove id = (none, l)
  known : ∀ x, l.find? id = some x → (l.remove id).1 = some x ∧
    (l.remove id).2.find? id = none ∧
    ∀ player, x.fixture.Plays player → (l.remove id).2.seatOf? player = none
  others : (∀ other, other ≠ id → (l.remove id).2.find? other = l.find? other) ∧
    ∀ player, (∀ x, l.find? id = some x → ¬ x.fixture.Plays player) →
      (l.remove id).2.seatOf? player = l.seatOf? player

theorem Orderly.forgets (h : l.Orderly) (id : Uuid) : l.Forgets id := by
  have hrest := h.without id
  cases hf : l.find? id with
  | none =>
    have hr : l.remove id = (none, l) := by simp [Lobby.remove, hf]
    exact ⟨fun _ => hr, by simp [hf], by simp [hr]⟩
  | some x =>
    obtain ⟨hx, rfl⟩ := h.find?_eq_some.mp hf
    refine ⟨by simp [hf], ?_, ?_, ?_⟩
    · rintro y hy
      obtain rfl := Option.some.inj (hf.symm.trans hy)
      rw [h.remove_eq hf]
      refine ⟨rfl, Orderly.find?_eq_none.mpr ?_, fun player hp => hrest.seatOf?_eq_none.mpr ?_⟩
      · intro y hy
        simpa using (List.mem_filter.mp hy).2
      · intro y hy hpy
        obtain ⟨hmem, hne⟩ := List.mem_filter.mp hy
        rw [h.single hmem hx hpy hp] at hne
        simp at hne
    · intro other hne
      rw [h.remove_eq hf]
      simp only [Lobby.find?, List.find?_filter]
      congr 1
      funext y
      by_cases hy : y.fixture.id = other <;> simp [hy, hne]
    · intro player hp
      rw [h.remove_eq hf]
      simp only [seatOf?, List.find?_filter]
      refine List.find?_congr fun s hs => ?_
      obtain ⟨y, hy, hsy⟩ := (h.seats s).mp hs
      obtain ⟨hg, hps⟩ := Fixture.mem_seats.mp hsy
      -- A seat of such a player is in another match.
      have hne : s.player = player → s.game ≠ x.fixture.id := by
        rintro rfl he
        rw [List.inj_on_of_nodup_map h.ids hy hx (hg.symm.trans he)] at hps
        exact hp x hf hps
      by_cases hp : s.player = player
      · simp [hp, hne hp]
      · simp [hp]

end Lobby
end Rally
