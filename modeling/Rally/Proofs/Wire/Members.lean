import Mathlib.Data.List.Forall2
import Rally.Proofs.Text.Json.Written
import Rally.Wire.Tagged

/-! The members of a message that is an object, and that their order does not matter. -/
namespace Rally.Text.Json

variable {α σ : Type} {read : Reader α} {step : σ → Reader σ} {a : α} {s t : σ} {close : Char}
  {c : Char} {part tail rest rest' blanks : List Char} {parts : List (List Char)} {as : List α}
  {m : Nat}

/-- All of a text, but for blanks at its end, is read. -/
def Fills (read : Reader α) (part : List Char) (a : α) : Prop :=
  ∃ blanks, read part = .ok (a, blanks) ∧ Blank blanks

/-- The steps read one item each, and add it. -/
def Adds (step : σ → Reader σ) (read : Reader α) (add : σ → α → Option σ) : Prop :=
  ∀ s text t rest, step s text = .ok (t, rest) ↔
    ∃ a, read text = .ok (a, rest) ∧ add s a = some t

variable {add : σ → α → Option σ}

theorem Adds.local (h : Adds step read add) (hr : Local read) (s : σ) : Local (step s) := by
  intro text t rest hs
  obtain ⟨a, ha, hadd⟩ := (h s text t rest).mp hs
  obtain ⟨front, rfl, hfront⟩ := hr _ _ _ ha
  exact ⟨front, rfl, fun rest' hrest => (h _ _ _ _).mpr ⟨a, hfront rest' hrest, hadd⟩⟩

theorem sequence_step (hr : Local read) (hstep : Adds step read add)
    (hpart : Fills read part a) (hs : Stops (c :: tail)) (hc : isBlank c = false) :
    sequence step close (m + 1) s (part ++ c :: tail) = .ok (t, rest) ↔
      ∃ u, add s a = some u ∧ (if c = close then .ok (u, tail)
        else if c = ',' then sequence step close m u tail
        else .error .malformed) = .ok (t, rest) := by
  obtain ⟨blanks, hread, hb⟩ := hpart
  have hread' := hr.extend hread hs
  constructor
  · intro h
    obtain ⟨⟨u, after⟩, hu, -⟩ := bind_eq_ok.mp h
    obtain ⟨a', ha', hadd⟩ := (hstep _ _ _ _).mp hu
    cases hread'.symm.trans ha'
    rw [sequence_succ hu (skipBlank_blanks hb hc)] at h
    exact ⟨u, hadd, h⟩
  · rintro ⟨u, hadd, h⟩
    have hu := (hstep _ _ _ _).mpr ⟨a, hread', hadd⟩
    rw [sequence_succ hu (skipBlank_blanks hb hc)]
    exact h

/-- A sequence is read as its items, added one by one. -/
theorem sequence_eq_ok (hr : Local read) (hstep : Adds step read add) (hc : Closing close)
    (hparts : List.Forall₂ (Fills read) parts as) (hne : parts ≠ []) (hm : parts.length ≤ m) :
    sequence step close m s ([','].intercalate parts ++ close :: rest) = .ok (t, rest') ↔
      rest' = rest ∧ as.foldlM add s = some t := by
  induction hparts generalizing s m with
  | nil => exact absurd rfl hne
  | @cons part a parts as hpart hparts ih =>
    obtain _ | m := m
    · exact absurd hm (Nat.not_succ_le_zero _)
    rw [List.foldlM_cons]
    cases parts with
    | nil =>
      cases hparts
      rw [List.intercalate_singleton, sequence_step hr hstep hpart (hc.stops rest) hc.not_isBlank]
      simp only [if_true, Except.ok.injEq, Prod.mk.injEq, List.foldlM_nil, Option.bind_eq_bind]
      constructor
      · rintro ⟨u, hu, rfl, rfl⟩
        simp [hu]
      · rintro ⟨rfl, h⟩
        exact ⟨t, by simpa using h, rfl, rfl⟩
    | cons next parts =>
      have hrest (u : σ) := ih (s := u) (List.cons_ne_nil _ _) (Nat.le_of_succ_le_succ hm)
      rw [intercalate_append, sequence_step hr hstep hpart (stops_comma _) (by decide)]
      simp only [hc.ne_comma.symm, if_false, if_true, hrest, Option.bind_eq_bind,
        Option.bind_eq_some_iff]
      constructor
      · rintro ⟨u, hu, rfl, h⟩
        exact ⟨rfl, u, hu, h⟩
      · rintro ⟨rfl, u, hu, h⟩
        exact ⟨u, hu, rfl, h⟩

end Rally.Text.Json

namespace Rally.Wire

open Text
open Text.Json
variable {τ α : Type} {tag? : String → Option τ} {o o' : Opened τ} {t : τ}
  {text rest : List Char} {m : String × Json} {ms : List (String × Json)}

/-- Reads a member of which the value is kept. -/
def readPlain : Reader (String × Json) := readMember false (readValue false (maxDepth - 1))

/-- What a member adds to what has been read of an object. -/
def Opened.add (tag? : String → Option τ) (o : Opened τ) (m : String × Json) : Option (Opened τ) :=
  if m.1 = "type" then
    if o.tag.isSome then none
    else do
      let name ← string? m.2
      let t ← tag? name
      return { o with tag := some t }
  else some { o with members := m :: o.members }

theorem readTag_eq_ok : readTag tag? text = .ok (t, rest) ↔
    ∃ s, readValue false (maxDepth - 1) text = .ok (.string s, rest) ∧ tag? s = some t := by
  simp only [readValue_eq_string]
  unfold readTag
  split
  case h_1 tail hs =>
    constructor
    · intro h
      obtain ⟨⟨s, rest⟩, hread, ht⟩ := bind_eq_ok.mp h
      dsimp only at ht
      split at ht
      · cases ht
        exact ⟨s, ⟨tail, hs, hread⟩, ‹_›⟩
      · cases ht
    · rintro ⟨s, ⟨tail', hs', hread⟩, ht⟩
      cases hs.symm.trans hs'
      refine bind_eq_ok.mpr ⟨_, hread, ?_⟩
      simp [ht]
  case h_2 hs =>
    constructor
    · nofun
    · rintro ⟨s, ⟨tail', hs', hread⟩, ht⟩
      exact absurd hs' (hs _)

theorem readPlain_eq_ok : readPlain text = .ok (m, rest) ↔ ∃ key colon,
    readKey false text = .ok (m.1, key) ∧ readColon key = .ok ((), colon) ∧
      readValue false (maxDepth - 1) colon = .ok (m.2, rest) := by
  constructor
  · intro h
    obtain ⟨⟨name, key⟩, hkey, h⟩ := bind_eq_ok.mp h
    obtain ⟨⟨_, colon⟩, hcolon, h⟩ := bind_eq_ok.mp h
    obtain ⟨⟨v, rest⟩, hvalue, h⟩ := bind_eq_ok.mp h
    cases h
    exact ⟨key, colon, hkey, hcolon, hvalue⟩
  · rintro ⟨key, colon, hkey, hcolon, hvalue⟩
    exact bind_eq_ok.mpr ⟨_, hkey, bind_eq_ok.mpr ⟨_, hcolon, bind_eq_ok.mpr ⟨_, hvalue, rfl⟩⟩⟩

theorem readTaggedMember_eq_ok : readTaggedMember tag? o text = .ok (o', rest) ↔
    ∃ m, readPlain text = .ok (m, rest) ∧ o.add tag? m = some o' := by
  simp only [readPlain_eq_ok, Opened.add]
  constructor
  · intro h
    obtain ⟨⟨name, key⟩, hkey, h⟩ := bind_eq_ok.mp h
    dsimp only at h
    split at h
    case isTrue hn =>
      split at h
      · cases h
      case isFalse ho =>
        obtain ⟨⟨_, colon⟩, hcolon, h⟩ := bind_eq_ok.mp h
        obtain ⟨⟨t, rest⟩, htag, h⟩ := bind_eq_ok.mp h
        cases h
        obtain ⟨s, hvalue, hs⟩ := readTag_eq_ok.mp htag
        exact ⟨(name, .string s), ⟨key, colon, hkey, hcolon, hvalue⟩, by simp [hn, ho, string?, hs]⟩
    case isFalse hn =>
      obtain ⟨⟨_, colon⟩, hcolon, h⟩ := bind_eq_ok.mp h
      obtain ⟨⟨v, rest⟩, hvalue, h⟩ := bind_eq_ok.mp h
      cases h
      exact ⟨(name, v), ⟨key, colon, hkey, hcolon, hvalue⟩, by simp [hn]⟩
  · rintro ⟨⟨name, v⟩, ⟨key, colon, hkey, hcolon, hvalue⟩, hadd⟩
    refine bind_eq_ok.mpr ⟨_, hkey, ?_⟩
    dsimp only at hadd ⊢
    split at hadd
    case isTrue hn =>
      split at hadd
      · cases hadd
      case isFalse ho =>
        obtain ⟨s, hs, hadd⟩ := Option.bind_eq_some_iff.mp hadd
        obtain ⟨t, ht, hadd⟩ := Option.bind_eq_some_iff.mp hadd
        cases hadd
        have hstring : v = .string s := by
          cases v <;> cases hs
          rfl
        have htag : readTag tag? colon = .ok (t, rest) :=
          readTag_eq_ok.mpr ⟨s, hstring ▸ hvalue, ht⟩
        rw [if_pos hn, if_neg ho]
        exact bind_eq_ok.mpr ⟨_, hcolon, bind_eq_ok.mpr ⟨_, htag, rfl⟩⟩
    case isFalse hn =>
      cases hadd
      rw [if_neg hn]
      exact bind_eq_ok.mpr ⟨_, hcolon, bind_eq_ok.mpr ⟨_, hvalue, rfl⟩⟩

theorem adds_readTaggedMember : Adds (readTaggedMember tag?) readPlain (Opened.add tag?) :=
  fun _ _ _ _ => readTaggedMember_eq_ok

theorem local_readPlain : Local readPlain := local_readMember local_readValue

/-! Objects. -/

/-- An object with its members as they are written. -/
def objectText (lead : List Char) (parts : List (List Char)) (trail : List Char) : List Char :=
  lead ++ '\x7b' :: [','].intercalate parts ++ '\x7d' :: trail

variable {lead trail part rest' : List Char} {parts : List (List Char)} {body : Json} {a : α}
  {decode : τ → Json → Option α}

theorem readPlain_blanks {blanks : List Char} (hb : Blank blanks) (text : List Char) :
    readPlain (blanks ++ text) = readPlain text := by
  unfold readPlain readMember readKey
  rw [skipBlank_append hb]

/-- A member starts with the quote of its name. -/
theorem fills_quote (h : Fills readPlain part m) : ∃ blanks tail, Blank blanks ∧
    part = blanks ++ '"' :: tail ∧ Fills readPlain ('"' :: tail) m := by
  obtain ⟨after, hread, hafter⟩ := h
  obtain ⟨blanks, hb, hpart⟩ := exists_blanks part
  obtain ⟨key, colon, hkey, -⟩ := readPlain_eq_ok.mp hread
  unfold readKey at hkey
  split at hkey
  · cases hkey
  case h_2 c tail hs =>
    split at hkey
    case isTrue hc =>
      rw [hs, hc] at hpart
      rw [hpart, readPlain_blanks hb] at hread
      exact ⟨blanks, tail, hb, hpart, after, hread, hafter⟩
    case isFalse => cases hkey

theorem bracketed_eq_ok (hparts : List.Forall₂ (Fills readPlain) parts ms) :
    bracketed (readTaggedMember tag?) '\x7d' o ([','].intercalate parts ++ '\x7d' :: rest) =
      .ok (o', rest') ↔ rest' = rest ∧ ms.foldlM (Opened.add tag?) o = some o' := by
  cases hparts with
  | nil =>
    have hread : bracketed (readTaggedMember tag?) '\x7d' o ('\x7d' :: rest) = .ok (o, rest) := by
      rw [bracketed, skipBlank_cons rfl]
      rfl
    rw [List.intercalate_nil, List.nil_append, hread]
    simp [eq_comm, and_comm]
  | @cons part m parts ms hpart hparts =>
    obtain ⟨blanks, tail, hb, rfl, hquote⟩ := fills_quote hpart
    obtain ⟨tail', hjoin⟩ : ∃ tail', [','].intercalate (('"' :: tail) :: parts) = '"' :: tail' :=
      ⟨_, append_intercalate ['"'] tail parts⟩
    have hlength := length_le_intercalate (('"' :: tail) :: parts)
    rw [hjoin] at hlength
    have hfuel : (('"' :: tail) :: parts).length ≤ (tail' ++ '\x7d' :: rest).length + 1 := by
      simp only [List.length_append, List.length_cons] at hlength ⊢
      omega
    rw [append_intercalate, hjoin, List.append_assoc, List.cons_append, bracketed,
      skipBlank_blanks hb rfl]
    simp only [Char.reduceEq, if_false]
    rw [← List.cons_append, ← hjoin]
    exact sequence_eq_ok local_readPlain adds_readTaggedMember (.inr rfl) (.cons hquote hparts)
      (List.cons_ne_nil _ _) hfuel

/-- A message in braces is read from its members, if there is a tag among them. -/
theorem readTagged_eq_ok {inner : List Char} (hs : skipBlank text = '\x7b' :: inner) :
    readTagged tag? text = .ok ((t, body), rest) ↔
      ∃ o, bracketed (readTaggedMember tag?) '\x7d' ⟨none, []⟩ inner = .ok (o, rest) ∧
        o.tag = some t ∧ body = .object o.members.reverse := by
  rw [readTagged, hs]
  constructor
  · intro h
    obtain ⟨⟨o, after⟩, ho, htag⟩ := bind_eq_ok.mp h
    dsimp only at htag
    split at htag
    · cases htag
      exact ⟨o, ho, ‹_›, rfl⟩
    · cases htag
  · rintro ⟨o, ho, ht, rfl⟩
    refine bind_eq_ok.mpr ⟨_, ho, ?_⟩
    simp [ht, pure, Except.pure]

theorem readTagged_object (hlead : Blank lead) (hparts : List.Forall₂ (Fills readPlain) parts ms) :
    readTagged tag? (objectText lead parts rest) = .ok ((t, body), rest') ↔
      rest' = rest ∧ ∃ o, ms.foldlM (Opened.add tag?) ⟨none, []⟩ = some o ∧ o.tag = some t ∧
        body = .object o.members.reverse := by
  have hskip : skipBlank (objectText lead parts rest) =
      '\x7b' :: ([','].intercalate parts ++ '\x7d' :: rest) := by
    rw [objectText, List.append_assoc, List.cons_append, skipBlank_blanks hlead rfl]
  rw [readTagged_eq_ok hskip]
  simp only [bracketed_eq_ok hparts, and_assoc, exists_and_left]

theorem readMessage_eq_ok {text : List Char} : readMessage tag? decode text = .ok a ↔
    ∃ t body rest, readTagged tag? text = .ok ((t, body), rest) ∧ Blank rest ∧
      decode t body = some a := by
  constructor
  · intro h
    obtain ⟨⟨⟨t, body⟩, rest⟩, hread, h⟩ := bind_eq_ok.mp h
    dsimp only at h
    split at h
    · cases h
    case h_2 a' ha =>
      obtain ⟨_, hf, h⟩ := bind_eq_ok.mp h
      cases h
      unfold finished at hf
      split at hf
      case isTrue hend =>
        exact ⟨t, body, rest, hread, skipBlank_eq_nil.mp (by simpa using hend), ha⟩
      case isFalse => cases hf
  · rintro ⟨t, body, rest, hread, hrest, ha⟩
    refine bind_eq_ok.mpr ⟨_, hread, ?_⟩
    simp [ha, finished, skipBlank_eq_nil.mpr hrest, bind, Except.bind, pure, Except.pure]

/-! What the members of an object mean. -/

/-- The members with a name. -/
def named (name : String) (ms : List (String × Json)) : List (String × Json) :=
  ms.filter (·.1 = name)

/-- The members that do not say of which kind a message is. -/
def untagged (ms : List (String × Json)) : List (String × Json) := ms.filter (·.1 ≠ "type")

/-- There is one tag, and it gives the other members a meaning. -/
def Means (tag? : String → Option τ) (decode : τ → Json → Option α) (ms : List (String × Json))
    (a : α) : Prop :=
  ∃ s t, named "type" ms = [("type", .string s)] ∧ tag? s = some t ∧
    decode t (.object (untagged ms)) = some a

/-- After the tag no other may come. -/
theorem foldlM_add_of_tag {u : τ} (ho : o.tag = some u) :
    ms.foldlM (Opened.add tag?) o = some o' ↔
      named "type" ms = [] ∧ o' = { o with members := (untagged ms).reverse ++ o.members } := by
  induction ms generalizing o with
  | nil => simp [named, untagged, eq_comm]
  | cons m ms ih =>
    rw [List.foldlM_cons]
    by_cases hm : m.1 = "type"
    · simp [Opened.add, hm, ho, named]
    · have hadd : o.add tag? m = some { o with members := m :: o.members } := if_neg hm
      rw [hadd, Option.bind_eq_bind, Option.bind_some,
        ih (o := { o with members := m :: o.members }) ho]
      simp [named, untagged, hm]

theorem string?_eq_some {v : Json} {s : String} : string? v = some s ↔ v = .string s := by
  cases v <;> simp [string?]

theorem add_type {v : Json} (ho : o.tag = none) : o.add tag? ("type", v) = some o' ↔
    ∃ s t, v = .string s ∧ tag? s = some t ∧ o' = ⟨some t, o.members⟩ := by
  simp only [Opened.add, ho, if_true, Option.isSome_none, Bool.false_eq_true, if_false,
    Option.bind_eq_bind, Option.bind_eq_some_iff, string?_eq_some]
  simp [eq_comm]

theorem foldlM_add_of_no_tag (ho : o.tag = none) :
    (ms.foldlM (Opened.add tag?) o = some o' ∧ o'.tag = some t) ↔
      ∃ s, named "type" ms = [("type", .string s)] ∧ tag? s = some t ∧
        o' = ⟨some t, (untagged ms).reverse ++ o.members⟩ := by
  induction ms generalizing o with
  | nil =>
    constructor
    · rintro ⟨⟨⟩, ht⟩
      rw [ho] at ht
      cases ht
    · rintro ⟨s, hnamed, -⟩
      cases hnamed
  | cons m ms ih =>
    rw [List.foldlM_cons, Option.bind_eq_bind]
    by_cases hm : m.1 = "type"
    · obtain ⟨_, v⟩ := m
      cases hm
      have hnamed : named "type" (("type", v) :: ms) = ("type", v) :: named "type" ms := rfl
      have huntagged : untagged (("type", v) :: ms) = untagged ms := rfl
      rw [hnamed, huntagged]
      constructor
      · rintro ⟨h, ht⟩
        obtain ⟨o₁, hadd, h⟩ := Option.bind_eq_some_iff.mp h
        obtain ⟨s, u, rfl, hs, rfl⟩ := (add_type ho).mp hadd
        obtain ⟨hnone, rfl⟩ := (foldlM_add_of_tag rfl).mp h
        cases ht
        exact ⟨s, by rw [hnone], hs, rfl⟩
      · rintro ⟨s, hsingle, hs, rfl⟩
        obtain ⟨hv, hnone⟩ := List.cons.inj hsingle
        have hadd := (add_type ho).mpr ⟨s, t, (Prod.mk.inj hv).2, hs, rfl⟩
        exact ⟨Option.bind_eq_some_iff.mpr ⟨_, hadd, (foldlM_add_of_tag rfl).mpr ⟨hnone, rfl⟩⟩, rfl⟩
    · have hadd : o.add tag? m = some { o with members := m :: o.members } := if_neg hm
      rw [hadd, Option.bind_some, ih (o := { o with members := m :: o.members }) ho]
      simp [named, untagged, hm]

/-- An object with these members is read as what they mean. -/
theorem readMessage_object (hlead : Blank lead) (htrail : Blank trail)
    (hparts : List.Forall₂ (Fills readPlain) parts ms) :
    readMessage tag? decode (objectText lead parts trail) = .ok a ↔ Means tag? decode ms a := by
  rw [readMessage_eq_ok]
  constructor
  · rintro ⟨t, body, rest, hread, -, ha⟩
    obtain ⟨-, o, hfold, ht, rfl⟩ := (readTagged_object hlead hparts).mp hread
    obtain ⟨s, hnamed, hs, rfl⟩ := (foldlM_add_of_no_tag rfl).mp ⟨hfold, ht⟩
    exact ⟨s, t, hnamed, hs, by simpa using ha⟩
  · rintro ⟨s, t, hnamed, hs, ha⟩
    obtain ⟨hfold, ht⟩ := (foldlM_add_of_no_tag (o := ⟨none, []⟩) rfl).mpr ⟨s, hnamed, hs, rfl⟩
    exact ⟨t, _, trail, (readTagged_object hlead hparts).mpr ⟨rfl, _, hfold, ht, rfl⟩, htrail,
      by simpa using ha⟩

theorem forall₂_of_chain (h : Chain (readTaggedMember tag?) o parts o') :
    ∃ ms, List.Forall₂ (Fills readPlain) parts ms := by
  induction h with
  | nil => exact ⟨[], .nil⟩
  | cons h hb _ ih =>
    obtain ⟨m, hread, -⟩ := readTaggedMember_eq_ok.mp h
    obtain ⟨ms, hms⟩ := ih
    exact ⟨m :: ms, .cons ⟨_, hread, hb⟩ hms⟩

/-- Every object that is read as a message is written so. -/
theorem exists_objectText (h : readMessage tag? decode text = .ok a)
    (hopen : (skipBlank text).head? = some '\x7b') :
    ∃ lead parts ms trail, Blank lead ∧ Blank trail ∧
      List.Forall₂ (Fills readPlain) parts ms ∧ text = objectText lead parts trail := by
  obtain ⟨t, body, rest, hread, hrest, -⟩ := readMessage_eq_ok.mp h
  obtain ⟨lead, hlead, htext⟩ := exists_blanks text
  obtain ⟨inner, hinner⟩ := List.head?_eq_some_iff.mp hopen
  obtain ⟨o, ho, ht, -⟩ := (readTagged_eq_ok hinner).mp hread
  obtain ⟨blanks, hb, hblanks⟩ := exists_blanks inner
  rw [bracketed] at ho
  split at ho
  · cases ho
  case h_2 c tail hs =>
    split at ho
    · cases ho
      cases ht
    · obtain ⟨parts, hne, hparts, hchain⟩ :=
        chain_of_sequence (adds_readTaggedMember.local local_readPlain) ho
      obtain ⟨ms, hms⟩ := forall₂_of_chain hchain
      cases hms with
      | nil => exact absurd rfl hne
      | @cons part m parts ms hpart hms =>
        obtain ⟨left, hpart, hleft⟩ := hpart
        refine ⟨lead, (blanks ++ part) :: parts, m :: ms, rest, hlead, hrest,
          .cons ⟨left, by rw [readPlain_blanks hb, hpart], hleft⟩ hms, ?_⟩
        rw [htext, hinner, hblanks, hs, hparts, objectText, append_intercalate]
        simp

/-! The order of the members. -/

theorem exists_members {p : String × Json → Prop}
    (h : ∀ part ∈ parts, ∃ m, Fills readPlain part m ∧ p m) :
    ∃ ms, List.Forall₂ (Fills readPlain) parts ms ∧ ∀ m ∈ ms, p m := by
  induction parts with
  | nil => exact ⟨[], .nil, fun _ hm => (List.not_mem_nil hm).elim⟩
  | cons part parts ih =>
    obtain ⟨⟨m, hm, hp⟩, hparts⟩ := List.forall_mem_cons.mp h
    obtain ⟨ms, hms, hall⟩ := ih hparts
    exact ⟨m :: ms, .cons hm hms, List.forall_mem_cons.mpr ⟨hp, hall⟩⟩

theorem fills_of_mem (h : List.Forall₂ (Fills readPlain) parts ms) :
    ∀ part ∈ parts, ∃ m, Fills readPlain part m := by
  induction h with
  | nil => exact fun _ hp => (List.not_mem_nil hp).elim
  | cons hm _ ih => exact List.forall_mem_cons.mpr ⟨⟨_, hm⟩, ih⟩

variable {ms' extra : List (String × Json)} {names : List String}

/-- A record depends only on which members there are of each of its names. -/
theorem record?_congr (h : ∀ name ∈ names, (named name ms).Perm (named name ms')) :
    record? names (.object ms) = record? names (.object ms') := by
  have hsame (name : String) (hn : name ∈ names) (hone : (named name ms).length ≤ 1) :
      ms.find? (·.1 = name) = ms'.find? (·.1 = name) := by
    have heq : named name ms = named name ms' := by
      match hl : named name ms, hone with
      | [], _ => exact (List.nil_perm.mp (hl ▸ h name hn)).symm
      | [m], _ => exact (List.perm_singleton.mp (hl ▸ (h name hn).symm)).symm
    rw [← List.head?_filter, ← List.head?_filter]
    exact congrArg List.head? heq
  have hlength (name : String) (hn : name ∈ names) :
      (named name ms).length = (named name ms').length := (h name hn).length_eq
  unfold named at hlength hsame
  simp only [record?, List.all_eq_true, decide_eq_true_eq]
  by_cases hall : ∀ name ∈ names, (ms.filter (·.1 = name)).length ≤ 1
  · have hall' : ∀ name ∈ names, (ms'.filter (·.1 = name)).length ≤ 1 :=
      fun name hn => hlength name hn ▸ hall name hn
    rw [if_pos hall, if_pos hall']
    congr 1
    exact List.map_congr_left fun name hn => by rw [hsame name hn (hall name hn)]
  · have hall' : ¬ ∀ name ∈ names, (ms'.filter (·.1 = name)).length ≤ 1 :=
      fun hall' => hall fun name hn => hlength name hn ▸ hall' name hn
    rw [if_neg hall, if_neg hall']

/-- Other members may be added anywhere. -/
theorem perm_named {name : String} (hperm : ms'.Perm (ms ++ extra))
    (hextra : ∀ m ∈ extra, m.1 ≠ name) :
    (named name ms').Perm (named name ms) := by
  have hnone : named name extra = [] := List.filter_eq_nil_iff.mpr (by simpa using hextra)
  have hfilter := hperm.filter (·.1 = name)
  rw [List.filter_append, show extra.filter (·.1 = name) = [] from hnone,
    List.append_nil] at hfilter
  exact hfilter

theorem named_untagged {name : String} (hn : name ≠ "type") :
    named name (untagged ms) = named name ms := by
  simp only [named, untagged, List.filter_filter]
  congr 1
  funext m
  by_cases hm : m.1 = name <;> simp [hm, hn]

end Rally.Wire
