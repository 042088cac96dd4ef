import Mathlib
import Rally.Proofs.Wire.Members
import Rally.Wire.Request

/-! What players ask survives the wire, in whatever order the members of a message come. -/
namespace Rally.Request

open Text
open Text.Json
open Wire

variable {r : Request} {t : Tag} {body body' : Json} {ms ms' extra : List (String × Json)}
  {text lead trail part : List Char} {parts parts' : List (List Char)} {v : Json} {name : String}

/-- The kind of a request. -/
def tag : Request → Tag
  | .input .. => .input
  | .surrender => .surrender
  | .ping _ => .ping

/-- The names of the members that a kind of request has, beside its tag. -/
def fields : Tag → List String
  | .input => ["direction", "timestamp"]
  | .surrender => []
  | .ping => ["t"]

/-- The times in a request are numbers of 64 bits. -/
def Fits : Request → Prop
  | .input _ time => ∀ t ∈ time, t < UInt64.size
  | .surrender => True
  | .ping t => t < UInt64.size

/-! What a request is read from. -/

theorem decode_congr (h : record? (fields t) body = record? (fields t) body') :
    decode t body = decode t body' := by
  cases t <;> simp only [fields] at h <;> simp only [decode, h]

theorem tag_of_decode (h : decode t body = some r) : r.tag = t := by
  cases t with
  | input =>
    obtain ⟨members, -, h⟩ := Option.bind_eq_some_iff.mp h
    split at h
    · obtain ⟨direction, -, h⟩ := Option.bind_eq_some_iff.mp h
      obtain ⟨time, -, h⟩ := Option.bind_eq_some_iff.mp h
      cases h
      rfl
    · cases h
  | surrender =>
    obtain ⟨members, -, h⟩ := Option.bind_eq_some_iff.mp h
    cases h
    rfl
  | ping =>
    obtain ⟨members, -, h⟩ := Option.bind_eq_some_iff.mp h
    split at h
    · obtain ⟨t, -, h⟩ := Option.bind_eq_some_iff.mp h
      cases h
      rfl
    · cases h

theorem fields_ne_type : ∀ name ∈ fields t, name ≠ "type" := by
  cases t <;> decide

/-- Neither the order of the members nor others beside them change the meaning. -/
theorem means_perm (h : Means tag? decode ms r) (hperm : ms'.Perm (ms ++ extra))
    (hextra : ∀ m ∈ extra, m.1 ≠ "type" ∧ m.1 ∉ fields r.tag) : Means tag? decode ms' r := by
  obtain ⟨s, t, hnamed, ht, hr⟩ := h
  have htype := perm_named hperm fun m hm => (hextra m hm).1
  rw [hnamed] at htype
  refine ⟨s, t, List.perm_singleton.mp htype, ht, ?_⟩
  rw [← hr]
  refine decode_congr (record?_congr fun name hn => ?_)
  have hne := fields_ne_type name hn
  rw [named_untagged hne, named_untagged hne]
  refine perm_named hperm fun m hm he => (hextra m hm).2 ?_
  rw [tag_of_decode hr, he]
  exact hn

/-! What a request is written as. -/

theorem fills_writeMember (h : readValue false (maxDepth - 1) text = .ok (v, [])) :
    Fills readPlain (writeMember name text) (name, v) := by
  refine ⟨[], readPlain_eq_ok.mpr ⟨':' :: text, text, ?_, ?_, h⟩, blank_nil⟩
  · exact readString_writeString false name (':' :: text)
  · rfl

theorem fills_typeMember (name : String) :
    Fills readPlain (writeMember (typeMember name).1 (typeMember name).2)
      ("type", .string name) := by
  have hread : readValue false (maxDepth - 1) (writeString name ++ []) = .ok (.string name, []) :=
    readValue_writeString name []
  rw [List.append_nil] at hread
  exact fills_writeMember hread

theorem direction?_toInt (d : Int8) : direction? (.int d.toInt) = some d := by
  have hlow : -128 ≤ d.toInt := Int8.le_toInt d
  have hhigh : d.toInt ≤ 127 := Int.le_of_lt_add_one (Int8.toInt_lt d)
  simp [direction?, int?, hlow, hhigh]

theorem nat?_ofNat {n : Nat} (hn : n < UInt64.size) : nat? 64 (.int n) = some n := by
  have hsize : UInt64.size = 18446744073709551616 := rfl
  have hhigh : (n : Int) ≤ 18446744073709551615 := by omega
  simp [nat?, int?, hhigh]

theorem read_object (hparts : List.Forall₂ (Fills readPlain) parts ms)
    (h : Means tag? decode ms r) :
    read (objectText [] parts []) = .ok r :=
  (readMessage_object blank_nil blank_nil hparts).mpr h

/-- A time, or the null that stands for none. -/
def timeValue : Option Nat → Json
  | some t => .int t
  | none => .null

theorem readValue_writeTime {time : Option Nat} (ht : ∀ t ∈ time, t < UInt64.size) :
    readValue false (maxDepth - 1) (writeOption writeNat time) = .ok (timeValue time, []) := by
  cases time with
  | none =>
    rw [readValue.eq_def]
    rfl
  | some t => exact readValue_writeNat (ht t rfl)

theorem option?_timeValue {time : Option Nat} (ht : ∀ t ∈ time, t < UInt64.size) :
    option? (nat? 64) (timeValue time) = some time := by
  cases time with
  | none => rfl
  | some t =>
    have hread := nat?_ofNat (ht t rfl)
    simp [timeValue, option?, hread]

theorem readValue_writeDirection (d : Int8) :
    readValue false (maxDepth - 1) (writeInt d.toInt) = .ok (.int d.toInt, []) := by
  have hlow : -128 ≤ d.toInt := Int8.le_toInt d
  have hhigh : d.toInt < 128 := Int8.toInt_lt d
  exact readValue_writeInt (by omega) (Int.lt_trans hhigh (by decide))

theorem read_write (hr : r.Fits) : read (write r) = .ok r := by
  cases r with
  | input direction time =>
    refine read_object (.cons (fills_typeMember "input")
      (.cons (fills_writeMember (readValue_writeDirection direction))
        (.cons (fills_writeMember (readValue_writeTime hr)) .nil))) ?_
    refine ⟨"input", .input, rfl, rfl, ?_⟩
    have hd := direction?_toInt direction
    have ht := option?_timeValue hr
    simp [untagged, decode, record?, optional?, hd, ht]
  | surrender =>
    exact read_object (.cons (fills_typeMember "surrender") .nil)
      ⟨"surrender", .surrender, rfl, rfl, rfl⟩
  | ping t =>
    refine read_object (.cons (fills_typeMember "ping")
      (.cons (fills_writeMember (readValue_writeNat hr)) .nil)) ?_
    refine ⟨"ping", .ping, rfl, rfl, ?_⟩
    have ht := nat?_ofNat hr
    simp [untagged, decode, record?, ht]

/-! Members in any order. -/

/-- One member, as it is written between commas. -/
def IsMember (part : List Char) : Prop := ∃ m, Fills readPlain part m

/-- A member that is neither the tag of a request nor one that its kind has. -/
def Unrelated (r : Request) (part : List Char) : Prop :=
  ∃ m, Fills readPlain part m ∧ m.1 ≠ "type" ∧ m.1 ∉ fields r.tag

theorem read_perm {lead' trail' : List Char} {added : List (List Char)} (hlead : Blank lead)
    (htrail : Blank trail) (hparts : ∀ part ∈ parts, IsMember part)
    (h : read (objectText lead parts trail) = .ok r) (hlead' : Blank lead') (htrail' : Blank trail')
    (hadded : ∀ part ∈ added, Unrelated r part) (hperm : parts'.Perm (parts ++ added)) :
    read (objectText lead' parts' trail') = .ok r := by
  obtain ⟨ms, hms, -⟩ := exists_members (p := fun _ => True)
    fun part hp => (hparts part hp).imp fun m hm => ⟨hm, trivial⟩
  obtain ⟨extra, hextra, hnames⟩ := exists_members hadded
  obtain ⟨ms', hms', hperm'⟩ := List.perm_comp_forall₂ hperm (List.rel_append hms hextra)
  have hmeans := (readMessage_object hlead htrail hms).mp h
  exact (readMessage_object hlead' htrail' hms').mpr (means_perm hmeans hperm' hnames)

/-- Every request whose times have 64 bits is read back from what it is written as. Every object
that is read as a request is a row of members. In any other order, with any members added that are
not those of its kind, and between any blanks, it is read as the same request. -/
theorem survives_the_wire :
    (∀ r : Request, r.Fits → read (write r) = .ok r) ∧
    (∀ text r, read text = .ok r → (skipBlank text).head? = some '\x7b' →
      ∃ lead parts trail, Blank lead ∧ Blank trail ∧ (∀ part ∈ parts, IsMember part) ∧
        text = objectText lead parts trail) ∧
    ∀ lead parts trail r, Blank lead → Blank trail → (∀ part ∈ parts, IsMember part) →
      read (objectText lead parts trail) = .ok r →
      ∀ lead' parts' added trail', Blank lead' → Blank trail' →
        (∀ part ∈ added, Unrelated r part) → parts'.Perm (parts ++ added) →
        read (objectText lead' parts' trail') = .ok r := by
  refine ⟨fun r hr => read_write hr, fun text r h hopen => ?_, ?_⟩
  · obtain ⟨lead, parts, ms, trail, hlead, htrail, hms, htext⟩ := exists_objectText h hopen
    exact ⟨lead, parts, trail, hlead, htrail, fills_of_mem hms, htext⟩
  · intro lead parts trail r hlead htrail hparts h lead' parts' added trail' hlead' htrail' hadded
      hperm
    exact read_perm hlead htrail hparts h hlead' htrail' hadded hperm

/-- The least direction and the largest time, and an object turned around, with a member added whose
value has a tag of its own. There is an escape in the name of the tag. -/
theorem survives_the_wire_turned_around :
    read (write (.input (-128) (some 18446744073709551615))) =
        .ok (.input (-128) (some 18446744073709551615)) ∧
      read (objectText [] ["\"t\\u0079pe\":\"input\"".toList, " \"direction\" : -128".toList] []) =
        .ok (.input (-128) none) ∧
      read (objectText ['\n']
        [" \"direction\" : -128".toList, "\"more\":[null,\x7b\"type\":1\x7d] ".toList,
          "\"t\\u0079pe\":\"input\"".toList] [' ']) = .ok (.input (-128) none) := by
  obtain ⟨hwritten, -, hperm⟩ := survives_the_wire
  have hkind : Fills readPlain "\"t\\u0079pe\":\"input\"".toList ("type", .string "input") :=
    ⟨[], by cbv, blank_nil⟩
  have hdirection : Fills readPlain " \"direction\" : -128".toList ("direction", .int (-128)) :=
    ⟨[], by cbv, blank_nil⟩
  have hmore : Fills readPlain "\"more\":[null,\x7b\"type\":1\x7d] ".toList
      ("more", .array [.null, .object [("type", .int 1)]]) :=
    ⟨[' '], by cbv, by decide⟩
  have hread : read (objectText []
      ["\"t\\u0079pe\":\"input\"".toList, " \"direction\" : -128".toList] []) =
        .ok (.input (-128) none) := by cbv
  have hfits : (Request.input (-128) (some 18446744073709551615)).Fits := by
    rintro t ⟨⟩
    decide
  refine ⟨hwritten _ hfits, hread, hperm [] _ [] _ blank_nil blank_nil ?_ hread
    ['\n'] _ ["\"more\":[null,\x7b\"type\":1\x7d] ".toList] [' '] (by decide) (by decide) ?_
    (.trans (.cons _ (.swap ..)) (.swap ..))⟩
  · rintro part hp
    rcases List.mem_pair.mp hp with rfl | rfl
    · exact ⟨_, hkind⟩
    · exact ⟨_, hdirection⟩
  · rintro part hp
    rw [List.mem_singleton.mp hp]
    exact ⟨_, hmore, by decide, by decide⟩

end Rally.Request
