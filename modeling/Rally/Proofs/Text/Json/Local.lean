import Mathlib.Data.List.TakeWhile
import Rally.Proofs.Results
import Rally.Text.Json

/-! Readers of JSON look no further than at the character after what they read. -/
namespace Rally.Text.Json

variable {α β : Type} {text rest rest' front blanks ds : List Char} {c : Char}

/-- No number goes on here. -/
def Stops (text : List Char) : Prop :=
  ∀ c, text.head? = some c → isDigit c = false ∧ c ≠ '.' ∧ c ≠ 'e' ∧ c ≠ 'E'

/-- Another text that is as good to stop at. -/
def Follows (rest rest' : List Char) : Prop := rest'.head? = rest.head? ∨ Stops rest'

/-- The text is a front and the rest, and whatever else there is to stop at, the same is read from
the front. -/
def Fronted (read : Reader α) (a : α) (text rest : List Char) : Prop :=
  ∃ front, text = front ++ rest ∧
    ∀ rest', Follows rest rest' → read (front ++ rest') = .ok (a, rest')

/-- What is read depends only on the front of a text. -/
def Local (read : Reader α) : Prop :=
  ∀ text a rest, read text = .ok (a, rest) → Fronted read a text rest

theorem Follows.cons : Follows (c :: rest) (c :: rest') := .inl rfl

theorem Follows.append (h : Follows rest rest') (front : List Char) :
    Follows (front ++ rest) (front ++ rest') := by
  cases front with
  | nil => exact h
  | cons c front => exact .cons

theorem stops_nil : Stops [] := nofun

/-! How readers are put together. -/

namespace Local
variable {read first second : Reader α}

theorem pure (a : α) : Local fun text => .ok (a, text) := by
  rintro text _ _ ⟨⟩
  exact ⟨[], rfl, fun _ _ => rfl⟩

theorem error (e : List Char → Unread) : Local (fun text => .error (e text) : Reader α) := nofun

theorem bind {next : α → Reader β} (hr : Local read) (hn : ∀ a, Local (next a)) :
    Local fun text => read text >>= fun x => next x.1 x.2 := by
  intro text b rest h
  obtain ⟨⟨a, middle⟩, ha, hb⟩ := bind_eq_ok.mp h
  obtain ⟨front, rfl, hfront⟩ := hr _ _ _ ha
  obtain ⟨back, rfl, hback⟩ := hn _ _ _ _ hb
  refine ⟨front ++ back, (List.append_assoc ..).symm, fun rest' hrest => ?_⟩
  rw [List.append_assoc]
  exact bind_eq_ok.mpr ⟨_, hfront _ (hrest.append back), hback _ hrest⟩

theorem map (hr : Local read) (f : α → β) :
    Local fun text => (read text).map fun x => (f x.1, x.2) := by
  intro text b rest h
  cases ha : read text with
  | error e => simp [ha, Except.map] at h
  | ok x =>
    obtain ⟨a, rest⟩ := x
    simp only [ha, Except.map, Except.ok.injEq, Prod.mk.injEq] at h
    obtain ⟨rfl, rfl⟩ := h
    obtain ⟨front, rfl, hfront⟩ := hr _ _ _ ha
    refine ⟨front, rfl, fun rest' hrest => ?_⟩
    simp [hfront rest' hrest, Except.map]

theorem ite {p : Prop} [Decidable p] (hf : p → Local first) (hs : ¬ p → Local second) :
    Local fun text => if p then first text else second text := by
  by_cases hp : p
  · simpa only [hp, if_true] using hf hp
  · simpa only [hp, if_false] using hs hp

/-- A reader that needs a first character. -/
theorem cons (hnil : ∀ x, read [] ≠ .ok x) (hcons : ∀ c, Local fun text => read (c :: text)) :
    Local read := by
  intro text a rest h
  cases text with
  | nil => exact absurd h (hnil _)
  | cons c text =>
    obtain ⟨front, rfl, hfront⟩ := hcons c _ _ _ h
    exact ⟨c :: front, rfl, hfront⟩

/-- A reader that goes on where a number would. -/
theorem look {p : Option Char → Prop} [DecidablePred p]
    (hp : ∀ o, p o → o = some '.' ∨ o = some 'e' ∨ o = some 'E')
    (hf : Local first) (hs : Local second) :
    Local fun text => if p text.head? then first (text.drop 1) else second text := by
  intro text a rest h
  by_cases hhead : p text.head?
  · simp only [hhead, if_true] at h
    cases text with
    | nil => simpa using hp _ hhead
    | cons c text =>
      obtain ⟨front, rfl, hfront⟩ := hf _ _ _ h
      refine ⟨c :: front, rfl, fun rest' hrest => ?_⟩
      exact (if_pos hhead).trans (hfront rest' hrest)
  · simp only [hhead, if_false] at h
    obtain ⟨front, rfl, hfront⟩ := hs _ _ _ h
    refine ⟨front, rfl, fun rest' hrest => ?_⟩
    have hnot : ¬ p (front ++ rest').head? := by
      intro hhead'
      rcases hrest.append front with hsame | hstops
      · exact hhead (hsame ▸ hhead')
      · obtain he | he | he := hp _ hhead' <;> simpa using hstops _ he
    exact (if_neg hnot).trans (hfront rest' hrest)

end Local

/-! Blanks. -/

def Blank (text : List Char) : Prop := ∀ c ∈ text, isBlank c = true

instance (text : List Char) : Decidable (Blank text) :=
  decidable_of_iff (text.all isBlank = true) List.all_eq_true

theorem blank_nil : Blank [] := fun _ hc => (List.not_mem_nil hc).elim

theorem skipBlank_append (hb : Blank blanks) (rest : List Char) :
    skipBlank (blanks ++ rest) = skipBlank rest := List.dropWhile_append_of_pos hb

theorem skipBlank_cons (hc : isBlank c = false) (rest : List Char) :
    skipBlank (c :: rest) = c :: rest := List.dropWhile_cons_of_neg (by simp [hc])

theorem blank_takeWhile (text : List Char) : Blank (text.takeWhile isBlank) :=
  fun _ hc => List.mem_takeWhile_imp hc

theorem exists_blanks (text : List Char) :
    ∃ blanks, Blank blanks ∧ text = blanks ++ skipBlank text :=
  ⟨text.takeWhile isBlank, blank_takeWhile text, List.takeWhile_append_dropWhile.symm⟩

theorem not_isBlank_of_skipBlank (h : skipBlank text = c :: rest) : isBlank c = false := by
  have hhead := List.head?_dropWhile_not isBlank text
  rw [show text.dropWhile isBlank = c :: rest from h] at hhead
  exact hhead

theorem skipBlank_skipBlank (text : List Char) : skipBlank (skipBlank text) = skipBlank text := by
  cases h : skipBlank text with
  | nil => rfl
  | cons c rest => exact skipBlank_cons (not_isBlank_of_skipBlank h) rest

theorem skipBlank_eq_nil : skipBlank text = [] ↔ Blank text := List.dropWhile_eq_nil_iff

theorem Local.skip (read : Reader α) (hnil : ∀ x, read [] ≠ .ok x)
    (hcons : ∀ c, isBlank c = false → Local fun text => read (c :: text)) :
    Local fun text => read (skipBlank text) := by
  intro text a rest h
  obtain ⟨blanks, hb, htext⟩ := exists_blanks text
  cases hs : skipBlank text with
  | nil =>
    simp only [hs] at h
    exact absurd h (hnil _)
  | cons c tail =>
    have hc := not_isBlank_of_skipBlank hs
    simp only [hs] at h htext
    obtain ⟨front, rfl, hfront⟩ := hcons c hc _ _ _ h
    refine ⟨blanks ++ c :: front, by simp [htext], fun rest' hrest => ?_⟩
    have hskip : skipBlank (blanks ++ c :: front ++ rest') = c :: (front ++ rest') := by
      rw [List.append_assoc, skipBlank_append hb, List.cons_append, skipBlank_cons hc]
    exact (congrArg read hskip).trans (hfront rest' hrest)

/-! Words. -/

theorem local_readWord (value : α) (word : List Char) : Local (readWord value word) := by
  induction word with
  | nil => exact .pure value
  | cons w word ih =>
    refine .cons nofun fun c => ?_
    exact .ite (fun _ => ih) (fun _ => .error _)

/-! Numbers. -/

/-- No digit comes first. -/
def NoDigit (text : List Char) : Prop := ∀ c, text.head? = some c → isDigit c = false

theorem noDigit_nil : NoDigit [] := nofun

theorem noDigit_dropDigits (text : List Char) : NoDigit (dropDigits text) := by
  intro c hc
  have hhead := List.head?_dropWhile_not isDigit text
  rw [show (text.dropWhile isDigit).head? = some c from hc] at hhead
  exact hhead

theorem NoDigit.follows (h : NoDigit rest) (hf : Follows rest rest') : NoDigit rest' := by
  intro c hc
  rcases hf with hsame | hstops
  · exact h c (hsame ▸ hc)
  · exact (hstops c hc).1

theorem takeWhile_digits (hds : ∀ c ∈ ds, isDigit c = true) (hr : NoDigit rest) :
    (ds ++ rest).takeWhile isDigit = ds ∧ dropDigits (ds ++ rest) = rest := by
  rw [dropDigits, List.takeWhile_append_of_pos hds, List.dropWhile_append_of_pos hds]
  cases rest with
  | nil => exact ⟨List.append_nil ds, rfl⟩
  | cons c rest =>
    have hc := hr c rfl
    simp [hc]

/-- A reader that takes the digits first. -/
theorem Local.digits {read : Reader α} {next : List Char → Reader α}
    (hr : ∀ text, read text = next (text.takeWhile isDigit) (dropDigits text))
    (hn : ∀ ds, Local (next ds)) : Local read := by
  intro text a rest h
  rw [hr] at h
  obtain ⟨front, hfront, hread⟩ := hn _ _ _ _ h
  have hds : ∀ c ∈ text.takeWhile isDigit, isDigit c = true := fun _ hc => List.mem_takeWhile_imp hc
  have htext : text = text.takeWhile isDigit ++ dropDigits text :=
    List.takeWhile_append_dropWhile.symm
  refine ⟨text.takeWhile isDigit ++ front, ?_, fun rest' hrest => ?_⟩
  · rw [List.append_assoc, ← hfront]
    exact htext
  · have hno : NoDigit (front ++ rest') :=
      (noDigit_dropDigits text).follows (hfront ▸ hrest.append front)
    obtain ⟨htake, hdrop⟩ := takeWhile_digits hds hno
    rw [hr, List.append_assoc, htake, hdrop]
    exact hread rest' hrest

theorem takeDigits_append (n : Nat) (ds : List Char) (hr : NoDigit rest) :
    takeDigits n (ds ++ rest) = ((takeDigits n ds).1, (takeDigits n ds).2 ++ rest) := by
  induction ds generalizing n with
  | nil =>
    cases rest with
    | nil => rfl
    | cons c rest => simp [takeDigits, hr c rfl]
  | cons c ds ih =>
    by_cases hc : (isDigit c && 10 * n + digit c < UInt64.size) = true
    · simp only [List.cons_append, takeDigits, hc, if_true]
      exact ih _
    · simp only [List.cons_append, takeDigits, hc, if_false, Bool.false_eq_true]

theorem isDigit_of_mem_takeDigits (n : Nat) (hds : ∀ c ∈ ds, isDigit c = true) :
    ∀ c ∈ (takeDigits n ds).2, isDigit c = true := by
  induction ds generalizing n with
  | nil => simp [takeDigits]
  | cons c ds ih =>
    rw [takeDigits]
    split
    · exact ih _ fun d hd => hds d (List.mem_cons_of_mem c hd)
    · exact hds

variable {loose negative : Bool} {n : Nat} {e : Int}

theorem local_readReal : Local (readReal loose negative n e) := by
  unfold readReal
  cases scale? (e.natAbs / 308 + 2) n.toUInt64.toFloat e with
  | some x => exact .pure _
  | none => exact .ite (fun _ => .pure _) (fun _ => .error _)

/-- The number with an exponent of these digits. -/
def withExponent (loose negative down : Bool) (n : Nat) (e : Int) (ds : List Char) : Reader Json :=
  fun rest =>
    let written := ds.foldl (fun k c => 10 * k + digit c) 0
    if 0x80000000 ≤ written then
      if n = 0 ∨ down ∨ loose then .ok (.real (if negative then -0 else 0), rest)
      else .error .malformed
    else readReal loose negative n (if down then e - written else e + written) rest

/-- An exponent after its sign. -/
def unsignedExponent (loose negative down : Bool) (n : Nat) (e : Int) : Reader Json
  | [] => .error .incomplete
  | c :: text =>
    if isDigit c then
      withExponent loose negative down n e (c :: text.takeWhile isDigit) (dropDigits text)
    else .error .malformed

theorem readExponent_cons (c : Char) (text : List Char) :
    readExponent loose negative n e (c :: text) =
      if c = '-' then unsignedExponent loose negative true n e text
      else if c = '+' then unsignedExponent loose negative false n e text
      else unsignedExponent loose negative false n e (c :: text) := by
  have htake (d : Char) (text : List Char) (hd : isDigit d = true) :
      (d :: text).takeWhile isDigit = d :: text.takeWhile isDigit ∧
        dropDigits (d :: text) = dropDigits text :=
    ⟨List.takeWhile_cons_of_pos hd, List.dropWhile_cons_of_pos hd⟩
  by_cases hm : c = '-'
  · cases text <;> simp +contextual [readExponent, unsignedExponent, withExponent, htake, hm]
  · by_cases hp : c = '+'
    · cases text <;> simp +contextual [readExponent, unsignedExponent, withExponent, htake, hp]
    · simp +contextual [readExponent, unsignedExponent, withExponent, htake, hm, hp]

theorem local_withExponent (down : Bool) (ds : List Char) :
    Local (withExponent loose negative down n e ds) :=
  .ite (fun _ => .ite (fun _ => .pure _) (fun _ => .error _)) (fun _ => local_readReal)

theorem local_unsignedExponent_cons (down : Bool) (c : Char) :
    Local fun text => unsignedExponent loose negative down n e (c :: text) :=
  .ite (fun _ => .digits (fun _ => rfl) fun ds => local_withExponent down (c :: ds))
    (fun _ => .error _)

theorem local_readExponent : Local (readExponent loose negative n e) := by
  refine .cons (by simp [readExponent]) fun c => ?_
  simp only [readExponent_cons]
  exact .ite (fun _ => .cons nofun (local_unsignedExponent_cons _)) fun _ =>
    .ite (fun _ => .cons nofun (local_unsignedExponent_cons _)) fun _ =>
      local_unsignedExponent_cons _ c

theorem local_afterDigits : Local (afterDigits loose negative n e) :=
  .look (p := fun o => o = some 'e' ∨ o = some 'E') (fun _ ho => .inr ho) local_readExponent
    local_readReal

/-- The number with these digits after the point. -/
def withFraction (loose negative : Bool) (n : Nat) (e : Int) (ds : List Char) : Reader Json :=
  fun rest =>
    if ds.length = 0 then .error (if (ds ++ rest).isEmpty then .incomplete else .malformed)
    else afterDigits loose negative (takeDigits n ds).1
      (e - (ds.length - (takeDigits n ds).2.length)) rest

theorem readFraction_eq (text : List Char) : readFraction loose negative n e text =
    withFraction loose negative n e (text.takeWhile isDigit) (dropDigits text) := by
  have htext : text = text.takeWhile isDigit ++ dropDigits text :=
    List.takeWhile_append_dropWhile.symm
  have hds : ∀ c ∈ text.takeWhile isDigit, isDigit c = true := fun _ hc => List.mem_takeWhile_imp hc
  have htake := takeDigits_append n (text.takeWhile isDigit) (noDigit_dropDigits text)
  rw [← htext] at htake
  have hdrop := (takeWhile_digits (isDigit_of_mem_takeDigits n hds) (noDigit_dropDigits text)).2
  have hlength := congrArg List.length htext
  rw [List.length_append] at hlength
  simp only [readFraction, withFraction, htake, hdrop, countDigits, ← htext, List.length_append]
  rw [hlength]
  congr 2
  push_cast
  omega

theorem local_readFraction : Local (readFraction loose negative n e) :=
  .digits readFraction_eq fun _ => .ite (fun _ => .error _) (fun _ => local_afterDigits)

/-- What may follow the digits before the point, of which some did not fit. -/
def afterWholeDigits (loose negative : Bool) (n dropped : Nat) : Reader Json := fun rest =>
  if rest.head? = some '.' then readFraction loose negative n dropped (rest.drop 1)
  else if rest.head? = some 'e' ∨ rest.head? = some 'E' then
    readExponent loose negative n dropped (rest.drop 1)
  else if 0 < dropped then readReal loose negative n dropped rest
  else if !negative then .ok (.int n, rest)
  else if n = 0 ∨ 0x8000000000000000 < n then .ok (.real (-n.toUInt64.toFloat), rest)
  else .ok (.int (-n), rest)

theorem afterWhole_eq (text : List Char) : afterWhole loose negative n text =
    afterWholeDigits loose negative n (text.takeWhile isDigit).length (dropDigits text) := rfl

theorem local_afterWholeDigits (dropped : Nat) :
    Local (afterWholeDigits loose negative n dropped) := by
  refine .look (p := fun o => o = some '.') (fun _ ho => .inl ho) local_readFraction ?_
  refine .look (p := fun o => o = some 'e' ∨ o = some 'E') (fun _ ho => .inr ho)
    local_readExponent ?_
  exact .ite (fun _ => local_readReal) fun _ => .ite (fun _ => .pure _) fun _ =>
    .ite (fun _ => .pure _) fun _ => .pure _

/-- The number whose first digit and other digits before the point are these. -/
def withWhole (loose negative : Bool) (c : Char) (ds : List Char) : Reader Json := fun rest =>
  if c = '0' then
    if ds.length = 0 then afterWholeDigits loose negative 0 ds.length rest else .error .malformed
  else if isDigit c then
    afterWholeDigits loose negative (takeDigits 0 (c :: ds)).1 (takeDigits 0 (c :: ds)).2.length
      rest
  else .error .malformed

theorem readNumber_cons (c : Char) (text : List Char) : readNumber loose negative (c :: text) =
    withWhole loose negative c (text.takeWhile isDigit) (dropDigits text) := by
  by_cases h0 : c = '0'
  · simp only [readNumber, withWhole, h0, if_true]
    rfl
  · by_cases hc : isDigit c = true
    · have htext : text = text.takeWhile isDigit ++ dropDigits text :=
        List.takeWhile_append_dropWhile.symm
      have htake := takeDigits_append 0 (c :: text.takeWhile isDigit) (noDigit_dropDigits text)
      rw [List.cons_append, ← htext] at htake
      have hds : ∀ d ∈ c :: text.takeWhile isDigit, isDigit d = true :=
        List.forall_mem_cons.mpr ⟨hc, fun _ hd => List.mem_takeWhile_imp hd⟩
      obtain ⟨hfirst, hrest⟩ :=
        takeWhile_digits (isDigit_of_mem_takeDigits 0 hds) (noDigit_dropDigits text)
      simp only [readNumber, withWhole, h0, hc, htake, afterWhole_eq, hfirst, hrest, if_true,
        if_false]
    · simp [readNumber, withWhole, h0, hc]

theorem local_readNumber_cons (c : Char) :
    Local fun text => readNumber loose negative (c :: text) :=
  .digits (readNumber_cons c) fun _ =>
    .ite (fun _ => .ite (fun _ => local_afterWholeDigits _) fun _ => .error _) fun _ =>
      .ite (fun _ => local_afterWholeDigits _) fun _ => .error _

theorem local_readNumber : Local (readNumber loose negative) :=
  .cons (by simp [readNumber]) local_readNumber_cons

/-! Strings. -/

theorem readCharacters_escaped {d : Char} (hu : c ≠ 'u') (hd : escaped? c = some d)
    (text : List Char) :
    readCharacters loose ('\\' :: c :: text) = prepend d (readCharacters loose text) := by
  rw [readCharacters.eq_def]
  split <;> grind

theorem readCharacters_plain (hq : c ≠ '"') (hb : c ≠ '\\') (hc : ¬ c < ' ') (text : List Char) :
    readCharacters loose (c :: text) = prepend c (readCharacters loose text) := by
  rw [readCharacters.eq_def]
  split <;> grind

theorem fronted_prepend (front : List Char) {cs : List Char}
    (hstep : ∀ u, readCharacters loose (front ++ u) = prepend c (readCharacters loose u))
    (ih : ∀ cs, readCharacters loose text = .ok (cs, rest) →
      Fronted (readCharacters loose) cs text rest)
    (h : prepend c (readCharacters loose text) = .ok (cs, rest)) :
    Fronted (readCharacters loose) cs (front ++ text) rest := by
  cases hread : readCharacters loose text with
  | error e =>
    rw [hread] at h
    cases h
  | ok x =>
    rw [hread] at h
    cases h
    obtain ⟨back, rfl, hback⟩ := ih _ hread
    refine ⟨front ++ back, (List.append_assoc ..).symm, fun rest' hrest => ?_⟩
    rw [List.append_assoc, hstep, hback rest' hrest]
    rfl

theorem local_readCharacters : Local (readCharacters loose) := by
  intro text cs rest h
  fun_induction readCharacters loose text generalizing cs with
  | case2 text =>
    cases h
    exact ⟨['"'], rfl, fun _ _ => by simp [readCharacters]⟩
  | case8 a b c d n hn ht hl e f g i text m hm htm ih =>
    exact fronted_prepend ['\\', 'u', a, b, c, d, '\\', 'u', e, f, g, i]
      (fun u => by simp [readCharacters, hn, ht, hl, hm, htm]) ih h
  | case12 a b c d text n hn ht hl ih =>
    exact fronted_prepend ['\\', 'u', a, b, c, d]
      (fun u => by simp [readCharacters, hn, ht, hl]) ih h
  | case15 c text _ hu d hd ih =>
    exact fronted_prepend ['\\', c] (readCharacters_escaped hu hd) ih h
  | case18 c text hq _ _ hnone hsome hc ih =>
    have hb : c ≠ '\\' := by
      intro hb
      cases text with
      | nil => exact hnone hb rfl
      | cons d text => exact hsome d text hb rfl
    exact fronted_prepend [c] (readCharacters_plain hq hb hc) ih h
  | _ => cases h

theorem local_readString : Local (readString loose) := local_readCharacters.map String.ofList

end Rally.Text.Json
