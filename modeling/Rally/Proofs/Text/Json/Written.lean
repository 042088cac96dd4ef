import Rally.Proofs.Text.Json.Sequences
import Rally.Text.Json.Written

/-! What is written in JSON is read back, and strings are read only from quotes. -/
namespace Rally.Text.Json

variable {c d : Char} {s : String} {v : Json} {n m : Nat} {i : Int} {text rest ds : List Char}
  {loose negative : Bool} {depth : Nat}

/-! Strings. -/

theorem escaped_of_shortName (h : shortName? c = some d) : escaped? d = some c ∧ d ≠ 'u' := by
  unfold shortName? at h
  split_ifs at h with hc hc hc hc hc hc hc <;> cases h <;> subst hc <;> decide

theorem hex4_control : ∀ n < 32,
    hex4? '0' '0' (Nat.digitChar (n / 16)) (Nat.digitChar (n % 16)) = some n ∧
      isTrailing n = false ∧ isLeading n = false := by
  decide

theorem readCharacters_writeChar (c : Char) (rest : List Char) :
    readCharacters loose (writeChar c ++ rest) = prepend c (readCharacters loose rest) := by
  unfold writeChar
  cases hs : shortName? c with
  | some d =>
    obtain ⟨hd, hu⟩ := escaped_of_shortName hs
    exact readCharacters_escaped hu hd rest
  | none =>
    by_cases hc : c < ' '
    · obtain ⟨hn, ht, hl⟩ := hex4_control c.toNat hc
      simp [hc, readCharacters, hn, ht, hl]
    · have hq : c ≠ '"' ∧ c ≠ '\\' := by
        constructor <;> rintro rfl <;> cases hs
      simpa [hc] using readCharacters_plain hq.1 hq.2 hc rest

theorem readString_writeString (loose : Bool) (s : String) (rest : List Char) :
    readString loose ((s.toList.flatMap writeChar ++ ['"']) ++ rest) = .ok (s, rest) := by
  have hread (cs : List Char) :
      readCharacters loose (cs.flatMap writeChar ++ '"' :: rest) = .ok (cs, rest) := by
    induction cs with
    | nil => simp [readCharacters]
    | cons c cs ih =>
      rw [List.flatMap_cons, List.append_assoc, readCharacters_writeChar, ih]
      rfl
  simp [readString, hread, Except.map]

theorem readValue_quote (text : List Char) : readValue loose depth ('"' :: text) =
    (readString loose text).map fun x => (.string x.1, x.2) := by
  rw [readValue.eq_def]
  rfl

theorem readValue_writeString (s : String) (rest : List Char) :
    readValue loose depth (writeString s ++ rest) = .ok (.string s, rest) := by
  have hread := readString_writeString loose s rest
  rw [writeString, List.cons_append, List.cons_append, readValue_quote, hread]
  rfl

theorem readReal_ne_string : readReal loose negative n i text ≠ .ok (.string s, rest) := by
  unfold readReal
  grind

theorem readExponent_ne_string : readExponent loose negative n i text ≠ .ok (.string s, rest) := by
  unfold readExponent
  grind [readReal_ne_string]

theorem readFraction_ne_string : readFraction loose negative n i text ≠ .ok (.string s, rest) := by
  unfold readFraction afterDigits
  grind [readReal_ne_string, readExponent_ne_string]

theorem readNumber_ne_string : readNumber loose negative text ≠ .ok (.string s, rest) := by
  unfold readNumber afterWhole
  grind [readReal_ne_string, readExponent_ne_string, readFraction_ne_string]

theorem readWord_value {α : Type} {value a : α} {word : List Char}
    (h : readWord value word text = .ok (a, rest)) : a = value := by
  induction word generalizing text with
  | nil =>
    cases h
    rfl
  | cons w word ih =>
    cases text with
    | nil => cases h
    | cons c text =>
      rw [readWord] at h
      split at h
      · exact ih h
      · cases h

theorem map_ne_ok {ε α β : Type} {x : Except ε α} {f : α → β} {b : β} (hf : ∀ a, f a ≠ b) :
    x.map f ≠ .ok b := by
  cases x with
  | error e => nofun
  | ok a => exact fun h => hf a (Except.ok.inj h)

/-- Only what starts with a quote is read as a string. -/
theorem readValue_eq_string : readValue loose depth text = .ok (.string s, rest) ↔
    ∃ tail, skipBlank text = '"' :: tail ∧ readString loose tail = .ok (s, rest) := by
  constructor
  · intro h
    rw [readValue.eq_def] at h
    split at h
    case h_6 tail hs =>
      cases hread : readString loose tail with
      | error e =>
        rw [hread] at h
        cases h
      | ok x =>
        rw [hread] at h
        cases h
        exact ⟨tail, hs, hread⟩
    case h_7 tail hs =>
      cases depth with
      | zero => cases h
      | succ d => exact absurd h (map_ne_ok fun _ => nofun)
    case h_8 tail hs =>
      cases depth with
      | zero => cases h
      | succ d => exact absurd h (map_ne_ok fun _ => nofun)
    all_goals grind [readNumber_ne_string, readWord_value]
  · rintro ⟨tail, hs, hread⟩
    rw [← readValue_skip, hs, readValue_quote, hread]
    rfl

/-! Numbers. -/

theorem isDigit_eq (c : Char) : isDigit c = c.isDigit := by
  simp [isDigit, Char.isDigit, Char.le_def]

theorem le_ofDigitChars (ds : List Char) (n : Nat) : n ≤ Nat.ofDigitChars 10 ds n := by
  induction ds generalizing n with
  | nil => exact Nat.le_refl n
  | cons c ds ih =>
    rw [Nat.ofDigitChars_cons]
    exact Nat.le_trans (by omega) (ih _)

theorem takeDigits_all (hds : ∀ c ∈ ds, isDigit c = true)
    (hn : Nat.ofDigitChars 10 ds n < UInt64.size) :
    takeDigits n ds = (Nat.ofDigitChars 10 ds n, []) := by
  induction ds generalizing n with
  | nil => rfl
  | cons c ds ih =>
    obtain ⟨hc, hds⟩ := List.forall_mem_cons.mp hds
    rw [Nat.ofDigitChars_cons] at hn ⊢
    have hlt : 10 * n + digit c < UInt64.size := Nat.lt_of_le_of_lt (le_ofDigitChars ds _) hn
    simp only [takeDigits, hc, hlt, decide_true, Bool.and_self, if_true]
    exact ih hds hn

/-- Only zero is written with a zero first. -/
theorem toDigits_zero_cons (h : Nat.toDigits 10 n = '0' :: ds) : n = 0 := by
  induction n using Nat.strong_induction_on generalizing ds with
  | _ n ih =>
    by_cases hn : n < 10
    · have hzero : ∀ n < 10, Nat.digitChar n = '0' → n = 0 := by decide
      rw [Nat.toDigits_of_lt_base hn] at h
      exact hzero n hn (List.cons.inj h).1
    · rw [Nat.toDigits_of_base_le (by decide) (by omega)] at h
      cases hd : Nat.toDigits 10 (n / 10) with
      | nil => exact absurd hd Nat.toDigits_ne_nil
      | cons c cs =>
        rw [hd, List.cons_append] at h
        have hz := ih (n / 10) (by omega) (hd.trans (congrArg (· :: cs) (List.cons.inj h).1))
        omega

theorem isDigit_writeNat (n : Nat) : ∀ c ∈ writeNat n, isDigit c = true := by
  intro c hc
  rw [isDigit_eq]
  exact Nat.isDigit_of_mem_toDigits (by decide) (by decide) hc

theorem readNumber_writeNat (hn : n < UInt64.size) :
    readNumber loose negative (writeNat n) = afterWholeDigits loose negative n 0 [] := by
  have hdigits := isDigit_writeNat n
  have hvalue : Nat.ofDigitChars 10 (writeNat n) 0 = n := Nat.ofDigitChars_ten_toDigits
  cases hw : writeNat n with
  | nil => exact absurd hw Nat.toDigits_ne_nil
  | cons c ds =>
    rw [hw] at hdigits hvalue
    obtain ⟨hc, hds⟩ := List.forall_mem_cons.mp hdigits
    obtain ⟨htake, hdrop⟩ := takeWhile_digits hds noDigit_nil
    rw [List.append_nil] at htake hdrop
    rw [readNumber_cons, htake, hdrop, withWhole]
    by_cases h0 : c = '0'
    · subst h0
      have hz := toDigits_zero_cons hw
      subst hz
      cases hw
      rfl
    · rw [if_neg h0, if_pos hc, takeDigits_all hdigits (hvalue ▸ hn), hvalue]
      rfl

theorem ne_of_isDigit (hc : isDigit c = true) :
    ∀ d ∈ [' ', '\n', '\t', '\r', 'n', 't', 'f', '-', '"', '[', '\x7b'], c ≠ d := by
  have hall :
      [' ', '\n', '\t', '\r', 'n', 't', 'f', '-', '"', '[', '\x7b'].all (!isDigit ·) = true := by
    decide
  rintro d hd rfl
  simpa [hc] using List.all_eq_true.mp hall c hd

theorem readValue_digit (hc : isDigit c = true) (text : List Char) :
    readValue loose depth (c :: text) = readNumber loose false (c :: text) := by
  have hne := ne_of_isDigit hc
  simp only [List.forall_mem_cons] at hne
  have hblank : isBlank c = false := by simp [isBlank, hne]
  rw [readValue.eq_def, skipBlank_cons hblank]
  split <;> grind

theorem readValue_writeNat (hn : n < UInt64.size) :
    readValue loose depth (writeNat n) = .ok (.int n, []) := by
  have hread : readNumber loose false (writeNat n) = .ok (.int n, []) := readNumber_writeNat hn
  cases hw : writeNat n with
  | nil => exact absurd hw Nat.toDigits_ne_nil
  | cons c ds =>
    rw [hw] at hread
    rw [readValue_digit (isDigit_writeNat n c (hw ▸ List.mem_cons_self)), hread]

theorem afterWholeDigits_negative (h0 : n ≠ 0) (hn : n ≤ 0x8000000000000000) :
    afterWholeDigits loose true n 0 [] = .ok (.int (-n), []) := by
  simp [afterWholeDigits, h0, Nat.not_lt.mpr hn]

/-- The integers that are read as such. -/
theorem readValue_writeInt (hlow : -0x8000000000000000 ≤ i) (hhigh : i < UInt64.size) :
    readValue loose depth (writeInt i) = .ok (.int i, []) := by
  unfold writeInt
  split
  · have habs : i.natAbs ≤ 0x8000000000000000 ∧ i.natAbs ≠ 0 ∧ -(i.natAbs : Int) = i := by omega
    rw [readValue.eq_def]
    change readNumber loose true (writeNat i.natAbs) = _
    rw [readNumber_writeNat (Nat.lt_of_le_of_lt habs.1 (by decide)),
      afterWholeDigits_negative habs.2.1 habs.1, habs.2.2]
  · have habs : (i.natAbs : Int) = i := by omega
    rw [readValue_writeNat (by omega), habs]

end Rally.Text.Json
