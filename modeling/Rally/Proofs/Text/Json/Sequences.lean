import Rally.Proofs.Text.Json.Local

/-! Sequences in brackets are read part by part, and so all of JSON is read locally. -/
namespace Rally.Text.Json

variable {α σ : Type} {read : Reader α} {step : σ → Reader σ} {a : α} {s t u : σ} {c close : Char}
  {text tail rest part blanks : List Char} {parts : List (List Char)} {loose : Bool} {m depth : Nat}

/-! A part that is all of its text but for blanks. -/

/-- A part can be read in front of what ends it. -/
theorem Local.extend (hr : Local read) (h : read part = .ok (a, blanks)) (hs : Stops (c :: rest)) :
    read (part ++ c :: rest) = .ok (a, blanks ++ c :: rest) := by
  obtain ⟨front, rfl, hfront⟩ := hr _ _ _ h
  rw [List.append_assoc]
  refine hfront _ ?_
  cases blanks with
  | nil => exact .inr hs
  | cons b blanks => exact .cons

/-- A part can be cut off from what ends it. -/
theorem Local.cut (hr : Local read) (h : read text = .ok (a, rest))
    (hs : skipBlank rest = c :: tail) :
    ∃ part blanks, text = part ++ c :: tail ∧ read part = .ok (a, blanks) ∧ Blank blanks := by
  obtain ⟨front, rfl, hfront⟩ := hr _ _ _ h
  obtain ⟨blanks, hb, hrest⟩ := exists_blanks rest
  rw [hs] at hrest
  refine ⟨front ++ blanks, blanks, by rw [hrest, List.append_assoc], hfront _ ?_, hb⟩
  cases blanks with
  | nil => exact .inr stops_nil
  | cons b blanks =>
    rw [hrest]
    exact .cons

/-! Sequences. -/

/-- The steps that read the parts of a sequence. -/
inductive Chain (step : σ → Reader σ) : σ → List (List Char) → σ → Prop where
  | nil (s : σ) : Chain step s [] s
  | cons {s t u : σ} {part blanks : List Char} {parts : List (List Char)}
      (h : step s part = .ok (t, blanks)) (hb : Blank blanks) (ht : Chain step t parts u) :
      Chain step s (part :: parts) u

/-- A bracket that closes a sequence. -/
def Closing (c : Char) : Prop := c = ']' ∨ c = '\x7d'

theorem Closing.not_isBlank (h : Closing c) : isBlank c = false := by
  rcases h with rfl | rfl <;> rfl

theorem Closing.ne_comma (h : Closing c) : c ≠ ',' := by
  rcases h with rfl | rfl <;> decide

theorem Closing.stops (h : Closing c) (rest : List Char) : Stops (c :: rest) := by
  rintro _ ⟨⟩
  rcases h with rfl | rfl <;> decide

theorem stops_comma (rest : List Char) : Stops (',' :: rest) := by
  rintro _ ⟨⟩
  decide

theorem sequence_succ (h : step s text = .ok (t, tail)) (hs : skipBlank tail = c :: rest) :
    sequence step close (m + 1) s text =
      if c = close then .ok (t, rest)
      else if c = ',' then sequence step close m t rest
      else .error .malformed := by
  simp only [sequence, h, bind, Except.bind, hs]

theorem skipBlank_blanks (hb : Blank blanks) (hc : isBlank c = false) :
    skipBlank (blanks ++ c :: rest) = c :: rest := by
  rw [skipBlank_append hb, skipBlank_cons hc]

theorem intercalate_append (part next : List Char) (parts : List (List Char)) (rest : List Char) :
    [','].intercalate (part :: next :: parts) ++ rest =
      part ++ ',' :: ([','].intercalate (next :: parts) ++ rest) := by
  simp [List.intercalate_cons_cons]

theorem append_intercalate (front part : List Char) (parts : List (List Char)) :
    [','].intercalate ((front ++ part) :: parts) = front ++ [','].intercalate (part :: parts) := by
  cases parts <;> simp [List.intercalate_cons_cons]

theorem sequence_of_chain (hstep : ∀ s, Local (step s)) (hc : Closing close)
    (h : Chain step s parts t) (hne : parts ≠ []) (hm : parts.length ≤ m) (rest : List Char) :
    sequence step close m s ([','].intercalate parts ++ close :: rest) = .ok (t, rest) := by
  induction h generalizing m with
  | nil => exact absurd rfl hne
  | @cons s t u part blanks parts h hb ht ih =>
    obtain _ | m := m
    · exact absurd hm (Nat.not_succ_le_zero _)
    cases parts with
    | nil =>
      cases ht
      rw [List.intercalate_singleton, sequence_succ ((hstep s).extend h (hc.stops rest))
        (skipBlank_blanks hb hc.not_isBlank), if_pos rfl]
    | cons next parts =>
      rw [intercalate_append, sequence_succ ((hstep s).extend h (stops_comma _))
        (skipBlank_blanks hb (by decide)), if_neg hc.ne_comma.symm, if_pos rfl]
      exact ih (List.cons_ne_nil _ _) (Nat.le_of_succ_le_succ hm)

theorem chain_of_sequence (hstep : ∀ s, Local (step s))
    (h : sequence step close m s text = .ok (t, rest)) :
    ∃ parts, parts ≠ [] ∧ text = [','].intercalate parts ++ close :: rest ∧
      Chain step s parts t := by
  induction m generalizing s text with
  | zero => cases h
  | succ m ih =>
    obtain ⟨⟨u, tail⟩, hu, htail⟩ := bind_eq_ok.mp h
    cases hs : skipBlank tail with
    | nil =>
      simp only [hs] at htail
      cases htail
    | cons c after =>
      simp only [hs] at htail
      obtain ⟨part, blanks, htext, hpart, hb⟩ := (hstep s).cut hu hs
      by_cases hc : c = close
      · rw [if_pos hc] at htail
        cases htail
        exact ⟨[part], List.cons_ne_nil _ _, by rw [htext, hc, List.intercalate_singleton],
          .cons hpart hb (.nil _)⟩
      · by_cases hcomma : c = ','
        · rw [if_neg hc, if_pos hcomma] at htail
          obtain ⟨parts, hne, hafter, hchain⟩ := ih htail
          refine ⟨part :: parts, List.cons_ne_nil _ _, ?_, .cons hpart hb hchain⟩
          rw [htext, hafter, hcomma, List.intercalate_cons_of_ne_nil hne]
          simp
        · rw [if_neg hc, if_neg hcomma] at htail
          cases htail

theorem length_le_intercalate (parts : List (List Char)) :
    parts.length ≤ ([','].intercalate parts).length + 1 := by
  induction parts with
  | nil => simp
  | cons part parts ih =>
    cases parts with
    | nil => simp
    | cons next parts =>
      rw [List.intercalate_cons_cons]
      simp only [List.length_cons, List.length_append, List.length_nil] at ih ⊢
      omega

/-- What follows the bracket of a sequence that may be empty. -/
def afterBracket (step : σ → Reader σ) (close : Char) (s : σ) : Reader σ
  | [] => .error .incomplete
  | c :: rest =>
    if c = close then .ok (s, rest) else sequence step close (rest.length + 1) s (c :: rest)

theorem local_bracketed (hstep : ∀ s, Local (step s)) (hc : Closing close) (s : σ) :
    Local (bracketed step close s) := by
  refine .skip (afterBracket step close s) nofun fun c _ => ?_
  refine .ite (fun _ => .pure s) fun hne => ?_
  intro text t rest h
  obtain ⟨parts, hparts, htext, hchain⟩ := chain_of_sequence hstep h
  cases hjoin : [','].intercalate parts with
  | nil =>
    rw [hjoin] at htext
    exact absurd (List.cons.inj htext).1 hne
  | cons d front =>
    rw [hjoin] at htext
    obtain ⟨rfl, rfl⟩ := List.cons.inj htext
    refine ⟨front ++ [close], by simp, fun rest' _ => ?_⟩
    have hlength := length_le_intercalate parts
    rw [hjoin, List.length_cons] at hlength
    have hfuel : parts.length ≤ (front ++ [close] ++ rest').length + 1 := by
      simp only [List.length_append, List.length_singleton]
      omega
    have hread := sequence_of_chain hstep hc hchain hparts hfuel rest'
    rw [hjoin] at hread
    simpa using hread

/-! Members. -/

/-- What follows a mark. -/
def afterMark (mark : Char) (next : Reader α) : Reader α
  | [] => .error .incomplete
  | c :: rest => if c = mark then next rest else .error .malformed

theorem local_mark (mark : Char) (hr : Local read) :
    Local fun text => afterMark mark read (skipBlank text) :=
  .skip (afterMark mark read) nofun fun _ _ => .ite (fun _ => hr) (fun _ => .error _)

theorem local_readKey : Local (readKey loose) := local_mark '"' local_readString

theorem local_readColon : Local readColon := local_mark ':' (.pure ())

theorem local_readMember (hr : Local read) : Local (readMember loose read) :=
  local_readKey.bind fun name => local_readColon.bind fun _ => hr.bind fun v => .pure (name, v)

/-! Values. -/

theorem readValue_skip (text : List Char) :
    readValue loose depth (skipBlank text) = readValue loose depth text := by
  rw [readValue.eq_def, readValue.eq_def loose depth text, skipBlank_skipBlank]

theorem fronted_readValue {v : Json} {read : Reader Json} (hs : skipBlank text = c :: tail)
    (hread : ∀ u, readValue loose depth (c :: u) = read u) (hr : Local read)
    (h : read tail = .ok (v, rest)) : Fronted (readValue loose depth) v text rest := by
  obtain ⟨front, rfl, hfront⟩ := hr _ _ _ h
  obtain ⟨blanks, hb, htext⟩ := exists_blanks text
  rw [hs] at htext
  refine ⟨blanks ++ c :: front, by simp [htext], fun rest' hrest => ?_⟩
  rw [← readValue_skip, List.append_assoc, List.cons_append,
    skipBlank_blanks hb (not_isBlank_of_skipBlank hs), hread]
  exact hfront rest' hrest

/-- Reads the items of an array after its bracket. -/
def readItems (loose : Bool) (depth : Nat) : Reader Json := fun text =>
  (bracketed (fun items text => (readValue loose depth text).map fun x => (x.1 :: items, x.2))
    ']' [] text).map fun x => (.array x.1.reverse, x.2)

/-- Reads the members of an object after its bracket. -/
def readMembers (loose : Bool) (depth : Nat) : Reader Json := fun text =>
  (bracketed (fun members text =>
      (readMember loose (readValue loose depth) text).map fun x => (x.1 :: members, x.2))
    '\x7d' [] text).map fun x => (.object x.1.reverse, x.2)

theorem local_readItems (hr : Local (readValue loose depth)) : Local (readItems loose depth) :=
  (local_bracketed (fun items => hr.map (· :: items)) (.inl rfl) []).map
    fun items => Json.array items.reverse

theorem local_readMembers (hr : Local (readValue loose depth)) :
    Local (readMembers loose depth) := by
  have hm : Local (readMember loose (readValue loose depth)) := local_readMember hr
  exact (local_bracketed (fun members => hm.map (· :: members)) (.inr rfl) []).map
    fun members => Json.object members.reverse

/-- A value is read locally if all values with fewer brackets are. -/
theorem local_readValue_of (hd : ∀ d, depth = d + 1 → Local (readValue loose d)) :
    Local (readValue loose depth) := by
  intro text v rest h
  rw [readValue.eq_def] at h
  split at h
  case h_1 => cases h
  case h_2 hs =>
    exact fronted_readValue hs (fun _ => by rw [readValue.eq_def]; rfl) (local_readWord _ _) h
  case h_3 hs =>
    exact fronted_readValue hs (fun _ => by rw [readValue.eq_def]; rfl) (local_readWord _ _) h
  case h_4 hs =>
    exact fronted_readValue hs (fun _ => by rw [readValue.eq_def]; rfl) (local_readWord _ _) h
  case h_5 hs =>
    exact fronted_readValue hs (fun _ => by rw [readValue.eq_def]; rfl)
      local_readNumber h
  case h_6 hs =>
    exact fronted_readValue hs (fun _ => by rw [readValue.eq_def]; rfl) (local_readString.map _) h
  case h_7 hs =>
    cases depth with
    | zero => cases h
    | succ d =>
      exact fronted_readValue hs (fun _ => by rw [readValue.eq_def]; rfl)
        (local_readItems (hd d rfl)) h
  case h_8 hs =>
    cases depth with
    | zero => cases h
    | succ d =>
      exact fronted_readValue hs (fun _ => by rw [readValue.eq_def]; rfl)
        (local_readMembers (hd d rfl)) h
  case h_9 c tail hn ht hf hm hq ha ho hs =>
    refine fronted_readValue hs (fun u => ?_) (.ite (fun _ => local_readNumber_cons c)
      fun _ => .error fun _ => .malformed) h
    rw [readValue.eq_def, skipBlank_cons (not_isBlank_of_skipBlank hs)]
    split <;> grind

theorem local_readValue : Local (readValue loose depth) := by
  induction depth with
  | zero => exact local_readValue_of nofun
  | succ depth ih =>
    refine local_readValue_of fun d hd => ?_
    rw [← Nat.succ_inj.mp hd]
    exact ih

end Rally.Text.Json
