import Rally.Scalar
import Rally.Text.Digits

/-!
JSON texts and how they are read.

A text is refused at its first offending place, and the refusal says which kind of fault it is.
-/

namespace Rally.Text

/-- A JSON value. Numbers without point and exponent are integers if they fit in 64 bits. -/
inductive Json where
  | null
  | bool (b : Bool)
  | int (n : Int)
  | real (x : Float)
  | string (s : String)
  | array (items : List Json)
  | object (members : List (String × Json))

/-- Why a text cannot be read. -/
inductive Unread where
  /-- It is no JSON text. -/
  | malformed
  /-- It ends too early. -/
  | incomplete
  /-- It is a JSON text so far, but not of the right shape. -/
  | mismatch
deriving DecidableEq

/-- Reads something at the front of a text, and gives the rest. -/
abbrev Reader (α : Type) := List Char → Except Unread (α × List Char)

namespace Json
variable {α σ : Type}

def isBlank (c : Char) : Bool := c = ' ' || c = '\n' || c = '\t' || c = '\r'

def isDigit (c : Char) : Bool := '0' ≤ c && c ≤ '9'

def digit (c : Char) : Nat := c.toNat - '0'.toNat

def skipBlank (text : List Char) : List Char := text.dropWhile isBlank

/-- Reads the rest of a fixed word. -/
def readWord (value : α) : List Char → Reader α
  | [], text => .ok (value, text)
  | _ :: _, [] => .error .incomplete
  | w :: ws, c :: text => if c = w then readWord value ws text else .error .malformed

/-! Numbers. -/

/-- Takes digits as long as the number they write fits in 64 bits. -/
def takeDigits (n : Nat) : List Char → Nat × List Char
  | [] => (n, [])
  | c :: text =>
    if isDigit c && 10 * n + digit c < UInt64.size then takeDigits (10 * n + digit c) text
    else (n, c :: text)

/-- How many digits a text starts with. -/
def countDigits (text : List Char) : Nat := (text.takeWhile isDigit).length

def dropDigits (text : List Char) : List Char := text.dropWhile isDigit

/-- The double `x * 10^e`, for an exponent of at most 308 in magnitude. -/
def scaleOnce (x : Float) (e : Int) : Float :=
  let power := Float.ofScientific 1 false e.natAbs
  if 0 ≤ e then x * power else x / power

/-- The double `x * 10^e`, by steps of at most 308 in the exponent. It is refused if it is too
large. -/
def scale? : Nat → Float → Int → Option Float
  | 0, x, _ => some x
  | steps + 1, x, e =>
    if e.natAbs ≤ 308 then
      let y := scaleOnce x e
      if 0 ≤ e ∧ y.isInf then none else some y
    else if x == 0 then some x
    else if 0 ≤ e then none
    else scale? steps (x / Float.ofScientific 1 false 308) (e + 308)

/-- A number with a point or an exponent, from its digits. `loose` admits any size. -/
def readReal (loose negative : Bool) (n : Nat) (e : Int) (text : List Char) :
    Except Unread (Json × List Char) :=
  match scale? (e.natAbs / 308 + 2) n.toUInt64.toFloat e with
  | some x => .ok (.real (if negative then -x else x), text)
  | none => if loose then .ok (.real (1 / 0), text) else .error .malformed

/-- Reads the exponent of a number. An exponent of more than 31 bits gives zero or is too large. -/
def readExponent (loose negative : Bool) (n : Nat) (e : Int) (text : List Char) :
    Except Unread (Json × List Char) :=
  let down := text.head? = some '-'
  let text := if down ∨ text.head? = some '+' then text.drop 1 else text
  match text with
  | [] => .error .incomplete
  | c :: _ =>
    if isDigit c then
      let written := (text.takeWhile isDigit).foldl (fun k c => 10 * k + digit c) 0
      let rest := dropDigits text
      if 0x80000000 ≤ written then
        if n = 0 ∨ down ∨ loose then .ok (.real (if negative then -0 else 0), rest)
        else .error .malformed
      else readReal loose negative n (if down then e - written else e + written) rest
    else .error .malformed

/-- Reads what may follow the digits of a number with a point. -/
def afterDigits (loose negative : Bool) (n : Nat) (e : Int) (text : List Char) :
    Except Unread (Json × List Char) :=
  if text.head? = some 'e' ∨ text.head? = some 'E' then
    readExponent loose negative n e (text.drop 1)
  else readReal loose negative n e text

/-- Reads the digits after the point. Those that no longer fit do not count. -/
def readFraction (loose negative : Bool) (n : Nat) (e : Int) (text : List Char) :
    Except Unread (Json × List Char) :=
  let (m, rest) := takeDigits n text
  if countDigits text = 0 then .error (if text.isEmpty then .incomplete else .malformed)
  else afterDigits loose negative m (e - (text.length - rest.length)) (dropDigits rest)

/-- Reads what may follow the digits before the point. -/
def afterWhole (loose negative : Bool) (n : Nat) (text : List Char) :
    Except Unread (Json × List Char) :=
  let dropped := countDigits text
  let rest := dropDigits text
  if rest.head? = some '.' then readFraction loose negative n dropped (rest.drop 1)
  else if rest.head? = some 'e' ∨ rest.head? = some 'E' then
    readExponent loose negative n dropped (rest.drop 1)
  else if 0 < dropped then readReal loose negative n dropped rest
  else if !negative then .ok (.int n, rest)
  else if n = 0 ∨ 0x8000000000000000 < n then .ok (.real (-n.toUInt64.toFloat), rest)
  else .ok (.int (-n), rest)

/-- Reads a number without its sign. -/
def readNumber (loose negative : Bool) : Reader Json
  | [] => .error .incomplete
  | c :: text =>
    if c = '0' then
      if countDigits text = 0 then afterWhole loose negative 0 text else .error .malformed
    else if isDigit c then
      let (n, rest) := takeDigits 0 (c :: text)
      afterWhole loose negative n rest
    else .error .malformed

/-! Strings. -/

/-- The number that four hexadecimal digits write. -/
def hex4? (a b c d : Char) : Option Nat := do
  return 4096 * (← hexDigit? a) + 256 * (← hexDigit? b) + 16 * (← hexDigit? c) + (← hexDigit? d)

def isLeading (n : Nat) : Bool := 0xd800 ≤ n && n ≤ 0xdbff

def isTrailing (n : Nat) : Bool := 0xdc00 ≤ n && n ≤ 0xdfff

/-- The character that a leading and a trailing surrogate stand for. -/
def paired (high low : Nat) : Char := Char.ofNat (0x10000 + 1024 * (high - 0xd800) + (low - 0xdc00))

/-- The character after a backslash, unless it starts a number. -/
def escaped? : Char → Option Char
  | '"' => some '"'
  | '\\' => some '\\'
  | '/' => some '/'
  | 'b' => some '\x08'
  | 'f' => some '\x0c'
  | 'n' => some '\n'
  | 'r' => some '\r'
  | 't' => some '\t'
  | _ => none

/-- The fault of an escape with less than four characters left. Four bytes are enough to see that
they are no digits. -/
def shortEscape (text : List Char) : Unread :=
  if 4 ≤ (String.ofList text).utf8ByteSize then .malformed else .incomplete

/-- Puts a character in front of what has been read. -/
def prepend (c : Char) :
    Except Unread (List Char × List Char) → Except Unread (List Char × List Char)
  | .ok (cs, rest) => .ok (c :: cs, rest)
  | .error e => .error e

/-- Reads the characters of a string up to the closing quote. `loose` admits lone surrogates. -/
def readCharacters (loose : Bool) : Reader (List Char)
  | [] => .error .incomplete
  | '"' :: text => .ok ([], text)
  | '\\' :: 'u' :: a :: b :: c :: d :: text =>
    match hex4? a b c d with
    | none => .error .malformed
    | some n =>
      if isTrailing n && !loose then .error .malformed
      else if isLeading n && !loose then
        match text with
        | [] => .error .incomplete
        | '\\' :: [] => .error .incomplete
        | '\\' :: 'u' :: e :: f :: g :: h :: text =>
          match hex4? e f g h with
          | none => .error .malformed
          | some m =>
            if isTrailing m then prepend (paired n m) (readCharacters loose text)
            else .error .malformed
        | '\\' :: 'u' :: short => .error (shortEscape short)
        | _ => .error .malformed
      else prepend (Char.ofNat n) (readCharacters loose text)
  | '\\' :: 'u' :: short => .error (shortEscape short)
  | '\\' :: [] => .error .incomplete
  | '\\' :: c :: text =>
    match escaped? c with
    | some e => prepend e (readCharacters loose text)
    | none => .error .malformed
  | c :: text => if c < ' ' then .error .malformed else prepend c (readCharacters loose text)

/-- Reads a string after its opening quote. -/
def readString (loose : Bool) (text : List Char) : Except Unread (String × List Char) :=
  (readCharacters loose text).map fun (cs, rest) => (String.ofList cs, rest)

/-! Values. -/

/-- Reads a sequence with commas up to its closing bracket. Each step changes what has been read so
far. The number bounds the steps. -/
def sequence (step : σ → Reader σ) (close : Char) : Nat → σ → Reader σ
  | 0, _, _ => .error .incomplete
  | steps + 1, s, text => do
    let (s, text) ← step s text
    match skipBlank text with
    | [] => .error .incomplete
    | c :: rest =>
      if c = close then .ok (s, rest)
      else if c = ',' then sequence step close steps s rest
      else .error .malformed

/-- Reads a sequence that may be empty, after its opening bracket. -/
def bracketed (step : σ → Reader σ) (close : Char) (s : σ) (text : List Char) :
    Except Unread (σ × List Char) :=
  match skipBlank text with
  | [] => .error .incomplete
  | c :: rest =>
    if c = close then .ok (s, rest) else sequence step close (rest.length + 1) s (c :: rest)

/-- Reads the name of a member. -/
def readKey (loose : Bool) (text : List Char) : Except Unread (String × List Char) :=
  match skipBlank text with
  | [] => .error .incomplete
  | c :: rest => if c = '"' then readString loose rest else .error .malformed

/-- Reads the colon after the name of a member. -/
def readColon (text : List Char) : Except Unread (Unit × List Char) :=
  match skipBlank text with
  | [] => .error .incomplete
  | c :: rest => if c = ':' then .ok ((), rest) else .error .malformed

/-- Reads a member of an object. -/
def readMember (loose : Bool) (value : Reader α) (text : List Char) :
    Except Unread ((String × α) × List Char) := do
  let (name, text) ← readKey loose text
  let (_, text) ← readColon text
  let (v, text) ← value text
  return ((name, v), text)

/-- Reads a value with at most `depth` levels of brackets. `loose` admits lone surrogates and
numbers of any size. -/
def readValue (loose : Bool) (depth : Nat) (text : List Char) : Except Unread (Json × List Char) :=
  match skipBlank text with
  | [] => .error .incomplete
  | 'n' :: rest => readWord .null ['u', 'l', 'l'] rest
  | 't' :: rest => readWord (.bool true) ['r', 'u', 'e'] rest
  | 'f' :: rest => readWord (.bool false) ['a', 'l', 's', 'e'] rest
  | '-' :: rest => readNumber loose true rest
  | '"' :: rest => (readString loose rest).map fun (s, rest) => (.string s, rest)
  | '[' :: rest =>
    match depth with
    | 0 => .error .malformed
    | depth + 1 =>
      (bracketed
        (fun items text => (readValue loose depth text).map fun (v, text) => (v :: items, text))
        ']' [] rest).map fun (items, rest) => (.array items.reverse, rest)
  | '\x7b' :: rest =>
    match depth with
    | 0 => .error .malformed
    | depth + 1 =>
      (bracketed (fun members text =>
          (readMember loose (readValue loose depth) text).map fun (m, text) => (m :: members, text))
        '\x7d' [] rest).map fun (members, rest) => (.object members.reverse, rest)
  | c :: rest => if isDigit c then readNumber loose false (c :: rest) else .error .malformed
termination_by structural depth

/-- The fault of a value of the wrong kind. Brackets are not looked into. -/
def misfit (text : List Char) : Unread :=
  match skipBlank text with
  | [] => .incomplete
  | c :: rest =>
    if c = '[' ∨ c = '\x7b' then .mismatch
    else
      match readValue false 0 (c :: rest) with
      | .ok _ => .mismatch
      | .error e => e

/-- The levels of brackets in a value that is kept. -/
def maxDepth : Nat := 127

/-- Nothing but blanks may follow a value. -/
def finished (text : List Char) : Except Unread Unit :=
  if (skipBlank text).isEmpty then .ok () else .error .malformed

end Json
end Rally.Text
