import Rally.Text.Json

/-!
How JSON is written: without blanks, members in a given order.
-/

namespace Rally.Text.Json

/-- The letter that stands for a control character after a backslash. -/
def shortName? (c : Char) : Option Char :=
  if c = '"' then some '"'
  else if c = '\\' then some '\\'
  else if c = '\x08' then some 'b'
  else if c = '\x0c' then some 'f'
  else if c = '\n' then some 'n'
  else if c = '\r' then some 'r'
  else if c = '\t' then some 't'
  else none

/-- A character of a string. Quotes, backslashes and control characters are escaped. -/
def writeChar (c : Char) : List Char :=
  match shortName? c with
  | some e => ['\\', e]
  | none =>
    if c < ' ' then
      ['\\', 'u', '0', '0', Nat.digitChar (c.toNat / 16), Nat.digitChar (c.toNat % 16)]
    else [c]

def writeString (s : String) : List Char :=
  '"' :: s.toList.flatMap writeChar ++ ['"']

def writeNat (n : Nat) : List Char := Nat.toDigits 10 n

def writeInt (n : Int) : List Char :=
  if n < 0 then '-' :: writeNat n.natAbs else writeNat n.natAbs

def writeBool (b : Bool) : List Char := (if b then "true" else "false").toList

def writeNull : List Char := "null".toList

def writeOption {α : Type} (write : α → List Char) : Option α → List Char
  | some a => write a
  | none => writeNull

def writeArray (items : List (List Char)) : List Char :=
  '[' :: [','].intercalate items ++ [']']

/-- A member of an object. -/
def writeMember (name : String) (value : List Char) : List Char :=
  writeString name ++ ':' :: value

/-- An object with its members in the given order. -/
def writeObject (members : List (String × List Char)) : List Char :=
  '\x7b' :: [','].intercalate (members.map fun m => writeMember m.1 m.2) ++ ['\x7d']

end Rally.Text.Json
