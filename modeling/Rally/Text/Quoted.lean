import Rally.Text.Hidden

/-!
Texts in quotes, in which every character can be seen.
-/

namespace Rally.Text.Quoted

/-- The letter that stands for a character after a backslash. -/
def shortName? (c : Char) : Option Char :=
  if c = '\x00' then some '0'
  else if c = '\t' then some 't'
  else if c = '\n' then some 'n'
  else if c = '\r' then some 'r'
  else if c = '"' then some '"'
  else if c = '\\' then some '\\'
  else none

/-- A character between quotes. Quotes, backslashes and hidden characters are escaped. -/
def writeChar (c : Char) : List Char :=
  match shortName? c with
  | some e => ['\\', e]
  | none =>
    if isHidden c then ['\\', 'u', '\x7b'] ++ Nat.toDigits 16 c.toNat ++ ['\x7d'] else [c]

/-- A text in quotes. -/
def write (text : List Char) : List Char := '"' :: text.flatMap writeChar ++ ['"']

end Rally.Text.Quoted
