import Rally.Text.Blank
import Rally.Text.Digits

/-!
The names and values in the query of a request, as forms write them.
-/

namespace Rally.Http.Query

/-- A byte that is a character of its own. -/
def byte (c : Char) : UInt8 := c.toUInt8

/-- The value of a byte that is a hexadecimal digit. -/
def hexDigit? (b : UInt8) : Option Nat := Text.hexDigit? (Char.ofNat b.toNat)

/-- Replaces a percent sign and two hexadecimal digits by the byte that they write. -/
def percentDecode : List UInt8 → List UInt8
  | [] => []
  | a :: b :: c :: rest =>
    match hexDigit? b, hexDigit? c with
    | some m, some n =>
      if a = byte '%' then UInt8.ofNat (16 * m + n) :: percentDecode rest
      else a :: percentDecode (b :: c :: rest)
    | _, _ => a :: percentDecode (b :: c :: rest)
  | a :: rest => a :: percentDecode rest

/-- The text that bytes write. Bytes that write none give a replacement character. -/
def ofBytes (bytes : List UInt8) : String :=
  (String.fromUTF8? ⟨bytes.toArray⟩).getD "\ufffd"

/-- A name or a value. A plus sign stands for a blank. -/
def decode (text : List Char) : String :=
  let bytes := text.flatMap String.utf8EncodeChar
  ofBytes (percentDecode (bytes.map fun b => if b = byte '+' then byte ' ' else b))

/-- A name and its value, which is empty if there is no equals sign. -/
def pair (text : List Char) : String × String :=
  (decode (text.takeWhile (· ≠ '=')), decode ((text.dropWhile (· ≠ '=')).drop 1))

/-- The names and values of a query in order. -/
def pairs (query : List Char) : List (String × String) :=
  ((Text.splitOn '&' query).filter (!·.isEmpty)).map pair

/-- The value of a name that occurs once. -/
def value? (pairs : List (String × String)) (name : String) : Option String :=
  match pairs.filter (·.1 = name) with
  | [p] => some p.2
  | _ => none

end Rally.Http.Query
