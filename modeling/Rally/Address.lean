import Rally.Text.Digits

/-!
Addresses to listen on: a host of the internet protocol, in its fourth or sixth version, and a port.
-/

namespace Rally

inductive Address where
  /-- Four bytes, and the port. -/
  | v4 (bytes : List Nat) (port : Nat)
  /-- Eight groups of 16 bits, the scope, which is 0 if there is none, and the port. -/
  | v6 (groups : List Nat) (scope port : Nat)
deriving DecidableEq

namespace Address

open Text

/-! Reading. -/

/-- Reads a given character. -/
def given? (c : Char) : List Char → Option (List Char)
  | [] => none
  | d :: text => if c = d then some text else none

/-- Reads a number of at most `bits` bits. -/
def readNumber? (bits : Nat) (text : List Char) : Option (Nat × List Char) := do
  let ((_, n), rest) ← leading? digit? 10 text
  if n < Nat.pow 2 bits then some (n, rest) else none

/-- Reads a byte. It has no leading zeros. -/
def readByte? (text : List Char) : Option (Nat × List Char) := do
  let ((digits, n), rest) ← leading? digit? 10 text
  if n < 256 ∧ (digits.length = 1 ∨ digits.head? ≠ some '0') then some (n, rest) else none

/-- Reads four bytes with points between them. -/
def readBytes? (text : List Char) : Option (List Nat × List Char) := do
  let (a, text) ← readByte? text
  let (b, text) ← readByte? (← given? '.' text)
  let (c, text) ← readByte? (← given? '.' text)
  let (d, text) ← readByte? (← given? '.' text)
  return ([a, b, c, d], text)

/-- Reads a group of at most four hexadecimal digits. -/
def readGroup? (text : List Char) : Option (Nat × List Char) := do
  let ((digits, n), rest) ← leading? hexDigit? 16 text
  if digits.length ≤ 4 then some (n, rest) else none

/-- Some groups, whether the last two were written as bytes, and what follows them. -/
structure Groups where
  values : List Nat
  bytes : Bool
  rest : List Char

/-- The two groups that four bytes make. -/
def groupsOfBytes (bytes : List Nat) : List Nat :=
  match bytes with
  | [a, b, c, d] => [256 * a + b, 256 * c + d]
  | _ => []

/-- Reads up to `limit` groups with colons between them, as many as there are. -/
def readGroups (first : Bool) : Nat → List Char → Groups
  | 0, text => ⟨[], false, text⟩
  | limit + 1, text =>
    match if first then some text else given? ':' text with
    | none => ⟨[], false, text⟩
    | some body =>
      match if 1 ≤ limit then readBytes? body else none with
      | some (bytes, rest) => ⟨groupsOfBytes bytes, true, rest⟩
      | none =>
        match readGroup? body with
        | none => ⟨[], false, text⟩
        | some (n, rest) =>
          let more := readGroups false limit rest
          ⟨n :: more.values, more.bytes, more.rest⟩

/-- Reads eight groups. Two colons stand for at least one group of zeros. -/
def readAllGroups? (text : List Char) : Option (List Nat × List Char) := do
  let head := readGroups true 8 text
  if head.values.length = 8 then return (head.values, head.rest)
  if head.bytes then none
  let rest ← given? ':' (← given? ':' head.rest)
  let tail := readGroups true (7 - head.values.length) rest
  let zeros := List.replicate (8 - head.values.length - tail.values.length) 0
  return (head.values ++ zeros ++ tail.values, tail.rest)

/-- Reads a port after its colon. -/
def readPort? (text : List Char) : Option (Nat × List Char) := do
  readNumber? 16 (← given? ':' text)

/-- Reads a scope after its percent sign. -/
def readScope? (text : List Char) : Option (Nat × List Char) := do
  readNumber? 32 (← given? '%' text)

def readV4? (text : List Char) : Option (Address × List Char) := do
  let (bytes, text) ← readBytes? text
  let (port, text) ← readPort? text
  return (.v4 bytes port, text)

def readV6? (text : List Char) : Option (Address × List Char) := do
  let (groups, text) ← readAllGroups? (← given? '[' text)
  let (scope, text) := (readScope? text).getD (0, text)
  let (port, text) ← readPort? (← given? ']' text)
  return (.v6 groups scope port, text)

/-- The address that a text writes. -/
def parse? (text : List Char) : Option Address := do
  let (address, rest) ← (readV4? text).or (readV6? text)
  if rest.isEmpty then some address else none

/-! Writing. -/

def writeBytes (bytes : List Nat) : List Char :=
  ['.'].intercalate (bytes.map (Nat.toDigits 10))

def writeGroups (groups : List Nat) : List Char :=
  [':'].intercalate (groups.map (Nat.toDigits 16))

/-- How many zeros a list starts with. -/
def zerosOf (groups : List Nat) : Nat := (groups.takeWhile (· = 0)).length

/-- The start and the length of the longest run of zeros, the first of several. -/
def longestZeros (groups : List Nat) : Nat × Nat :=
  (List.range groups.length).foldl
    (fun best i => if best.2 < zerosOf (groups.drop i) then (i, zerosOf (groups.drop i)) else best)
    (0, 0)

/-- Eight groups. The longest run of zeros is left out, if it is longer than one. A mapped address
of the fourth version shows its bytes. -/
def writeAllGroups (groups : List Nat) : List Char :=
  match groups with
  | [0, 0, 0, 0, 0, 0xffff, a, b] =>
    "::ffff:".toList ++ writeBytes [a / 256, a % 256, b / 256, b % 256]
  | _ =>
    let (start, size) := longestZeros groups
    if 1 < size then
      writeGroups (groups.take start) ++ [':', ':'] ++ writeGroups (groups.drop (start + size))
    else writeGroups groups

/-- The text of an address. -/
def write : Address → List Char
  | .v4 bytes port => writeBytes bytes ++ ':' :: Nat.toDigits 10 port
  | .v6 groups scope port =>
    '[' :: writeAllGroups groups ++ (if scope = 0 then [] else '%' :: Nat.toDigits 10 scope) ++
      ']' :: ':' :: Nat.toDigits 10 port

end Address
end Rally
