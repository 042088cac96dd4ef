import Rally.Text.Digits

/-!
Identifiers of 128 bits, and their text: 32 hexadecimal digits in five groups.
-/

namespace Rally

structure Uuid where
  value : BitVec 128
deriving DecidableEq

namespace Uuid

/-- The number that hexadecimal digits write. -/
def hex? (cs : List Char) : Option Nat := Text.number? Text.hexDigit? 16 cs

/-- Reads five groups of digits with hyphens between them. -/
def ofHyphenated? (cs : List Char) : Option Uuid :=
  let hyphens := [8, 13, 18, 23]
  if cs.length = 36 ∧ hyphens.all (fun i => cs[i]? = some '-') then
    let digits := cs.zipIdx.filterMap fun (c, i) => if i ∈ hyphens then none else some c
    (hex? digits).map fun n => ⟨.ofNat 128 n⟩
  else none

/-- Reads an identifier: its digits alone, or with hyphens, and then also in braces or after
`urn:uuid:`, in either case. -/
def parse? (s : String) : Option Uuid :=
  let cs := s.toList
  if s.utf8ByteSize = 32 then (hex? cs).map fun n => ⟨.ofNat 128 n⟩
  else if s.utf8ByteSize = 38 ∧ cs.head? = some '\x7b' ∧ cs.getLast? = some '\x7d' then
    ofHyphenated? (cs.drop 1).dropLast
  else if s.utf8ByteSize = 45 ∧ (cs.take 9).map Char.toLower = "urn:uuid:".toList then
    ofHyphenated? (cs.drop 9)
  else if s.utf8ByteSize = 36 then ofHyphenated? cs
  else none

/-- The digits of an identifier, most significant first. -/
def digits (u : Uuid) : List Char :=
  (List.range 32).map fun i => Nat.digitChar (u.value.toNat / Nat.pow 16 (31 - i) % 16)

instance : ToString Uuid where
  toString u :=
    let ds := u.digits
    let group (start size : Nat) := String.ofList ((ds.drop start).take size)
    group 0 8 ++ "-" ++ group 8 4 ++ "-" ++ group 12 4 ++ "-" ++ group 16 4 ++ "-" ++ group 20 12

end Uuid
end Rally
