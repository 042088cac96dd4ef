import Rally.Text.Blank
import Rally.Text.Digits

/-!
Codings of a body, and which of them a client takes.

A client lists codings with weights up to one. Without a weight a coding has the weight one, and
with the weight zero it is not taken. What cannot be read is passed over.
-/

namespace Rally.Http

inductive Coding where
  /-- The body as it is. -/
  | identity
  | gzip
deriving DecidableEq

namespace Coding

/-- The coding with a name, in either case. -/
def ofName? (name : List Char) : Option Coding :=
  let name := String.ofList (name.map Char.toLower)
  if name = "identity" then some .identity
  else if name = "gzip" ∨ name = "x-gzip" then some .gzip
  else none

/-- Reads a weight, in thousandths. It has at most three digits after the point. -/
def weight? (text : List Char) : Option Nat :=
  match text with
  | q :: '=' :: unit :: rest => do
    if q.toLower ≠ 'q' then none
    let whole ← if unit = '0' then some 0 else if unit = '1' then some 1000 else none
    match rest with
    | [] => some whole
    | point :: digits =>
      if point ≠ '.' ∨ 3 < digits.length then none
      let part ← Text.number? Text.digit? 10 (digits.rightpad 3 '0')
      if whole + part ≤ 1000 then some (whole + part) else none
  | _ => none

/-- Reads a coding and its weight. -/
def offer? (text : List Char) : Option (Coding × Nat) := do
  let coding ← ofName? (Text.trim (text.takeWhile (· ≠ ';')))
  match text.dropWhile (· ≠ ';') with
  | [] => some (coding, 1000)
  | _ :: parameter => (weight? (Text.trim parameter)).map fun weight => (coding, weight)

/-- The codings that a client lists, with their weights. -/
def offers (text : List Char) : List (Coding × Nat) := (Text.splitOn ',' text).filterMap offer?

/-- The greatest weight that a coding has in a list. -/
def best (coding : Coding) (offers : List (Coding × Nat)) : Nat :=
  ((offers.filter (·.1 = coding)).map (·.2)).foldl max 0

/-- The coding for a client. A body is compressed if nothing else is better. -/
def choose (text : List Char) : Coding :=
  let offers := offers text
  if 0 < best .gzip offers ∧ best .identity offers ≤ best .gzip offers then .gzip else .identity

end Coding
end Rally.Http
