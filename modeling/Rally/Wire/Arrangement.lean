import Rally.Wire.Words

/-!
How a match is arranged: who plays, and what for.

An arrangement is read member by member, so that the first fault in its text counts. Members that it
does not know are skipped, and what follows it is not looked at.
-/

namespace Rally

structure Arrangement where
  /-- Without one the match gets a new identifier. -/
  id : Option Uuid
  players : Sides Uuid
  kind : MatchKind
  tournament : Option Uuid
  isFinal : Bool
deriving DecidableEq

/-- The fixture that an arrangement makes. -/
def Arrangement.fixture (a : Arrangement) (id : Uuid) : Fixture where
  id := a.id.getD id
  players := a.players
  kind := a.kind
  tournament := a.tournament
  isFinal := a.isFinal

namespace Arrangement

open Text
open Text.Json

/-! Values. -/

def readUuid (text : List Char) : Except Unread (Uuid × List Char) :=
  match skipBlank text with
  | '"' :: rest => do
    let (s, rest) ← readString false rest
    match Uuid.parse? s with
    | some u => return (u, rest)
    | none => .error .mismatch
  | text => .error (misfit text)

def readBool (text : List Char) : Except Unread (Bool × List Char) :=
  match skipBlank text with
  | 't' :: rest => readWord true ['r', 'u', 'e'] rest
  | 'f' :: rest => readWord false ['a', 'l', 's', 'e'] rest
  | text => .error (misfit text)

def readNull (text : List Char) : Except Unread (Unit × List Char) :=
  match skipBlank text with
  | 'n' :: rest => readWord () ['u', 'l', 'l'] rest
  | text => .error (misfit text)

/-- Reads a value that may be null. -/
def readOption {α : Type} (read : Reader α) (text : List Char) :
    Except Unread (Option α × List Char) :=
  match skipBlank text with
  | 'n' :: rest => readWord none ['u', 'l', 'l'] rest
  | text => do
    let (a, rest) ← read text
    return (some a, rest)

/-- Reads the name of a kind of matches. -/
def readKindName (text : List Char) : Except Unread (MatchKind × List Char) :=
  match skipBlank text with
  | '"' :: rest => do
    let (name, rest) ← readString false rest
    match Wire.kind? name with
    | some kind => return (kind, rest)
    | none => .error .mismatch
  | text => .error (misfit text)

/-- Reads a kind of matches: its name, or an object with the name as its only member. Nothing else
is admitted even as a value. -/
def readKind (text : List Char) : Except Unread (MatchKind × List Char) :=
  match skipBlank text with
  | [] => .error .incomplete
  | '"' :: rest => readKindName ('"' :: rest)
  | '\x7b' :: rest => do
    let (kind, rest) ← readKindName rest
    let (_, rest) ← readColon rest
    let (_, rest) ← readNull rest
    match skipBlank rest with
    | [] => .error .incomplete
    | '\x7d' :: rest => return (kind, rest)
    | _ => .error .malformed
  | _ => .error .malformed

/-! Members. -/

/-- A member of an arrangement. -/
inductive Field where
  | id
  | left
  | right
  | kind
  | tournament
  | isFinal
deriving DecidableEq

def field? (s : String) : Option Field :=
  if s = "match_id" then some .id
  else if s = "player1_id" then some .left
  else if s = "player2_id" then some .right
  else if s = "match_type" then some .kind
  else if s = "tournament_id" then some .tournament
  else if s = "is_final" then some .isFinal
  else none

/-- The members in the order of an array. -/
def fields : List Field := [.id, .left, .right, .kind, .tournament, .isFinal]

/-- What has been read of an arrangement. -/
structure Draft where
  id : Option (Option Uuid) := none
  left : Option Uuid := none
  right : Option Uuid := none
  kind : Option MatchKind := none
  tournament : Option (Option Uuid) := none
  isFinal : Option Bool := none
deriving DecidableEq

namespace Draft
variable (d : Draft)

/-- Whether a member has been read. -/
def has : Field → Bool
  | .id => d.id.isSome
  | .left => d.left.isSome
  | .right => d.right.isSome
  | .kind => d.kind.isSome
  | .tournament => d.tournament.isSome
  | .isFinal => d.isFinal.isSome

/-- Reads the value of a member. -/
def readField (f : Field) (text : List Char) : Except Unread (Draft × List Char) :=
  match f with
  | .id => (readOption readUuid text).map fun (v, rest) => ({ d with id := some v }, rest)
  | .left => (readUuid text).map fun (v, rest) => ({ d with left := some v }, rest)
  | .right => (readUuid text).map fun (v, rest) => ({ d with right := some v }, rest)
  | .kind => (readKind text).map fun (v, rest) => ({ d with kind := some v }, rest)
  | .tournament =>
    (readOption readUuid text).map fun (v, rest) => ({ d with tournament := some v }, rest)
  | .isFinal => (readBool text).map fun (v, rest) => ({ d with isFinal := some v }, rest)

/-- Reads a member of an object. A known one may come only once. -/
def readMember (text : List Char) : Except Unread (Draft × List Char) := do
  let (name, text) ← readKey false text
  match field? name with
  | some f =>
    if d.has f then throw .mismatch
    let (_, text) ← readColon text
    d.readField f text
  | none =>
    let (_, text) ← readColon text
    let (_, text) ← readValue true text.length text
    return (d, text)

/-- The arrangement, if the players are known. -/
def finish : Except Unread Arrangement :=
  match d.left, d.right with
  | some left, some right =>
    .ok {
      id := d.id.join
      players := ⟨left, right⟩
      kind := d.kind.getD .quick
      tournament := d.tournament.join
      isFinal := d.isFinal.getD false }
  | _, _ => .error .mismatch

end Draft

/-- Reads an item of an array, which is the next one of the given members. -/
def readItem (s : Draft × List Field) (text : List Char) :
    Except Unread ((Draft × List Field) × List Char) :=
  match s with
  | (_, []) => .error .malformed
  | (d, f :: rest) => (d.readField f text).map fun (d, text) => ((d, rest), text)

/-- Reads an arrangement. -/
def read (text : List Char) : Except Unread Arrangement :=
  match skipBlank text with
  | '\x7b' :: rest => do
    let (d, _) ← bracketed Draft.readMember '\x7d' {} rest
    d.finish
  | '[' :: rest => do
    let ((d, _), _) ← bracketed readItem ']' ({}, fields) rest
    d.finish
  | text => .error (misfit text)

end Arrangement
end Rally
