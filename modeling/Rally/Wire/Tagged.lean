import Rally.Wire.Words

/-!
Reading a message, which says by its tag of which kind it is.

In an object the tag is the member `type`, which may stand anywhere. In an array it comes first. A
tag that is no known name is refused where it stands, before the rest is read.
-/

namespace Rally.Wire

open Text
open Text.Json
variable {τ α : Type}

/-- Reads a tag. -/
def readTag (tag? : String → Option τ) (text : List Char) : Except Unread (τ × List Char) :=
  match skipBlank text with
  | '"' :: rest => do
    let (name, rest) ← readString false rest
    match tag? name with
    | some t => .ok (t, rest)
    | none => .error .mismatch
  | text => .error (misfit text)

/-- What has been read of an object: its tag, and its other members, the last one first. -/
structure Opened (τ : Type) where
  tag : Option τ
  members : List (String × Json)

/-- Reads a member of an object with a tag. The tag may come only once. -/
def readTaggedMember (tag? : String → Option τ) (o : Opened τ) (text : List Char) :
    Except Unread (Opened τ × List Char) := do
  let (name, text) ← readKey false text
  if name = "type" then
    if o.tag.isSome then throw .mismatch
    let (_, text) ← readColon text
    let (t, text) ← readTag tag? text
    return ({ o with tag := some t }, text)
  else
    let (_, text) ← readColon text
    let (v, text) ← readValue false (maxDepth - 1) text
    return ({ o with members := (name, v) :: o.members }, text)

/-- Reads an item of an array. -/
def readItem (items : List Json) (text : List Char) : Except Unread (List Json × List Char) := do
  let (v, text) ← readValue false (maxDepth - 1) text
  return (v :: items, text)

/-- Reads the array form of a message after its bracket. -/
def readTaggedArray (tag? : String → Option τ) (text : List Char) :
    Except Unread ((τ × Json) × List Char) :=
  match skipBlank text with
  | [] => .error .incomplete
  | ']' :: _ => .error .mismatch
  | text => do
    let (t, text) ← readTag tag? text
    match skipBlank text with
    | [] => .error .incomplete
    | ']' :: rest => return ((t, .array []), rest)
    | ',' :: rest => do
      let (items, rest) ← sequence readItem ']' (rest.length + 1) [] rest
      return ((t, .array items.reverse), rest)
    | _ => .error .malformed

/-- Reads a message as its tag and the record that the tag gives meaning to. -/
def readTagged (tag? : String → Option τ) (text : List Char) :
    Except Unread ((τ × Json) × List Char) :=
  match skipBlank text with
  | '\x7b' :: rest => do
    let (o, rest) ← bracketed (readTaggedMember tag?) '\x7d' ⟨none, []⟩ rest
    match o.tag with
    | some t => return ((t, .object o.members.reverse), rest)
    | none => .error .mismatch
  | '[' :: rest => readTaggedArray tag? rest
  | text => .error (misfit text)

/-- Reads a text that holds one message and nothing else. -/
def readMessage (tag? : String → Option τ) (decode : τ → Json → Option α) (text : List Char) :
    Except Unread α := do
  let ((t, body), rest) ← readTagged tag? text
  match decode t body with
  | none => .error .mismatch
  | some a =>
    finished rest
    return a

end Rally.Wire
