import Rally.Wire.Tagged

/-!
What players ask of a match, and its JSON.
-/

namespace Rally

/-- A message from a player. -/
inductive Request where
  /-- The paddle is to move this way. Without a time it is the time of receipt that counts. -/
  | input (direction : Int8) (time : Option Nat)
  | surrender
  | ping (t : Nat)
deriving DecidableEq

namespace Request

open Text
open Text.Json

/-- The kinds of requests. -/
inductive Tag where
  | input
  | surrender
  | ping
deriving DecidableEq

def tag? (s : String) : Option Tag :=
  if s = "input" then some .input
  else if s = "surrender" then some .surrender
  else if s = "ping" then some .ping
  else none

/-- A request from the record of its tag. -/
def decode (t : Tag) (body : Json) : Option Request := do
  match t with
  | .input =>
    match ← Wire.record? ["direction", "timestamp"] body with
    | [some direction, time] =>
      return .input (← Wire.direction? direction) (← Wire.optional? (Wire.nat? 64) time)
    | _ => none
  | .surrender =>
    let _ ← Wire.record? [] body
    return .surrender
  | .ping =>
    match ← Wire.record? ["t"] body with
    | [some t] => return .ping (← Wire.nat? 64 t)
    | _ => none

/-- Reads a request. -/
def read (text : List Char) : Except Unread Request :=
  Wire.readMessage tag? decode text

/-- Writes a request. -/
def write : Request → List Char
  | .input direction time =>
    writeObject [Wire.typeMember "input", ("direction", writeInt direction.toInt),
      ("timestamp", writeOption writeNat time)]
  | .surrender => writeObject [Wire.typeMember "surrender"]
  | .ping t => writeObject [Wire.typeMember "ping", ("t", writeNat t)]

end Request
end Rally
