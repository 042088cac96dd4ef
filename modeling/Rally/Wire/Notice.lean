import Rally.Match.Notice
import Rally.Wire.Tagged

/-!
The JSON of the messages to players.
-/

namespace Rally.Notice

open Text
open Text.Json

/-- Writes a message. -/
def write : Notice → List Char
  | .joined id side scores kind tournament isFinal =>
    writeObject ([Wire.typeMember "game_joined", ("match_id", Wire.writeUuid id),
      ("side", writeString (Wire.sideName side)), ("scores", Wire.writeScores scores),
      ("match_type", writeString (Wire.kindName kind))] ++
      Wire.optionalMember "tournament_id" Wire.writeUuid tournament ++
      [("is_final", writeBool isFinal)])
  | .started time message =>
    writeObject [Wire.typeMember "game_started", ("timestamp", writeNat time),
      ("message", writeString message)]
  | .stopped message =>
    writeObject [Wire.typeMember "game_stopped", ("message", writeString message)]
  | .update time paddles ball =>
    writeObject [Wire.typeMember "game_update", ("timestamp", writeNat time),
      ("p1", Wire.writePaddle paddles.left), ("p2", Wire.writePaddle paddles.right),
      ("ball", Wire.writeBall ball)]
  | .score scorer scores =>
    writeObject [Wire.typeMember "score", ("scoring_side", writeString (Wire.sideName scorer)),
      ("scores", Wire.writeScores scores)]
  | .serve time direction =>
    writeObject [Wire.typeMember "generate_ball", ("timestamp", writeNat time),
      ("direction", Wire.writeVec direction)]
  | .ended winner scores reason kind tournament =>
    writeObject ([Wire.typeMember "game_ended", ("winner_id", Wire.writeUuid winner),
      ("scores", Wire.writeScores scores), ("reason", writeString (Wire.reasonName reason)),
      ("match_type", writeString (Wire.kindName kind))] ++
      Wire.optionalMember "tournament_id" Wire.writeUuid tournament)
  | .error code message =>
    writeObject
      [Wire.typeMember "error", ("code", writeString code), ("message", writeString message)]
  | .pong t serverTime =>
    writeObject [Wire.typeMember "pong", ("t", writeNat t), ("server_time", writeNat serverTime)]

/-- The kinds of messages. -/
inductive Tag where
  | joined
  | started
  | stopped
  | update
  | score
  | serve
  | ended
  | error
  | pong
deriving DecidableEq

def tag? (s : String) : Option Tag :=
  if s = "game_joined" then some .joined
  else if s = "game_started" then some .started
  else if s = "game_stopped" then some .stopped
  else if s = "game_update" then some .update
  else if s = "score" then some .score
  else if s = "generate_ball" then some .serve
  else if s = "game_ended" then some .ended
  else if s = "error" then some .error
  else if s = "pong" then some .pong
  else none

/-- The tournament of a match, which only an array has to name. -/
def tournament? (body : Json) (member : Option Json) : Option (Option Uuid) :=
  if member.isNone ∧ !Wire.isObject body then none else Wire.optional? Wire.uuid? member

/-- A message from the record of its tag. -/
def decode (t : Tag) (body : Json) : Option Notice := do
  match t with
  | .joined =>
    match ← Wire.record? ["match_id", "side", "scores", "match_type", "tournament_id", "is_final"]
        body with
    | [some id, some side, some scores, some kind, tournament, some isFinal] =>
      return .joined (← Wire.uuid? id) (← Wire.name? Wire.side? side) (← Wire.scores? scores)
        (← Wire.name? Wire.kind? kind) (← tournament? body tournament) (← Wire.bool? isFinal)
    | _ => none
  | .started =>
    match ← Wire.record? ["timestamp", "message"] body with
    | [some time, some message] => return .started (← Wire.nat? 64 time) (← Wire.string? message)
    | _ => none
  | .stopped =>
    match ← Wire.record? ["message"] body with
    | [some message] => return .stopped (← Wire.string? message)
    | _ => none
  | .update =>
    match ← Wire.record? ["timestamp", "p1", "p2", "ball"] body with
    | [some time, some left, some right, some ball] =>
      return .update (← Wire.nat? 64 time) ⟨← Wire.paddle? left, ← Wire.paddle? right⟩
        (← Wire.ball? ball)
    | _ => none
  | .score =>
    match ← Wire.record? ["scoring_side", "scores"] body with
    | [some side, some scores] =>
      return .score (← Wire.name? Wire.side? side) (← Wire.scores? scores)
    | _ => none
  | .serve =>
    match ← Wire.record? ["timestamp", "direction"] body with
    | [some time, some direction] => return .serve (← Wire.nat? 64 time) (← Wire.vec? direction)
    | _ => none
  | .ended =>
    match ← Wire.record? ["winner_id", "scores", "reason", "match_type", "tournament_id"] body with
    | [some winner, some scores, some reason, some kind, tournament] =>
      return .ended (← Wire.uuid? winner) (← Wire.scores? scores) (← Wire.name? Wire.reason? reason)
        (← Wire.name? Wire.kind? kind) (← tournament? body tournament)
    | _ => none
  | .error =>
    match ← Wire.record? ["code", "message"] body with
    | [some code, some message] => return .error (← Wire.string? code) (← Wire.string? message)
    | _ => none
  | .pong =>
    match ← Wire.record? ["t", "server_time"] body with
    | [some t, some serverTime] => return .pong (← Wire.nat? 64 t) (← Wire.nat? 64 serverTime)
    | _ => none

/-- Reads a message. -/
def read (text : List Char) : Except Unread Notice :=
  Wire.readMessage tag? decode text

end Rally.Notice
