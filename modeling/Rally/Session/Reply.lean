import Rally.InputLog
import Rally.Match.Notice
import Rally.Text.Json

/-!
What a player is told about its own messages.
-/

namespace Rally

inductive Reply where
  /-- A message cannot be read. -/
  | unreadable (fault : Text.Unread)
  /-- An input has not been recorded. -/
  | refused (reason : Refusal)
  /-- The answer to a ping: its own time, and the time on the clock of the match. -/
  | pong (t serverTime : Nat)
deriving DecidableEq

/-- The wording of a fault in a message. -/
def Text.Unread.message : Text.Unread → String
  | .malformed => "the message is no JSON text"
  | .incomplete => "the message ends too early"
  | .mismatch => "the message is not of a known form"

/-- The message that a reply is sent as. -/
def Reply.notice : Reply → Notice
  | .unreadable fault => .error "bad_message" fault.message
  | .refused reason => .error "input_rejected" reason.message
  | .pong t serverTime => .pong t serverTime

end Rally
