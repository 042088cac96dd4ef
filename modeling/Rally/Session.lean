import Rally.Session.Writer
import Rally.Side

/-!
The connection of a player to a match.
-/

namespace Rally

structure Session where
  /-- The room in which the match is played. -/
  room : Nat
  side : Side
  /-- The number of the socket among those of its side. -/
  socket : Nat
  writer : Writer
  /-- The player is listened to. -/
  listening : Bool
  /-- What has been sent and not yet taken. -/
  frames : List Frame
deriving DecidableEq

namespace Session
variable (s : Session)

/-- Sends what is new in the feed of the match. -/
def pump (feed : Feed Notice) : Session :=
  let (writer, frames) := s.writer.drain feed
  { s with writer, frames := s.frames ++ frames }

/-- Sends a frame to this player alone. -/
def tell (frame : Frame) : Session :=
  if s.writer.done then s else { s with frames := s.frames ++ [frame] }

/-- Ends the connection. -/
def hangUp : Session := { s with writer := s.writer.stop, listening := false }

/-- Takes what has been sent. -/
def take : List Frame × Session := (s.frames, { s with frames := [] })

end Session
end Rally
