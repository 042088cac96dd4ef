import Rally.Feed
import Rally.Session.Reply

/-!
What is sent to a player, and the reader of the feed that sends it.

What the match says is sent in order. Items that the reader missed are skipped. The end of the match
is followed by a close frame, and after that nothing is sent.
-/

namespace Rally

/-- A frame that is sent to a player. -/
inductive Frame where
  /-- What the match says to all. -/
  | notice (n : Notice)
  | reply (r : Reply)
  /-- The answer to a ping of the connection. -/
  | pong
  | close
deriving DecidableEq

/-- Whether a message says that the match is over. -/
def Notice.isEnd : Notice → Bool
  | .ended .. => true
  | _ => false

structure Writer where
  /-- The number of the item to go on with. -/
  position : Nat
  /-- Nothing is sent any more. -/
  done : Bool
deriving DecidableEq

namespace Writer
variable (w : Writer)

def stop : Writer := { w with done := true }

/-- Reads the feed once. -/
def turn (feed : Feed Notice) : Writer × List Frame :=
  if w.done then (w, [])
  else
    match feed.read w.position with
    | (.item n, position) =>
      if n.isEnd then (⟨position, true⟩, [.notice n, .close]) else (⟨position, false⟩, [.notice n])
    | (.lagged _, position) => (⟨position, false⟩, [])
    | (.empty, _) => (w, [])
    | (.closed, _) => (w.stop, [])

/-- Reads the feed a number of times. -/
def turns (feed : Feed Notice) : Nat → Writer → Writer × List Frame
  | 0, w => (w, [])
  | n + 1, w =>
    let (w, frames) := w.turn feed
    let (w, more) := turns feed n w
    (w, frames ++ more)

/-- Reads all that is left in the feed. -/
def drain (feed : Feed Notice) : Writer × List Frame := turns feed (feed.kept.length + 2) w

end Writer
end Rally
