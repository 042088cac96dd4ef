import Rally.Lobby
import Rally.Room
import Rally.Session
import Rally.Wire.Request

/-!
A hall of rooms, in which matches are created and found, and to which players connect.

All rooms share one clock. What a match says is passed on at once to the feed of its room and from
there to the players, and what it announces to the rest of the system. When a match ends, the match
that is listed under its identifier is forgotten.
-/

namespace Rally

/-- A room, and the feed of what its match says. -/
structure Hosted where
  room : Room
  feed : Feed Notice
deriving DecidableEq

structure Hall where
  /-- The rules of every match. -/
  rules : Rules
  now : Nat
  lobby : Lobby := {}
  /-- All rooms, in the order in which they were opened. -/
  rooms : List Hosted := []
  sessions : List Session := []
  /-- What has been announced and not yet taken. -/
  bulletins : List Bulletin := []
deriving DecidableEq

namespace Hall
variable (h : Hall)

/-- How many items the feed of a room keeps. -/
def feedCapacity : Nat := 256

/-- The room with a number. -/
def room? (i : Nat) : Option Room := h.rooms[i]?.map (·.room)

/-- Passes on what the match in a room has said, and puts the room in its place. -/
def deliver (i : Nat) (room : Room) (feed : Feed Notice) : Hall :=
  let ((notices, bulletins), room) := room.take
  let feed := feed.sendAll notices
  { h with
    rooms := h.rooms.set i ⟨room, feed⟩
    sessions := h.sessions.map fun s => if s.room = i then s.pump feed else s
    bulletins := h.bulletins ++ bulletins }

/-- Lets something happen in a room now. The end of its match clears the listing. -/
def change (i : Nat) (f : Room → Room) : Hall :=
  match h.rooms[i]? with
  | none => h
  | some hosted =>
    let room := f { hosted.room with now := h.now }
    let next := h.deliver i room hosted.feed
    if room.game.ended ∧ !hosted.room.isOver then
      { next with lobby := (next.lobby.remove room.game.fixture.id).2 }
    else next

/-- The next instant at which something happens by itself. -/
def next? : Option Nat := (h.rooms.filterMap (·.room.next?)).min?

/-- Everything that is due at an instant happens, room by room. -/
def pulse (t : Nat) : Hall :=
  (List.range h.rooms.length).foldl
    (fun h i => h.change i fun r => if r.next?.any (· ≤ t) then r.pulse t else r)
    { h with now := t }

/-- Lets time pass up to an instant, for at most `n` pulses. -/
def pass (upto : Nat) : Nat → Hall → Hall
  | 0, h => { h with now := upto }
  | n + 1, h =>
    match h.next? with
    | some t => if t ≤ upto then pass upto n (h.pulse t) else { h with now := upto }
    | none => { h with now := upto }

/-- Lets time pass up to an instant. There are at most two pulses in every millisecond. -/
def elapse (upto : Nat) : Hall := h.pass upto (2 * (upto + 1 - h.now))

/-! Matches. -/

/-- Creates a match, and opens a room for it. A denial leaves the lobby as it was. -/
def create (fixture : Fixture) (seed : UInt64) : Except Denial Hall :=
  match h.lobby.create fixture h.rooms.length with
  | (.error denial, _) => .error denial
  | (.ok (), lobby) =>
    let hosted : Hosted := ⟨.start fixture h.rules seed h.now, .withCapacity feedCapacity⟩
    .ok ({ h with lobby, rooms := h.rooms ++ [hosted] }.elapse h.now)

/-- Forgets a match, which goes on in its room. -/
def remove (id : Uuid) : Option Listing × Hall :=
  let (listing, lobby) := h.lobby.remove id
  (listing, { h with lobby })

/-- Sends a command to the match in a room. It arrives as long as the match goes on. -/
def send (i : Nat) (c : Command) : Bool × Hall :=
  match h.room? i with
  | none => (false, h)
  | some room => (!room.isOver, (h.change i (·.handle c)).elapse h.now)

/-- Opens a socket of a side, without a player behind it. -/
def openSocket (i : Nat) (side : Side) : Nat × Hall :=
  match h.room? i with
  | none => (0, h)
  | some room => ((room.openSocket side).1, h.change i fun r => (r.openSocket side).2)

/-! Players. -/

/-- Changes a session. -/
def modifySession (i : Nat) (f : Session → Session) : Hall :=
  { h with sessions := h.sessions.modify i f }

/-- Connects a player to a side of a match. It hears everything from its own arrival on. -/
def connect (room : Nat) (side : Side) : Hall :=
  match h.rooms[room]? with
  | none => h
  | some hosted =>
    let (socket, h) := h.openSocket room side
    let session : Session := ⟨room, side, socket, ⟨hosted.feed.sent, false⟩, true, []⟩
    let (delivered, h) := { h with sessions := h.sessions ++ [session] }.send room
      (.connected side socket)
    if delivered then h else h.modifySession (h.sessions.length - 1) Session.hangUp

/-- The connection of a player ends, and the match is told so. -/
def hangUp (i : Nat) : Hall :=
  match h.sessions[i]? with
  | none => h
  | some s =>
    if s.listening then
      ((h.modifySession i Session.hangUp).send s.room (.disconnected s.side s.socket)).2
    else h

/-- Records an input of a player. -/
def record (i : Nat) (s : Session) (direction : Int8) (time : Option Nat) : Hall :=
  match h.room? s.room with
  | none => h
  | some room =>
    match { room with now := h.now }.record s.side direction time with
    | .ok room => h.change s.room fun _ => room
    | .error reason => h.modifySession i (·.tell (.reply (.refused reason)))

/-- Responds to a message of a player. -/
def hear (i : Nat) (text : List Char) : Hall :=
  match h.sessions[i]? with
  | none => h
  | some s =>
    if !s.listening then h
    else
      match Request.read text with
      | .error fault => h.modifySession i (·.tell (.reply (.unreadable fault)))
      | .ok (.input direction time) => h.record i s direction time
      | .ok (.ping t) => h.modifySession i (·.tell (.reply (.pong t h.now)))
      | .ok .surrender =>
        let (delivered, h) := h.send s.room (.surrender s.side)
        if delivered then h else h.hangUp i

/-- Responds to a ping of a connection. -/
def ping (i : Nat) : Hall :=
  h.modifySession i fun s => if s.listening then s.tell .pong else s

/-! What has been said. -/

/-- Takes the announcements. -/
def takeBulletins : List Bulletin × Hall := (h.bulletins, { h with bulletins := [] })

/-- Takes what has been sent to each player. -/
def takeFrames : List (List Frame) × Hall :=
  (h.sessions.map (·.frames), { h with sessions := h.sessions.map fun s => s.take.2 })

/-- Whether a fault has put an end to a room. -/
def broken : Bool := h.rooms.any (·.room.broken)

end Hall
end Rally
