import Rally.Hall
import Rally.Http.MediaType
import Rally.Http.Origins
import Rally.Http.Query
import Rally.Settings
import Rally.Wire.Arrangement

/-!
A server of matches: the resources through which matches are created and joined.
-/

namespace Rally

structure Server where
  origins : Http.Origins
  hall : Hall
  /-- Seconds since the process has been started. -/
  uptime : Nat := 0
deriving DecidableEq

/-- What a request asks for. -/
inductive Resource where
  /-- How the server is. -/
  | health
  /-- A place at a match. -/
  | socket
  | matches
deriving DecidableEq

namespace Resource

def ofPath? (path : String) : Option Resource :=
  if path = "/health" then some .health
  else if path = "/ws" then some .socket
  else if path = "/matches" then some .matches
  else none

/-- The methods that a resource knows. -/
def methods : Resource → List String
  | .health => ["GET", "HEAD"]
  | .socket => ["GET", "HEAD"]
  | .matches => ["POST"]

/-- The methods as a header lists them. -/
def allow (r : Resource) : String := ",".intercalate r.methods

end Resource

namespace Server

open Http (Response)
open Text.Json

variable (s : Server)

/-- A server with its settings. It cannot be built if every origin is listed. -/
def start? (settings : Settings) (now : Nat) : Option Server :=
  (Http.Origins.ofSetting? settings.origins).map fun origins =>
    { origins, hall := { rules := settings.rules, now } }

/-- A response that tells a fault. -/
def refuse (status : Nat) (message : String) : Response :=
  { status, body := some (writeObject [("error", writeString message)]) }

/-- The status of a denial. -/
def denialStatus : Denial → Nat
  | .alreadyExists _ => 409
  | .playerBusy _ => 409
  | .samePlayer => 400
  | .notFound _ => 404

def deny (d : Denial) : Response := refuse (denialStatus d) d.message

/-- How the server is. -/
def health : Response where
  status := 200
  body := some (writeObject [("status", writeString "ok"), ("uptime_secs", writeNat s.uptime),
    ("active_matches", writeNat s.hall.lobby.listings.length),
    ("players_in_matches", writeNat s.hall.lobby.seats.length)])

/-! Creating a match. -/

/-- Whether a request has a body of JSON. -/
def hasJson (r : Http.Request) : Bool :=
  match r.header? "content-type" with
  | none => false
  | some text =>
    text.toList.all (fun c => ' ' ≤ c && c ≤ '~') &&
      (Http.MediaType.parse? text.toList).any Http.MediaType.isJson

/-- The status of a body that is no arrangement. -/
def faultStatus : Text.Unread → Nat
  | .malformed => 400
  | .incomplete => 400
  | .mismatch => 422

/-- Creates a match. It gets the given identifier if the request does not name one. -/
def createMatch (r : Http.Request) (id : Uuid) (seed : UInt64) : Response × Server :=
  if !hasJson r then ({ status := 415 }, s)
  else
    match Arrangement.read r.body.toList with
    | .error fault => ({ status := faultStatus fault }, s)
    | .ok arrangement =>
      let fixture := arrangement.fixture id
      match s.hall.create fixture seed with
      | .error d => (deny d, s)
      | .ok hall =>
        ({ status := 201
           body := some (writeObject [("match_id", writeString (toString fixture.id)),
            ("ws_path", writeString ("/ws?match_id=" ++ toString fixture.id))]) },
          { s with hall })

/-! Joining a match. -/

/-- An identifier in a query. -/
def uuid? (pairs : List (String × String)) (name : String) : Option Uuid :=
  (Http.Query.value? pairs name).bind Uuid.parse?

/-- Connects a player to a match. -/
def connect (r : Http.Request) : Response × Server :=
  let pairs := Http.Query.pairs r.query
  match uuid? pairs "match_id", uuid? pairs "player_id" with
  | some id, some player =>
    match s.hall.lobby.lookup id with
    | .error d => (deny d, s)
    | .ok listing =>
      match listing.fixture.sideOf player with
      | none => (refuse 404 ("player " ++ toString player ++ " in match " ++ toString id), s)
      | some side =>
        if r.upgrade then ({ status := 101 }, { s with hall := s.hall.connect listing.room side })
        else (refuse 400 "Expected a WebSocket upgrade", s)
  | _, _ => ({ status := 400 }, s)

/-! Requests. -/

/-- Responds to a request that a resource knows the method of. -/
def serve (r : Http.Request) (id : Uuid) (seed : UInt64) : Resource → Response × Server
  | .health => (s.health, s)
  | .socket => s.connect r
  | .matches => s.createMatch r id seed

/-- Responds to a request for a resource, or for nothing. -/
def route (r : Http.Request) (id : Uuid) (seed : UInt64) : Response × Server :=
  match Resource.ofPath? r.path with
  | none => ({ status := 404 }, s)
  | some resource =>
    if r.method ∈ resource.methods then s.serve r id seed resource
    else ({ status := 405, allow := some resource.allow }, s)

/-- Responds to a question what may be sent. -/
def inform (r : Http.Request) : Response where
  status := 200
  allow := (Resource.ofPath? r.path).map (·.allow)
  sharing := Http.Origins.permissions

/-- Responds to a request. A match that it creates gets the given identifier, unless it names one,
and the given seed. -/
def respond (r : Http.Request) (id : Uuid) (seed : UInt64) : Response × Server :=
  let (response, next) :=
    if r.method = "OPTIONS" then (inform r, s) else s.route r id seed
  ({ response with
      body := if r.method = "HEAD" then none else response.body
      coding := Http.Coding.choose ((r.header? "accept-encoding").getD "").toList
      sharing := s.origins.headers (r.header? "origin") ++ response.sharing }, next)

end Server
end Rally
