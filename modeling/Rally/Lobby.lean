import Rally.Match.Fixture

/-!
The matches that can be found, by their identifiers and by their players.

A player can be in one match only. A match is forgotten when somebody removes it, and when it ends.
-/

namespace Rally

/-- Why a match cannot be created or found. -/
inductive Denial where
  | alreadyExists (id : Uuid)
  | playerBusy (player : Uuid)
  | samePlayer
  | notFound (id : Uuid)
deriving DecidableEq

/-- The wording of a denial. -/
def Denial.message : Denial → String
  | .alreadyExists id => "match " ++ toString id ++ " already exists"
  | .playerBusy player => "player " ++ toString player ++ " is already in a match"
  | .samePlayer => "a match needs two distinct players"
  | .notFound id => "match " ++ toString id ++ " not found"

/-- A match that can be found. -/
structure Listing where
  /-- The room in which it is played. -/
  room : Nat
  fixture : Fixture
deriving DecidableEq

/-- A player, and the match that the player is in. -/
structure Seat where
  player : Uuid
  game : Uuid
deriving DecidableEq

structure Lobby where
  listings : List Listing := []
  seats : List Seat := []
deriving DecidableEq

namespace Lobby
variable (l : Lobby)

/-- The match with an identifier. -/
def find? (id : Uuid) : Option Listing := l.listings.find? (·.fixture.id = id)

/-- The match that a player is in. -/
def seatOf? (player : Uuid) : Option Seat := l.seats.find? (·.player = player)

/-- Gives a player a seat in a match. -/
def seat (player game : Uuid) : Lobby := { l with seats := l.seats ++ [⟨player, game⟩] }

/-- Takes the seat of a player away. -/
def unseat (player : Uuid) : Lobby := { l with seats := l.seats.filter (·.player ≠ player) }

/-- Claims seats in a match for players, one after another, when some have been claimed already. At
the first player who has a seat, the claimed ones are given up again. -/
def claim (game : Uuid) (claimed : List Uuid) : List Uuid → Lobby → Except Denial Unit × Lobby
  | [], l => (.ok (), l)
  | player :: players, l =>
    if (l.seatOf? player).isSome then (.error (.playerBusy player), claimed.foldl unseat l)
    else claim game (claimed ++ [player]) players (l.seat player game)

/-- Lists a new match, which is played in a given room. -/
def create (fixture : Fixture) (room : Nat) : Except Denial Unit × Lobby :=
  if fixture.players.left = fixture.players.right then (.error .samePlayer, l)
  else if (l.find? fixture.id).isSome then (.error (.alreadyExists fixture.id), l)
  else
    match l.claim fixture.id [] [fixture.players.left, fixture.players.right] with
    | (.error denial, rest) => (.error denial, rest)
    | (.ok (), claimed) =>
      (.ok (), { claimed with listings := claimed.listings ++ [⟨room, fixture⟩] })

/-- Takes the seat of a player away, if it is in the given match. -/
def release (player game : Uuid) : Lobby :=
  { l with seats := l.seats.filter (· ≠ ⟨player, game⟩) }

/-- Forgets the match with an identifier, and releases its players. -/
def remove (id : Uuid) : Option Listing × Lobby :=
  match l.find? id with
  | none => (none, l)
  | some listing =>
    let rest := { l with listings := l.listings.filter (·.fixture.id ≠ id) }
    (some listing,
      (rest.release listing.fixture.players.left id).release listing.fixture.players.right id)

/-- The match with an identifier, which has to be there. -/
def lookup (id : Uuid) : Except Denial Listing :=
  match l.find? id with
  | some listing => .ok listing
  | none => .error (.notFound id)

end Lobby
end Rally
