import Rally.Match.Fixture
import Rally.Scalar.Shortest
import Rally.Scalar.Trig
import Rally.Snapshot
import Rally.Text.Json.Written

/-!
The words of messages: how values of a match are written in JSON, and read from it.

A record can be read from an object, in which its members come in any order, or from an array of its
members in order. A name can be read from a string, or from an object with the name as its only
member.
-/

namespace Rally.Wire

open Text (Json)

/-! Names. -/

def sideName : Side → String
  | .left => "p1"
  | .right => "p2"

def side? (s : String) : Option Side :=
  if s = "p1" then some .left else if s = "p2" then some .right else none

def kindName : MatchKind → String
  | .quick => "quick"
  | .tournament => "tournament"

def kind? (s : String) : Option MatchKind :=
  if s = "quick" then some .quick else if s = "tournament" then some .tournament else none

def reasonName : EndReason → String
  | .scoreLimit => "score_limit"
  | .disconnection => "disconnection"
  | .surrender => "surrender"
  | .timeout => "timeout"

def reason? (s : String) : Option EndReason :=
  if s = "score_limit" then some .scoreLimit
  else if s = "disconnection" then some .disconnection
  else if s = "surrender" then some .surrender
  else if s = "timeout" then some .timeout
  else none

/-! Writing. -/

open Text.Json

def writeUuid (u : Uuid) : List Char := writeString (toString u)

def writeScalar (x : Scalar) : List Char := x.write?.getD writeNull

def writeVec (v : Vec) : List Char := writeArray [writeScalar v.x, writeScalar v.y]

def writeScores (s : Scores) : List Char :=
  writeObject [("p1", writeNat s.left), ("p2", writeNat s.right)]

def writePaddle (p : PaddleView) : List Char :=
  writeObject [("pos", writeVec p.position), ("dir", writeInt p.direction.toInt)]

def writeBall (b : BallView) : List Char :=
  writeObject [("pos", writeVec b.position), ("dir", writeVec b.direction),
    ("speed", writeScalar b.speed), ("moving", writeBool b.moving)]

/-- The member that says of which kind a message is. -/
def typeMember (name : String) : String × List Char := ("type", writeString name)

/-- A member that is left out if there is no value. -/
def optionalMember {α : Type} (name : String) (write : α → List Char) :
    Option α → List (String × List Char)
  | some a => [(name, write a)]
  | none => []

/-! Reading. -/

/-- The members of a record with the given names, each if it is there. A name may come only once in
an object, and an array may not have more items. -/
def record? (names : List String) : Json → Option (List (Option Json))
  | .object members =>
    if names.all fun name => (members.filter (·.1 = name)).length ≤ 1 then
      some (names.map fun name => (members.find? (·.1 = name)).map (·.2))
    else none
  | .array items =>
    if items.length ≤ names.length then some (names.mapIdx fun i _ => items[i]?) else none
  | _ => none

/-- Whether a record is written as an object. Only there an optional member may be missing, unless
it has a default. -/
def isObject : Json → Bool
  | .object _ => true
  | _ => false

def isEmptyObject : Json → Bool
  | .object [] => true
  | _ => false

def string? : Json → Option String
  | .string s => some s
  | _ => none

def bool? : Json → Option Bool
  | .bool b => some b
  | _ => none

/-- An integer within bounds. -/
def int? (low high : Int) : Json → Option Int
  | .int n => if low ≤ n ∧ n ≤ high then some n else none
  | _ => none

def nat? (bits : Nat) (j : Json) : Option Nat :=
  (int? 0 (.ofNat (Nat.pow 2 bits - 1)) j).map Int.toNat

def direction? (j : Json) : Option Int8 := (int? (-128) 127 j).map Int8.ofInt

/-- A null stands for no value. -/
def option? {α : Type} (read : Json → Option α) : Json → Option (Option α)
  | .null => some none
  | j => (read j).map some

/-- A member that may be missing. -/
def optional? {α : Type} (read : Json → Option α) : Option Json → Option (Option α)
  | none => some none
  | some j => option? read j

/-- The scalar nearest to a number. -/
def scalar? : Json → Option Scalar
  | .int n => some (if n < 0 then -(Scalar.ofNat n.natAbs) else Scalar.ofNat n.natAbs)
  | .real x => some (Scalar.narrow x)
  | _ => none

def vec? : Json → Option Vec
  | .array [x, y] => do return ⟨← scalar? x, ← scalar? y⟩
  | _ => none

def uuid? (j : Json) : Option Uuid := do Uuid.parse? (← string? j)

/-- A name, as a string or as the only member of an object without a value. -/
def name? {α : Type} (read : String → Option α) : Json → Option α
  | .string s => read s
  | .object [(s, .null)] => read s
  | .object [(s, .object [])] => read s
  | _ => none

def scores? (j : Json) : Option Scores := do
  match ← record? ["p1", "p2"] j with
  | [some left, some right] => return ⟨← nat? 8 left, ← nat? 8 right⟩
  | _ => none

def paddle? (j : Json) : Option PaddleView := do
  match ← record? ["pos", "dir"] j with
  | [some position, some direction] => return ⟨← vec? position, ← direction? direction⟩
  | _ => none

def ball? (j : Json) : Option BallView := do
  match ← record? ["pos", "dir", "speed", "moving"] j with
  | [some position, some direction, some speed, some moving] =>
    return ⟨← vec? position, ← vec? direction, ← scalar? speed, ← bool? moving⟩
  | _ => none

end Rally.Wire
