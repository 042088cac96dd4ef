import Rally.Http.Coding

/-!
Requests and responses.
-/

namespace Rally.Http

structure Request where
  method : String
  /-- The path and the query. -/
  target : String
  /-- Names of headers are the same in either case. -/
  headers : List (String × String) := []
  body : String := ""
  /-- The connection can go over to another protocol, and the client asks for it. -/
  upgrade : Bool := false
deriving DecidableEq

structure Response where
  status : Nat
  /-- A body of JSON. Other bodies do not matter. -/
  body : Option (List Char) := none
  /-- How the body is sent. -/
  coding : Coding := .identity
  /-- The methods of the resource, if it does not know the one of the request. -/
  allow : Option String := none
  /-- Headers that say which pages may send requests. -/
  sharing : List (String × String) := []
deriving DecidableEq

namespace Request
variable (r : Request)

/-- The value of a header. -/
def header? (name : String) : Option String :=
  (r.headers.find? fun h => h.1.map Char.toLower = name).map (·.2)

/-- What comes before a fragment. -/
def resource : List Char := r.target.toList.takeWhile (· ≠ '#')

def path : String := String.ofList (r.resource.takeWhile (· ≠ '?'))

def query : List Char := (r.resource.dropWhile (· ≠ '?')).drop 1

end Request
end Rally.Http
