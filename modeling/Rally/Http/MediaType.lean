/-!
Media types, which say what kind of content a body is.
-/

namespace Rally.Http

structure MediaType where
  main : List Char
  /-- The subtype up to its last plus sign. -/
  sub : List Char
  /-- What follows the last plus sign. -/
  suffix : Option (List Char)
deriving DecidableEq

namespace MediaType

/-- Whether a character may be part of a name. -/
def isToken (c : Char) : Bool :=
  c.isAlphanum || c ∈ ['!', '#', '$', '%', '&', '\'', '+', '-', '.', '^', '_', '`', '|', '~']

/-- Where the reading of parameters stands. -/
inductive Place where
  /-- Before a name. -/
  | start
  | name
  /-- Before a value. -/
  | equals
  | value
  /-- After an opening quote. -/
  | opened
  | quoted
  /-- After a closing quote. -/
  | closed
  | fault
deriving DecidableEq

/-- Reads one character of the parameters. -/
def Place.step (place : Place) (c : Char) : Place :=
  let visible := ' ' ≤ c && c ≠ '\x7f'
  match place with
  | .start => if c = ' ' then .start else if isToken c then .name else .fault
  | .name => if c = '=' then .equals else if isToken c then .name else .fault
  | .equals => if c = '"' then .opened else if isToken c then .value else .fault
  | .value => if c = ';' then .start else if isToken c then .value else .fault
  | .opened => if visible then .quoted else .fault
  | .quoted => if c = '"' then .closed else if visible then .quoted else .fault
  | .closed => if c = ';' then .start else if c = ' ' then .closed else .fault
  | .fault => .fault

/-- Whether the parameters may end here. -/
def Place.complete : Place → Bool
  | .start => true
  | .equals => true
  | .value => true
  | .closed => true
  | _ => false

def parametersOk (text : List Char) : Bool := (text.foldl Place.step .start).complete

/-- Splits a subtype at its last plus sign, unless that comes first. -/
def splitSuffix (sub : List Char) : List Char × Option (List Char) :=
  let suffix := (sub.reverse.takeWhile (· ≠ '+')).reverse
  let front := sub.take (sub.length - suffix.length - 1)
  if front.isEmpty then (sub, none) else (front, some suffix)

/-- Reads a media type. Letters of either case are the same. -/
def parse? (text : List Char) : Option MediaType :=
  let main := text.takeWhile isToken
  match text.dropWhile isToken with
  | '/' :: rest =>
    let sub := rest.takeWhile isToken
    let parameters := rest.dropWhile isToken
    let ok := match parameters with
      | [] => true
      | c :: parameters => c = ';' && parametersOk parameters
    if main.isEmpty || sub.isEmpty && !parameters.isEmpty || !ok then none
    else
      let (front, suffix) := splitSuffix (sub.map Char.toLower)
      some ⟨main.map Char.toLower, front, suffix⟩
  | _ => none

/-- Whether the content is JSON. -/
def isJson (m : MediaType) : Bool :=
  m.main = "application".toList && (m.sub = "json".toList || m.suffix = some "json".toList)

end MediaType
end Rally.Http
