import Rally.Http.Message
import Rally.Text.Blank

/-!
The origins whose pages may send requests.
-/

namespace Rally.Http

inductive Origins where
  /-- Pages of every origin may. -/
  | any
  | listed (origins : List String)
deriving DecidableEq

namespace Origins

/-- Whether a text may be the value of a header. -/
def isHeaderValue (text : List Char) : Bool := text.all fun c => (' ' ≤ c && c ≠ '\x7f') || c = '\t'

/-- The origins of a list with commas. Those that cannot stand in a header are left out. -/
def split (text : String) : List String :=
  (((Text.splitOn ',' text.toList).map Text.trim).filter isHeaderValue).map String.ofList

/-- The origins of a setting. A list may not hold a star. -/
def ofSetting? : Option String → Option Origins
  | none => some .any
  | some text => if (split text).contains "*" then none else some (.listed (split text))

/-- The header by which the origin of a request is let in. -/
def headers (o : Origins) (origin : Option String) : List (String × String) :=
  match o with
  | .any => [("access-control-allow-origin", "*")]
  | .listed origins =>
    match origin with
    | some origin =>
      if origins.contains origin then [("access-control-allow-origin", origin)] else []
    | none => []

/-- The headers that answer the question what may be sent. -/
def permissions : List (String × String) :=
  [("access-control-allow-methods", "GET,POST,OPTIONS"),
    ("access-control-allow-headers", "content-type")]

end Origins
end Rally.Http
