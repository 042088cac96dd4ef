/-!
White space of Unicode, and texts without it at their ends.
-/

namespace Rally.Text

/-- Whether a character is white space. -/
def isSpace (c : Char) : Bool :=
  ('\t' ≤ c && c ≤ '\r') || c = ' ' || c = '\u0085' || c = '\u00a0' || c = '\u1680' ||
    ('\u2000' ≤ c && c ≤ '\u200a') || c = '\u2028' || c = '\u2029' || c = '\u202f' ||
    c = '\u205f' || c = '\u3000'

/-- Drops what passes a test at both ends. -/
def trimBy (drop : Char → Bool) (text : List Char) : List Char :=
  ((text.dropWhile drop).reverse.dropWhile drop).reverse

/-- Drops white space at both ends. -/
def trim (text : List Char) : List Char := trimBy isSpace text

/-- The pieces between separators. There is at least one. -/
def splitOn (separator : Char) : List Char → List (List Char)
  | [] => [[]]
  | c :: text =>
    match splitOn separator text with
    | [] => [[c]]
    | piece :: pieces => if c = separator then [] :: piece :: pieces else (c :: piece) :: pieces

end Rally.Text
