/-!
Numbers in texts.
-/

namespace Rally.Text

/-- The value of a digit. -/
def digit? (c : Char) : Option Nat :=
  if '0' ≤ c ∧ c ≤ '9' then some (c.toNat - 48) else none

/-- The value of a hexadecimal digit. -/
def hexDigit? (c : Char) : Option Nat :=
  if '0' ≤ c ∧ c ≤ '9' then some (c.toNat - 48)
  else if 'a' ≤ c ∧ c ≤ 'f' then some (c.toNat - 87)
  else if 'A' ≤ c ∧ c ≤ 'F' then some (c.toNat - 55)
  else none

/-- The number that digits of a base write. There has to be one. -/
def number? (digit? : Char → Option Nat) (base : Nat) (digits : List Char) : Option Nat :=
  if digits.isEmpty then none
  else digits.foldlM (fun n c => (digit? c).map (base * n + ·)) 0

/-- The number of at most `bits` bits that a text writes. It may have a plus sign. -/
def natural? (bits : Nat) (text : List Char) : Option Nat :=
  let digits := if text.head? = some '+' then text.drop 1 else text
  (number? digit? 10 digits).filter (· < Nat.pow 2 bits)

/-- The longest front of a text in digits, as a number, and the rest. -/
def leading? (digit? : Char → Option Nat) (base : Nat) (text : List Char) :
    Option ((List Char × Nat) × List Char) :=
  let digits := text.takeWhile fun c => (digit? c).isSome
  (number? digit? base digits).map fun n => ((digits, n), text.dropWhile fun c => (digit? c).isSome)

end Rally.Text
