import Rally.Scalar

/-!
The shortest decimal that reads back to a scalar.

The numbers that round to a scalar form an interval. Of the decimals in it those on the coarsest
grid have the fewest digits, and of those the nearest one is taken. If a point of a grid lies in the
interval, so does one of the two neighbors of the scalar on that grid.
-/

namespace Rally.Scalar

/-- The number `digits * 10^exponent`. -/
structure Decimal where
  digits : Nat
  exponent : Int
deriving DecidableEq

/-- A scalar as `4 * significand * 2^exponent`, with the interval of the
numbers that round to it. -/
structure Neighborhood where
  value : Nat
  low : Nat
  high : Nat
  exponent : Int
  /-- Whether the ends of the interval belong to it. -/
  closed : Bool
deriving DecidableEq

/-- The neighborhood of a finite scalar, without its sign. -/
def neighborhood (x : Scalar) : Neighborhood :=
  let bits : Nat := x.toBits.toNat % 0x80000000
  let field : Nat := bits / 0x800000
  let fraction := bits % 0x800000
  let significand := if field = 0 then fraction else 0x800000 + fraction
  { value := 4 * significand
    low := 4 * significand - (if fraction = 0 ∧ 1 < field then 1 else 2)
    high := 4 * significand + 2
    exponent := ((max field 1 : Nat) : Int) - 152
    closed := significand % 2 = 0 }

namespace Neighborhood
variable (n : Neighborhood)

/-- A number `m * 2^exponent` in units of the grid `10^e`, as the quotient of two integers. -/
def numerator (e : Int) (m : Nat) : Nat :=
  m * Nat.pow 2 n.exponent.toNat * Nat.pow 10 (-e).toNat

def denominator (e : Int) : Nat := Nat.pow 2 (-n.exponent).toNat * Nat.pow 10 e.toNat

/-- Whether the point `k` of the grid `10^e` lies in the interval. -/
def holds (e : Int) (k : Nat) : Bool :=
  let point := k * n.denominator e
  if n.closed then n.numerator e n.low ≤ point && point ≤ n.numerator e n.high
  else n.numerator e n.low < point && point < n.numerator e n.high

/-- The neighbor of the value on the grid `10^e` that lies in the interval, the nearer one of two,
or the even one if they are equally near. -/
def onGrid? (e : Int) : Option Nat :=
  let k := n.numerator e n.value / n.denominator e
  let below := n.numerator e n.value - k * n.denominator e
  let above := (k + 1) * n.denominator e - n.numerator e n.value
  match n.holds e k, n.holds e (k + 1) with
  | true, true => some (if below < above ∨ (below = above ∧ k % 2 = 0) then k else k + 1)
  | true, false => some k
  | false, true => some (k + 1)
  | false, false => none

/-- The first hit on the grids from `10^e` down. -/
def search : Nat → Int → Decimal
  | 0, e => ⟨0, e⟩
  | steps + 1, e =>
    match n.onGrid? e with
    | some k => ⟨k, e⟩
    | none => search steps (e - 1)

end Neighborhood

/-- The shortest decimal of a finite scalar, without its sign. -/
def shortest (x : Scalar) : Decimal :=
  if x = 0 ∨ x = -0 then ⟨0, 0⟩ else x.neighborhood.search 100 39

/-- How the decimals of scalars are written. -/
structure DecimalStyle where
  /-- Exponents from which on and up to which the digits are written out. -/
  plainFrom : Int
  plainTo : Int

/-- The digits are written out from a millionth up to below ten trillion. -/
def wireStyle : DecimalStyle := ⟨-6, 12⟩

/-- A decimal with its point. At least one digit stands on each side, unless an exponent follows. -/
def Decimal.write (style : DecimalStyle) (d : Decimal) : List Char :=
  let digits := Nat.toDigits 10 d.digits
  let top : Int := d.exponent + digits.length - 1
  if style.plainFrom ≤ top ∧ top ≤ style.plainTo then
    if 0 ≤ d.exponent then digits ++ List.replicate d.exponent.toNat '0' ++ ['.', '0']
    else if 0 ≤ top then digits.take (top.toNat + 1) ++ '.' :: digits.drop (top.toNat + 1)
    else '0' :: '.' :: List.replicate (-top - 1).toNat '0' ++ digits
  else
    let rest := digits.drop 1
    digits.take 1 ++ (if rest.isEmpty then [] else '.' :: rest) ++
      'e' :: (if top < 0 then '-' else '+') :: Nat.toDigits 10 top.natAbs

/-- The text of a scalar in a message. There is none for infinities and NaNs. -/
def write? (x : Scalar) : Option (List Char) :=
  if x.isFinite then
    let size := x.shortest.write wireStyle
    some (if x.toBits < 0x80000000 then size else '-' :: size)
  else none

end Rally.Scalar
