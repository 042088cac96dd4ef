/-!
Single-precision scalars: selection, sign and total order.
-/

namespace Rally

/-- A single-precision number. Arithmetic rounds once per operation. -/
abbrev Scalar := Float32

namespace Scalar
variable (a b x lo hi : Scalar)

/-- Positive infinity. -/
def infinity : Scalar := 1 / 0

/-- The smaller of two numbers. A number beats a NaN, and of two equal numbers
the first is taken. -/
def least : Scalar :=
  if b < a then b else if a.isNaN then b else a

/-- The larger of two numbers. A number beats a NaN, and of two equal numbers the first is taken. -/
def greatest : Scalar :=
  if a < b then b else if a.isNaN then b else a

/-- `x` if it is positive and zero otherwise, also for a NaN. -/
def positivePart : Scalar :=
  if 0 < x then x else 0

/-- `x` moved into the range from `lo` to `hi`. A NaN stays. -/
def confine : Scalar :=
  if x < lo then lo else if hi < x then hi else x

/-- As `confine`, refused unless the bounds are in order. -/
def confine? : Option Scalar :=
  if lo ≤ hi then some (confine x lo hi) else none

/-- One with the sign of `x`. A NaN has none, and gives itself. -/
def sign : Scalar :=
  if x.isNaN then x else if x.toBits < 0x80000000 then 1 else -1

/-- Position in the total order of scalars, in which negative zero comes before zero. -/
def rank : Int :=
  let bits : Nat := x.toBits.toNat
  if bits < 0x80000000 then bits else 0x7fffffff - bits

/-- The next scalar below a positive one. -/
def pred : Scalar :=
  Float32.ofBits (x.toBits - 1)

/-- The scalar nearest to a natural number below 2^64. -/
def ofNat (n : Nat) : Scalar :=
  n.toUInt64.toFloat32

/-- The scalar equal to a small integer. -/
def ofInt8 (i : Int8) : Scalar :=
  if i < 0 then -(ofNat i.toInt.natAbs) else ofNat i.toInt.natAbs

/-- The member with the lowest rank, the first of several. -/
def argmin {α : Type} (key : α → Scalar) : List α → Option α
  | [] => none
  | a :: rest =>
    some (rest.foldl (fun best b => if rank (key b) < rank (key best) then b else best) a)

end Scalar
end Rally
