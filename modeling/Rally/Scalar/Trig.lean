import Rally.Scalar

/-!
Sine, cosine and arc tangent of scalars.

Sine and cosine reduce the angle by quarter turns in double precision, evaluate a polynomial there
and round once. The arc tangent stays in single precision. Every operation is a rounded one with a
definition, so that values can be computed in proofs.
-/

namespace Rally.Scalar

/-- `n / 2^k`, rounded to the nearest integer, a tie to the even one. -/
def roundShift (n k : Nat) : Nat :=
  let q := n >>> k
  let rest := n - q <<< k
  let half := (1 <<< k) / 2
  if k = 0 then n else if half < rest ∨ (rest = half ∧ q % 2 = 1) then q + 1 else q

/-- The same number in double precision. -/
def widen (x : Scalar) : Float :=
  let bits := x.toBits.toUInt64
  let negative : UInt64 := (bits >>> 31) <<< 63
  let exponent : UInt64 := (bits >>> 23) &&& 0xff
  let fraction : UInt64 := bits &&& 0x7fffff
  let low : UInt64 := fraction <<< 29
  if exponent = 0xff then Float.ofBits (negative ||| 0x7ff0000000000000 ||| low)
  else if exponent = 0 then
    let size := fraction.toFloat * Float.ofBits 0x36a0000000000000
    if negative = 0 then size else -size
  else Float.ofBits (negative ||| ((exponent + 896) <<< 52) ||| low)

/-- The nearest scalar, a tie to the even one. -/
def narrow (d : Float) : Scalar :=
  let bits := d.toBits.toNat
  let size := bits % 0x8000000000000000
  let exponent := size >>> 52
  let fraction := size % 0x10000000000000
  let result : Nat :=
    if exponent = 2047 then if fraction = 0 then 0x7f800000 else 0x7fc00000
    else if 1151 ≤ exponent then 0x7f800000
    else if 897 ≤ exponent then roundShift (size - 896 <<< 52) 29
    else if exponent < 860 then 0
    else roundShift (0x10000000000000 + fraction) (926 - exponent)
  Float32.ofBits (result + (bits >>> 63) <<< 31).toUInt32

/-- An angle as a number of quarter turns, of which only the last two bits count, and a rest. -/
structure Reduced where
  quarters : Nat
  rest : Float

/-- The bits of `4 / π`, at every eighth place. -/
def quarterTurnBits : Array UInt32 := #[
  0x000000a2, 0x0000a2f9, 0x00a2f983, 0xa2f9836e, 0xf9836e4e, 0x836e4e44, 0x6e4e4415, 0x4e441529,
  0x441529fc, 0x1529fc27, 0x29fc2757, 0xfc2757d1, 0x2757d1f5, 0x57d1f534, 0xd1f534dd, 0xf534ddc0,
  0x34ddc0db, 0xddc0db62, 0xc0db6295, 0xdb629599, 0x6295993c, 0x95993c43, 0x993c4390, 0x3c439041]

/-- A signed 64-bit word as a double. -/
def doubleOfWord (w : UInt64) : Float :=
  if w < 0x8000000000000000 then w.toFloat else -(0 - w).toFloat

/-- Reduction of an angle below 120 in magnitude. -/
def reduceSmall (x : Float) : Reduced :=
  let scaled := x * Float.ofBits 0x41645f306dc9c883
  let size := (scaled.abs.toUInt64.toNat : Int)
  let n := ((if scaled < 0 then -size else size) + 0x800000) / 0x1000000
  let turns := if n < 0 then -(n.natAbs.toUInt64.toFloat) else n.natAbs.toUInt64.toFloat
  ⟨(n % 4).toNat, x - turns * Float.ofBits 0x3ff921fb54442d18⟩

/-- Reduction of a large angle with the scalar bits `bits`, by a product of its significand with the
bits of `4 / π` that matter. -/
def reduceLarge (bits : UInt32) : Reduced :=
  let place := ((bits >>> 26) &&& 15).toNat
  let word (i : Nat) := quarterTurnBits.getD (place + i) 0
  let significand : UInt32 := ((bits &&& 0xffffff) ||| 0x800000) <<< ((bits >>> 23) &&& 7)
  let high := (significand * word 0).toUInt64
  let middle := significand.toUInt64 * (word 4).toUInt64
  let low := significand.toUInt64 * (word 8).toUInt64
  let total := ((low >>> 32) ||| (high <<< 32)) + middle
  let n := (total + 0x2000000000000000) >>> 62
  ⟨n.toNat, doubleOfWord (total - (n <<< 62)) * Float.ofBits 0x3c1921fb54442d18⟩

/-- The odd polynomial close to the sine on an eighth of a turn. -/
def sinePolynomial (x x2 : Float) : Float :=
  let x3 := x * x2
  let s1 := Float.ofBits 0x3f81107605230bc4 + x2 * Float.ofBits 0xbf2994eb3774cf24
  x + x3 * Float.ofBits 0xbfc555545995a603 + x3 * x2 * s1

/-- The even polynomial close to the cosine on an eighth of a turn. -/
def cosinePolynomial (x2 : Float) : Float :=
  let x4 := x2 * x2
  let c2 := Float.ofBits 0xbf56c087e89a359d + x2 * Float.ofBits 0x3ef99343027bf8c3
  let c1 := 1 + x2 * Float.ofBits 0xbfdffffffd0c621c
  c1 + x4 * Float.ofBits 0x3fa55553e1068f19 + x4 * x2 * c2

/-- Sine of a reduced angle, of which `quarters` has the parity and the sign. -/
def sineOfReduced (quarters : Nat) (rest : Float) : Float :=
  match quarters % 4 with
  | 0 => sinePolynomial rest (rest * rest)
  | 1 => cosinePolynomial (rest * rest)
  | 2 => sinePolynomial (-rest) (rest * rest)
  | _ => -(cosinePolynomial (rest * rest))

/-- The sine of an angle in radians. -/
def sin (x : Scalar) : Scalar :=
  let size := x.toBits &&& 0x7fffffff
  if size < 0x39800000 then x
  else if size < 0x3f400000 then narrow (sinePolynomial (widen x) (widen x * widen x))
  else if size < 0x42f00000 then
    let r := reduceSmall (widen x)
    narrow (sineOfReduced r.quarters r.rest)
  else if size < 0x7f800000 then
    let r := reduceLarge size
    let value := sineOfReduced r.quarters r.rest
    narrow (if x < 0 then -value else value)
  else 0 / 0

/-- The cosine of an angle in radians. -/
def cos (x : Scalar) : Scalar :=
  let size := x.toBits &&& 0x7fffffff
  if size < 0x39800000 then 1
  else if size < 0x3f400000 then narrow (cosinePolynomial (widen x * widen x))
  else if size < 0x42f00000 then
    let r := reduceSmall (widen x)
    narrow (sineOfReduced (r.quarters + 1) r.rest)
  else if size < 0x7f800000 then
    let r := reduceLarge size
    narrow (sineOfReduced (r.quarters + 1) r.rest)
  else 0 / 0

/-- The quotient of `x - arctan x` by `x`, for `x` near zero. -/
def arctanCorrection (x : Scalar) : Scalar :=
  let z := x * x
  let w := z * z
  let c (bits : UInt32) : Scalar := Float32.ofBits bits
  let odd := z * (c 0x3eaaaaab + w * (c 0x3e124925 + w * (c 0x3dba2e6e + w * (c 0x3d886b35 +
    w * (c 0x3d4bda59 + w * c 0x3c8569d7)))))
  let even := w * (c 0xbe4ccccd + w * (c 0xbde38e38 + w * (c 0xbd9d8795 + w * (c 0xbd6ef16b +
    w * c 0xbd15a221))))
  odd + even

/-- The sum of `arctan x` and of `high + low`, the arc tangent of a base. -/
def arctanFrom (high low x : Scalar) : Scalar :=
  high - ((x * arctanCorrection x - low) - x)

/-- The arc tangent of a non-negative number. -/
def arctan (x : Scalar) : Scalar :=
  let c (bits : UInt32) : Scalar := Float32.ofBits bits
  if x.toBits < 0x31000000 then x
  else if x.toBits < 0x3ee00000 then x - x * arctanCorrection x
  else if x.toBits < 0x3f300000 then
    arctanFrom (c 0x3eed6338) (c 0x31ac3769) ((2 * x - 1) / (2 + x))
  else if x.toBits < 0x3f980000 then arctanFrom (c 0x3f490fda) (c 0x33222168) ((x - 1) / (x + 1))
  else if x.toBits < 0x401c0000 then
    arctanFrom (c 0x3f7b985e) (c 0x33140fb4) ((x - c 0x3fc00000) / (1 + c 0x3fc00000 * x))
  else if x.toBits < 0x4c000000 then arctanFrom (c 0x3fc90fda) (c 0x33a22168) (-1 / x)
  else if x.toBits ≤ 0x7f800000 then c 0x3fc90fdb
  else x

/-- Half a turn, in radians. -/
def pi : Scalar := Float32.ofBits 0x40490fdb

/-- A quarter turn, in radians. -/
def halfPi : Scalar := Float32.ofBits 0x3fc90fdb

/-- An eighth of a turn, in radians. -/
def quarterPi : Scalar := Float32.ofBits 0x3f490fdb

/-- The angle from the x axis to the point `(x, y)`, in radians. -/
def angle (y x : Scalar) : Scalar :=
  let signed (size : Scalar) : Scalar := if y.toBits < 0x80000000 then size else -size
  let xSize := x.toBits &&& 0x7fffffff
  let ySize := y.toBits &&& 0x7fffffff
  let forward := x.toBits < 0x80000000
  let correction : Scalar := Float32.ofBits 0xb3bbbd2e
  if 0x7f800000 < xSize ∨ 0x7f800000 < ySize then x + y
  else if x.toBits = 0x3f800000 then signed (arctan y.abs)
  else if ySize = 0 then if forward then y else signed pi
  else if xSize = 0 then signed halfPi
  else if xSize = 0x7f800000 then
    if ySize = 0x7f800000 then signed (if forward then quarterPi else 3 * quarterPi)
    else signed (if forward then 0 else pi)
  else if ySize = 0x7f800000 then signed halfPi
  else
    let gap : Int := ((ySize.toNat : Int) - xSize.toNat) / 0x800000
    let z :=
      if 60 < gap then halfPi + Float32.ofBits 0x3f000000 * correction
      else if ¬ forward ∧ gap < -60 then 0
      else arctan (y / x).abs
    if forward then signed z
    else if y.toBits < 0x80000000 then pi - (z - correction) else (z - correction) - pi

end Rally.Scalar
