import Rally.Arena

/-!
The random choices of a match: the words of a ChaCha key stream of eight rounds, taken in order.
-/

namespace Rally

/-- A row of the ChaCha state, one word for each column. -/
structure Row where
  a : UInt32
  b : UInt32
  c : UInt32
  d : UInt32
deriving DecidableEq

namespace Row
variable (r s : Row)

/-- Applies a function column by column. -/
def zip (f : UInt32 → UInt32 → UInt32) : Row := ⟨f r.a s.a, f r.b s.b, f r.c s.c, f r.d s.d⟩

/-- Moves each word one column to the left. -/
def shift : Row := ⟨r.b, r.c, r.d, r.a⟩

end Row

/-- The word with its bits rotated to the left. -/
def rotateLeft (w k : UInt32) : UInt32 := (w <<< k) ||| (w >>> ((32 : UInt32) - k))

/-- The ChaCha state. -/
structure ChaCha where
  constants : Row
  keyLow : Row
  keyHigh : Row
  counter : Row
deriving DecidableEq

namespace ChaCha
variable (s : ChaCha)

/-- A quarter round on every column. -/
def columns : ChaCha :=
  let mix (k : UInt32) (r t : Row) : Row := r.zip t fun x y => rotateLeft (x ^^^ y) k
  let a := s.constants.zip s.keyLow (· + ·)
  let d := mix 16 s.counter a
  let c := s.keyHigh.zip d (· + ·)
  let b := mix 12 s.keyLow c
  let a := a.zip b (· + ·)
  let d := mix 8 d a
  let c := c.zip d (· + ·)
  let b := mix 7 b c
  ⟨a, b, c, d⟩

/-- A quarter round on every column, then on every diagonal. -/
def doubleRound : ChaCha :=
  let t := s.columns
  let u := ChaCha.columns
    ⟨t.constants, t.keyLow.shift, t.keyHigh.shift.shift, t.counter.shift.shift.shift⟩
  ⟨u.constants, u.keyLow.shift.shift.shift, u.keyHigh.shift.shift, u.counter.shift⟩

/-- The block of the key stream that starts from this state. -/
def block : ChaCha :=
  let t := s.doubleRound.doubleRound.doubleRound.doubleRound
  ⟨s.constants.zip t.constants (· + ·), s.keyLow.zip t.keyLow (· + ·),
   s.keyHigh.zip t.keyHigh (· + ·), s.counter.zip t.counter (· + ·)⟩

def words : List UInt32 :=
  [s.constants, s.keyLow, s.keyHigh, s.counter].flatMap fun r => [r.a, r.b, r.c, r.d]

end ChaCha

/-- A source of random choices: a key, and how many words of its stream are used up. -/
structure Dice where
  keyLow : Row
  keyHigh : Row
  drawn : Nat
deriving DecidableEq

namespace Dice
variable (d : Dice)

/-- The next state of the seed, of which a word of the key is made. -/
def nextSeed (s : UInt64) : UInt64 := s * 6364136223846793005 + 11634580027462260723

/-- The word of the key made of a state of the seed. -/
def keyWord (s : UInt64) : UInt32 :=
  let folded := (((s >>> 18) ^^^ s) >>> 27).toUInt32
  rotateLeft folded ((32 : UInt32) - (s >>> 59).toUInt32)

/-- The dice of a seed. -/
def ofSeed (seed : UInt64) : Dice :=
  let word (n : Nat) : UInt32 := keyWord ((n + 1).repeat nextSeed seed)
  ⟨⟨word 0, word 1, word 2, word 3⟩, ⟨word 4, word 5, word 6, word 7⟩, 0⟩

/-- A word of the key stream. -/
def word (n : Nat) : UInt32 :=
  let counter := (n / 16).toUInt64
  let start : ChaCha :=
    ⟨⟨0x61707865, 0x3320646e, 0x79622d32, 0x6b206574⟩, d.keyLow, d.keyHigh,
     ⟨counter.toUInt32, (counter >>> 32).toUInt32, 0, 0⟩⟩
  start.block.words.getD (n % 16) 0

/-- The dice after some more words have been used up. -/
def skip (n : Nat) : Dice := { d with drawn := d.drawn + n }

/-- A side, each with the same chance. It takes two words, of which the second decides. -/
def side : Side × Dice :=
  (if d.word (d.drawn + 1) < 0x80000000 then .left else .right, d.skip 2)

/-- The largest fraction that a word can give. -/
def topFraction : Scalar := 1 - Float32.ofBits 0x34000000

/-- The largest factor from `scale` down that keeps `topFraction` within the range. -/
def fitScale (low high : Scalar) : Nat → Scalar → Scalar
  | 0, scale => scale
  | n + 1, scale =>
    if high < scale * topFraction + low then fitScale low high n scale.pred else scale

/-- A number from `low` to `high`, refused if the width of that range is not finite. -/
def between (low high : Scalar) : Except Fault (Scalar × Dice) :=
  let scale := (high - low) / topFraction
  if scale.isFinite then
    let scale := fitScale low high scale.toBits.toNat scale
    let fraction := Scalar.ofNat (d.word d.drawn >>> 9).toNat * Float32.ofBits 0x34000000
    .ok (fraction * scale + low, d.skip 1)
  else .error .serveRange

/-- An angle of at most `limit` to either side, or none if the limit is not positive. -/
def angle (limit : Scalar) : Except Fault (Scalar × Dice) :=
  if 0 < limit then d.between (-limit) limit else .ok (0, d)

end Dice
end Rally
