import Rally.Scalar

/-!
Times on the clock of a match, which are natural numbers of milliseconds.
-/

namespace Rally.Clock

/-- The instant `delay` after `t`. A clock has 64 bits. -/
def after (t delay : Nat) : Nat := (t + delay) % UInt64.size

/-- A number of milliseconds in seconds. -/
def seconds (t : Nat) : Scalar := Scalar.ofNat t / 1000

end Rally.Clock
