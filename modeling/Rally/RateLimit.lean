/-!
A limit on how often something may happen.
-/

namespace Rally

/-- So many times at once, and from then on once in every interval. -/
structure RateLimit where
  burst : Nat
  /-- In nanoseconds. -/
  interval : Nat
  /-- The instant at which all that has been allowed will have been earned. -/
  earnedAt : Option Nat
deriving DecidableEq

namespace RateLimit
variable (r : RateLimit)

/-- A number of times in a second, and at least one. -/
def perSecond (n : Nat) : RateLimit := ⟨max n 1, 1000000000 / max n 1, none⟩

/-- Asks at an instant whether it may happen once more. -/
def check (now : Nat) : Bool × RateLimit :=
  let earned := r.earnedAt.getD (now + r.interval)
  if now < earned - r.burst * r.interval then (false, r)
  else (true, { r with earnedAt := some (max earned now + r.interval) })

/-- Asks a number of times at one instant. -/
def checks (now : Nat) : Nat → RateLimit → List Bool × RateLimit
  | 0, r => ([], r)
  | n + 1, r =>
    let (allowed, r) := r.check now
    let (more, r) := checks now n r
    (allowed :: more, r)

end RateLimit
end Rally
