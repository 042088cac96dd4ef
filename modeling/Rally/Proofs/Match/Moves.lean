import Rally.Match
import Rally.Proofs.Results
import Mathlib.Data.List.Basic

/-! Runs of a match: what can happen to it, in any order and at any times. -/
namespace Rally

/-- Something that happens to a match. -/
inductive Move where
  | join (side : Side) (now : Nat)
  | leave (side : Side) (now : Nat)
  | surrender (side : Side)
  | alarm (d : Deadline) (id : Nat)
  | tick (now : Nat)
  | finish (reason : EndReason) (named : Option Side)
  /-- Timers and buffers are given up, whether or not the match has ended. -/
  | close
  /-- An input arrives. If it is refused, nothing happens. -/
  | record (side : Side) (sample : Sample)
deriving DecidableEq

/-- A move of the players, the clock and the timers. -/
def Move.Ordinary : Move → Prop
  | .close => False
  | _ => True

instance : DecidablePred Move.Ordinary
  | .close => isFalse id
  | .join .. | .leave .. | .surrender .. | .alarm .. | .tick .. | .finish .. | .record .. =>
    isTrue trivial

namespace Play
variable {p q r : Play} {m : Move} {ms ns : List Move}

/-- The match after an input of a side. -/
def record (p : Play) (side : Side) (s : Sample) : Play :=
  match p.game.record side s with
  | .ok m => p.change fun _ => m
  | .error _ => p

def apply (p : Play) : Move → Except Fault Play
  | .join side now => p.join side now
  | .leave side now => .ok (p.leave side now)
  | .surrender side => .ok (p.surrender side)
  | .alarm d id => .ok (p.alarm d id)
  | .tick now => p.tick now
  | .finish reason named => .ok (p.finish reason named)
  | .close => .ok p.close
  | .record side s => .ok (p.record side s)

/-- Makes moves one after another, up to the first that fails. -/
def run (p : Play) : List Move → Except Fault Play
  | [] => .ok p
  | m :: ms => do (← p.apply m).run ms

theorem run_cons : p.run (m :: ms) = .ok r ↔ ∃ q, p.apply m = .ok q ∧ q.run ms = .ok r :=
  bind_eq_ok

/-- What the start has and every admitted move keeps, a whole run of admitted moves keeps. -/
theorem run_invariant {I : Play → Prop} {A : Move → Prop}
    (step : ∀ {p m q}, A m → I p → p.apply m = .ok q → I q)
    (hA : ∀ m ∈ ms, A m) (hp : I p) (h : p.run ms = .ok q) : I q := by
  induction ms generalizing p with
  | nil =>
    cases h
    exact hp
  | cons m ms ih =>
    obtain ⟨r, hr, hq⟩ := run_cons.mp h
    have hm : A m := hA m (by simp)
    exact ih (fun n hn => hA n (by simp [hn])) (step hm hp hr) hq

/-- A match between two players, outside a tournament. -/
def duel : Fixture := ⟨⟨1⟩, ⟨⟨2⟩, ⟨3⟩⟩, .quick, none, false⟩

/-- A run whose result passes a test. -/
theorem exists_run (p : Play) (ms : List Move) (t : Play → Prop) [DecidablePred t]
    (h : (p.run ms).toOption.any (fun q => t q) = true) : ∃ q, p.run ms = .ok q ∧ t q :=
  exists_ok t h

end Play
end Rally
