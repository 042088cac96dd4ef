import Rally.Proofs.History
import Rally.Proofs.Match.Deadlines
import Rally.Proofs.Match.Lasting

/-! The passages of a run: its moves with the match before and after each, and
what they simulate. -/
namespace Rally

/-- The instant of a move of the players or of the clock. -/
def Move.now? : Move → Option Nat
  | .join _ now => some now
  | .leave _ now => some now
  | .tick now => some now
  | _ => none

/-- The moves come at an instant or later, and never go back in time. -/
def Clocked (clock : Nat) (ms : List Move) : Prop :=
  (clock :: ms.filterMap Move.now?).Pairwise (· ≤ ·)

instance (clock : Nat) (ms : List Move) : Decidable (Clocked clock ms) := by
  unfold Clocked
  infer_instance

theorem clocked_cons {clock : Nat} {m : Move} {ms : List Move} : Clocked clock (m :: ms) ↔
    clock ≤ m.now?.getD clock ∧ Clocked (m.now?.getD clock) ms := ascending_cons

/-- A move, and the match before and after it. -/
structure Passage where
  before : Play
  move : Move
  after : Play

/-- What a tick has simulated. -/
structure Window where
  start : Nat
  stop : Nat
  /-- The arena at the start. -/
  arena : Arena
  inputs : Sides (List Sample)
  played : Played
  snapshot : Snapshot

namespace Play
variable {p q r : Play} {now : Nat} {m : Move} {ms ns : List Move}

/-- The window that a move simulates, if it does. -/
def window? (p : Play) : Move → Option Window
  | .tick now =>
    if p.game.phase = .playing then
      match p.game.stepper.tick now p.game.arena p.game.logs with
      | .stepped _ _ played snapshot =>
        some ⟨p.game.stepper.lastTick, now, p.game.arena,
          p.game.stepper.inputs now p.game.logs, played, snapshot⟩
      | .idle => none
      | .expired => none
    else none
  | _ => none

/-- The window from the last tick to an instant. -/
def windowTo (p : Play) (now : Nat) : Window where
  start := p.game.stepper.lastTick
  stop := now
  arena := p.game.arena
  inputs := p.game.stepper.inputs now p.game.logs
  played := p.simulated now
  snapshot := p.game.stepper.snapshot now p.game.arena p.game.logs

theorem window?_tick (p : Play) (now : Nat) : p.window? (.tick now) =
    if p.game.phase = .playing ∧ p.game.stepper.expired now = false ∧
      p.game.stepper.pace.tick ≤ now - p.game.stepper.lastTick then some (p.windowTo now)
    else none := by
  simp only [window?]
  by_cases hw : p.game.phase = .playing
  · rw [if_pos hw, Stepper.tick_eq]
    cases he : p.game.stepper.expired now with
    | true => simp
    | false =>
      by_cases ht : now - p.game.stepper.lastTick < p.game.stepper.pace.tick
      · rw [if_neg (by simp), if_pos ht, if_neg (by omega)]
      · rw [if_neg (by simp), if_neg ht, if_pos ⟨hw, rfl, by omega⟩]
        rfl
  · rw [if_neg hw, if_neg fun h => hw h.1]

theorem window?_expired (he : p.game.stepper.expired now = true) :
    p.window? (.tick now) = none := by
  simp [window?_tick, he]

theorem window?_still (h : p.game.phase ≠ .playing ∨
    now - p.game.stepper.lastTick < p.game.stepper.pace.tick) : p.window? (.tick now) = none := by
  rw [window?_tick, if_neg]
  rintro ⟨hw, -, ht⟩
  rcases h with h | h
  · exact h hw
  · omega

theorem window?_stepped (he : p.game.stepper.expired now = false) (hw : p.game.phase = .playing)
    (ht : p.game.stepper.pace.tick ≤ now - p.game.stepper.lastTick) :
    p.window? (.tick now) = some (p.windowTo now) := by
  rw [window?_tick, if_pos ⟨hw, he, ht⟩]

theorem window?_eq_some {w : Window} (h : p.window? m = some w) :
    ∃ now, m = .tick now ∧ p.game.phase = .playing ∧
      p.game.stepper.pace.tick ≤ now - p.game.stepper.lastTick ∧ w = p.windowTo now := by
  cases m with
  | tick now =>
    rw [window?_tick] at h
    split at h
    · rename_i hg
      cases h
      exact ⟨now, rfl, hg.1, hg.2.2, rfl⟩
    · cases h
  | _ => cases h

theorem window?_of_ne (h : p.game.phase ≠ .playing) : p.window? m = none := by
  cases hw : p.window? m with
  | none => rfl
  | some w =>
    obtain ⟨now, -, hp, -⟩ := window?_eq_some hw
    exact absurd hp h

/-- The passages of the moves that a match makes one after another, up to the first that fails. -/
def passages (p : Play) : List Move → List Passage
  | [] => []
  | m :: ms =>
    match p.apply m with
    | .ok q => ⟨p, m, q⟩ :: q.passages ms
    | .error _ => []

theorem passages_cons (h : p.apply m = .ok q) :
    p.passages (m :: ms) = ⟨p, m, q⟩ :: q.passages ms := by
  simp [passages, h]

theorem run_append : p.run (ms ++ ns) = .ok r ↔ ∃ q, p.run ms = .ok q ∧ q.run ns = .ok r := by
  induction ms generalizing p with
  | nil => simp [run]
  | cons m ms ih =>
    simp only [List.cons_append, run_cons, ih]
    constructor
    · rintro ⟨q, hq, s, hs, hr⟩
      exact ⟨s, ⟨q, hq, hs⟩, hr⟩
    · rintro ⟨s, ⟨q, hq, hs⟩, hr⟩
      exact ⟨q, hq, s, hs, hr⟩

theorem passages_append (h : p.run ms = .ok q) :
    p.passages (ms ++ ns) = p.passages ms ++ q.passages ns := by
  induction ms generalizing p with
  | nil =>
    cases h
    rfl
  | cons m ms ih =>
    obtain ⟨r, hr, hq⟩ := run_cons.mp h
    rw [List.cons_append, passages_cons hr, passages_cons hr, ih hq]
    rfl

/-- What is true of what has happened, of what is to come and of the match between, at first and
after every passage, is true of a whole run. -/
theorem run_passages {I : List Passage → List Move → Play → Prop}
    (step : ∀ {h p m ms q}, p.apply m = .ok q → I h (m :: ms) p → I (h ++ [⟨p, m, q⟩]) ms q)
    {h : List Passage} (hI : I h ms p) (hr : p.run ms = .ok q) : I (h ++ p.passages ms) [] q := by
  induction ms generalizing p h with
  | nil =>
    cases hr
    simpa [passages] using hI
  | cons m ms ih =>
    obtain ⟨r, hm, hq⟩ := run_cons.mp hr
    have := ih (step hm hI) hq
    rw [passages_cons hm]
    simpa using this

/-- The same from the start of a match on, with ordinary moves only. A passage is a step of a match
that goes on, or changes at most the logs of one that has ended. -/
theorem passages_from_start {I : List Passage → List Move → Play → Prop}
    {fixture : Fixture} {rules : Rules} {seed : UInt64}
    (step : ∀ {h p m ms q}, m.Ordinary → Open p.game → Step p m q →
      I h (m :: ms) p → I (h ++ [⟨p, m, q⟩]) ms q)
    (ended : ∀ {h p m ms logs}, p.game.phase = .ended → I h (m :: ms) p →
      I (h ++ [⟨p, m, p.change fun g => { g with logs }⟩]) ms (p.change fun g => { g with logs }))
    (hs : I [] ms (start fixture rules seed now)) (hm : ∀ m ∈ ms, m.Ordinary)
    (hr : (start fixture rules seed now).run ms = .ok q) :
    I ((start fixture rules seed now).passages ms) [] q := by
  have hI : I ([] ++ (start fixture rules seed now).passages ms) [] q ∧
      (∀ m ∈ ([] : List Move), m.Ordinary) ∧ Covered q ∧ Settled q := by
    refine run_passages (I := fun h ms p =>
      I h ms p ∧ (∀ m ∈ ms, m.Ordinary) ∧ Covered p ∧ Settled p) ?_
      ⟨hs, hm, covered_start fixture rules seed, settled_start fixture rules seed now⟩ hr
    rintro h p m ms q hq ⟨hI, hm, hc, hset⟩
    have hrest : ∀ n ∈ ms, n.Ordinary := fun n hn => hm n (by simp [hn])
    rcases hset.step_or_over hq with ⟨he, hst⟩ | ⟨he, logs, rfl⟩
    · have ho : Open p.game := hc.2.resolve_right fun ho => he ho.phase
      have hord : m.Ordinary := hm m (by simp)
      exact ⟨step hord ho hst hI, hrest, covered_step hord he hc hst, settled_apply hset hq⟩
    · exact ⟨ended he hI, hrest, covered_logs hc logs, settled_apply hset hq⟩
  exact hI.1

end Play

/-- The window that has been simulated in a passage. -/
def Passage.window? (x : Passage) : Option Window := x.before.window? x.move

/-- The windows that have been simulated, in order. -/
def windows (h : List Passage) : List Window := h.filterMap Passage.window?

theorem windows_snoc (h : List Passage) (x : Passage) :
    windows (h ++ [x]) = windows h ++ x.window?.toList := by
  cases hx : x.window? <;> simp [windows, hx]

theorem windows_snoc_of_none {h : List Passage} {x : Passage} (hx : x.window? = none) :
    windows (h ++ [x]) = windows h := by
  rw [windows_snoc, hx, Option.toList_none, List.append_nil]

theorem windows_snoc_of_some {h : List Passage} {x : Passage} {w : Window}
    (hx : x.window? = some w) : windows (h ++ [x]) = windows h ++ [w] := by
  rw [windows_snoc, hx, Option.toList_some]

end Rally
