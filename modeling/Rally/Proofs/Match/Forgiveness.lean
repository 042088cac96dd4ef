import Rally.Proofs.Match.Passages
import Rally.Proofs.Match.Presence

/-! Returns: how they are counted, and what they cost a side that leaves. -/
namespace Rally
namespace Play
variable {p q : Play} {now : Nat} {m : Move} {ms ns : List Move} {i : Incident} {side : Side}

/-- The side that a move brings back to the other one, if it does. -/
def completer? (p : Play) : Move → Option Side
  | .join side _ =>
    if p.game.phase ≠ .ended ∧ p.game.ready.get side = false ∧
      p.game.ready.get side.opponent = true then some side else none
  | _ => none

theorem completer?_eq_some : p.completer? m = some side ↔ ∃ now, m = .join side now ∧
    p.game.phase ≠ .ended ∧ p.game.ready.get side = false ∧
      p.game.ready.get side.opponent = true := by
  constructor
  · intro h
    cases m with
    | join other now =>
      rw [completer?] at h
      split at h
      · rename_i hg
        cases h
        exact ⟨now, rfl, hg⟩
      · cases h
    | _ => cases h
  · rintro ⟨now, rfl, hg⟩
    exact if_pos hg

theorem completer?_of_ended (h : p.game.phase = .ended) : p.completer? m = none := by
  cases hc : p.completer? m with
  | none => rfl
  | some side =>
    obtain ⟨-, -, he, -⟩ := completer?_eq_some.mp hc
    exact absurd h he

theorem reply_returns (h : Reply p now i q) : q.game.returns = p.game.returns := by
  cases h with
  | hit | wall | trigger | lateGoal | lateStuck => rfl
  | stuck hf hs | point hf hr hs =>
    obtain ⟨dice, direction, rfl⟩ := hs
    rfl
  | final | celebrate => simp [lastGoal, scored]

theorem Served.returns (h : Served now p q) : q.game.returns = p.game.returns := by
  obtain ⟨dice, direction, rfl⟩ := h
  rfl

/-- Returns are counted one by one, each for the side that has come back. -/
theorem step_returns (he : p.game.phase ≠ .ended) (h : Step p m q) : q.game.returns =
    (p.completer? m).elim p.game.returns fun side => p.game.returns.modify side (· + 1) := by
  have completes {side : Side} {now : Nat} (hs : p.game.ready.get side = false)
      (ho : p.game.ready.get side.opponent = true) : p.completer? (.join side now) = some side :=
    completer?_eq_some.mpr ⟨now, rfl, he, hs, ho⟩
  cases h with
  | again hs => simp [completer?, hs]
  | alone hs ho => simp [completer?, ho]
  | goOn hs ho hw hu hq => simp [completer?, ho, hq.returns]
  | begin hs ho ha hw hq => simp [completes hs ho, hq.returns]
  | forced hs ho | unforgiven hs ho | back hs ho => simp [completes hs ho, forced]
  | absent | left | stale | still => rfl
  | pause => simp [completer?, left]
  | surrender | expired | finish | needless => simp [completer?]
  | startPassed | reconnectPassed | celebrated => simp [completer?]
  | @stepped now q hx hw ht hq =>
    have hs : (p.stepped now).game.phase ≠ .ended := he
    refine respondAll_invariant (I := fun r => r.game.returns = p.game.returns) ?_ hs rfl hq
    intro r i s _ hr hrs
    rw [reply_returns hrs, hr]
  | close =>
    rw [close_game]
    split <;> rfl
  | @record other s =>
    obtain ⟨logs, hl⟩ := record_eq p other s
    rw [hl]
    rfl

/-- A side has left, play has been paused if it went on, and the side is waited for. -/
def awaiting (p : Play) (side : Side) (now : Nat) : Play :=
  let q :=
    if p.game.phase = .playing then
      ((p.left side).change fun g => { g with phase := .waiting }).say
        (.stopped "Opponent disconnected, waiting for reconnection")
    else p.left side
  q.change fun g =>
    { g with
      pending := g.pending.set (.reconnect side) (some (g.timers.count + 1))
      timers := g.timers.schedule (.reconnect side) now g.rules.reconnectGrace }

theorem pause_left (h : ¬ p.game.Awaits (.reconnect side)) :
    (p.left side).pause side now = p.awaiting side now := by
  have hset (q : Play) (hq : q.game.pending = p.game.pending) (delay : Nat) :
      q.schedule (.reconnect side) now delay = q.change fun g =>
        { g with
          timers := g.timers.schedule (.reconnect side) now delay
          pending := g.pending.set (.reconnect side) (some (g.timers.count + 1)) } := by
    have hn : ¬ q.game.Awaits (.reconnect side) := by rwa [Match.Awaits, hq]
    rw [schedule, cancel_of_not_awaits hn]
  unfold pause awaiting
  by_cases hp : p.game.phase = .playing
  · have hl : (p.left side).game.phase = .playing := hp
    rw [if_pos hl, if_pos hp]
    refine hset _ ?_ _
    rfl
  · have hl : ¬ (p.left side).game.phase = .playing := hp
    rw [if_neg hl, if_neg hp]
    refine hset _ ?_ _
    rfl

/-- What leaving does to a match that has begun and is not about to end. -/
theorem leave_eq (hu : p.game.Unawaited) (he : p.game.phase ≠ .ended)
    (hs : p.game.stepper.startedAt ≠ none) (hf : p.game.finishing = false)
    (hr : p.game.ready.get side = true) : p.leave side now =
      if p.game.returns.get side < p.game.rules.allowance then p.awaiting side now
      else p.left side := by
  have hstep := leave_step side now he
  generalize p.leave side now = q at hstep
  cases hstep with
  | absent ha => simp [hr] at ha
  | left _ hg =>
    have ha : p.game.rules.allowance ≤ p.game.returns.get side := by simpa [hs, hf] using hg
    rw [if_neg (by omega)]
  | pause _ _ _ ha => rw [if_pos ha, pause_left (hu side hr)]

/-- A side that has no returns left goes without a trace. -/
theorem leave_spent (h : p.game.rules.allowance ≤ p.game.returns.get side) :
    ∃ ready, p.leave side now = p.change fun g => { g with ready } := by
  by_cases he : p.game.phase = .ended
  · refine ⟨p.game.ready, ?_⟩
    rw [leave, if_pos (.inl (by simp [Match.ended, he]))]
    rfl
  · have hstep := leave_step side now he
    generalize p.leave side now = q at hstep
    cases hstep with
    | absent => exact ⟨p.game.ready, rfl⟩
    | left => exact ⟨_, rfl⟩
    | pause _ _ _ ha => omega

end Play

/-- The side that has come back to the other one in a passage, if one has. -/
def Passage.completer? (x : Passage) : Option Side := x.before.completer? x.move

/-- Those who have come back to the other side, each time they have. -/
def completers (h : List Passage) : List Side := h.filterMap Passage.completer?

theorem count_completers_snoc (h : List Passage) (x : Passage) (side : Side) :
    (completers (h ++ [x])).count side =
      (completers h).count side + if x.completer? = some side then 1 else 0 :=
  count_filterMap_snoc ..

namespace Play
variable {p q : Play} {now : Nat} {ms ns : List Move} {fixture : Fixture} {rules : Rules}
  {seed : UInt64}

theorem count_step {m : Move} (he : p.game.phase ≠ .ended) (h : Step p m q) (side : Side) :
    q.game.returns.get side =
      p.game.returns.get side + if p.completer? m = some side then 1 else 0 := by
  rw [step_returns he h]
  cases p.completer? m with
  | none => rfl
  | some other => cases other <;> cases side <;> rfl

/-- The count of a side has been raised by each of its returns, and by nothing else. -/
theorem count_run (h : (start fixture rules seed now).run ms = .ok p) (side : Side) :
    p.game.returns.get side =
      (completers ((start fixture rules seed now).passages ms)).count side := by
  have hrun : Settled p ∧ p.game.returns.get side =
      (completers ([] ++ (start fixture rules seed now).passages ms)).count side := by
    refine run_passages (I := fun h _ p =>
      Settled p ∧ p.game.returns.get side = (completers h).count side) ?_ ?_ h
    · rintro h p m ms q hq ⟨hset, hc⟩
      refine ⟨settled_apply hset hq, ?_⟩
      rw [count_completers_snoc, ← hc]
      rcases hset.step_or_over hq with ⟨he, hs⟩ | ⟨he, logs, rfl⟩
      · exact count_step he hs side
      · rw [Passage.completer?, completer?_of_ended he]
        rfl
    · refine ⟨settled_start fixture rules seed now, ?_⟩
      cases side <;> simp [start, completers, Sides.both, Sides.get]
  exact hrun.2

theorem rules_run (h : (start fixture rules seed now).run ms = .ok p) : p.game.rules = rules :=
  run_from_start (I := fun p => p.game.rules = rules) (A := fun _ => True)
    (fun _ hp _ hs => (step_rules hs).trans hp) (fun _ hp => hp) (by simp [start]) (by simp) h

/-- How often a side has come back after a run, and what it costs the side when it leaves. -/
structure Forgives (rules : Rules) (h : List Passage) (p : Play) (side : Side) : Prop where
  /-- Only what brings a side back to the other one counts, and all of it. -/
  count : p.game.returns.get side = (completers h).count side
  leave : p.game.phase ≠ .ended → p.game.stepper.startedAt ≠ none → p.game.finishing = false →
    p.game.ready.get side = true → ∀ time, p.leave side time =
      if p.game.returns.get side < rules.allowance then p.awaiting side time else p.left side
  /-- Once the side has no returns left, it never again pauses the match or sets a timer. -/
  spent : rules.allowance ≤ p.game.returns.get side → ∀ ns q time, p.run ns = .ok q →
    ∃ ready, q.leave side time = q.change fun g => { g with ready }

/-- In every run the returns of a side are counted exactly. While it has some left, leaving a match
that has begun pauses it until the side is back; after that, and for the rest of the match, leaving
is noted and nothing else. -/
theorem returns_counted_and_spent (h : (start fixture rules seed now).run ms = .ok p)
    (side : Side) : Forgives rules ((start fixture rules seed now).passages ms) p side := by
  refine ⟨count_run h side, ?_, ?_⟩
  · intro he hs hf hr time
    rw [leave_eq (unawaited_run h) he hs hf hr, rules_run h]
  · intro hspent ns q time hq
    have hall : (start fixture rules seed now).run (ms ++ ns) = .ok q := run_append.mpr ⟨p, h, hq⟩
    refine leave_spent ?_
    have hle : p.game.returns.get side ≤ q.game.returns.get side := by
      rw [count_run h, count_run hall, passages_append h]
      exact ((List.sublist_append_left ..).filterMap _).count_le side
    rw [rules_run hall]
    omega

/-- The second of two sides has used its only return by coming at all: it leaves a match that goes
on, which the first one pauses. -/
theorem returns_counted_and_spent_once :
    ∃ p, (start duel { allowance := 1 } 7 0).run [.join .left 0, .join .right 10] = .ok p ∧
      p.leave .right 20 = p.left .right ∧ p.leave .left 30 = p.awaiting .left 30 ∧
      ∃ q ready, p.run [.leave .right 20, .join .right 40] = .ok q ∧
        q.leave .right 50 = q.change fun g => { g with ready } := by
  obtain ⟨p, hp, he, hs, hf, hr, hret, hq⟩ := exists_run (start duel { allowance := 1 } 7 0)
    [.join .left 0, .join .right 10]
    (fun p => p.game.phase ≠ .ended ∧ p.game.stepper.startedAt ≠ none ∧
      p.game.finishing = false ∧ p.game.ready = .both true ∧ p.game.returns = ⟨0, 1⟩ ∧
      (p.run [.leave .right 20, .join .right 40]).toOption.any (fun _ => True) = true)
    (by decide +kernel)
  have hright := returns_counted_and_spent hp .right
  have hleft := returns_counted_and_spent hp .left
  have hgone := hright.leave he hs hf (by rw [hr]; rfl) 20
  have hwait := hleft.leave he hs hf (by rw [hr]; rfl) 30
  rw [hret] at hgone hwait
  obtain ⟨q, hrun, -⟩ := exists_run p _ (fun _ => True) hq
  obtain ⟨ready, hlast⟩ := hright.spent (by rw [hret]; decide) _ q 50 hrun
  exact ⟨p, hp, hgone, hwait, q, ready, hrun, hlast⟩

end Play
end Rally
