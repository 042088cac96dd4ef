import Rally.Proofs.Match.Deadlines
import Rally.Proofs.Match.Lasting

/-! Reports of who is there that say nothing new. -/
namespace Rally

/-- No deadline waits for a side that is there. -/
def Match.Unawaited (g : Match) : Prop :=
  ∀ side, g.ready.get side = true → ¬ g.Awaits (.reconnect side)

namespace Play
variable {p q : Play} {now : Nat} {m : Move} {ms : List Move} {i : Incident} {side other : Side}

theorem awaits_welcome (h : (p.welcome other).game.Awaits (.reconnect side)) :
    side ≠ other ∧ p.game.Awaits (.reconnect side) := by
  have hne : side ≠ other := by
    intro he
    subst he
    simp [Match.Awaits] at h
  refine ⟨hne, ?_⟩
  simpa [Match.Awaits, hne] using h

theorem awaits_paired (h : (p.paired other).game.Awaits (.reconnect side)) :
    (p.welcome other).game.Awaits (.reconnect side) := by
  simpa [Match.Awaits] using h

theorem Served.pending (h : Served now p q) : q.game.pending = p.game.pending := by
  obtain ⟨dice, direction, rfl⟩ := h
  rfl

theorem awaits_begun {d : Deadline} {message : String} (hq : Served now (p.underWay now message) q)
    (h : q.game.Awaits d) : p.game.Awaits d := by
  simpa [Match.Awaits, hq.pending] using h

theorem awaits_cancel {d e : Deadline} (h : (p.cancel d).game.Awaits e) : p.game.Awaits e := by
  by_cases he : e = d
  · subst he
    simp [Match.Awaits] at h
  · simpa [Match.Awaits, he] using h

/-- Once all timers have been given up, nothing is waited for. -/
theorem awaits_close (h : p.close.game.Awaits (.reconnect side)) :
    p.game.Awaits (.reconnect side) := by
  rw [Match.Awaits, close_game] at h
  split at h
  · exact h
  · cases side <;> simp [Pending.get, Sides.get, Sides.both] at h

theorem awaits_finish {reason : EndReason} {named : Option Side}
    (h : (p.finish reason named).game.Awaits (.reconnect side)) :
    p.game.Awaits (.reconnect side) := by
  by_cases he : p.game.phase = .ended
  · rwa [finish_of_ended p reason named he] at h
  · rw [Match.Awaits, finish_game p reason named he] at h
    have hold : (p.change fun m => { m with phase := .ended, dice := m.dice.side.2 }).game.Awaits
        (.reconnect side) := awaits_close h
    exact hold

theorem awaits_reply (hr : Reply p now i q) (h : q.game.Awaits (.reconnect side)) :
    p.game.Awaits (.reconnect side) := by
  cases hr with
  | hit | wall | trigger | lateGoal | lateStuck => exact h
  | stuck hf hs | point hf hr hs => rwa [Match.Awaits, hs.pending] at h
  | @final scorer =>
    have hl : (p.scored scorer).lastGoal.game.Awaits (.reconnect side) := awaits_finish h
    exact hl
  | celebrate => simpa [Match.Awaits, lastGoal, scored] using h

/-- A return is waited for only from the leaving of a side on, and no longer than until it joins. -/
theorem step_awaits (hs : Step p m q) (h : q.game.Awaits (.reconnect side)) :
    (∃ now, m = .leave side now) ∨
      p.game.Awaits (.reconnect side) ∧ ∀ now, m ≠ .join side now := by
  have joins {other : Side} {now : Nat} (hm : m = .join other now)
      (hw : (p.welcome other).game.Awaits (.reconnect side)) :
      p.game.Awaits (.reconnect side) ∧ ∀ now, m ≠ .join side now := by
    obtain ⟨hne, ha⟩ := awaits_welcome hw
    refine ⟨ha, ?_⟩
    intro later he
    subst hm
    cases he
    exact hne rfl
  cases hs with
  | again | alone => exact .inr (joins rfl h)
  | goOn hs ho hw hu hq => exact .inr (joins rfl (awaits_begun hq h))
  | begin hs ho ha hw hq => exact .inr (joins rfl (awaits_paired (awaits_begun hq h)))
  | forced | unforgiven | back => exact .inr (joins rfl (awaits_paired h))
  | absent | left | stale | still => exact .inr ⟨h, by simp_all⟩
  | @pause other now =>
    by_cases he : side = other
    · subst he
      exact .inl ⟨now, rfl⟩
    · exact .inr ⟨by simpa [Match.Awaits, left, he] using h, by simp⟩
  | surrender | expired | finish => exact .inr ⟨awaits_finish h, by simp⟩
  | needless => exact .inr ⟨awaits_cancel h, by simp⟩
  | startPassed | reconnectPassed | celebrated =>
    exact .inr ⟨awaits_cancel (awaits_finish h), by simp⟩
  | @stepped now q he hw ht hq =>
    have hs : (p.stepped now).game.phase ≠ .ended := by simp [Play.stepped, hw]
    refine .inr ⟨?_, by simp⟩
    refine respondAll_invariant (I := fun r => r.game.Awaits (.reconnect side) →
      p.game.Awaits (.reconnect side)) ?_ hs id hq h
    intro r i s _ hr hrs
    exact fun ha => hr (awaits_reply hrs ha)
  | close => exact .inr ⟨awaits_close h, by simp⟩
  | @record other s =>
    obtain ⟨logs, hl⟩ := record_eq p other s
    rw [hl] at h
    exact .inr ⟨h, by simp⟩

theorem unawaited_step (hp : p.game.Unawaited) (h : Step p m q) : q.game.Unawaited := by
  intro side hr ha
  rw [step_ready h] at hr
  rcases step_awaits h ha with ⟨now, rfl⟩ | ⟨ha, hm⟩
  · simp [Move.attend] at hr
  · refine hp side ?_ ha
    cases m with
    | join other now =>
      have hne : side ≠ other := by
        intro he
        subst he
        exact hm now rfl
      simpa [Move.attend, Sides.get_set_of_ne _ _ _ hne] using hr
    | leave other now =>
      rcases Sides.get_set_cases p.game.ready other false side with ⟨-, he⟩ | ⟨-, he⟩
      · simp [Move.attend, he] at hr
      · rwa [Move.attend, he] at hr
    | _ => exact hr

theorem unawaited_start (fixture : Fixture) (rules : Rules) (seed : UInt64) :
    (start fixture rules seed now).game.Unawaited := by
  intro side hr
  cases side <;> simp [start, Sides.both, Sides.get] at hr

/-- Whatever has happened, the two sides have been waited for only while they were away. -/
theorem unawaited_run {fixture : Fixture} {rules : Rules} {seed : UInt64}
    (h : (start fixture rules seed now).run ms = .ok p) : p.game.Unawaited :=
  run_from_start (A := fun _ => True) (fun _ hp _ hs => unawaited_step hp hs)
    (fun _ hp => hp) (unawaited_start fixture rules seed) (by simp) h

/-- Giving up a deadline that is not set changes nothing. -/
theorem cancel_of_not_awaits {d : Deadline} (h : ¬ p.game.Awaits d) : p.cancel d = p := by
  have hn : p.game.pending.get d = none := by simpa [Match.Awaits] using h
  simp [cancel, hn]

end Play
end Rally
