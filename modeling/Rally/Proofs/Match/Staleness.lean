import Rally.Proofs.Match.Passages
import Rally.Proofs.Match.Timing

/-! Timers that no longer stand for a deadline, which may still fire, in any
order and at any time. -/
namespace Rally

theorem Pending.get_set (p : Pending) (d e : Deadline) (a : Option Nat) :
    (p.set d a).get e = if e = d then a else p.get e := by
  by_cases he : e = d
  · subst he
    rw [if_pos rfl, get_set_same]
  · rw [if_neg he, get_set_of_ne p d a he]

@[simp] theorem Timers.foldl_cancel_count (ids : List Nat) (t : Timers) :
    (ids.foldl Timers.cancel t).count = t.count := by
  induction ids generalizing t with
  | nil => rfl
  | cons id ids ih => exact ih _

/-- A timer that fires has an effect. -/
def Passage.Acts (x : Passage) (id : Nat) : Prop :=
  (∃ d, x.move = .alarm d id) ∧ x.after ≠ x.before

namespace Play
variable {p q r : Play} {now : Nat} {m : Move} {ms : List Move} {i : Incident} {d : Deadline}
  {id : Nat} {side : Side}

/-- A timer stands for a deadline. -/
def Stands (p : Play) (id : Nat) : Prop := ∃ d, p.game.pending.get d = some id

/-- A timer has no effect from now on, whatever happens. -/
def Spent (p : Play) (id : Nat) : Prop := ∀ ns q, p.run ns = .ok q → ∀ d, q.alarm d id = q

/-- What stands for a deadline has done so before, or is new. -/
structure Renewed (p q : Play) : Prop where
  count : p.game.timers.count ≤ q.game.timers.count
  pending : ∀ d id, q.game.pending.get d = some id →
    p.game.pending.get d = some id ∨ p.game.timers.count < id

namespace Renewed

theorem refl (p : Play) : Renewed p p := ⟨Nat.le_refl _, fun _ _ => .inl⟩

theorem trans (hpq : Renewed p q) (hqr : Renewed q r) : Renewed p r := by
  refine ⟨Nat.le_trans hpq.count hqr.count, fun d id h => ?_⟩
  rcases hqr.pending d id h with h | h
  · exact hpq.pending d id h
  · exact .inr (Nat.lt_of_le_of_lt hpq.count h)

theorem of_same (ht : q.game.timers = p.game.timers) (hp : q.game.pending = p.game.pending) :
    Renewed p q :=
  ⟨by rw [ht], fun _ _ h => .inl (hp ▸ h)⟩

theorem after (h : Renewed q r) (ht : q.game.timers = p.game.timers)
    (hp : q.game.pending = p.game.pending) : Renewed p r :=
  (of_same ht hp).trans h

/-- A deadline gets a new timer, or none. -/
theorem of_set (d : Deadline) (a : Option Nat) (hc : p.game.timers.count ≤ q.game.timers.count)
    (hq : q.game.pending = p.game.pending.set d a)
    (ha : ∀ id, a = some id → p.game.timers.count < id) : Renewed p q := by
  refine ⟨hc, fun e id h => ?_⟩
  rw [hq, Pending.get_set] at h
  split at h
  · exact .inr (ha id h)
  · exact .inl h

end Renewed

theorem renewed_cancel (p : Play) (d : Deadline) : Renewed p (p.cancel d) :=
  .of_set d none (by simp) (by simp) (by simp)

theorem renewed_schedule (p : Play) (d : Deadline) (now delay : Nat) :
    Renewed p (p.schedule d now delay) :=
  .of_set d (some (p.game.timers.count + 1)) (by simp [Timers.schedule]) (by simp) (by simp)

theorem renewed_welcome (p : Play) (side : Side) : Renewed p (p.welcome side) :=
  .of_set (.reconnect side) none (by simp) (by simp) (by simp)

theorem renewed_paired (p : Play) (side : Side) : Renewed (p.welcome side) (p.paired side) :=
  (renewed_cancel (p.welcome side) .start).trans (.of_same rfl rfl)

theorem renewed_pause (p : Play) (side : Side) (now : Nat) : Renewed p (p.pause side now) :=
  .of_set (.reconnect side) (some (p.game.timers.count + 1)) (by simp [Timers.schedule]) (by simp)
    (by simp)

theorem renewed_close (p : Play) : Renewed p p.close := by
  unfold close
  split
  · exact .refl p
  · refine ⟨by simp, fun d id h => ?_⟩
    cases d with
    | reconnect side => cases side <;> cases h
    | _ => cases h

theorem renewed_finish (p : Play) (reason : EndReason) (named : Option Side) :
    Renewed p (p.finish reason named) := by
  by_cases he : p.game.phase = .ended
  · rw [finish_of_ended p reason named he]
    exact .refl p
  · rw [finish_eq p reason named he]
    exact (renewed_close _).after rfl rfl

theorem renewed_underWay (p : Play) (now : Nat) (message : String) :
    Renewed p (p.underWay now message) := by
  unfold underWay
  split <;> exact .of_same rfl rfl

theorem Served.renewed (h : Served now p q) : Renewed p q := by
  obtain ⟨dice, direction, rfl⟩ := h
  exact .of_same rfl rfl

theorem renewed_reply (h : Reply p now i q) : Renewed p q := by
  cases h with
  | hit | wall | trigger | lateGoal | lateStuck => exact .of_same rfl rfl
  | stuck hf hs => exact hs.renewed
  | point hf hr hs => exact hs.renewed.after rfl rfl
  | final => exact (renewed_finish ..).after rfl rfl
  | celebrate => exact (renewed_schedule ..).after rfl rfl

/-- A side that comes gives up the timer that waits for it, whatever else it does. -/
theorem renewed_join (h : Step p (.join side now) q) : Renewed (p.welcome side) q := by
  have hpaired : Renewed (p.welcome side) (p.paired side) := renewed_paired p side
  cases h with
  | again | alone => exact .refl _
  | goOn hs ho hw hu hq => exact (renewed_underWay ..).trans hq.renewed
  | begin hs ho ha hw hq => exact hpaired.trans ((renewed_underWay ..).trans hq.renewed)
  | forced | unforgiven => exact hpaired.trans (.of_same rfl rfl)
  | back => exact hpaired

theorem renewed_step (h : Step p m q) : Renewed p q := by
  have joins {side : Side} {now : Nat} (hm : m = .join side now) : Renewed p q := by
    subst hm
    exact (renewed_welcome p side).trans (renewed_join h)
  cases h with
  | again | alone | goOn | forced | begin | unforgiven | back => exact joins rfl
  | absent | stale | still => exact .refl p
  | left => exact .of_same rfl rfl
  | pause => exact (renewed_pause ..).after rfl rfl
  | needless => exact renewed_cancel p _
  | surrender | expired | finish => exact renewed_finish ..
  | startPassed | reconnectPassed | celebrated =>
    exact (renewed_cancel ..).trans (renewed_finish ..)
  | @stepped now q he hw ht hq =>
    have hs : (p.stepped now).game.phase ≠ .ended := by simp [Play.stepped, hw]
    refine respondAll_invariant (fun _ hI hr => ?_) hs (.of_same rfl rfl) hq
    exact hI.trans (renewed_reply hr)
  | close => exact renewed_close p
  | @record side s =>
    obtain ⟨logs, hl⟩ := record_eq p side s
    rw [hl]
    exact .of_same rfl rfl

/-! Timers that have been given up, or have had their effect. -/

/-- The match is over, or a timer that has been set does not stand for a deadline. -/
def Gone (p : Play) (id : Nat) : Prop :=
  p.game.phase = .ended ∨ id ≤ p.game.timers.count ∧ ¬ p.Stands id

theorem alarm_of_not_pending (h : p.game.pending.get d ≠ some id) : p.alarm d id = p := by
  simp [alarm, h]

theorem alarm_of_gone (h : Gone p id) (d : Deadline) : p.alarm d id = p := by
  rcases h with he | ⟨-, hn⟩
  · simp [alarm, Match.ended, he]
  · exact alarm_of_not_pending fun hd => hn ⟨d, hd⟩

theorem Gone.renewed (h : Gone p id) (hp : p.game.phase ≠ .ended) (hpq : Renewed p q) :
    Gone q id := by
  obtain ⟨hc, hn⟩ := h.resolve_left hp
  refine .inr ⟨Nat.le_trans hc hpq.count, ?_⟩
  rintro ⟨d, hd⟩
  rcases hpq.pending d id hd with h | h
  · exact hn ⟨d, h⟩
  · omega

theorem gone_apply (hset : Settled p) (h : Gone p id) (hq : p.apply m = .ok q) : Gone q id := by
  rcases hset.step_or_over hq with ⟨he, hs⟩ | ⟨he, logs, rfl⟩
  · exact h.renewed he (renewed_step hs)
  · exact .inl he

theorem Gone.spent (hset : Settled p) (h : Gone p id) : p.Spent id := by
  intro ns q hq d
  have hI : Settled q ∧ Gone q id :=
    run_invariant (I := fun p => Settled p ∧ Gone p id) (A := fun _ => True)
      (fun _ hp hq => ⟨settled_apply hp.1 hq, gone_apply hp.1 hp.2 hq⟩) (by simp) ⟨hset, h⟩ hq
  exact alarm_of_gone hI.2 d

/-- The timer of a deadline that is given up stands for no other one. -/
theorem gone_of_set (ht : Timed p) (hd : p.game.pending.get d = some id)
    (hc : q.game.timers.count = p.game.timers.count)
    (hq : q.game.pending = p.game.pending.set d none) :
    id ≤ q.game.timers.count ∧ ¬ q.Stands id := by
  obtain ⟨x, hx, hxd, hxi⟩ := ht.runs hd
  refine ⟨?_, ?_⟩
  · rw [hc, ← hxi]
    exact ht.numbered x hx
  · rintro ⟨e, he⟩
    rw [hq, Pending.get_set] at he
    split at he
    · cases he
    · rename_i hne
      obtain ⟨y, hy, hye, hyi⟩ := ht.runs he
      have hxy := List.inj_on_of_nodup_map ht.distinct hx hy (hxi.trans hyi.symm)
      exact hne (hye.symm.trans ((congrArg Timer.deadline hxy).symm.trans hxd))

/-- A timer that has an effect is given up by it. -/
theorem gone_of_acts (ht : Timed p) (hp : p.game.phase ≠ .ended) (hs : Step p (.alarm d id) q)
    (hne : q ≠ p) : Gone q id := by
  have gives {d : Deadline} (hd : p.game.pending.get d = some id) : Gone (p.cancel d) id :=
    .inr (gone_of_set ht hd (by simp) (by simp))
  have he (d : Deadline) : (p.cancel d).game.phase ≠ .ended := by simpa using hp
  cases hs with
  | stale => exact absurd rfl hne
  | needless hd => exact gives hd
  | startPassed hd | reconnectPassed hd | celebrated hd =>
    exact (gives hd).renewed (he _) (renewed_finish ..)

/-- A side that comes gives up the timer that waits for it. -/
theorem gone_of_join (ht : Timed p) (hset : Settled p)
    (hd : p.game.pending.get (.reconnect side) = some id) (hq : p.join side now = .ok q) :
    Gone q id := by
  rcases hset.step_or_over (m := .join side now) hq with ⟨he, hs⟩ | ⟨he, logs, rfl⟩
  · have hw : Gone (p.welcome side) id := .inr (gone_of_set ht hd (by simp) (by simp))
    exact hw.renewed (by simpa using he) (renewed_join hs)
  · exact .inl he

/-- The timers that have had an effect are gone, and each has had it once. -/
structure Heeded (h : List Passage) (p : Play) : Prop where
  gone : ∀ x ∈ h, ∀ id, x.Acts id → Gone p id
  once : h.Pairwise fun x y => ∀ id, x.Acts id → ¬ y.Acts id

theorem heeded_apply {h : List Passage} (hh : Heeded h p) (ht : Timed p) (hset : Settled p)
    (hq : p.apply m = .ok q) : Heeded (h ++ [⟨p, m, q⟩]) q := by
  refine ⟨fun x hx id ha => ?_, List.pairwise_append.mpr ⟨hh.once, by simp, ?_⟩⟩
  · rcases List.mem_append.mp hx with hx | hx
    · exact gone_apply hset (hh.gone x hx id ha) hq
    · obtain rfl := List.mem_singleton.mp hx
      obtain ⟨⟨d, rfl⟩, hne⟩ := ha
      rcases hset.step_or_over hq with ⟨he, hs⟩ | ⟨he, logs, rfl⟩
      · exact gone_of_acts ht he hs hne
      · exact .inl he
  · intro x hx y hy id ha
    obtain rfl := List.mem_singleton.mp hy
    rintro ⟨⟨d, rfl⟩, hne⟩
    have hsame := alarm_of_gone (hh.gone x hx id ha) d
    exact hne ((Except.ok.inj hq).symm.trans hsame)

theorem heeded_run {fixture : Fixture} {rules : Rules} {seed : UInt64}
    (hr : (start fixture rules seed now).run ms = .ok p) :
    Heeded ((start fixture rules seed now).passages ms) p ∧ Timed p := by
  have hI : Heeded ([] ++ (start fixture rules seed now).passages ms) p ∧ Timed p ∧ Settled p := by
    refine run_passages (I := fun h _ p => Heeded h p ∧ Timed p ∧ Settled p) ?_
      ⟨⟨by simp, by simp⟩, timed_start fixture rules seed,
        settled_start fixture rules seed now⟩ hr
    rintro h p m - q hq ⟨hh, ht, hset⟩
    refine ⟨heeded_apply hh ht hset hq, ?_, settled_apply hset hq⟩
    rcases hset.step_or_over hq with ⟨he, hs⟩ | ⟨he, logs, rfl⟩
    · exact timed_step ht hs
    · exact ht
  exact ⟨hI.1, hI.2.1⟩

/-- Just one timer runs for each deadline that has one. -/
theorem Timed.deadlines (ht : Timed p) : (p.game.timers.live.map Timer.deadline).Nodup := by
  refine List.Nodup.map_on (fun x hx y hy hxy => ?_) ht.distinct.of_map
  have hxs := ht.stands x hx
  rw [hxy, ht.stands y hy] at hxs
  exact List.inj_on_of_nodup_map ht.distinct hx hy (Option.some.inj hxs).symm

/-- In every run, with timers that fire in any order, once or often and however late, the timers
that run are those that stand for the deadlines, at most one for each. Any other one that fires is
ignored, so none has an effect twice, and none has any that has been given up, be it because its
side has come back, even if that leaves again. -/
theorem stale_timers_never_act {fixture : Fixture} {rules : Rules} {seed : UInt64}
    (hr : (start fixture rules seed now).run ms = .ok p) :
    (∀ d id, p.game.pending.get d = some id ↔
        ∃ x ∈ p.game.timers.live, x.deadline = d ∧ x.id = id) ∧
      (p.game.timers.live.map Timer.deadline).Nodup ∧ (p.game.timers.live.map Timer.id).Nodup ∧
      (∀ d id, p.game.pending.get d ≠ some id → p.alarm d id = p) ∧
      ((start fixture rules seed now).passages ms).Pairwise
        (fun x y => ∀ id, x.Acts id → ¬ y.Acts id) ∧
      (∀ id ≤ p.game.timers.count, ¬ p.Stands id → p.Spent id) ∧
      ∀ side id now q, p.game.pending.get (.reconnect side) = some id →
        p.join side now = .ok q → q.Spent id := by
  have hset := settled_run hr
  obtain ⟨hh, ht⟩ := heeded_run hr
  refine ⟨fun d id => ⟨ht.runs, ?_⟩, ht.deadlines, ht.distinct,
    fun d id => alarm_of_not_pending, hh.once, fun id hc hn => Gone.spent hset (.inr ⟨hc, hn⟩),
    fun side id now q hd hq => ?_⟩
  · rintro ⟨x, hx, rfl, rfl⟩
    exact ht.stands x hx
  · exact (gone_of_join ht hset hd hq).spent (settled_apply (m := .join side now) hset hq)

/-- The timer of a first absence, which fires late in the second one. -/
theorem stale_timers_never_act_twice_away :
    ∃ p q r, (start duel {} 7 0).run [.join .left 0, .join .right 10, .leave .left 500] = .ok p ∧
      p.game.pending.get (.reconnect .left) = some 2 ∧ p.join .left 600 = .ok q ∧
      q.run [.leave .left 700] = .ok r ∧ r.game.pending.get (.reconnect .left) = some 3 ∧
      r.alarm (.reconnect .left) 2 = r := by
  obtain ⟨r, hr, hthree⟩ := exists_run (start duel {} 7 0)
    ([.join .left 0, .join .right 10, .leave .left 500] ++ [.join .left 600, .leave .left 700])
    (fun r => r.game.pending.get (.reconnect .left) = some 3) (by decide +kernel)
  obtain ⟨p, hp, htwo⟩ := exists_run (start duel {} 7 0)
    [.join .left 0, .join .right 10, .leave .left 500]
    (fun p => p.game.pending.get (.reconnect .left) = some 2) (by decide +kernel)
  obtain ⟨p', hp', hrest⟩ := run_append.mp hr
  obtain rfl := Except.ok.inj (hp.symm.trans hp')
  obtain ⟨q, hq, hlast⟩ := run_cons.mp hrest
  have hspent := (stale_timers_never_act hp).2.2.2.2.2.2 .left 2 600 q htwo hq
  exact ⟨p, q, r, hp, htwo, hq, hlast, hthree, hspent _ r hlast _⟩

end Play
end Rally
