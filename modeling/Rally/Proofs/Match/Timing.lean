import Rally.Proofs.Match.Ending
import Mathlib.Data.List.Nodup

/-! The timers that run are exactly those that stand for a deadline, one for each. -/
namespace Rally

/-- Every timer that runs stands for its deadline, and for every deadline that has one it runs. -/
structure Tracked (t : Timers) (p : Pending) : Prop where
  stands : ∀ x ∈ t.live, p.get x.deadline = some x.id
  runs : ∀ {d id}, p.get d = some id → ∃ x ∈ t.live, x.deadline = d ∧ x.id = id
  numbered : ∀ x ∈ t.live, x.id ≤ t.count
  distinct : (t.live.map Timer.id).Nodup

theorem Pending.mem_toList (p : Pending) {d : Deadline} {id : Nat} (h : p.get d = some id) :
    id ∈ p.toList := by
  cases d with
  | reconnect side => cases side <;> simp_all [Pending.get, Pending.toList, Sides.get]
  | _ => simp_all [Pending.get, Pending.toList]

theorem Timers.foldl_cancel_live (ids : List Nat) (t : Timers) :
    (ids.foldl Timers.cancel t).live = t.live.filter (·.id ∉ ids) := by
  induction ids generalizing t with
  | nil => simp
  | cons id ids ih =>
    rw [List.foldl_cons, ih, Timers.cancel, List.filter_filter]
    refine List.filter_congr fun x _ => ?_
    simp only [List.mem_cons, not_or]
    grind

namespace Tracked
variable {t : Timers} {p : Pending} {d : Deadline} {g : Match}

theorem of_none (ht : t.live = []) : Tracked t {} := by
  refine ⟨by simp [ht], ?_, by simp [ht], by simp [ht]⟩
  intro d id h
  cases d with
  | reconnect side => cases side <;> cases h
  | _ => cases h

theorem cancel {id : Nat} (h : Tracked t p) (hd : p.get d = some id) :
    Tracked (t.cancel id) (p.set d none) := by
  have hlive : ∀ x, x ∈ (t.cancel id).live ↔ x ∈ t.live ∧ x.id ≠ id := by
    simp [Timers.cancel, List.mem_filter]
  refine ⟨?_, ?_, ?_, ?_⟩
  · intro x hx
    obtain ⟨hx, hne⟩ := (hlive x).mp hx
    have hs := h.stands x hx
    have hxd : x.deadline ≠ d := by
      intro he
      rw [he, hd] at hs
      exact hne (Option.some.inj hs).symm
    rw [p.get_set_of_ne d none hxd, hs]
  · intro e i he
    have hed : e ≠ d := by
      rintro rfl
      simp at he
    rw [p.get_set_of_ne d none hed] at he
    obtain ⟨x, hx, rfl, rfl⟩ := h.runs he
    obtain ⟨y, hy, rfl, rfl⟩ := h.runs hd
    refine ⟨x, (hlive x).mpr ⟨hx, ?_⟩, rfl, rfl⟩
    intro hxy
    -- Two deadlines never share a number, for then they would share the timer.
    have := List.inj_on_of_nodup_map h.distinct hx hy hxy
    exact hed (congrArg Timer.deadline this)
  · intro x hx
    exact h.numbered x ((hlive x).mp hx).1
  · exact h.distinct.sublist (List.filter_sublist.map _)

theorem without (h : Tracked g.timers g.pending) (d : Deadline) :
    Tracked (g.timersWithout d) (g.pending.set d none) := by
  unfold Match.timersWithout
  cases hd : g.pending.get d with
  | none =>
    have hs := g.pending.set_get d
    rw [hd] at hs
    rw [hs]
    exact h
  | some id => exact h.cancel hd

theorem schedule (h : Tracked t p) (hd : p.get d = none) (now delay : Nat) :
    Tracked (t.schedule d now delay) (p.set d (some (t.count + 1))) := by
  refine ⟨?_, ?_, ?_, ?_⟩
  · intro x hx
    simp only [Timers.schedule, List.mem_append, List.mem_singleton] at hx
    rcases hx with hx | rfl
    · have hs := h.stands x hx
      have hxd : x.deadline ≠ d := by
        intro he
        simp [he, hd] at hs
      rw [p.get_set_of_ne d _ hxd, hs]
    · simp
  · intro e i he
    by_cases hed : e = d
    · subst hed
      simp only [Pending.get_set_same, Option.some.injEq] at he
      subst he
      exact ⟨⟨t.count + 1, e, now, delay⟩, by simp [Timers.schedule], rfl, rfl⟩
    · rw [p.get_set_of_ne d _ hed] at he
      obtain ⟨x, hx, hxd, hxi⟩ := h.runs he
      exact ⟨x, by simp [Timers.schedule, hx], hxd, hxi⟩
  · intro x hx
    simp only [Timers.schedule, List.mem_append, List.mem_singleton] at hx ⊢
    rcases hx with hx | rfl
    · have := h.numbered x hx
      omega
    · simp
  · simp only [Timers.schedule, List.map_append, List.map_cons, List.map_nil]
    refine List.nodup_append.mpr ⟨h.distinct, by simp, ?_⟩
    intro i hi j hj
    obtain ⟨x, hx, rfl⟩ := List.mem_map.mp hi
    have := h.numbered x hx
    simp only [List.mem_singleton] at hj
    omega

theorem reschedule (h : Tracked g.timers g.pending) (d : Deadline) (now delay : Nat) :
    Tracked ((g.timersWithout d).schedule d now delay)
      (g.pending.set d (some (g.timers.count + 1))) := by
  have hs := (h.without d).schedule (d := d) (by simp) now delay
  simpa using hs

theorem closed (h : Tracked t p) : Tracked (p.toList.foldl Timers.cancel t) {} := by
  have hl : (p.toList.foldl Timers.cancel t).live = [] := by
    rw [Timers.foldl_cancel_live]
    refine List.filter_eq_nil_iff.mpr fun x hx => ?_
    simpa using p.mem_toList (h.stands x hx)
  exact of_none hl

end Tracked

namespace Play
variable {p q : Play} {now : Nat} {m : Move} {ms : List Move} {i : Incident}

/-- The timers of a match stand for its deadlines. -/
def Timed (p : Play) : Prop := Tracked p.game.timers p.game.pending

theorem timed_close (h : Timed p) : Timed p.close := by
  unfold Timed
  rw [close_game]
  split
  · exact h
  · exact h.closed

theorem timed_finish (h : Timed p) (reason : EndReason) (named : Option Side) :
    Timed (p.finish reason named) := by
  by_cases he : p.game.phase = .ended
  · rw [finish_of_ended p reason named he]
    exact h
  · unfold Timed
    rw [finish_game p reason named he]
    exact timed_close h

theorem timed_cancel (h : Timed p) (d : Deadline) : Timed (p.cancel d) := by
  unfold Timed
  rw [cancel_game]
  exact h.without d

theorem timed_schedule (h : Timed p) (d : Deadline) (delay : Nat) :
    Timed (p.schedule d now delay) := by
  unfold Timed
  rw [schedule_game]
  exact h.reschedule d now delay

theorem timed_start (fixture : Fixture) (rules : Rules) (seed : UInt64) :
    Timed (start fixture rules seed now) := by
  apply timed_schedule
  exact Tracked.of_none rfl

theorem timed_welcome (h : Timed p) (side : Side) : Timed (p.welcome side) := by
  unfold Timed
  rw [welcome_game]
  exact h.without (.reconnect side)

theorem timed_paired (h : Timed p) (side : Side) : Timed (p.paired side) :=
  timed_cancel (timed_welcome h side) .start

theorem timed_underWay (h : Timed p) (message : String) : Timed (p.underWay now message) := by
  unfold underWay
  split <;> exact h

theorem Served.timed (hp : Timed p) (h : Served now p q) : Timed q := by
  obtain ⟨dice, direction, rfl⟩ := h
  exact hp

theorem timed_reply (hp : Timed p) (h : Reply p now i q) : Timed q := by
  cases h with
  | hit | wall | trigger | lateGoal | lateStuck => exact hp
  | stuck hf hs => exact hs.timed hp
  | @point scorer q hf hr hs => exact hs.timed (show Timed (p.scored scorer) from hp)
  | @final scorer hf hr hc =>
    exact timed_finish (show Timed (p.scored scorer).lastGoal from hp) ..
  | @celebrate scorer hf hr hc =>
    exact timed_schedule (show Timed (p.scored scorer).lastGoal from hp) ..

theorem timed_step (hp : Timed p) (h : Step p m q) : Timed q := by
  cases h with
  | again | alone => exact timed_welcome hp _
  | goOn hs ho hw hu hq => exact hq.timed (timed_underWay (timed_welcome hp _) _)
  | begin hs ho ha hw hq => exact hq.timed (timed_underWay (timed_paired hp _) _)
  | @forced side | @unforgiven side | @back side => exact timed_paired hp side
  | absent | stale | still | left => exact hp
  | @pause side now =>
    unfold Timed
    rw [pause_game]
    exact hp.reschedule ..
  | needless => exact timed_cancel hp _
  | surrender | expired | finish => exact timed_finish hp ..
  | startPassed | reconnectPassed | celebrated => exact timed_finish (timed_cancel hp _) ..
  | @stepped now q he hw ht hq =>
    have hs : (p.stepped now).game.phase ≠ .ended := by simp [Play.stepped, hw]
    exact respondAll_invariant (fun _ hI hr => timed_reply hI hr) hs hp hq
  | close => exact timed_close hp
  | @record side s =>
    obtain ⟨logs, hl⟩ := record_eq p side s
    rw [hl]
    exact hp

end Play
end Rally
