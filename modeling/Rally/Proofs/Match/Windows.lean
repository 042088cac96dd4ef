import Mathlib.Data.List.DropRight
import Rally.Proofs.Match.Course

/-! The windows that a match simulates: one after another, each within one spell of play. -/
namespace Rally

/-- A view joins the last ones, of which there is room for some. -/
theorem Recent.push_rtake {r : Recent} {xs : List Snapshot}
    (h : r.snapshots = xs.rtake r.capacity) (hc : 0 < r.capacity) (s : Snapshot) :
    (r.push s).snapshots = (xs ++ [s]).rtake r.capacity := by
  have hlen : r.snapshots.length = xs.length - (xs.length - r.capacity) := by
    rw [h, List.rtake, List.length_drop]
  unfold push
  by_cases hf : r.snapshots.length = r.capacity
  · have hdrop : xs.length - r.capacity + 1 = xs.length + 1 - r.capacity := by omega
    rw [if_pos hf, h, List.rtake, List.rtake, List.drop_drop, List.length_append,
      List.length_singleton, hdrop, List.drop_append_of_le_length (by omega)]
  · have hle : xs.length + 1 ≤ r.capacity := by omega
    rw [if_neg hf, h, List.rtake, List.rtake, List.length_append, List.length_singleton,
      Nat.sub_eq_zero_of_le hle, Nat.sub_eq_zero_of_le (by omega)]
    rfl

/-- Play begins at an instant, for the first time or after a pause. -/
structure Passage.Begins (x : Passage) (t : Nat) : Prop where
  waiting : x.before.game.phase = .waiting
  playing : x.after.game.phase = .playing
  now : x.move.now? = some t

/-- Play goes on. -/
def Passage.Plays (x : Passage) : Prop :=
  x.before.game.phase = .playing ∧ x.after.game.phase = .playing

/-- Play last began at an instant, and has gone on since. -/
def InPlaySince (h : List Passage) (t : Nat) : Prop :=
  ∃ before x since, h = before ++ x :: since ∧ x.Begins t ∧ ∀ y ∈ since, y.Plays

/-- The end of the last window, if there is one. -/
def lastStop (h : List Passage) : Nat := ((windows h).getLast?.map Window.stop).getD 0

/-- A window that is simulated in a passage goes from the start of play or, if that is later, from
the last window's end up to the instant of the tick. -/
structure Placed (before : List Passage) (x : Passage) (w : Window) : Prop where
  tick : x.move = .tick w.stop
  forward : w.start < w.stop
  played : w.played = w.arena.replay w.start w.stop w.inputs
  snapshot : w.snapshot = w.played.arena.snapshot w.snapshot.tick w.stop
  start : ∃ t, InPlaySince before t ∧ w.start = max t (lastStop before)

/-- The windows of a history follow each other in time, and so do their snapshots. -/
structure Timeline (pace : Pace) (h : List Passage) : Prop where
  numbered : (windows h).map (·.snapshot.tick) = List.range' 1 (windows h).length
  spaced : (windows h).Pairwise fun v w => v.snapshot.time + pace.tick ≤ w.snapshot.time
  disjoint : (windows h).Pairwise fun v w => v.stop ≤ w.start
  placed : Throughout (fun before x => ∀ w, x.window? = some w → Placed before x w) h

variable {h : List Passage} {x : Passage} {w : Window} {pace : Pace} {t clock : Nat}

theorem InPlaySince.snoc (hs : InPlaySince h t) (hx : x.Plays) : InPlaySince (h ++ [x]) t := by
  obtain ⟨before, y, since, rfl, hb, hp⟩ := hs
  refine ⟨before, y, since ++ [x], by simp, hb, fun z hz => ?_⟩
  rcases List.mem_append.mp hz with hz | hz
  · exact hp z hz
  · rw [List.mem_singleton.mp hz]
    exact hx

theorem Passage.Begins.inPlaySince (hx : x.Begins t) : InPlaySince (h ++ [x]) t :=
  ⟨h, x, [], rfl, hx, by simp⟩

theorem lastStop_le (hw : ∀ v ∈ windows h, v.stop ≤ t) : lastStop h ≤ t := by
  unfold lastStop
  cases hl : (windows h).getLast? with
  | none => exact Nat.zero_le _
  | some v => exact hw v (List.mem_of_getLast? hl)

/-- A snapshot that the players see of a window is taken at its end. -/
theorem Timeline.snapshot_time (ht : Timeline pace h) : ∀ v ∈ windows h,
    v.snapshot.time = v.stop := by
  intro v hv
  obtain ⟨x, hx, hw⟩ := List.mem_filterMap.mp hv
  obtain ⟨before, after, rfl⟩ := List.append_of_mem hx
  have := (ht.placed _ _ _ rfl v hw).snapshot
  rw [this]
  rfl

theorem Timeline.nil : Timeline pace [] := by
  refine ⟨rfl, ?_, ?_, .nil⟩ <;> simp [windows]

theorem Timeline.rest (ht : Timeline pace h) (hx : x.window? = none) :
    Timeline pace (h ++ [x]) := by
  refine ⟨?_, ?_, ?_, ht.placed.snoc fun w hw => by simp [hx] at hw⟩
  all_goals rw [windows_snoc_of_none hx]
  · exact ht.numbered
  · exact ht.spaced
  · exact ht.disjoint

/-- A window joins the others. -/
theorem Timeline.snoc (ht : Timeline pace h) (hx : x.window? = some w) (hp : Placed h x w)
    (hn : w.snapshot.tick = (windows h).length + 1) (hv : ∀ v ∈ windows h, v.stop ≤ w.start)
    (hs : w.start + pace.tick ≤ w.stop) : Timeline pace (h ++ [x]) := by
  have htime : w.snapshot.time = w.stop := by
    rw [hp.snapshot]
    rfl
  refine ⟨?_, ?_, ?_, ht.placed.snoc fun v hw => ?_⟩
  · rw [windows_snoc_of_some hx, List.map_append, ht.numbered, List.length_append,
      List.length_singleton, List.range'_1_concat, List.map_singleton, hn, Nat.add_comm 1]
  · rw [windows_snoc_of_some hx]
    refine List.pairwise_append.mpr ⟨ht.spaced, List.pairwise_singleton .., ?_⟩
    intro v hvm u hu
    rw [List.mem_singleton.mp hu, ht.snapshot_time v hvm, htime]
    have := hv v hvm
    omega
  · rw [windows_snoc_of_some hx]
    refine List.pairwise_append.mpr ⟨ht.disjoint, List.pairwise_singleton .., ?_⟩
    intro v hvm u hu
    rw [List.mem_singleton.mp hu]
    exact hv v hvm
  · rw [hx] at hw
    cases hw
    exact hp

namespace Play
variable {p q : Play} {now : Nat} {m : Move} {ms : List Move} {rules : Rules}

/-- A match that has not ended is on time: its stepper counts and keeps the snapshots of the windows
so far, and if it is in play the next window will begin where it should. -/
structure OnTime (rules : Rules) (clock : Nat) (h : List Passage) (p : Play) : Prop where
  pace : p.game.stepper.pace = rules.pace
  ticks : p.game.stepper.ticks = (windows h).length
  room : p.game.stepper.recent.capacity = max rules.pace.snapshots 1
  recent : p.game.stepper.recent.snapshots =
    ((windows h).map (·.snapshot)).rtake (max rules.pace.snapshots 1)
  past : ∀ v ∈ windows h, v.stop ≤ clock
  start : p.game.phase = .playing → p.game.stepper.lastTick ≤ clock ∧
    (∀ v ∈ windows h, v.stop ≤ p.game.stepper.lastTick) ∧
    ∃ t, InPlaySince h t ∧ p.game.stepper.lastTick = max t (lastStop h)

/-- What the stepper counts and keeps changes only by a window. -/
theorem OnTime.rest (ho : OnTime rules clock h p) {next : Nat} (hn : clock ≤ next)
    (hx : x.window? = none) (hs : ∃ lastTick startedAt,
      q.game.stepper = { p.game.stepper with lastTick, startedAt })
    (hstart : q.game.phase = .playing → q.game.stepper.lastTick ≤ next ∧
      (∀ v ∈ windows h, v.stop ≤ q.game.stepper.lastTick) ∧
      ∃ t, InPlaySince (h ++ [x]) t ∧ q.game.stepper.lastTick = max t (lastStop h)) :
    OnTime rules next (h ++ [x]) q := by
  obtain ⟨lastTick, startedAt, hs⟩ := hs
  have hl : lastStop (h ++ [x]) = lastStop h := by
    unfold lastStop
    rw [windows_snoc_of_none hx]
  refine ⟨?_, ?_, ?_, ?_, ?_, ?_⟩
  · rw [hs]
    exact ho.pace
  · rw [hs, windows_snoc_of_none hx]
    exact ho.ticks
  · rw [hs]
    exact ho.room
  · rw [hs, windows_snoc_of_none hx]
    exact ho.recent
  · rw [windows_snoc_of_none hx]
    intro v hv
    exact Nat.le_trans (ho.past v hv) hn
  · rw [windows_snoc_of_none hx, hl]
    exact hstart

/-- The stepper stays, and play goes on if it does at all. -/
theorem OnTime.same (ho : OnTime rules clock h p) {next : Nat} (hn : clock ≤ next)
    (hw : p.window? m = none) (hs : q.game.stepper = p.game.stepper)
    (hp : q.game.phase = .playing → p.game.phase = .playing) :
    OnTime rules next (h ++ [⟨p, m, q⟩]) q := by
  refine ho.rest hn hw ⟨_, _, hs⟩ fun hq => ?_
  obtain ⟨hc, hv, t, ht, hl⟩ := ho.start (hp hq)
  have hplays : (⟨p, m, q⟩ : Passage).Plays := ⟨hp hq, hq⟩
  rw [hs]
  exact ⟨Nat.le_trans hc hn, hv, t, ht.snoc hplays, hl⟩

/-- Play begins, for the first time or after a pause, and the next window begins there. -/
theorem OnTime.begin (ho : OnTime rules clock h p) (hn : clock ≤ now) (hm : m.now? = some now)
    (hw : p.game.phase = .waiting) (hs : q.game.stepper = p.game.stepper.start now)
    (hp : q.game.phase = .playing) : OnTime rules now (h ++ [⟨p, m, q⟩]) q := by
  have hwin : p.window? m = none := window?_of_ne (by simp [hw])
  have hb : (⟨p, m, q⟩ : Passage).Begins now := ⟨hw, hp, hm⟩
  have hv : ∀ v ∈ windows h, v.stop ≤ now := fun v hv => Nat.le_trans (ho.past v hv) hn
  have hl : q.game.stepper.lastTick = now := by
    rw [hs]
    rfl
  refine ho.rest hn hwin ⟨_, _, hs⟩ fun _ => ?_
  rw [hl]
  exact ⟨Nat.le_refl _, hv, now, hb.inPlaySince, (Nat.max_eq_left (lastStop_le hv)).symm⟩

/-- A window has been simulated. -/
theorem OnTime.tick (ho : OnTime rules clock h p) (hn : clock ≤ now)
    (hw : p.window? m = some (p.windowTo now)) (hplay : p.game.phase = .playing)
    (hs : q.game.stepper = p.game.stepper.stepped now p.game.arena p.game.logs)
    (hp : q.game.phase = .playing) : OnTime rules now (h ++ [⟨p, m, q⟩]) q := by
  have hwin : windows (h ++ [⟨p, m, q⟩]) = windows h ++ [p.windowTo now] :=
    windows_snoc_of_some hw
  have hv : ∀ v ∈ windows (h ++ [⟨p, m, q⟩]), v.stop ≤ now := by
    rw [hwin]
    intro v hv
    rcases List.mem_append.mp hv with hv | hv
    · exact Nat.le_trans (ho.past v hv) hn
    · rw [List.mem_singleton.mp hv]
      exact Nat.le_refl _
  have hroom := ho.room
  have hrecent := ho.recent
  rw [← hroom] at hrecent
  refine ⟨?_, ?_, ?_, ?_, hv, fun _ => ?_⟩
  · rw [hs]
    exact ho.pace
  · rw [hs, hwin, List.length_append, ← ho.ticks]
    rfl
  · rw [hs]
    simp only [Stepper.stepped, Recent.push]
    split <;> exact hroom
  · rw [hs, hwin, List.map_append, ← hroom]
    exact Recent.push_rtake hrecent (by omega) _
  · obtain ⟨hc, -, t, ht, hl⟩ := ho.start hplay
    have hplays : (⟨p, m, q⟩ : Passage).Plays := ⟨hplay, hp⟩
    have hlast : lastStop (h ++ [⟨p, m, q⟩]) = now := by simp [lastStop, hwin, windowTo]
    have hlt : q.game.stepper.lastTick = now := by
      rw [hs]
      rfl
    rw [hlt, hlast]
    refine ⟨Nat.le_refl _, hv, t, ht.snoc hplays, ?_⟩
    omega

/-- The window that a match on time simulates is where it should be. -/
theorem OnTime.placed (ho : OnTime rules clock h p) (ht : Timeline rules.pace h)
    (h1 : 1 ≤ rules.pace.tick) (hw : p.window? m = some w) :
    Timeline rules.pace (h ++ [⟨p, m, q⟩]) := by
  obtain ⟨now, rfl, hp, hgap, rfl⟩ := window?_eq_some hw
  rw [ho.pace] at hgap
  obtain ⟨-, hv, t, hs, hl⟩ := ho.start hp
  refine ht.snoc hw ⟨rfl, ?_, rfl, rfl, t, hs, hl⟩ ?_ hv ?_
  · simp only [windowTo]
    omega
  · rw [← ho.ticks]
    rfl
  · simp only [windowTo]
    omega

theorem onTime_step (hm : m.Ordinary) (hopen : Open p.game) (hs : Step p m q)
    (h1 : 1 ≤ rules.pace.tick) (hn : clock ≤ m.now?.getD clock) (ht : Timeline rules.pace h)
    (ho : OnTime rules clock h p) : Timeline rules.pace (h ++ [⟨p, m, q⟩]) ∧
      (q.game.phase ≠ .ended → OnTime rules (m.now?.getD clock) (h ++ [⟨p, m, q⟩]) q) := by
  constructor
  · cases hw : p.window? m with
    | none => exact ht.rest hw
    | some w => exact ho.placed ht h1 hw
  · intro hq
    cases course_step hm hopen hs with
    | rests hw _ ha hst hl hp _ => exact ho.same hn hw hst hp
    | @recorded side s hmr hqr =>
      obtain ⟨logs, hl⟩ := record_eq p side s
      subst hmr hqr
      rw [hl]
      exact ho.same hn rfl rfl id
    | begins hmj hw hg hr ha hst hl hp =>
      obtain ⟨side, rfl⟩ := hmj
      exact ho.begin hn rfl hw hst hp
    | resumes hmj hw hr ha hst hl hp =>
      obtain ⟨side, rfl⟩ := hmj
      exact ho.begin hn rfl hw hst hp
    | ticks hmt hw ha hp =>
      obtain ⟨hst, -, hplay⟩ := hp hq
      obtain ⟨-, -, hpp, -⟩ := window?_eq_some hw
      subst hmt
      exact ho.tick hn hw hpp hst hplay
    | ends hw hp => exact absurd hp hq

theorem onTime_start (fixture : Fixture) (rules : Rules) (seed : UInt64) (clock : Nat) :
    OnTime rules clock [] (start fixture rules seed now) := by
  refine ⟨?_, ?_, ?_, ?_, ?_, ?_⟩
  · simp [start, Stepper.ofPace]
  · simp [start, Stepper.ofPace, windows]
  · simp [start, Stepper.ofPace, Recent.withCapacity]
  · simp [start, Stepper.ofPace, Recent.withCapacity, windows]
  · simp [windows]
  · simp [start]

/-- If time never goes back, the windows that a match simulates follow each other without overlap,
each lies in one spell of play and ends with its tick, and their snapshots are numbered from one on
and no closer together than ticks may be. As long as it goes on, a match keeps the last of them. -/
theorem windows_form_timeline {fixture : Fixture} {seed : UInt64} (h1 : 1 ≤ rules.pace.tick)
    (hm : ∀ m ∈ ms, m.Ordinary) (hc : Clocked 0 ms)
    (hr : (start fixture rules seed now).run ms = .ok p) :
    Timeline rules.pace ((start fixture rules seed now).passages ms) ∧
      (p.game.phase ≠ .ended → p.game.stepper.recent.snapshots =
        ((windows ((start fixture rules seed now).passages ms)).map (·.snapshot)).rtake
          (max rules.pace.snapshots 1)) := by
  have hI : ∃ clock, Clocked clock [] ∧
      Timeline rules.pace ((start fixture rules seed now).passages ms) ∧
      (p.game.phase ≠ .ended →
        OnTime rules clock ((start fixture rules seed now).passages ms) p) := by
    refine passages_from_start (I := fun h ms p => ∃ clock, Clocked clock ms ∧
      Timeline rules.pace h ∧ (p.game.phase ≠ .ended → OnTime rules clock h p)) ?_ ?_
      ⟨0, hc, .nil, fun _ => onTime_start fixture rules seed 0⟩ hm hr
    · rintro h p m ms q hord ho hs ⟨clock, hcl, ht, hon⟩
      obtain ⟨hn, hrest⟩ := clocked_cons.mp hcl
      obtain ⟨htl, hnext⟩ := onTime_step hord ho hs h1 hn ht (hon ho.phase)
      exact ⟨_, hrest, htl, hnext⟩
    · rintro h p m ms logs he ⟨clock, hcl, ht, -⟩
      have hw : p.window? m = none := window?_of_ne (by simp [he])
      exact ⟨_, (clocked_cons.mp hcl).2, ht.rest hw, fun hne => absurd he hne⟩
  obtain ⟨clock, -, ht, hon⟩ := hI
  exact ⟨ht, fun he => (hon he).recent⟩

/-- A window before a pause and one after it, of which only the last snapshot is kept. -/
theorem windows_form_timeline_pause :
    ∃ ms p, ms = [.join .left 0, .join .right 10, .tick 50, .leave .left 500, .join .left 600,
        .tick 640] ∧ (start duel { pace := { snapshots := 0 } } 7 0).run ms = .ok p ∧
      (windows ((start duel { pace := { snapshots := 0 } } 7 0).passages ms)).map
        (fun w => (w.start, w.stop)) = [(10, 50), (600, 640)] ∧
      Timeline { snapshots := 0 } ((start duel { pace := { snapshots := 0 } } 7 0).passages ms) ∧
      p.game.stepper.recent.snapshots =
        ((windows ((start duel { pace := { snapshots := 0 } } 7 0).passages ms)).map
          (·.snapshot)).rtake 1 := by
  obtain ⟨p, hp, hw⟩ := exists_run (start duel { pace := { snapshots := 0 } } 7 0)
    [.join .left 0, .join .right 10, .tick 50, .leave .left 500, .join .left 600, .tick 640]
    (·.game.phase = .playing) (by decide +kernel)
  obtain ⟨ht, hk⟩ := windows_form_timeline (by decide) (by decide) (by decide) hp
  exact ⟨_, p, rfl, hp, by decide +kernel, ht, hk (by simp [hw])⟩

end Play
end Rally
