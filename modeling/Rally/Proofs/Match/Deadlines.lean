import Rally.Proofs.Match.Timing

/-! Which deadlines are set, in terms of what the match is waiting for. -/
namespace Rally

/-- A deadline is set. -/
def Match.Awaits (g : Match) (d : Deadline) : Prop := (g.pending.get d).isSome = true

/-- Nothing waits for a side that is away once play has begun. -/
theorem Match.unforgiven_iff {g : Match} {side : Side} : g.unforgiven side = true ↔
    g.ready.get side = false ∧ g.stepper.startedAt ≠ none ∧ g.finishing = false ∧
      ¬ g.Awaits (.reconnect side) := by
  simp [Match.unforgiven, Match.Awaits, Option.isSome_iff_ne_none, and_assoc]

/-- Why a match ends when a deadline passes. -/
def Deadline.reason : Deadline → EndReason
  | .celebration => .scoreLimit
  | _ => .disconnection

/-- Which deadlines of a match are set. -/
structure Deadlines (g : Match) : Prop where
  start : g.Awaits .start ↔ g.phase ≠ .ended ∧ g.stepper.startedAt = none
  unready : g.Awaits .start → g.bothReady = false
  reconnect : (∃ side, g.Awaits (.reconnect side)) ↔
    g.phase = .waiting ∧ g.stepper.startedAt ≠ none
  away : ∀ side, g.Awaits (.reconnect side) → g.ready.get side = false
  celebration : g.Awaits .celebration ↔ g.finishing = true ∧ g.phase ≠ .ended
  ended : g.phase = .ended → (∀ d, ¬ g.Awaits d) ∧ g.timers.live = []

/-- What holds of a match from its start to its end, as long as it is closed by its end only. -/
structure Open (g : Match) : Prop where
  phase : g.phase ≠ .ended
  closed : g.closed = false
  start : g.Awaits .start ↔ g.stepper.startedAt = none
  unready : g.stepper.startedAt = none → g.bothReady = false
  reconnect : (∃ side, g.Awaits (.reconnect side)) ↔
    g.phase = .waiting ∧ g.stepper.startedAt ≠ none
  away : ∀ side, g.Awaits (.reconnect side) → g.ready.get side = false
  celebration : g.Awaits .celebration ↔ g.finishing = true
  started : g.phase = .playing → g.stepper.startedAt ≠ none
  playing : g.finishing = true → g.phase = .playing

/-- What holds of a match after its end. -/
structure Over (g : Match) : Prop where
  phase : g.phase = .ended
  awaits : ∀ d, ¬ g.Awaits d
  live : g.timers.live = []

theorem Open.deadlines {g : Match} (h : Open g) : Deadlines g := by
  refine ⟨?_, fun hs => h.unready (h.start.mp hs), h.reconnect, h.away, ?_, ?_⟩
  · simpa [h.phase] using h.start
  · simpa [h.phase] using h.celebration
  · intro he
    exact absurd he h.phase

theorem Over.deadlines {g : Match} (h : Over g) : Deadlines g := by
  refine ⟨?_, fun hs => absurd hs (h.awaits _), ?_, fun side hs => absurd hs (h.awaits _), ?_,
    fun _ => ⟨h.awaits, h.live⟩⟩
  · simp [h.awaits, h.phase]
  · simp [h.awaits, h.phase]
  · simp [h.awaits, h.phase]

/-- What a match waits for depends on little of it. -/
theorem Open.of_eq {g new : Match} (h : Open g) (phase : new.phase = g.phase)
    (closed : new.closed = g.closed) (pending : new.pending = g.pending)
    (started : new.stepper.startedAt = g.stepper.startedAt) (ready : new.ready = g.ready)
    (finishing : new.finishing = g.finishing) : Open new := by
  have hb : new.bothReady = g.bothReady := by simp [Match.bothReady, ready]
  have ha (d : Deadline) : new.Awaits d ↔ g.Awaits d := by simp [Match.Awaits, pending]
  refine ⟨?_, ?_, ?_, ?_, ?_, ?_, ?_, ?_, ?_⟩
  · exact phase ▸ h.phase
  · exact closed ▸ h.closed
  · rw [ha, started]
    exact h.start
  · rw [started, hb]
    exact h.unready
  · simp only [ha, phase, started]
    exact h.reconnect
  · simp only [ha, ready]
    exact h.away
  · rw [ha, finishing]
    exact h.celebration
  · rw [phase, started]
    exact h.started
  · rw [phase, finishing]
    exact h.playing

/-- Before the end, no deadline waits for a side that is there. -/
theorem Open.not_awaits {g : Match} (h : Open g) {side : Side} (hr : g.ready.get side = true) :
    ¬ g.Awaits (.reconnect side) := by
  intro ha
  have := h.away side ha
  simp [hr] at this

/-- During a pause no goal has been the last. -/
theorem Open.not_finishing {g : Match} (h : Open g) (hw : g.phase = .waiting) :
    g.finishing = false := by
  by_contra hf
  have := h.playing (by simpa using hf)
  simp [hw] at this

theorem Open.playing_of_ne {g : Match} (h : Open g) (hw : g.phase ≠ .waiting) :
    g.phase = .playing := by
  have := h.phase
  cases hp : g.phase <;> simp_all

/-- While play goes on, at most the end of a celebration is waited for. -/
theorem Open.of_playing {g : Match} (hph : g.phase = .playing) (hst : g.stepper.startedAt ≠ none)
    (hcl : g.closed = false) (hs : ¬ g.Awaits .start) (hr : ∀ side, ¬ g.Awaits (.reconnect side))
    (hc : g.Awaits .celebration ↔ g.finishing = true) : Open g := by
  refine ⟨by simp [hph], hcl, by simp [hs, hst], fun h => absurd h hst, ?_, ?_, hc, fun _ => hst,
    fun _ => hph⟩
  · simp [hr, hph]
  · intro side h
    exact absurd h (hr side)

namespace Play
variable {p q : Play} {now : Nat} {m : Move} {ms : List Move} {i : Incident}

/-- The timers stand for the deadlines, which are those that the match needs. -/
def Covered (p : Play) : Prop := Timed p ∧ (Open p.game ∨ Over p.game)

theorem open_start (fixture : Fixture) (rules : Rules) (seed : UInt64) :
    Open (start fixture rules seed now).game := by
  have hr (side : Side) : ¬ (start fixture rules seed now).game.Awaits (.reconnect side) := by
    cases side <;> simp [Match.Awaits, start] <;> rfl
  refine ⟨?_, ?_, ?_, ?_, ?_, ?_, ?_, ?_, ?_⟩
  · simp [start]
  · simp [start]
  · simp [Match.Awaits, start, Stepper.ofPace]
  · simp [Match.bothReady, start, Sides.both]
  · simpa [start, Stepper.ofPace] using hr
  · intro side h
    exact absurd h (hr side)
  · simp [Match.Awaits, start]
    rfl
  · simp [start]
  · simp [start]

theorem covered_finish (hp : p.game.phase ≠ .ended) (hc : p.game.closed = false) (ht : Timed p)
    (reason : EndReason) (named : Option Side) : Covered (p.finish reason named) := by
  have hpend : (p.finish reason named).game.pending = {} := by
    rw [finish_game p reason named hp, close_game, if_neg (by simp [hc])]
  have hnone (d : Deadline) : ¬ (p.finish reason named).game.Awaits d := by
    unfold Match.Awaits
    rw [hpend]
    cases d with
    | reconnect side => cases side <;> simp [Pending.get, Sides.get, Sides.both]
    | _ => simp [Pending.get]
  have htimed := timed_finish ht reason named
  have hlive : (p.finish reason named).game.timers.live = [] := by
    refine List.eq_nil_iff_forall_not_mem.mpr fun x hx => ?_
    have := htimed.stands x hx
    exact hnone x.deadline (by simp [Match.Awaits, this])
  exact ⟨htimed, .inr ⟨finish_phase .., hnone, hlive⟩⟩

/-- One side comes, whom no deadline need wait for any more, and the other is still waited for. -/
theorem open_welcome {side : Side} (hp : Open p.game)
    (hb : p.game.ready.get side = true ∨ p.game.ready.get side.opponent = false)
    (hw : p.game.phase = .waiting → p.game.stepper.startedAt ≠ none →
      p.game.Awaits (.reconnect side.opponent)) : Open (p.welcome side).game := by
  have hr := hp.reconnect
  have ha := hp.away
  rw [Side.exists_iff side] at hr
  rw [Side.forall_iff side] at ha
  refine ⟨?_, ?_, ?_, ?_, ?_, ?_, ?_, ?_, ?_⟩
  · simpa using hp.phase
  · simpa using hp.closed
  · simpa [Match.Awaits] using hp.start
  · intro hs
    have := hp.unready (by simpa using hs)
    rw [welcome_bothReady]
    rw [bothReady_eq _ side] at this
    rcases hb with hb | hb
    · simpa [hb] using this
    · exact hb
  · rw [Side.exists_iff side]
    have hn : ¬ (p.welcome side).game.Awaits (.reconnect side) := by simp [Match.Awaits]
    have ho : (p.welcome side).game.Awaits (.reconnect side.opponent) ↔
        p.game.Awaits (.reconnect side.opponent) := by simp [Match.Awaits]
    rw [or_iff_right hn, ho, welcome_game]
    constructor
    · intro h
      exact hr.mp (.inr h)
    · rintro ⟨hph, hst⟩
      exact hw hph hst
  · rw [Side.forall_iff side]
    simpa [Match.Awaits] using ha.2
  · simpa [Match.Awaits] using hp.celebration
  · simpa using hp.started
  · simpa using hp.playing

theorem open_again {side : Side} (hp : Open p.game) (hs : p.game.ready.get side = true) :
    Open (p.welcome side).game := by
  refine open_welcome hp (.inl hs) fun hw hst => ?_
  have hr := hp.reconnect.mpr ⟨hw, hst⟩
  rw [Side.exists_iff side] at hr
  exact hr.resolve_left (hp.not_awaits hs)

theorem open_alone {side : Side} (hp : Open p.game)
    (ho : p.game.ready.get side.opponent = false)
    (hw : ¬ (p.game.phase = .waiting ∧ p.game.unforgiven side.opponent = true)) :
    Open (p.welcome side).game := by
  refine open_welcome hp (.inr ho) fun hph hst => ?_
  by_contra ha
  exact hw ⟨hph, Match.unforgiven_iff.mpr ⟨ho, hst, hp.not_finishing hph, ha⟩⟩

theorem open_underWay {message : String} (hp : p.game.closed = false)
    (hs : ¬ p.game.Awaits .start) (hr : ∀ side, ¬ p.game.Awaits (.reconnect side))
    (hc : p.game.Awaits .celebration ↔ p.game.finishing = true) :
    Open (p.underWay now message).game := by
  refine .of_playing rfl (underWay_startedAt p now message) ?_ ?_ ?_ ?_ <;>
    unfold underWay <;> split <;> assumption

/-- When both sides are there, no deadline waits for a side. -/
theorem paired_awaits {side : Side} (hp : Open p.game)
    (ho : p.game.ready.get side.opponent = true) :
    ¬ (p.paired side).game.Awaits .start ∧
      (∀ s, ¬ (p.paired side).game.Awaits (.reconnect s)) ∧
      ((p.paired side).game.Awaits .celebration ↔ (p.paired side).game.finishing = true) := by
  refine ⟨?_, ?_, ?_⟩
  · simp [Match.Awaits]
  · rw [Side.forall_iff side]
    refine ⟨by simp [Match.Awaits], ?_⟩
    simpa [Match.Awaits] using hp.not_awaits ho
  · simpa [Match.Awaits] using hp.celebration

theorem open_served (hp : Open p.game) (h : Served now p q) : Open q.game := by
  obtain ⟨dice, direction, rfl⟩ := h
  exact hp.of_eq rfl rfl rfl rfl rfl rfl

theorem open_goOn {side : Side} {message : String} (hp : Open p.game)
    (hu : p.game.unforgiven side.opponent = true) :
    Open ((p.welcome side).underWay now message).game := by
  obtain ⟨-, hst, -, hn⟩ := Match.unforgiven_iff.mp hu
  refine open_underWay (by simpa using hp.closed) ?_ ?_ ?_
  · have hs : ¬ p.game.Awaits .start := fun ha => hst (hp.start.mp ha)
    simpa [Match.Awaits] using hs
  · rw [Side.forall_iff side]
    simpa [Match.Awaits] using hn
  · simpa [Match.Awaits] using hp.celebration

theorem open_forced {side : Side} (hp : Open p.game)
    (ho : p.game.ready.get side.opponent = true) : Open (p.forced side now).game := by
  obtain ⟨hs, hr, hc⟩ := paired_awaits hp ho
  refine .of_playing rfl ?_ ?_ hs hr hc
  · simp [forced, Stepper.start]
  · simpa [forced] using hp.closed

theorem open_paired {side : Side} (hp : Open p.game)
    (ho : p.game.ready.get side.opponent = true) (hw : p.game.phase ≠ .waiting) :
    Open (p.paired side).game := by
  have hph := hp.playing_of_ne hw
  obtain ⟨hs, hr, hc⟩ := paired_awaits hp ho
  refine .of_playing ?_ ?_ ?_ hs hr hc
  · simpa using hph
  · simpa using hp.started hph
  · simpa using hp.closed

theorem open_left (hp : Open p.game) (side : Side) : Open (p.left side).game := by
  refine ⟨hp.phase, hp.closed, hp.start, ?_, hp.reconnect, ?_, hp.celebration, hp.started,
    hp.playing⟩
  · intro _
    simp [bothReady_eq _ side, left]
  · rw [Side.forall_iff side]
    refine ⟨fun _ => by simp [left], ?_⟩
    intro h
    have := hp.away side.opponent h
    simpa [left] using this

theorem open_pause {side : Side} (hp : Open p.game) (hr : p.game.ready.get side = false)
    (hg : p.game.stepper.startedAt ≠ none) (hf : p.game.finishing = false) :
    Open (p.pause side now).game := by
  have hph : (p.pause side now).game.phase = .waiting := by
    have := hp.phase
    cases h : p.game.phase <;> simp_all
  have ha (d : Deadline) (hd : d ≠ .reconnect side) :
      (p.pause side now).game.Awaits d ↔ p.game.Awaits d := by
    simp [Match.Awaits, hd]
  have hs : (p.pause side now).game.Awaits (.reconnect side) := by simp [Match.Awaits]
  have hst : (p.pause side now).game.stepper.startedAt = p.game.stepper.startedAt := by simp
  have hrd : (p.pause side now).game.ready = p.game.ready := by simp
  have hfi : (p.pause side now).game.finishing = p.game.finishing := by simp
  refine ⟨?_, by simpa using hp.closed, ?_, ?_, ?_, ?_, ?_, ?_, ?_⟩
  · rw [hph]
    decide
  · rw [ha .start (by simp), hp.start, hst]
  · intro h
    exact absurd (hst.symm.trans h) hg
  · rw [hph, hst]
    exact iff_of_true ⟨side, hs⟩ ⟨rfl, hg⟩
  · rw [Side.forall_iff side, hrd, ha (.reconnect side.opponent) (by simp)]
    exact ⟨fun _ => hr, hp.away side.opponent⟩
  · rw [ha .celebration (by simp), hp.celebration, hfi]
  · intro h
    exact absurd (hph.symm.trans h) (by decide)
  · intro h
    exact absurd (hfi.symm.trans h) (by simp [hf])

/-- A deadline that has passed was waiting for something that has not come. -/
theorem not_needless {d : Deadline} {id : Nat} (hp : Open p.game)
    (h : p.game.pending.get d = some id)
    (hd : d = .start ∧ p.game.bothReady = true ∨
      ∃ side, d = .reconnect side ∧ p.game.ready.get side = true) : False := by
  have ha : p.game.Awaits d := by simp [Match.Awaits, h]
  obtain ⟨rfl, hb⟩ | ⟨side, rfl, hr⟩ := hd
  · have := hp.unready (hp.start.mp ha)
    simp [hb] at this
  · exact hp.not_awaits hr ha

/-- While play goes on, or when it has ended the match, the deadlines are right. -/
def CoveredInPlay (p : Play) : Prop :=
  Timed p ∧ (Open p.game ∧ p.game.phase = .playing ∨ Over p.game)

theorem CoveredInPlay.covered (h : CoveredInPlay p) : Covered p := by
  obtain ⟨ht, ⟨ho, -⟩ | ho⟩ := h
  · exact ⟨ht, .inl ho⟩
  · exact ⟨ht, .inr ho⟩

theorem CoveredInPlay.of_open (ht : Timed p) (ho : Open p.game) (hw : p.game.phase = .playing) :
    CoveredInPlay p := ⟨ht, .inl ⟨ho, hw⟩⟩

theorem Covered.inPlay (h : Covered p) (hw : p.game.phase ≠ .waiting) : CoveredInPlay p := by
  obtain ⟨ht, ho | ho⟩ := h
  · exact ⟨ht, .inl ⟨ho, ho.playing_of_ne hw⟩⟩
  · exact ⟨ht, .inr ho⟩

/-- The celebration of the last goal has a deadline of its own. -/
theorem open_celebrate {scorer : Side} {delay : Nat} (hp : Open p.game)
    (hw : p.game.phase = .playing) :
    Open ((p.scored scorer).lastGoal.schedule .celebration now delay).game := by
  have hr (side : Side) : ¬ p.game.Awaits (.reconnect side) := by
    intro ha
    have := hp.reconnect.mp ⟨side, ha⟩
    simp [hw] at this
  have hs : ¬ p.game.Awaits .start := by
    intro ha
    exact hp.started hw (hp.start.mp ha)
  refine .of_playing ?_ ?_ ?_ ?_ ?_ ?_
  · simpa [lastGoal, scored] using hw
  · simpa [lastGoal, scored] using hp.started hw
  · simpa [lastGoal, scored] using hp.closed
  · simpa [Match.Awaits, lastGoal, scored] using hs
  · intro side
    simpa [Match.Awaits, lastGoal, scored] using hr side
  · simp [Match.Awaits, lastGoal]

theorem covered_reply (he : p.game.phase ≠ .ended) (hp : CoveredInPlay p)
    (h : Reply p now i q) : CoveredInPlay q := by
  obtain ⟨ht, ⟨ho, hw⟩ | ho⟩ := hp
  · have hq : Timed q := timed_reply ht h
    cases h with
    | hit | wall | trigger | lateGoal | lateStuck =>
      exact .of_open hq (ho.of_eq rfl rfl rfl rfl rfl rfl) hw
    | stuck hf hs =>
      obtain ⟨dice, direction, rfl⟩ := hs
      exact .of_open hq (open_served ho ⟨dice, direction, rfl⟩) hw
    | @point scorer q hf hr hs =>
      obtain ⟨dice, direction, rfl⟩ := hs
      have hsc : Open (p.scored scorer).game := ho.of_eq rfl rfl rfl rfl rfl rfl
      exact .of_open hq (open_served hsc ⟨dice, direction, rfl⟩) hw
    | @final scorer =>
      have hl : Timed (p.scored scorer).lastGoal := ht
      have hf := covered_finish (p := (p.scored scorer).lastGoal) he ho.closed hl .scoreLimit none
      exact hf.inPlay (by simp)
    | celebrate =>
      exact .of_open hq (open_celebrate ho hw) (by simpa [lastGoal, scored] using hw)
  · exact absurd ho.phase he

/-- What is waited for is right after a move if it was before. Nothing that has not ended is closed
by anything but its end. -/
theorem covered_step (hm : m.Ordinary) (he : p.game.phase ≠ .ended) (hp : Covered p)
    (h : Step p m q) : Covered q := by
  obtain ⟨ht, ho | ho⟩ := hp
  · have hq : Timed q := timed_step ht h
    have ends (d : Deadline) (reason : EndReason) :
        Covered ((p.cancel d).finish reason none) := by
      refine covered_finish ?_ ?_ (timed_cancel ht d) reason none
      · simpa using he
      · simpa using ho.closed
    cases h with
    | again hs => exact ⟨hq, .inl (open_again ho hs)⟩
    | alone hs hn hw => exact ⟨hq, .inl (open_alone ho hn hw)⟩
    | goOn hs hn hw hu hsv => exact ⟨hq, .inl (open_served (open_goOn ho hu) hsv)⟩
    | forced hs hr => exact ⟨hq, .inl (open_forced ho hr)⟩
    | @begin side now q hs hr ha hw hsv =>
      obtain ⟨hst, hrc, hc⟩ := paired_awaits ho hr
      exact ⟨hq, .inl (open_served (open_underWay (by simpa using ho.closed) hst hrc hc) hsv)⟩
    | unforgiven hs hr ha hw => exact ⟨hq, .inl (open_paired ho hr hw)⟩
    | back hs hr ha hw => exact ⟨hq, .inl (open_paired ho hr hw)⟩
    | absent | stale | still => exact ⟨hq, .inl ho⟩
    | left => exact ⟨hq, .inl (open_left ho _)⟩
    | @pause side now hs hg hf =>
      exact ⟨hq, .inl (open_pause (open_left ho side) (by simp [left]) hg hf)⟩
    | surrender | expired | finish => exact covered_finish he ho.closed ht ..
    | needless hid hd => exact (not_needless ho hid hd).elim
    | startPassed | reconnectPassed | celebrated => exact ends ..
    | @stepped now q hx hw htk hr =>
      have hin : CoveredInPlay (p.stepped now) := .of_open ht
        (ho.of_eq rfl rfl rfl rfl rfl rfl) hw
      have hs : (p.stepped now).game.phase ≠ .ended := he
      exact (respondAll_invariant covered_reply hs hin hr).covered
    | close => exact absurd hm (by simp [Move.Ordinary])
    | @record side s =>
      obtain ⟨logs, hl⟩ := record_eq p side s
      rw [hl] at hq ⊢
      exact ⟨hq, .inl (ho.of_eq rfl rfl rfl rfl rfl rfl)⟩
  · exact absurd ho.phase he

theorem covered_start (fixture : Fixture) (rules : Rules) (seed : UInt64) :
    Covered (start fixture rules seed now) :=
  ⟨timed_start fixture rules seed, .inl (open_start fixture rules seed)⟩

theorem covered_logs (hp : Covered p) (logs : Sides InputLog) :
    Covered (p.change fun g => { g with logs }) := by
  obtain ⟨ht, ho | ho⟩ := hp
  · exact ⟨ht, .inl (ho.of_eq rfl rfl rfl rfl rfl rfl)⟩
  · exact ⟨ht, .inr ⟨ho.phase, ho.awaits, ho.live⟩⟩

theorem covered_run {fixture : Fixture} {rules : Rules} {seed : UInt64}
    (hm : ∀ m ∈ ms, m.Ordinary) (h : (start fixture rules seed now).run ms = .ok p) :
    Covered p :=
  run_from_start (A := Move.Ordinary) (fun hm hp he hs => covered_step hm he hp hs)
    (fun logs hp => covered_logs hp logs) (covered_start fixture rules seed) hm h

/-- Before the end of a match, the timer that stands for a deadline ends it when it fires. -/
theorem alarm_eq (ho : Open p.game) {d : Deadline} {id : Nat}
    (hid : p.game.pending.get d = some id) :
    p.alarm d id = (p.cancel d).finish d.reason none := by
  have hs := alarm_step d id ho.phase
  generalize p.alarm d id = q at hs
  cases hs with
  | stale h =>
    rcases h with h | h
    · simp [ho.closed] at h
    · exact absurd hid h
  | needless hid hd => exact (not_needless ho hid hd).elim
  | startPassed | reconnectPassed | celebrated => rfl

/-- The timer of a deadline runs, and ends the match when it fires. -/
theorem alarm_ends (ht : Timed p) (ho : Open p.game) {d : Deadline} (ha : p.game.Awaits d) :
    ∃ t ∈ p.game.timers.live, t.deadline = d ∧ (p.alarm t.deadline t.id).game.phase = .ended := by
  obtain ⟨id, hid⟩ := Option.isSome_iff_exists.mp ha
  obtain ⟨t, hl, hd, hti⟩ := ht.runs hid
  refine ⟨t, hl, hd, ?_⟩
  rw [hd, hti, alarm_eq ho hid]
  exact finish_phase ..

/-- The deadlines that are set are those that the match needs. While it waits for a side, there is a
timer that ends it when it fires. -/
theorem waits_with_deadline {fixture : Fixture} {rules : Rules} {seed : UInt64}
    (hm : ∀ m ∈ ms, m.Ordinary) (h : (start fixture rules seed now).run ms = .ok p) :
    Deadlines p.game ∧
      (p.game.phase = .waiting →
        ∃ t ∈ p.game.timers.live, (p.alarm t.deadline t.id).game.phase = .ended) := by
  obtain ⟨ht, ho | ho⟩ := covered_run hm h
  · refine ⟨ho.deadlines, fun hw => ?_⟩
    have hd : ∃ d, p.game.Awaits d := by
      by_cases hs : p.game.stepper.startedAt = none
      · exact ⟨.start, ho.start.mpr hs⟩
      · obtain ⟨side, ha⟩ := ho.reconnect.mpr ⟨hw, hs⟩
        exact ⟨.reconnect side, ha⟩
    obtain ⟨d, ha⟩ := hd
    obtain ⟨t, hl, -, he⟩ := alarm_ends ht ho ha
    exact ⟨t, hl, he⟩
  · refine ⟨ho.deadlines, fun hw => ?_⟩
    simp [ho.phase] at hw

/-- Both sides are away during a pause, and only one of them has returns left. -/
theorem waits_with_deadline_both_away :
    ∃ p, (start duel { allowance := 1 } 7 0).run
        [.join .left 0, .join .right 10, .leave .left 500, .leave .right 600] = .ok p ∧
      p.game.phase = .waiting ∧ p.game.ready = .both false ∧ Deadlines p.game ∧
      ∃ t ∈ p.game.timers.live, (p.alarm t.deadline t.id).game.phase = .ended := by
  obtain ⟨p, hp, hw, hr⟩ := exists_run (start duel { allowance := 1 } 7 0)
    [.join .left 0, .join .right 10, .leave .left 500, .leave .right 600]
    (fun p => p.game.phase = .waiting ∧ p.game.ready = .both false) (by decide +kernel)
  obtain ⟨hd, ha⟩ := waits_with_deadline (by decide) hp
  exact ⟨p, hp, hw, hr, hd, ha hw⟩

end Play
end Rally
