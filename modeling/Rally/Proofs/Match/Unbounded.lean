import Rally.Proofs.Match.Pauses

/-! Pauses without end: while one side is away and has no returns left, the other may leave and come
back as often as it likes, and each time play is paused. -/
namespace Rally

/-- The angles at which balls are served are in order and have a finite width. -/
def Params.Serves (params : Params) : Prop :=
  -params.serveAngle ≤ params.serveAngle ∧
    (0 < params.serveAngle →
      ((params.serveAngle - -params.serveAngle) / Dice.topFraction).isFinite = true)

instance : DecidablePred Params.Serves := fun params => by
  unfold Params.Serves
  infer_instance

example : ({} : Params).Serves := by decide +kernel

namespace Play
variable {p q : Play} {now allowance n : Nat} {there : Bool} {side : Side} {rules : Rules}

theorem serve_total (h : p.game.arena.params.Serves) (toward : Side) (now : Nat) :
    ∃ q, p.serve toward now = .ok q := by
  obtain ⟨hle, hfin⟩ := h
  have ha : ∃ roll, p.game.dice.angle p.game.arena.params.serveAngle = .ok roll := by
    unfold Dice.angle
    split
    · rename_i hpos
      exact ⟨_, if_pos (hfin hpos)⟩
    · exact ⟨_, rfl⟩
  obtain ⟨⟨angle, dice⟩, ha⟩ := ha
  unfold serve
  rw [ha]
  simp [bind, Except.bind, Arena.serve, Scalar.confine?, hle, pure, Except.pure]

theorem underWay_params (p : Play) (now : Nat) (message : String) :
    (p.underWay now message).game.arena.params = p.game.arena.params := by
  unfold underWay
  split
  · simp
  · rfl

theorem beginPlay_total (h : p.game.arena.params.Serves) (now : Nat) (message : String) :
    ∃ q, p.beginPlay now message = .ok q := by
  refine serve_total (p := (p.underWay now message).change _) ?_ _ now
  rw [change_game]
  rwa [← underWay_params p now message] at h

theorem complete_total (h : p.game.arena.params.Serves) (side : Side) (now : Nat) :
    ∃ q, p.complete side now = .ok q := by
  unfold complete
  simp only
  split
  · exact ⟨_, rfl⟩
  · split
    · exact beginPlay_total (by simpa using h) now _
    · exact ⟨_, rfl⟩

/-- Where every ball can be served, no joining fails. -/
theorem join_total (h : p.game.arena.params.Serves) (side : Side) (now : Nat) :
    ∃ q, p.join side now = .ok q := by
  have hw : (p.welcome side).game.arena.params.Serves := by simpa using h
  unfold join
  split
  · exact ⟨_, rfl⟩
  · simp only
    split
    · exact ⟨_, rfl⟩
    · split
      · exact complete_total hw side now
      · split
        · exact beginPlay_total hw now _
        · exact ⟨_, rfl⟩

/-- Play has been paused by a side that has left, and nothing else has changed. -/
structure Paused (side : Side) (p q : Play) : Prop where
  phase : q.game.phase = .waiting
  started : q.game.stepper.startedAt ≠ none
  finishing : q.game.finishing = false
  ready : q.game.ready = p.game.ready.set side false
  returns : q.game.returns = p.game.returns
  awaits : q.game.Awaits (.reconnect side.opponent) ↔ p.game.Awaits (.reconnect side.opponent)
  rules : q.game.rules = p.game.rules
  params : q.game.arena.params = p.game.arena.params

theorem paused_leave (hp : p.game.phase = .playing) (hs : p.game.stepper.startedAt ≠ none)
    (hf : p.game.finishing = false) (hr : p.game.ready.get side = true)
    (ha : p.game.returns.get side < p.game.rules.allowance) (now : Nat) :
    Paused side p (p.leave side now) := by
  have he : p.game.phase ≠ .ended := by simp [hp]
  have hstep := leave_step side now he
  generalize p.leave side now = q at hstep
  cases hstep with
  | absent hn => simp [hr] at hn
  | left _ hg =>
    have hge : p.game.rules.allowance ≤ p.game.returns.get side := by simpa [hs, hf] using hg
    omega
  | pause =>
    refine ⟨?_, ?_, ?_, ?_, ?_, ?_, ?_, ?_⟩
    · simp [left, hp]
    · simpa [left] using hs
    · simpa [left] using hf
    · simp [left]
    · simp [left]
    · simp [left, Match.Awaits]
    · simp [left]
    · simp [left]

/-- Play goes on with a side that has never completed the pair. The other one has done so `n` times,
and it is there or not. -/
structure Ongoing (side : Side) (allowance n : Nat) (there : Bool) (p : Play) : Prop where
  phase : p.game.phase = .playing
  started : p.game.stepper.startedAt ≠ none
  finishing : p.game.finishing = false
  here : p.game.ready.get side = true
  there : p.game.ready.get side.opponent = there
  own : p.game.returns.get side = 0
  other : p.game.returns.get side.opponent = n
  awaits : ∀ s, ¬ p.game.Awaits (.reconnect s)
  rules : p.game.rules.allowance = allowance
  serves : p.game.arena.params.Serves

theorem ongoing_underWay {message : String} (hf : p.game.finishing = false)
    (hh : p.game.ready.get side = true) (ht : p.game.ready.get side.opponent = there)
    (hown : p.game.returns.get side = 0) (hother : p.game.returns.get side.opponent = n)
    (ha : ∀ s, ¬ p.game.Awaits (.reconnect s)) (hr : p.game.rules.allowance = allowance)
    (hs : p.game.arena.params.Serves) (hq : Served now (p.underWay now message) q) :
    Ongoing side allowance n there q := by
  obtain ⟨dice, direction, rfl⟩ := hq
  refine ⟨rfl, underWay_startedAt p now message, ?_, ?_, ?_, ?_, ?_, ?_, ?_, ?_⟩
  · simpa [serveAlong] using hf
  · simpa [serveAlong] using hh
  · simpa [serveAlong] using ht
  · simpa [serveAlong] using hown
  · simpa [serveAlong] using hother
  · simpa [serveAlong, Match.Awaits] using ha
  · simpa [serveAlong] using hr
  · simpa [serveAlong, underWay_params] using hs

/-- The side that is there leaves, comes back and plays on alone, and no return is counted. -/
theorem Ongoing.alone (hp : Ongoing side allowance n false p) (ha : 0 < allowance) (now : Nat) :
    ∃ q, (p.leave side now).join side now = .ok q ∧ Paused side p (p.leave side now) ∧
      Ongoing side allowance n false q := by
  have hspare : p.game.returns.get side < p.game.rules.allowance := by
    rw [hp.own, hp.rules]
    exact ha
  have hr := paused_leave hp.phase hp.started hp.finishing hp.here hspare now
  generalize p.leave side now = r at hr
  have hserves : r.game.arena.params.Serves := by
    rw [hr.params]
    exact hp.serves
  have hother : r.game.ready.get side.opponent = false := by simpa [hr.ready] using hp.there
  have hun : ¬ r.game.Awaits (.reconnect side.opponent) := fun h => hp.awaits _ (hr.awaits.mp h)
  obtain ⟨q, hq⟩ := join_total hserves side now
  refine ⟨q, hq, hr, ?_⟩
  cases join_step (by simp [hr.phase]) hq with
  | again hs => simp [hr.ready] at hs
  | alone _ _ hw =>
    exact absurd ⟨hr.phase, Match.unforgiven_iff.mpr ⟨hother, hr.started, hr.finishing, hun⟩⟩ hw
  | goOn _ _ _ _ hsv =>
    refine ongoing_underWay ?_ ?_ ?_ ?_ ?_ ?_ ?_ ?_ hsv
    · simpa using hr.finishing
    · simp
    · simpa using hother
    · simpa [hr.returns] using hp.own
    · simpa [hr.returns] using hp.other
    · intro s h
      obtain ⟨hne, hs⟩ := awaits_welcome h
      rw [Side.eq_opponent_of_ne hne] at hs
      exact hun hs
    · simpa [hr.rules] using hp.rules
    · simpa using hserves
  | forced _ ho | begin _ ho | unforgiven _ ho | back _ ho => simp [hother] at ho

/-- The other side leaves and comes back, and its return is counted. -/
theorem Ongoing.returns (hp : Ongoing side allowance n true p) (hn : n < allowance) (now : Nat) :
    ∃ q, (p.leave side.opponent now).join side.opponent now = .ok q ∧
      Ongoing side allowance (n + 1) true q := by
  have hspare : p.game.returns.get side.opponent < p.game.rules.allowance := by
    rw [hp.other, hp.rules]
    exact hn
  have hr := paused_leave hp.phase hp.started hp.finishing hp.there hspare now
  generalize p.leave side.opponent now = r at hr
  have hserves : r.game.arena.params.Serves := by
    rw [hr.params]
    exact hp.serves
  have hhere : r.game.ready.get side = true := by simpa [hr.ready] using hp.here
  have hun : ¬ r.game.Awaits (.reconnect side) := by
    intro h
    have hold := hr.awaits.mp (by simpa using h)
    exact hp.awaits _ hold
  obtain ⟨q, hq⟩ := join_total hserves side.opponent now
  refine ⟨q, hq, ?_⟩
  cases join_step (by simp [hr.phase]) hq with
  | again hs => simp [hr.ready] at hs
  | alone _ ho | goOn _ ho => simp [hhere] at ho
  | forced _ _ hspent =>
    have h1 := hp.other
    have h2 := hp.rules
    rw [hr.returns, hr.rules] at hspent
    omega
  | unforgiven _ _ _ hw | back _ _ _ hw => exact absurd hr.phase hw
  | begin _ _ _ _ hsv =>
    refine ongoing_underWay ?_ ?_ ?_ ?_ ?_ ?_ ?_ ?_ hsv
    · simpa using hr.finishing
    · simpa using hhere
    · simp
    · simpa [hr.returns] using hp.own
    · simpa [hr.returns] using hp.other
    · intro s h
      obtain ⟨hne, hs⟩ := awaits_welcome (awaits_paired h)
      rw [Side.eq_opponent_of_ne hne, Side.opponent_opponent] at hs
      exact hun hs
    · simpa [hr.rules] using hp.rules
    · simpa using hserves

/-- The other side leaves for good when it has no returns left. -/
theorem Ongoing.deserted (hp : Ongoing side allowance n true p) (hn : allowance ≤ n) (now : Nat) :
    Ongoing side allowance n false (p.leave side.opponent now) := by
  have he : p.game.phase ≠ .ended := by simp [hp.phase]
  have hstep := leave_step side.opponent now he
  generalize p.leave side.opponent now = q at hstep
  cases hstep with
  | absent hs => simp [hp.there] at hs
  | left =>
    refine ⟨hp.phase, hp.started, hp.finishing, ?_, ?_, hp.own, hp.other, hp.awaits, hp.rules,
      hp.serves⟩
    · simpa [left] using hp.here
    · simp [left]
  | pause _ _ _ hlt =>
    have h1 := hp.other
    have h2 := hp.rules
    omega

/-- Two sides come, and play begins. -/
theorem ongoing_first (fixture : Fixture) (seed : UInt64) (ha : 0 < rules.allowance)
    (hs : rules.params.Serves) (side : Side) (made now : Nat) : ∃ q,
      (start fixture rules seed made).run [.join side now, .join side.opponent now] = .ok q ∧
        Ongoing side rules.allowance 1 true q := by
  have hready (s : Side) : (start fixture rules seed made).game.ready.get s = false := by
    cases s <;> rfl
  have hreturns (s : Side) : (start fixture rules seed made).game.returns.get s = 0 := by
    cases s <;> rfl
  have hnone (s : Side) : ¬ (start fixture rules seed made).game.Awaits (.reconnect s) := by
    intro h
    have hst := ((open_start fixture rules seed).reconnect.mp ⟨s, h⟩).2
    simp [start, Stepper.ofPace] at hst
  have hserves : (start fixture rules seed made).game.arena.params.Serves := by
    simpa [start, Arena.ofParams] using hs
  obtain ⟨p, hp⟩ := join_total hserves side now
  have hw : p = (start fixture rules seed made).welcome side := by
    cases join_step (by simp [start]) hp with
    | again | alone => rfl
    | goOn _ _ _ hu => simp [Match.unforgiven_iff, start, Stepper.ofPace] at hu
    | forced _ ho | begin _ ho | unforgiven _ ho | back _ ho => simp [hready] at ho
  have hfirst : p.game.ready.get side = true := by simp [hw]
  have hphase : p.game.phase = .waiting := by simp [hw, start]
  have hallow : p.game.rules = rules := by simp [hw, start]
  have hpserves : p.game.arena.params.Serves := by simpa [hw] using hserves
  have hzero (s : Side) : p.game.returns.get s = 0 := by simpa [hw] using hreturns s
  obtain ⟨q, hq⟩ := join_total hpserves side.opponent now
  refine ⟨q, run_cons.mpr ⟨p, hp, run_cons.mpr ⟨q, hq, rfl⟩⟩, ?_⟩
  cases join_step (by simp [hphase]) hq with
  | again hr => simp [hw, hready] at hr
  | alone _ ho | goOn _ ho => simp [hfirst] at ho
  | forced _ _ hspent =>
    rw [hzero, hallow] at hspent
    omega
  | unforgiven _ _ _ hn | back _ _ _ hn => exact absurd hphase hn
  | begin _ _ _ _ hsv =>
    refine ongoing_underWay ?_ ?_ ?_ ?_ ?_ ?_ ?_ ?_ hsv
    · simp [hw, start]
    · simpa using hfirst
    · simp
    · simpa using hzero side
    · simpa using hzero side.opponent
    · intro s h
      have hp := (awaits_welcome (awaits_paired h)).2
      rw [hw] at hp
      exact hnone s (awaits_welcome hp).2
    · simp [hallow]
    · simpa using hpserves

/-- As long as it has returns left, the other side may use them up. -/
theorem Ongoing.uses {k : Nat} (hp : Ongoing side allowance n true p) (hk : n + k = allowance)
    (now : Nat) : ∃ ms q, (∀ m ∈ ms, m.Ordinary) ∧ p.run ms = .ok q ∧
      Ongoing side allowance allowance true q := by
  induction k generalizing n p with
  | zero =>
    obtain rfl : n = allowance := hk
    exact ⟨[], p, by simp, rfl, hp⟩
  | succ k ih =>
    obtain ⟨r, hr, hnext⟩ := hp.returns (by omega) now
    obtain ⟨ms, q, hm, hq, hlast⟩ := ih hnext (by omega)
    refine ⟨.leave side.opponent now :: .join side.opponent now :: ms, q, ?_, ?_, hlast⟩
    · simpa [Move.Ordinary] using hm
    · exact run_cons.mpr ⟨_, rfl, run_cons.mpr ⟨r, hr, hq⟩⟩

/-- A side whose opponent is away for good pauses play as often as it likes. -/
theorem Ongoing.pauses (hp : Ongoing side allowance n false p) (ha : 0 < allowance)
    (now count : Nat) : ∃ ms q, (∀ m ∈ ms, m.Ordinary) ∧ p.run ms = .ok q ∧
      (pausers (p.passages ms)).count side = count := by
  induction count generalizing p with
  | zero => exact ⟨[], p, by simp, rfl, rfl⟩
  | succ count ih =>
    obtain ⟨r, hr, hpaused, hnext⟩ := hp.alone ha now
    obtain ⟨ms, q, hm, hq, hcount⟩ := ih hnext
    have hleave : p.apply (.leave side now) = .ok (p.leave side now) := rfl
    have hjoin : (p.leave side now).apply (.join side now) = .ok r := hr
    refine ⟨.leave side now :: .join side now :: ms, q, ?_, ?_, ?_⟩
    · simpa [Move.Ordinary] using hm
    · exact run_cons.mpr ⟨_, hleave, run_cons.mpr ⟨r, hjoin, hq⟩⟩
    · have hx : (⟨p, .leave side now, p.leave side now⟩ : Passage).pauser? = some side :=
        if_pos ⟨hp.phase, hpaused.phase⟩
      have hy : (⟨p.leave side now, .join side now, r⟩ : Passage).pauser? = none := rfl
      rw [passages_cons hleave, passages_cons hjoin, pausers, List.filterMap_cons_some hx,
        List.filterMap_cons_none hy, List.count_cons_self]
      exact congrArg (· + 1) hcount

/-- If the rules allow any returns at all, there is no limit to how often a side pauses play: none
to the pauses during which no return of it is counted. -/
theorem pauses_unbounded (fixture : Fixture) (seed : UInt64) (ha : 0 < rules.allowance)
    (hs : rules.params.Serves) (side : Side) (made count : Nat) :
    ∃ ms p, (∀ m ∈ ms, m.Ordinary) ∧ (start fixture rules seed made).run ms = .ok p ∧
      count ≤ (pausers ((start fixture rules seed made).passages ms)).count side := by
  obtain ⟨p, hp, hfirst⟩ := ongoing_first fixture seed ha hs side made made
  obtain ⟨us, q, hus, hq, hused⟩ := hfirst.uses (Nat.add_sub_cancel' ha) made
  obtain ⟨ms, r, hms, hr, hcount⟩ := (hused.deserted (Nat.le_refl _) made).pauses ha made count
  have hleave : q.run [.leave side.opponent made] = .ok (q.leave side.opponent made) := rfl
  have hgone := run_append.mpr ⟨p, hp, run_append.mpr ⟨q, hq, hleave⟩⟩
  refine ⟨_, r, ?_, run_append.mpr ⟨_, hgone, hr⟩, ?_⟩
  · simp only [List.mem_append]
    rintro m ((hm | hm | hm) | hm)
    · simp only [List.mem_cons, List.not_mem_nil, or_false] at hm
      rcases hm with rfl | rfl <;> trivial
    · exact hus m hm
    · rw [List.mem_singleton.mp hm]
      trivial
    · exact hms m hm
  · rw [passages_append hgone, ← hcount]
    exact ((List.sublist_append_right ..).filterMap _).count_le side

end Play
end Rally
