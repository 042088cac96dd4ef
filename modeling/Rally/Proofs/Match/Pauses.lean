import Rally.Proofs.Match.Forgiveness
import Rally.Proofs.Match.Limit

/-! Pauses: who has caused them, and for whom it counts that they are over. -/
namespace Rally

/-- Of the sides that are away, a deadline waits for those that have returns left. -/
def Match.Forgiving (g : Match) : Prop :=
  g.phase ≠ .ended → g.stepper.startedAt ≠ none → g.finishing = false →
    ∀ side, g.ready.get side = false →
      (g.Awaits (.reconnect side) ↔ g.returns.get side < g.rules.allowance)

theorem Match.Forgiving.of_eq {g new : Match} (hg : g.Forgiving) (phase : g.phase ≠ .ended)
    (started : new.stepper.startedAt ≠ none → g.stepper.startedAt ≠ none)
    (finishing : new.finishing = g.finishing) (ready : new.ready = g.ready)
    (pending : new.pending = g.pending) (returns : new.returns = g.returns)
    (rules : new.rules = g.rules) : new.Forgiving := by
  intro _ hs hf side hr
  rw [Match.Awaits, pending, returns, rules]
  rw [finishing] at hf
  rw [ready] at hr
  exact hg phase (started hs) hf side hr

theorem Match.forgiving_of_ready {g : Match} (h : ∀ side, g.ready.get side = true) :
    g.Forgiving := by
  intro _ _ _ side hr
  simp [h side] at hr

/-- The side whose leaving pauses play in a passage, if one does. -/
def Passage.pauser? (x : Passage) : Option Side :=
  match x.move with
  | .leave side _ =>
    if x.before.game.phase = .playing ∧ x.after.game.phase = .waiting then some side else none
  | _ => none

/-- Play begins or goes on. -/
def Passage.Resumes (x : Passage) : Prop :=
  x.before.game.phase = .waiting ∧ x.after.game.phase = .playing

instance (x : Passage) : Decidable x.Resumes := by
  unfold Passage.Resumes
  infer_instance

/-- The side that has paused play, if in a passage play goes on by a return that is counted for the
other side. -/
def Passage.relieved? (x : Passage) (pauser : Option Side) : Option Side :=
  pauser.filter fun side => x.Resumes ∧ x.completer? = some side.opponent

/-- The side whose coming lets play go on in a passage without the other side, of which no returns
are left. -/
def Passage.loner? (x : Passage) : Option Side :=
  match x.move with
  | .join side _ =>
    if x.Resumes ∧ x.before.game.ready.get side.opponent = false ∧
      x.before.game.rules.allowance ≤ x.before.game.returns.get side.opponent then some side
    else none
  | _ => none

/-- Those who have paused play, each time they have. -/
def pausers (h : List Passage) : List Side := h.filterMap Passage.pauser?

/-- Those who have paused play, each time it has gone on by a return that has been counted for the
other side. It is known who has paused play at first. -/
def relieved (pauser : Option Side) : List Passage → List Side
  | [] => []
  | x :: h => (x.relieved? pauser).toList ++ relieved (x.pauser?.or pauser) h

/-- Those who have come and played on alone, each time they have. -/
def loners (h : List Passage) : List Side := h.filterMap Passage.loner?

section Snoc
variable (h : List Passage) (x : Passage)

theorem pausers_snoc : pausers (h ++ [x]) = pausers h ++ x.pauser?.toList := by
  cases hx : x.pauser? <;> simp [pausers, hx]

theorem relieved_snoc (pauser : Option Side) : relieved pauser (h ++ [x]) =
    relieved pauser h ++ (x.relieved? ((pausers h).getLast?.or pauser)).toList := by
  induction h generalizing pauser with
  | nil => simp [relieved, pausers]
  | cons y h ih =>
    have hlast : (pausers (y :: h)).getLast?.or pauser =
        (pausers h).getLast?.or (y.pauser?.or pauser) := by
      have hcons : pausers (y :: h) = y.pauser?.toList ++ pausers h := by
        cases hy : y.pauser? <;> simp [pausers, hy]
      rw [hcons, List.getLast?_append, Option.or_assoc]
      cases y.pauser? <;> rfl
    rw [List.cons_append, relieved, ih, relieved, hlast, List.append_assoc]

end Snoc

namespace Play
variable {p q : Play} {now allowance : Nat} {m : Move} {ms : List Move} {i : Incident}
  {h : List Passage} {side : Side}

theorem forgiving_of_ended (h : q.game.phase = .ended) : q.game.Forgiving := by
  intro he
  exact absurd h he

theorem forgiving_of_finishing (h : q.game.finishing = true) : q.game.Forgiving := by
  intro _ _ hf
  simp [h] at hf

theorem forgiving_welcome (hp : p.game.Forgiving) (side : Side) :
    (p.welcome side).game.Forgiving := by
  intro he hs hf other hr
  rcases Sides.get_set_cases p.game.ready side true other with ⟨-, hset⟩ | ⟨hne, hset⟩
  · simp [hset] at hr
  · have := hp (by simpa using he) (by simpa using hs) (by simpa using hf) other
      (by simpa [hset] using hr)
    simpa [Match.Awaits, hne] using this

theorem forgiving_served (hp : p.game.Forgiving) (he : p.game.phase ≠ .ended)
    (h : Served now p q) : q.game.Forgiving := by
  obtain ⟨dice, direction, rfl⟩ := h
  exact hp.of_eq he id rfl rfl rfl rfl rfl

theorem forgiving_reply (he : p.game.phase ≠ .ended) (hp : p.game.Forgiving)
    (h : Reply p now i q) : q.game.Forgiving := by
  cases h with
  | hit => exact hp.of_eq he id rfl rfl rfl rfl rfl
  | wall | trigger | lateGoal | lateStuck => exact hp
  | stuck hf hs => exact forgiving_served hp he hs
  | @point scorer q hf hr hs =>
    have hsc : (p.scored scorer).game.Forgiving := hp.of_eq he id rfl rfl rfl rfl rfl
    exact forgiving_served hsc he hs
  | final => exact forgiving_of_ended (finish_phase ..)
  | celebrate => exact forgiving_of_finishing (by simp [lastGoal])

/-- A side that is not waited for when it leaves has no returns left. -/
theorem forgiving_left (ho : Open p.game) (hp : p.game.Forgiving)
    (hs : p.game.ready.get side = true)
    (hg : p.game.stepper.startedAt = none ∨ p.game.finishing = true ∨
      p.game.rules.allowance ≤ p.game.returns.get side) : (p.left side).game.Forgiving := by
  intro he hst hf other hr
  rcases Sides.get_set_cases p.game.ready side false other with ⟨rfl, -⟩ | ⟨-, hset⟩
  · have ha : p.game.rules.allowance ≤ p.game.returns.get other := by
      rcases hg with hg | hg | hg
      · exact absurd hg hst
      · exact absurd (hg.symm.trans hf) (by decide)
      · exact hg
    exact iff_of_false (ho.not_awaits hs) (Nat.not_lt.mpr ha)
  · exact hp he hst hf other (hset.symm.trans hr)

theorem forgiving_pause (hp : p.game.Forgiving) (he : p.game.phase ≠ .ended)
    (hg : p.game.stepper.startedAt ≠ none) (hf : p.game.finishing = false)
    (ha : p.game.returns.get side < p.game.rules.allowance) :
    ((p.left side).pause side now).game.Forgiving := by
  intro _ _ _ other hr
  rcases Sides.get_set_cases p.game.ready side false other with ⟨rfl, -⟩ | ⟨hne, hset⟩
  · refine iff_of_true ?_ ?_
    · simp [Match.Awaits]
    · simpa [left] using ha
  · have := hp he hg hf other (by simpa [left, hset] using hr)
    simpa [Match.Awaits, left, hne] using this

theorem forgiving_step (hm : m.Ordinary) (ho : Open p.game) (hp : p.game.Forgiving)
    (h : Step p m q) : q.game.Forgiving := by
  have he := ho.phase
  have hready := step_ready h
  have both {side : Side} {now : Nat} (hj : m = .join side now)
      (hr : p.game.ready.get side.opponent = true) : q.game.Forgiving := by
    subst hj
    refine Match.forgiving_of_ready ?_
    rw [Side.forall_iff side, hready]
    exact ⟨by simp [Move.attend], by simpa [Move.attend] using hr⟩
  cases h with
  | again | alone => exact forgiving_welcome hp _
  | @goOn side now q hs hn hw hu hq =>
    obtain ⟨-, hst, -⟩ := Match.unforgiven_iff.mp hu
    have hund : ((p.welcome side).underWay now
        "Opponent disconnected without forgiveness, match continues").game.Forgiving := by
      refine (forgiving_welcome hp side).of_eq ?_ ?_ (by simp) (by simp) (by simp)
        (by simp) (by simp)
      · simpa using he
      · simpa using fun _ => hst
    exact forgiving_served hund (by simp [underWay]) hq
  | begin hs hr | forced hs hr | unforgiven hs hr | back hs hr => exact both rfl hr
  | absent | stale | still => exact hp
  | left hs hg => exact forgiving_left ho hp hs hg
  | pause hs hg hf ha => exact forgiving_pause hp he hg hf ha
  | surrender | expired | finish => exact forgiving_of_ended (finish_phase ..)
  | startPassed | reconnectPassed | celebrated => exact forgiving_of_ended (finish_phase ..)
  | needless hid hd => exact (not_needless ho hid hd).elim
  | @stepped now q hx hw ht hq =>
    have hs : (p.stepped now).game.phase ≠ .ended := he
    have hfs : (p.stepped now).game.Forgiving := hp.of_eq he id rfl rfl rfl rfl rfl
    exact respondAll_invariant forgiving_reply hs hfs hq
  | close => exact absurd hm (by simp [Move.Ordinary])
  | @record other s =>
    obtain ⟨logs, hl⟩ := record_eq p other s
    rw [hl]
    exact hp.of_eq he id rfl rfl rfl rfl rfl

/-- What a move does to play and its pauses. -/
inductive Turn (p : Play) (m : Move) (q : Play) : Prop where
  /-- Play neither stops nor goes on again, unless the match has ended. -/
  | on (hw : q.game.phase = .waiting →
        p.game.phase = .waiting ∧ q.game.returns = p.game.returns)
      (hp : q.game.phase = .playing → p.game.phase = .playing)
  | pauses {side : Side} {now : Nat} (hm : m = .leave side now) (hp : p.game.phase = .playing)
      (hq : q.game.phase = .waiting) (hs : p.game.stepper.startedAt ≠ none)
      (ha : p.game.returns.get side < p.game.rules.allowance)
      (hr : q.game.returns = p.game.returns)
  | starts {side : Side} {now : Nat} (hm : m = .join side now)
      (hs : p.game.stepper.startedAt = none) (hp : q.game.phase = .playing)
  /-- The side for which a pause was made is back, and so is the other. -/
  | completes {side : Side} {now : Nat} (hm : m = .join side now)
      (hc : p.completer? m = some side) (hw : p.game.phase = .waiting)
      (hp : q.game.phase = .playing) (ha : p.game.returns.get side < p.game.rules.allowance)
  | alone {side : Side} {now : Nat} (hm : m = .join side now) (hc : p.completer? m = none)
      (hw : p.game.phase = .waiting) (hp : q.game.phase = .playing)
      (hn : p.game.ready.get side.opponent = false)
      (ha : p.game.rules.allowance ≤ p.game.returns.get side.opponent)

theorem turn_of_phase (hw : q.game.phase ≠ .waiting) (hp : p.game.phase ≠ .waiting)
    (he : p.game.phase ≠ .ended) : Turn p m q := by
  refine .on (fun h => absurd h hw) fun _ => ?_
  cases h : p.game.phase <;> simp_all

theorem turn_of_ended (h : q.game.phase = .ended) : Turn p m q :=
  .on (by simp [h]) (by simp [h])

theorem turn_step (hm : m.Ordinary) (ho : Open p.game) (hf : p.game.Forgiving) (h : Step p m q) :
    Turn p m q := by
  have he := ho.phase
  -- A side that comes to one that is there during a pause has been waited for.
  have waited {side : Side} (hw : p.game.phase = .waiting) (hs : p.game.stepper.startedAt ≠ none)
      (hn : p.game.ready.get side = false) (hr : p.game.ready.get side.opponent = true) :
      p.game.returns.get side < p.game.rules.allowance := by
    have ha := ho.reconnect.mpr ⟨hw, hs⟩
    rw [Side.exists_iff side] at ha
    have haside := ha.resolve_right (ho.not_awaits hr)
    exact (hf he hs (ho.not_finishing hw) side hn).mp haside
  cases h with
  | again | alone => exact .on (by simp) (by simp)
  | @goOn side now q hs hn hw hu hq =>
    have hp : q.game.phase = .playing := by
      obtain ⟨dice, direction, rfl⟩ := hq
      rfl
    obtain ⟨-, hst, hfin, hna⟩ := Match.unforgiven_iff.mp hu
    have ha : ¬ p.game.returns.get side.opponent < p.game.rules.allowance := by
      rwa [← hf he hst hfin side.opponent hn]
    exact .alone rfl (by simp [completer?, hn]) hw hp hn (Nat.not_lt.mp ha)
  | @begin side now q hs hr ha hw hq =>
    have hp : q.game.phase = .playing := by
      obtain ⟨dice, direction, rfl⟩ := hq
      rfl
    by_cases hst : p.game.stepper.startedAt = none
    · exact .starts rfl hst hp
    · exact .completes rfl (completer?_eq_some.mpr ⟨now, rfl, he, hs, hr⟩) hw hp
        (waited hw hst hs hr)
  | @forced side now hs hr ha hw =>
    by_cases hst : p.game.stepper.startedAt = none
    · exact .starts rfl hst rfl
    · have := waited hw hst hs hr
      omega
  | unforgiven hs hr ha hw | back hs hr ha hw => exact turn_of_phase (by simpa using hw) hw he
  | absent | left | stale | still => exact .on (fun hw => ⟨hw, rfl⟩) id
  | @pause side now hs hg hfin ha =>
    by_cases hp : p.game.phase = .playing
    · exact .pauses rfl hp (by simp [left, hp]) hg ha (by simp [left])
    · refine .on (fun hw => ?_) fun hq => ?_
      · exact ⟨by simpa [left, hp] using hw, by simp [left]⟩
      · simp [left, hp] at hq
  | surrender | expired | finish => exact turn_of_ended (finish_phase ..)
  | startPassed | reconnectPassed | celebrated => exact turn_of_ended (finish_phase ..)
  | needless hid hd => exact (not_needless ho hid hd).elim
  | @stepped now q hx hw ht hq =>
    have hs : (p.stepped now).game.phase ≠ .ended := he
    refine .on (fun hwait => ?_) fun _ => hw
    have := ((unmoved_respondAll hs hq).goesOn (by simp [hwait])).2.2
    simp [stepped, hw, hwait] at this
  | close => exact absurd hm (by simp [Move.Ordinary])
  | @record other s =>
    obtain ⟨logs, hl⟩ := record_eq p other s
    rw [hl]
    exact .on (fun hw => ⟨hw, rfl⟩) id

/-- How the pauses of a history compare with the returns that have been counted. -/
structure Balanced (allowance : Nat) (h : List Passage) (p : Play) : Prop where
  rules : p.game.rules.allowance = allowance
  forgiving : p.game.Forgiving
  /-- The side that has paused play had a return left, and keeps it as long as the pause lasts. -/
  pauser : ∀ side, (pausers h).getLast? = some side → p.game.stepper.startedAt ≠ none ∧
    (p.game.phase = .waiting → p.game.returns.get side < allowance)
  /-- Every pause is made up for, except one that lasts. -/
  balance : p.game.phase ≠ .ended → ∀ side, (pausers h).count side ≤
    p.game.returns.get side + (relieved none h).count side + (loners h).count side +
      if p.game.phase = .waiting ∧ (pausers h).getLast? = some side then 1 else 0
  bound : ∀ side, (pausers h).count side ≤
    allowance + (relieved none h).count side + (loners h).count side
  relieved : ∀ side, (relieved none h).count side ≤ p.game.returns.get side.opponent ∧
    (relieved none h).count side ≤ allowance

theorem balanced_start (fixture : Fixture) (rules : Rules) (seed : UInt64) :
    Balanced rules.allowance [] (start fixture rules seed now) := by
  refine ⟨by simp [start], ?_, ?_, ?_, ?_, ?_⟩
  · intro _ hs
    simp [start, Stepper.ofPace] at hs
  · intro side hl
    simp [pausers] at hl
  · intro _ side
    simp [pausers]
  · intro side
    simp [pausers]
  · intro side
    simp [Rally.relieved]

section Counts
variable (h : List Passage) (x : Passage) (side : Side)

theorem count_pausers_snoc : (pausers (h ++ [x])).count side =
    (pausers h).count side + if x.pauser? = some side then 1 else 0 := count_filterMap_snoc ..

theorem count_loners_snoc : (loners (h ++ [x])).count side =
    (loners h).count side + if x.loner? = some side then 1 else 0 := count_filterMap_snoc ..

theorem count_relieved_snoc : (relieved none (h ++ [x])).count side =
    (relieved none h).count side +
      if x.relieved? (pausers h).getLast? = some side then 1 else 0 := by
  rw [relieved_snoc, List.count_append, count_toList, Option.or_none]

theorem getLast?_pausers_snoc :
    (pausers (h ++ [x])).getLast? = x.pauser?.or (pausers h).getLast? := by
  rw [pausers_snoc, List.getLast?_append]
  cases x.pauser? <;> rfl

end Counts

/-- A side pauses play that goes on, and as one that has a return left. -/
theorem Turn.pauser (ht : Turn p m q) (hx : (⟨p, m, q⟩ : Passage).pauser? = some side) :
    p.game.phase = .playing ∧ q.game.phase = .waiting ∧ p.game.stepper.startedAt ≠ none ∧
      p.game.returns.get side < p.game.rules.allowance := by
  cases m with
  | leave other now =>
    simp only [Passage.pauser?] at hx
    split at hx
    · rename_i hg
      cases hx
      cases ht with
      | on hw => simp [(hw hg.2).1] at hg
      | pauses hm hp hq hs ha =>
        cases hm
        exact ⟨hp, hq, hs, ha⟩
      | starts hm | completes hm | alone hm => cases hm
    · cases hx
  | _ => cases hx

/-- A match that is paused has been paused before, or is paused by the side that leaves. -/
theorem Turn.waiting (ht : Turn p m q) (hq : q.game.phase = .waiting) :
    q.game.returns = p.game.returns ∧
      (p.game.phase = .waiting ∨ (⟨p, m, q⟩ : Passage).pauser?.isSome = true) := by
  cases ht with
  | on hw => exact ⟨(hw hq).2, .inl (hw hq).1⟩
  | pauses hm hp _ _ _ hret =>
    subst hm
    exact ⟨hret, .inr (by simp [Passage.pauser?, hp, hq])⟩
  | starts _ _ hp | completes _ _ _ hp | alone _ _ _ hp => simp [hq] at hp

/-- The other side has come back when the one that has paused play is relieved. -/
theorem Turn.relieved {pauser : Option Side} (ht : Turn p m q)
    (hx : (⟨p, m, q⟩ : Passage).relieved? pauser = some side) :
    pauser = some side ∧ p.completer? m = some side.opponent ∧
      (p.game.stepper.startedAt ≠ none →
        p.game.returns.get side.opponent < p.game.rules.allowance) := by
  rw [Passage.relieved?, Option.filter_eq_some_iff] at hx
  simp only [decide_eq_true_eq] at hx
  obtain ⟨hl, ⟨hpw, hqp⟩, hc⟩ := hx
  refine ⟨hl, hc, fun hst => ?_⟩
  cases ht with
  | on _ hp =>
    simp only at hpw hqp
    simp [hp hqp] at hpw
  | pauses _ hp => simp [hp] at hpw
  | starts hm hs => exact absurd hs hst
  | completes hm hcs hw hp ha =>
    obtain rfl := Option.some.inj (hcs.symm.trans hc)
    exact ha
  | alone hm hcn => exact absurd (hcn.symm.trans hc) (by simp)

/-- A pause that is over is made up for: the side that has made it has come back, has been relieved
by the other one, or plays on alone. -/
theorem Turn.resumed (ht : Turn p m q) (hw : p.game.phase = .waiting)
    (hp : q.game.phase = .playing) (hs : p.game.stepper.startedAt ≠ none)
    (ha : p.game.returns.get side < p.game.rules.allowance) :
    p.completer? m = some side ∨ (⟨p, m, q⟩ : Passage).relieved? (some side) = some side ∨
      (⟨p, m, q⟩ : Passage).loner? = some side := by
  have hx : (⟨p, m, q⟩ : Passage).Resumes := ⟨hw, hp⟩
  cases ht with
  | on _ h => simp [h hp] at hw
  | pauses _ hpp => simp [hpp] at hw
  | starts hm hn => exact absurd hn hs
  | @completes other now hm hc =>
    by_cases he : side = other
    · subst he
      exact .inl hc
    · refine .inr (.inl ?_)
      obtain rfl : other = side.opponent := Side.eq_opponent_of_ne fun h => he h.symm
      simp [Passage.relieved?, Passage.completer?, hx, hc]
  | @alone other now hm hc _ _ hn hspent =>
    by_cases he : side = other
    · subst he hm
      exact .inr (.inr (if_pos ⟨hx, hn, hspent⟩))
    · rw [← Side.eq_opponent_of_ne he] at hspent
      omega

/-- Play that has begun has begun for good. -/
theorem started_step (h : Step p m q) (hs : p.game.stepper.startedAt ≠ none) :
    q.game.stepper.startedAt ≠ none := by
  cases onset_step h with
  | same hst => rwa [hst]
  | begins _ _ _ hq =>
    rw [hq]
    simp [Stepper.start]

/-- What makes up for pauses is not lost. -/
theorem made_up_mono (hret : ∀ side, q.game.returns.get side =
      p.game.returns.get side + if p.completer? m = some side then 1 else 0) (side : Side) :
    p.game.returns.get side + (relieved none h).count side + (loners h).count side ≤
      q.game.returns.get side + (relieved none (h ++ [⟨p, m, q⟩])).count side +
        (loners (h ++ [⟨p, m, q⟩])).count side := by
  rw [count_relieved_snoc, count_loners_snoc, hret side]
  omega

section Balance
variable (hb : Balanced allowance h p) (ht : Turn p m q)
include hb ht

/-- The side that has paused play keeps its return, or is a new one that has a return left. -/
theorem pauser_waits (hst : p.game.stepper.startedAt ≠ none → q.game.stepper.startedAt ≠ none)
    (hl : (pausers (h ++ [⟨p, m, q⟩])).getLast? = some side) :
    q.game.stepper.startedAt ≠ none ∧
      (q.game.phase = .waiting → q.game.returns.get side < allowance) := by
  rw [getLast?_pausers_snoc] at hl
  cases hx : (⟨p, m, q⟩ : Passage).pauser? with
  | none =>
    rw [hx, Option.none_or] at hl
    obtain ⟨hs, ha⟩ := hb.pauser side hl
    refine ⟨hst hs, fun hq => ?_⟩
    obtain ⟨hr, hw | hsome⟩ := ht.waiting hq
    · rw [hr]
      exact ha hw
    · simp [hx] at hsome
  | some other =>
    rw [hx, Option.some_or] at hl
    obtain rfl := Option.some.inj hl
    obtain ⟨-, hq, hs, ha⟩ := ht.pauser hx
    refine ⟨hst hs, fun _ => ?_⟩
    rw [(ht.waiting hq).1, ← hb.rules]
    exact ha

theorem pausers_bounded (side : Side) : (pausers (h ++ [⟨p, m, q⟩])).count side ≤
    allowance + (relieved none (h ++ [⟨p, m, q⟩])).count side +
      (loners (h ++ [⟨p, m, q⟩])).count side := by
  have hspare := hb.rules
  have hold := hb.bound side
  rw [count_pausers_snoc, count_relieved_snoc, count_loners_snoc]
  by_cases hx : (⟨p, m, q⟩ : Passage).pauser? = some side
  · obtain ⟨hp, -, -, ha⟩ := ht.pauser hx
    have hbal := hb.balance (by simp [hp]) side
    rw [if_neg (by simp [hp])] at hbal
    rw [if_pos hx]
    omega
  · rw [if_neg hx]
    omega

section Returns
variable (hret : ∀ side, q.game.returns.get side =
  p.game.returns.get side + if p.completer? m = some side then 1 else 0)
include hret

theorem relieved_bounded (side : Side) :
    (relieved none (h ++ [⟨p, m, q⟩])).count side ≤ q.game.returns.get side.opponent ∧
      (relieved none (h ++ [⟨p, m, q⟩])).count side ≤ allowance := by
  have hspare := hb.rules
  obtain ⟨hr, ha⟩ := hb.relieved side
  rw [count_relieved_snoc, hret side.opponent]
  by_cases hx : (⟨p, m, q⟩ : Passage).relieved? (pausers h).getLast? = some side
  · obtain ⟨hl, hc, hlt⟩ := ht.relieved hx
    have := hlt (hb.pauser side hl).1
    rw [if_pos hx, if_pos hc]
    omega
  · rw [if_neg hx]
    omega

/-- The last pause is made up for once it is over. -/
theorem made_up (hw : p.game.phase = .waiting) (hp : q.game.phase = .playing)
    (hl : (pausers h).getLast? = some side) : (pausers h).count side ≤
      q.game.returns.get side + (relieved none (h ++ [⟨p, m, q⟩])).count side +
        (loners (h ++ [⟨p, m, q⟩])).count side := by
  have hold := hb.balance (by simp [hw]) side
  rw [if_pos ⟨hw, hl⟩] at hold
  obtain ⟨hs, ha⟩ := hb.pauser side hl
  rw [← hb.rules] at ha
  rw [count_relieved_snoc, count_loners_snoc, hret side, hl]
  rcases ht.resumed hw hp hs (ha hw) with hc | hc | hc
  · rw [if_pos hc]
    omega
  · rw [if_pos hc]
    omega
  · rw [if_pos hc]
    omega

/-- A new pause needs not be made up for yet, since it lasts. -/
theorem balance_of_pause {other : Side} (hx : (⟨p, m, q⟩ : Passage).pauser? = some other)
    (side : Side) : (pausers (h ++ [⟨p, m, q⟩])).count side ≤
      q.game.returns.get side + (relieved none (h ++ [⟨p, m, q⟩])).count side +
        (loners (h ++ [⟨p, m, q⟩])).count side +
        if q.game.phase = .waiting ∧ (pausers (h ++ [⟨p, m, q⟩])).getLast? = some side then 1
        else 0 := by
  obtain ⟨hp, hw, -⟩ := ht.pauser hx
  have hold := hb.balance (by simp [hp]) side
  have hmono := made_up_mono (h := h) hret side
  rw [if_neg (by simp [hp])] at hold
  rw [count_pausers_snoc, getLast?_pausers_snoc, hx, Option.some_or]
  by_cases heq : some other = some side
  · have hlasts : q.game.phase = .waiting ∧ some other = some side := ⟨hw, heq⟩
    rw [if_pos heq, if_pos hlasts]
    omega
  · rw [if_neg heq]
    omega

theorem balance_of_no_pause (hx : (⟨p, m, q⟩ : Passage).pauser? = none)
    (hp : p.game.phase ≠ .ended) (hq : q.game.phase ≠ .ended) (side : Side) :
    (pausers (h ++ [⟨p, m, q⟩])).count side ≤
      q.game.returns.get side + (relieved none (h ++ [⟨p, m, q⟩])).count side +
        (loners (h ++ [⟨p, m, q⟩])).count side +
        if q.game.phase = .waiting ∧ (pausers (h ++ [⟨p, m, q⟩])).getLast? = some side then 1
        else 0 := by
  have hold := hb.balance hp side
  have hmono := made_up_mono (h := h) hret side
  rw [count_pausers_snoc, getLast?_pausers_snoc, hx, Option.none_or, if_neg (by simp)]
  by_cases hlast : p.game.phase = .waiting ∧ (pausers h).getLast? = some side
  · obtain ⟨hw, hl⟩ := hlast
    by_cases hqw : q.game.phase = .waiting
    · -- The pause lasts on.
      have hlasts : q.game.phase = .waiting ∧ (pausers h).getLast? = some side := ⟨hqw, hl⟩
      rw [if_pos ⟨hw, hl⟩] at hold
      rw [if_pos hlasts]
      omega
    · have hqp : q.game.phase = .playing := by cases hphase : q.game.phase <;> simp_all
      have := made_up hb ht hret hw hqp hl
      omega
  · rw [if_neg hlast] at hold
    omega

end Returns
end Balance

/-- What a move does to play and to the counts of returns keeps the balance. -/
theorem Balanced.snoc (hb : Balanced allowance h p) (ht : Turn p m q)
    (hrules : q.game.rules = p.game.rules) (hf : q.game.Forgiving)
    (hst : p.game.stepper.startedAt ≠ none → q.game.stepper.startedAt ≠ none)
    (hret : ∀ side, q.game.returns.get side =
      p.game.returns.get side + if p.completer? m = some side then 1 else 0)
    (he : q.game.phase ≠ .ended → p.game.phase ≠ .ended) :
    Balanced allowance (h ++ [⟨p, m, q⟩]) q where
  rules := (congrArg _ hrules).trans hb.rules
  forgiving := hf
  pauser := fun _ hl => pauser_waits hb ht hst hl
  balance := by
    intro hq side
    cases hx : (⟨p, m, q⟩ : Passage).pauser? with
    | some other => exact balance_of_pause hb ht hret hx side
    | none => exact balance_of_no_pause hb ht hret hx (he hq) hq side
  bound := pausers_bounded hb ht
  relieved := relieved_bounded hb ht hret

theorem balanced_step (hm : m.Ordinary) (ho : Open p.game) (hb : Balanced allowance h p)
    (hs : Step p m q) : Balanced allowance (h ++ [⟨p, m, q⟩]) q := by
  exact hb.snoc (turn_step hm ho hb.forgiving hs) (step_rules hs)
    (forgiving_step hm ho hb.forgiving hs) (started_step hs) (count_step ho.phase hs)
    fun _ => ho.phase

/-- In every run, a side pauses play no more often than it may return, but for the pauses that end
without a return that is counted for it: those after which the other side, which has been away as
well, is the one that completes the pair, and those after which the side plays on alone while the
other one is away and has no returns left. There are no more of the first than the other side may
return. -/
theorem pauses_bounded_by_returns {fixture : Fixture} {rules : Rules} {seed : UInt64}
    (hm : ∀ m ∈ ms, m.Ordinary) (h : (start fixture rules seed now).run ms = .ok p) (side : Side) :
    (pausers ((start fixture rules seed now).passages ms)).count side ≤ rules.allowance +
        (relieved none ((start fixture rules seed now).passages ms)).count side +
        (loners ((start fixture rules seed now).passages ms)).count side ∧
      (relieved none ((start fixture rules seed now).passages ms)).count side ≤
        rules.allowance := by
  have hb : Balanced rules.allowance ((start fixture rules seed now).passages ms) p := by
    refine passages_from_start (I := fun h _ p => Balanced rules.allowance h p) ?_ ?_
      (balanced_start fixture rules seed) hm h
    · intro h p m ms q hord ho hs hb
      exact balanced_step hord ho hb hs
    · intro h p m ms logs he hb
      refine hb.snoc (turn_of_ended he) rfl (forgiving_of_ended he) id (fun side => ?_) id
      simp [completer?_of_ended he]
  exact ⟨hb.bound side, (hb.relieved side).2⟩

/-- One return is allowed. The right side has used it and is away, and each time the left side
leaves, play is paused until it is back, but no return of it is counted. -/
theorem pauses_bounded_by_returns_alone :
    ∃ rules ms p h, rules = { allowance := 1 } ∧
      ms = [.join .left 0, .join .right 10, .leave .right 20, .leave .left 30, .join .left 40,
        .leave .left 50, .join .left 60, .leave .left 70] ∧
      (start duel rules 7 0).run ms = .ok p ∧ h = (start duel rules 7 0).passages ms ∧
      pausers h = [.left, .left, .left] ∧ relieved none h = [] ∧ loners h = [.left, .left] ∧
      (pausers h).count .left ≤
        rules.allowance + (relieved none h).count .left + (loners h).count .left := by
  obtain ⟨p, hp, -⟩ := exists_run (start duel { allowance := 1 } 7 0)
    [.join .left 0, .join .right 10, .leave .right 20, .leave .left 30, .join .left 40,
      .leave .left 50, .join .left 60, .leave .left 70] (fun _ => True) (by decide +kernel)
  refine ⟨_, _, p, _, rfl, rfl, hp, rfl, ?_, ?_, ?_, ?_⟩
  · decide +kernel
  · decide +kernel
  · decide +kernel
  · exact (pauses_bounded_by_returns (by decide) hp .left).1

end Play
end Rally
