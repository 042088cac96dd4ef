import Rally.Proofs.Match.Steps

/-! A match ends once: both sides of its voice say so last, and then it is silent. -/
namespace Rally

/-- Whether a message tells the players that the match has ended. -/
def Notice.isEnding : Notice → Bool
  | .ended .. => true
  | _ => false

/-- Whether an announcement tells the system that the match has ended. -/
def Bulletin.isEnding : Bulletin → Bool
  | .finished .. => true
  | _ => false

namespace Play
variable {p q r : Play} {now : Nat} {m : Move} {ms : List Move} {i : Incident}

/-- How often the players have been told of the end. -/
def endingNotices (p : Play) : Nat := p.notices.countP Notice.isEnding

/-- How often the system has been told of the end. -/
def endingBulletins (p : Play) : Nat := p.bulletins.countP Bulletin.isEnding

/-- What has been said of the end of a match, in all that it has said since it was made. -/
structure SingleEnding (p : Play) : Prop where
  notices : p.endingNotices = if p.game.phase = .ended then 1 else 0
  bulletins : p.endingBulletins = p.endingNotices
  /-- Both are last, name one winner and one reason, and have the scores of the match. -/
  last : p.game.phase = .ended → ∃ winner reason,
    p.notices.getLast? = some (.ended winner p.game.scores reason p.game.fixture.kind
      p.game.fixture.tournament) ∧
    p.bulletins.getLast? = some (.finished p.game.fixture.id p.game.fixture.players
      p.game.scores winner reason p.game.hits p.game.fixture.isFinal)

/-- The match goes on, and nothing has been said of an end since. -/
structure Quiet (p q : Play) : Prop where
  phase : q.game.phase ≠ .ended
  notices : q.endingNotices = p.endingNotices
  bulletins : q.endingBulletins = p.endingBulletins

theorem Quiet.refl (hp : p.game.phase ≠ .ended) : Quiet p p := ⟨hp, rfl, rfl⟩

theorem Quiet.trans (hpq : Quiet p q) (hqr : Quiet q r) : Quiet p r :=
  ⟨hqr.phase, hqr.notices.trans hpq.notices, hqr.bulletins.trans hpq.bulletins⟩

/-- The match has gone on, and perhaps then come to its end. -/
def EndsAtMost (p q : Play) : Prop :=
  ∃ r, Quiet p r ∧ (q = r ∨ ∃ reason named, q = r.finish reason named)

theorem Quiet.endsAtMost (h : Quiet p q) : EndsAtMost p q := ⟨q, h, .inl rfl⟩

theorem Quiet.finish (h : Quiet p q) (reason : EndReason) (named : Option Side) :
    EndsAtMost p (q.finish reason named) := ⟨q, h, .inr ⟨reason, named, rfl⟩⟩

theorem Quiet.then (hpq : Quiet p q) (hqr : EndsAtMost q r) : EndsAtMost p r := by
  obtain ⟨s, hs, h⟩ := hqr
  exact ⟨s, hpq.trans hs, h⟩

/-- As long as the match has not ended, it has only gone on. -/
theorem EndsAtMost.quiet (h : EndsAtMost p q) (hq : q.game.phase ≠ .ended) : Quiet p q := by
  obtain ⟨r, hr, rfl | ⟨reason, named, rfl⟩⟩ := h
  · exact hr
  · exact absurd (finish_phase ..) hq

theorem Served.quiet (hp : p.game.phase ≠ .ended) (h : Served now p q) : Quiet p q := by
  obtain ⟨dice, direction, rfl⟩ := h
  exact ⟨hp, by simp [serveAlong, endingNotices, Notice.isEnding], rfl⟩

theorem Quiet.served (hpq : Quiet p q) (h : Served now q r) : EndsAtMost p r :=
  hpq.then (Served.quiet hpq.phase h).endsAtMost

theorem quiet_reply (hp : p.game.phase ≠ .ended) (h : Reply p now i q) : EndsAtMost p q := by
  have scored (scorer : Side) : Quiet p (p.scored scorer) :=
    ⟨hp, by simp [Play.scored, endingNotices, Notice.isEnding],
      by simp [Play.scored, endingBulletins, Bulletin.isEnding]⟩
  have last (scorer : Side) : Quiet p (p.scored scorer).lastGoal :=
    (scored scorer).trans ⟨hp, rfl, rfl⟩
  cases h with
  | hit | wall | trigger | lateGoal | lateStuck => exact Quiet.endsAtMost ⟨hp, rfl, rfl⟩
  | stuck hf hs => exact (Quiet.refl hp).served hs
  | point hf hr hs => exact (scored _).served hs
  | final hf hr hc => exact (last _).finish ..
  | @celebrate scorer hf hr hc =>
    refine (last scorer).then (Quiet.endsAtMost ⟨?_, ?_, ?_⟩)
    · simpa using (last scorer).phase
    · simp [endingNotices]
    · simp [endingBulletins]

theorem quiet_respondAll {is : List Incident} (hp : p.game.phase ≠ .ended)
    (h : p.respondAll now is = .ok q) : EndsAtMost p q := by
  refine respondAll_invariant ?_ hp (Quiet.refl hp).endsAtMost h
  intro r i s hr hpr hrs
  exact (hpr.quiet hr).then (quiet_reply hr hrs)

theorem quiet_welcome (hp : p.game.phase ≠ .ended) (side : Side) : Quiet p (p.welcome side) := by
  refine ⟨by simpa using hp, ?_, by simp [endingBulletins]⟩
  cases h : p.game.stepper.recent.latest? <;>
    simp [endingNotices, welcome_notices, h, Notice.isEnding, Match.joinedNotice, Snapshot.notice]

theorem quiet_paired (hp : p.game.phase ≠ .ended) (side : Side) : Quiet p (p.paired side) :=
  (quiet_welcome hp side).trans
    ⟨by simpa using hp, by simp [paired, endingNotices], by simp [paired, endingBulletins]⟩

theorem quiet_underWay (message : String) : Quiet p (p.underWay now message) := by
  refine ⟨by simp [underWay], ?_, ?_⟩
  · unfold underWay
    split <;> simp [endingNotices, Notice.isEnding]
  · unfold underWay
    split <;> rfl

theorem quiet_cancel (hp : p.game.phase ≠ .ended) (d : Deadline) : Quiet p (p.cancel d) :=
  ⟨by simpa using hp, by simp [endingNotices], by simp [endingBulletins]⟩

theorem quiet_pause (hp : p.game.phase ≠ .ended) (side : Side) : Quiet p (p.pause side now) := by
  refine ⟨?_, ?_, by simp [endingBulletins]⟩
  · rw [pause_game]
    split <;> simp [hp]
  · unfold pause
    split <;> simp [endingNotices, Notice.isEnding]

/-- Every move that does not end the match is quiet, and one that ends it is quiet until then and
does nothing afterwards. -/
theorem quiet_step (hp : p.game.phase ≠ .ended) (h : Step p m q) : EndsAtMost p q := by
  cases h with
  | again | alone => exact (quiet_welcome hp _).endsAtMost
  | goOn hs ho hw hu hq => exact ((quiet_welcome hp _).trans (quiet_underWay _)).served hq
  | begin hs ho ha hw hq => exact ((quiet_paired hp _).trans (quiet_underWay _)).served hq
  | @forced side now =>
    refine (quiet_paired hp side).then (Quiet.endsAtMost ⟨?_, ?_, ?_⟩)
    · simp [forced]
    · simp [forced, endingNotices, unforgivenNotice, Notice.isEnding]
    · rfl
  | @unforgiven side now =>
    refine (quiet_paired hp side).then (Quiet.endsAtMost ⟨?_, ?_, rfl⟩)
    · simpa using hp
    · simp [endingNotices, unforgivenNotice, Notice.isEnding]
  | back => exact (quiet_paired hp _).endsAtMost
  | absent | stale | still => exact (Quiet.refl hp).endsAtMost
  | left => exact Quiet.endsAtMost ⟨hp, rfl, rfl⟩
  | @pause side now =>
    have hl : Quiet p (p.left side) := ⟨hp, rfl, rfl⟩
    exact hl.then (quiet_pause hl.phase side).endsAtMost
  | needless => exact (quiet_cancel hp _).endsAtMost
  | surrender | expired | finish => exact (Quiet.refl hp).finish ..
  | startPassed | reconnectPassed | celebrated => exact (quiet_cancel hp _).finish ..
  | @stepped now q he hw ht hq =>
    have hs : Quiet p (p.stepped now) :=
      ⟨hp, by simp [stepped, endingNotices, Notice.isEnding, Snapshot.notice], rfl⟩
    exact hs.then (quiet_respondAll hs.phase hq)
  | close => exact Quiet.endsAtMost ⟨by rw [close_game]; split <;> exact hp,
      by simp [endingNotices], by simp [endingBulletins]⟩
  | @record side s =>
    obtain ⟨logs, hl⟩ := record_eq p side s
    rw [hl]
    exact Quiet.endsAtMost ⟨hp, rfl, rfl⟩

/-- Ending is the only word on the end. -/
theorem singleEnding_finish (hp : p.game.phase ≠ .ended) (hn : p.endingNotices = 0)
    (hb : p.endingBulletins = 0) (reason : EndReason) (named : Option Side) :
    SingleEnding (p.finish reason named) := by
  have hn' : (p.finish reason named).endingNotices = 1 := by
    simpa [endingNotices, finish_notices _ _ _ hp, endedNotice, Notice.isEnding] using hn
  have hb' : (p.finish reason named).endingBulletins = 1 := by
    simpa [endingBulletins, finish_bulletins _ _ _ hp, finishedBulletin, Bulletin.isEnding]
      using hb
  refine ⟨by simp [hn'], by rw [hb', hn'], fun _ => ?_⟩
  refine ⟨p.game.fixture.players.get ((p.game.verdict reason named).winner p.game.dice.side.1),
    reason, ?_, ?_⟩
  · simp [finish_notices _ _ _ hp, endedNotice]
  · simp [finish_bulletins _ _ _ hp, finishedBulletin]

/-- A single ending, after which timers and buffers have been given up. -/
structure Settled (p : Play) : Prop extends SingleEnding p where
  closed : p.game.phase = .ended → p.game.closed = true

theorem settled_start (fixture : Fixture) (rules : Rules) (seed : UInt64) (now : Nat) :
    Settled (start fixture rules seed now) := by
  have hw : (start fixture rules seed now).game.phase ≠ .ended := by simp [start]
  exact ⟨⟨by simp [endingNotices, start], by simp [endingBulletins, endingNotices, start],
    fun h => absurd h hw⟩, fun h => absurd h hw⟩

theorem settled_apply (hp : Settled p) (h : p.apply m = .ok q) : Settled q := by
  by_cases he : p.game.phase = .ended
  · obtain ⟨logs, rfl⟩ := apply_after_end he (hp.closed he) h
    exact ⟨⟨hp.notices, hp.bulletins, hp.last⟩, hp.closed⟩
  · have hn : p.endingNotices = 0 := by simpa [he] using hp.notices
    have hb : p.endingBulletins = 0 := hp.bulletins.trans hn
    obtain ⟨r, hr, rfl | ⟨reason, named, rfl⟩⟩ := quiet_step he (step_of_apply he h)
    · have hq : q.endingNotices = 0 := hr.notices.trans hn
      exact ⟨⟨by simp [hq, hr.phase], by rw [hr.bulletins, hb, hq], fun h => absurd h hr.phase⟩,
        fun h => absurd h hr.phase⟩
    · have hs := singleEnding_finish hr.phase (hr.notices.trans hn) (hr.bulletins.trans hb)
      exact ⟨hs reason named, fun _ => finish_closed r reason named hr.phase⟩

/-- A move is a step of a match that goes on, or changes at most the logs of one that has ended. -/
theorem Settled.step_or_over (hs : Settled p) (h : p.apply m = .ok q) :
    p.game.phase ≠ .ended ∧ Step p m q ∨
      p.game.phase = .ended ∧ ∃ logs, q = p.change fun g => { g with logs } := by
  by_cases he : p.game.phase = .ended
  · exact .inr ⟨he, apply_after_end he (hs.closed he) h⟩
  · exact .inl ⟨he, step_of_apply he h⟩

theorem settled_run {fixture : Fixture} {rules : Rules} {seed : UInt64}
    (h : (start fixture rules seed now).run ms = .ok p) : Settled p :=
  run_invariant (A := fun _ => True) (fun _ hp h => settled_apply hp h) (fun _ _ => trivial)
    (settled_start fixture rules seed now) h

/-- What the start has, what every admitted move of a match that has not ended keeps and what does
not depend on the logs, a whole run of admitted moves keeps. -/
theorem run_from_start {I : Play → Prop} {A : Move → Prop}
    {fixture : Fixture} {rules : Rules} {seed : UInt64}
    (step : ∀ {p m q}, A m → I p → p.game.phase ≠ .ended → Step p m q → I q)
    (log : ∀ {p} logs, I p → I (p.change fun g => { g with logs }))
    (hs : I (start fixture rules seed now)) (hA : ∀ m ∈ ms, A m)
    (h : (start fixture rules seed now).run ms = .ok p) : I p := by
  have hI : I p ∧ Settled p := by
    refine run_invariant (I := fun p => I p ∧ Settled p) ?_ hA
      ⟨hs, settled_start fixture rules seed now⟩ h
    intro p m q hm ⟨hp, hset⟩ hq
    refine ⟨?_, settled_apply hset hq⟩
    rcases hset.step_or_over hq with ⟨he, hst⟩ | ⟨-, logs, rfl⟩
    · exact step hm hp he hst
    · exact log logs hp
  exact hI.1

/-- In every run, whatever its moves, a match says once that it has ended, as its last word, and
from then on no move changes it or fails. Inputs still reach the logs. -/
theorem ends_once_then_silent {fixture : Fixture} {rules : Rules} {seed : UInt64}
    (h : (start fixture rules seed now).run ms = .ok p) :
    SingleEnding p ∧
      (p.game.phase = .ended →
        (∀ m, (∀ side s, m ≠ .record side s) → p.apply m = .ok p) ∧
        ∀ side s, ∃ logs, p.apply (.record side s) = .ok (p.change fun g => { g with logs })) := by
  have hs := settled_run h
  refine ⟨hs.toSingleEnding, fun he => ⟨fun m hm => ?_, fun side s => ?_⟩⟩
  · exact apply_of_ended he (hs.closed he) hm
  · obtain ⟨logs, hl⟩ := record_eq p side s
    exact ⟨logs, congrArg Except.ok hl⟩

/-- A match that ends while a side is away, after which the other gives up as well. -/
theorem ends_once_abandoned :
    ∃ p, (start duel {} 7 0).run [.join .left 0, .join .right 10, .leave .left 500,
        .alarm (.reconnect .left) 2, .surrender .right, .close] = .ok p ∧
      p.game.phase = .ended ∧ SingleEnding p ∧ p.apply (.join .left 600) = .ok p := by
  obtain ⟨p, hp, he⟩ := exists_run (start duel {} 7 0)
    [.join .left 0, .join .right 10, .leave .left 500, .alarm (.reconnect .left) 2,
      .surrender .right, .close] (·.game.phase = .ended) (by decide +kernel)
  have h := ends_once_then_silent hp
  exact ⟨p, hp, he, h.1, (h.2 he).1 _ (by simp)⟩

end Play
end Rally
