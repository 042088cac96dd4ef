import Rally.Proofs.Arena.Stops
import Rally.Proofs.Match.Ball
import Rally.Proofs.Match.Following
import Rally.Proofs.Match.Passages

/-! Scores and hits are what happened to the ball, no more and no less, and so
is all talk of them. -/
namespace Rally

def Incident.scorer? : Incident → Option Side
  | .goal scorer => some scorer
  | _ => none

def Notice.score? : Notice → Option (Side × Scores)
  | .score scorer scores => some (scorer, scores)
  | _ => none

def Bulletin.score? : Bulletin → Option (Uuid × Scores)
  | .score id scores => some (id, scores)
  | _ => none

namespace Scores

/-- One more point for a side. -/
def raise (s : Scores) (scorer : Side) : Scores := s.modify scorer (· + 1)

/-- The scores after each goal of some, with its scorer. -/
def standings (s : Scores) : List Side → List (Side × Scores)
  | [] => []
  | g :: gs => (g, s.raise g) :: standings (s.raise g) gs

theorem standings_append (s : Scores) (gs hs : List Side) :
    s.standings (gs ++ hs) = s.standings gs ++ (gs.foldl raise s).standings hs := by
  induction gs generalizing s with
  | nil => rfl
  | cons g gs ih => simp [standings, ih]

theorem get_raise (s : Scores) (scorer side : Side) :
    (s.raise scorer).get side = s.get side + if scorer == side then 1 else 0 := by
  cases scorer <;> cases side <;> rfl

theorem get_foldl_raise (s : Scores) (gs : List Side) (side : Side) :
    (gs.foldl raise s).get side = s.get side + gs.count side := by
  induction gs generalizing s with
  | nil => rfl
  | cons g gs ih =>
    rw [List.foldl_cons, ih, get_raise, List.count_cons]
    omega

theorem reach_iff (s : Scores) (n : Nat) : s.reach n = true ↔ ∃ side, n ≤ s.get side := by
  rw [Side.exists_iff .left]
  simp [reach, Sides.get, Side.opponent]

end Scores

/-- What has happened in all windows of a history. -/
def happened (h : List Passage) : List Incident := (windows h).flatMap (·.played.incidents)

/-- What happens in a passage. -/
def Passage.incidents (x : Passage) : List Incident :=
  x.window?.toList.flatMap (·.played.incidents)

theorem happened_append (h g : List Passage) : happened (h ++ g) = happened h ++ happened g := by
  simp [happened, windows]

theorem happened_snoc (h : List Passage) (x : Passage) :
    happened (h ++ [x]) = happened h ++ x.incidents := by
  rw [happened, windows_snoc, List.flatMap_append]
  rfl

/-- Those who have scored, goal by goal. -/
def scorers (is : List Incident) : List Side := is.filterMap Incident.scorer?

theorem scorers_of_none {i : Incident} (hi : i.scorer? = none) : scorers [i] = [] := by
  simp [scorers, hi]

theorem count_scorers (is : List Incident) (side : Side) :
    (scorers is).count side = is.count (.goal side) := by
  induction is with
  | nil => rfl
  | cons i is ih =>
    have hcons : scorers (i :: is) = i.scorer?.toList ++ scorers is := by
      cases hi : i.scorer? <;> simp [scorers, hi]
    rw [hcons, List.count_append, ih, ← List.singleton_append, List.count_append]
    cases i with
    | goal scorer => cases scorer <;> cases side <;> rfl
    | _ => rfl

namespace Play
variable {p q r : Play} {now win : Nat} {m : Move} {ms : List Move} {i : Incident}
  {is js : List Incident}

/-- By the way from one state to another, some incidents have been credited: each goal and each hit
once, and nothing else, and the goals have been made known. -/
structure Credited (p : Play) (is : List Incident) (q : Play) : Prop where
  scores : q.game.scores = (scorers is).foldl Scores.raise p.game.scores
  hits : ∀ side, q.game.hits.get side = p.game.hits.get side + is.count (.hit side)
  fixture : q.game.fixture = p.game.fixture
  notices : q.notices.filterMap Notice.score? =
    p.notices.filterMap Notice.score? ++ p.game.scores.standings (scorers is)
  bulletins : q.bulletins.filterMap Bulletin.score? = p.bulletins.filterMap Bulletin.score? ++
    (p.game.scores.standings (scorers is)).map fun t => (p.game.fixture.id, t.2)

theorem Credited.trans (hpq : Credited p is q) (hqr : Credited q js r) :
    Credited p (is ++ js) r := by
  have hsc : scorers (is ++ js) = scorers is ++ scorers js := List.filterMap_append
  refine ⟨?_, ?_, hqr.fixture.trans hpq.fixture, ?_, ?_⟩
  · rw [hqr.scores, hpq.scores, hsc, List.foldl_append]
  · intro side
    rw [hqr.hits, hpq.hits, List.count_append, Nat.add_assoc]
  · rw [hqr.notices, hpq.notices, hpq.scores, hsc, Scores.standings_append, List.append_assoc]
  · rw [hqr.bulletins, hpq.bulletins, hpq.scores, hpq.fixture, hsc, Scores.standings_append,
      List.map_append, List.append_assoc]

/-- Nothing has been counted, and what has been said is about something else. -/
theorem Credited.none_of {said : List Notice} {made : List Bulletin}
    (hs : q.game.scores = p.game.scores) (hh : q.game.hits = p.game.hits)
    (hf : q.game.fixture = p.game.fixture) (hn : q.notices = p.notices ++ said)
    (hns : ∀ n ∈ said, n.score? = none) (hb : q.bulletins = p.bulletins ++ made)
    (hbs : ∀ b ∈ made, b.score? = none) : Credited p [] q := by
  refine ⟨hs, ?_, hf, ?_, ?_⟩
  · intro side
    rw [hh]
    rfl
  · rw [hn, List.filterMap_append, List.filterMap_eq_nil_iff.mpr hns]
    rfl
  · rw [hb, List.filterMap_append, List.filterMap_eq_nil_iff.mpr hbs]
    rfl

theorem Credited.said {n : Notice} (hs : q.game.scores = p.game.scores)
    (hh : q.game.hits = p.game.hits) (hf : q.game.fixture = p.game.fixture)
    (hn : q.notices = p.notices ++ [n]) (hns : n.score? = none)
    (hb : q.bulletins = p.bulletins) : Credited p [] q := by
  have hb' : q.bulletins = p.bulletins ++ [] := by simpa using hb
  exact .none_of hs hh hf hn (by simpa using hns) hb' (by simp)

theorem Credited.silent (hs : q.game.scores = p.game.scores) (hh : q.game.hits = p.game.hits)
    (hf : q.game.fixture = p.game.fixture) (hn : q.notices = p.notices)
    (hb : q.bulletins = p.bulletins) : Credited p [] q := by
  have hn' : q.notices = p.notices ++ [] := by simpa using hn
  have hb' : q.bulletins = p.bulletins ++ [] := by simpa using hb
  exact .none_of hs hh hf hn' (by simp) hb' (by simp)

/-- An incident that is no goal changes at most the hits. -/
theorem Credited.uncounted (hi : i.scorer? = none) (hs : q.game.scores = p.game.scores)
    (hf : q.game.fixture = p.game.fixture) (hn : q.notices = p.notices)
    (hb : q.bulletins = p.bulletins)
    (hh : ∀ side, q.game.hits.get side = p.game.hits.get side + [i].count (.hit side)) :
    Credited p [i] q := by
  refine ⟨?_, hh, hf, ?_, ?_⟩
  · rw [scorers_of_none hi]
    exact hs
  · rw [scorers_of_none hi, hn]
    simp [Scores.standings]
  · rw [scorers_of_none hi, hb]
    simp [Scores.standings]

theorem Credited.refl (p : Play) : Credited p [] p := .silent rfl rfl rfl rfl rfl

theorem credited_welcome (p : Play) (side : Side) : Credited p [] (p.welcome side) := by
  have hb : (p.welcome side).bulletins = p.bulletins ++ [] := by simp
  refine .none_of (by simp) (by simp) (by simp) (p.welcome_notices side) ?_ hb (by simp)
  cases p.game.stepper.recent.latest? <;>
    simp [Notice.score?, Match.joinedNotice, Snapshot.notice]

theorem credited_paired (p : Play) (side : Side) : Credited p [] (p.paired side) := by
  have hp : Credited (p.welcome side) [] (p.paired side) :=
    .silent (by simp) (by simp) (by simp) (by simp [paired]) (by simp [paired])
  exact (credited_welcome p side).trans hp

theorem credited_underWay (p : Play) (now : Nat) (message : String) :
    Credited p [] (p.underWay now message) := by
  have hn : (p.underWay now message).notices = p.notices ++ [.started now message] := by
    unfold underWay
    split <;> rfl
  refine .said ?_ ?_ ?_ hn rfl ?_ <;> unfold underWay <;> split <;> rfl

theorem Served.credited (h : Served now p q) : Credited p [] q := by
  obtain ⟨dice, direction, rfl⟩ := h
  exact .said rfl rfl rfl rfl rfl rfl

theorem credited_cancel (p : Play) (d : Deadline) : Credited p [] (p.cancel d) :=
  .silent (by simp) (by simp) (by simp) (by simp) (by simp)

theorem credited_finish (p : Play) (reason : EndReason) (named : Option Side) :
    Credited p [] (p.finish reason named) := by
  by_cases he : p.game.phase = .ended
  · rw [finish_of_ended p reason named he]
    exact .refl p
  · exact .none_of (by simp) (by simp) (by simp) (finish_notices _ _ _ he)
      (by simp [endedNotice, Notice.score?]) (finish_bulletins _ _ _ he)
      (by simp [finishedBulletin, Bulletin.score?])

theorem credited_left (p : Play) (side : Side) : Credited p [] (p.left side) :=
  .silent rfl rfl rfl rfl rfl

theorem credited_logs (p : Play) (logs : Sides InputLog) :
    Credited p [] (p.change fun g => { g with logs }) := .silent rfl rfl rfl rfl rfl

theorem credited_pause (p : Play) (side : Side) (now : Nat) : Credited p [] (p.pause side now) := by
  by_cases hw : p.game.phase = .playing
  · have hn : (p.pause side now).notices =
        p.notices ++ [.stopped "Opponent disconnected, waiting for reconnection"] := by
      simp [pause, hw]
    exact .said (by simp) (by simp) (by simp) hn rfl (by simp)
  · exact .silent (by simp) (by simp) (by simp) (by simp [pause, hw]) (by simp)

/-- Where a match stands that `win` points win: both sides are below that, or just one of them has
reached it and the ball rests for good. -/
structure Racing (win : Nat) (p : Play) : Prop where
  rules : p.game.rules.winScore = win
  below : p.game.finishing = false → ∀ side, p.game.scores.get side < win
  won : p.game.finishing = true → ∃ side, p.game.scores.get side = win ∧
    p.game.scores.get side.opponent < win
  rests : p.game.finishing = true → ¬ p.game.arena.ball.Live

/-- The race depends on the scores, and on the ball only once it has been won. -/
theorem Racing.of_eq (hp : Racing win p) (hr : q.game.rules = p.game.rules)
    (hs : q.game.scores = p.game.scores) (hf : q.game.finishing = p.game.finishing)
    (hb : p.game.finishing = true → ¬ p.game.arena.ball.Live → ¬ q.game.arena.ball.Live) :
    Racing win q := by
  refine ⟨?_, ?_, ?_, ?_⟩
  · rw [hr]
    exact hp.rules
  · rw [hf, hs]
    exact hp.below
  · rw [hf, hs]
    exact hp.won
  · rw [hf]
    exact fun h => hb h (hp.rests h)

theorem Racing.finish (hp : Racing win p) (reason : EndReason) (named : Option Side) :
    Racing win (p.finish reason named) :=
  hp.of_eq (by simp) (by simp) (by simp) fun _ => finish_not_live reason named

theorem Racing.served (hp : Racing win p) (hf : p.game.finishing = false) (h : Served now p q) :
    Racing win q := by
  obtain ⟨dice, direction, rfl⟩ := h
  exact hp.of_eq rfl rfl rfl fun h => by simp [hf] at h

/-- Before the last goal, the next one is counted in full. -/
theorem Racing.tally (hp : Racing win p) (hf : p.game.finishing = false) (scorer : Side) :
    p.game.tally scorer = p.game.scores.raise scorer := by
  have hl := hp.below hf .left
  have hr := hp.below hf .right
  have hw := hp.rules
  cases scorer with
  | left =>
    simp only [Sides.get] at hl
    simp [Match.tally, Scores.raise, Sides.modify, hw, hl]
  | right =>
    simp only [Sides.get] at hr
    simp [Match.tally, Scores.raise, Sides.modify, hw, hr]

theorem Racing.credited_scored (hp : Racing win p) (hf : p.game.finishing = false)
    (scorer : Side) : Credited p [.goal scorer] (p.scored scorer) := by
  have ht := hp.tally hf scorer
  refine ⟨?_, ?_, rfl, ?_, ?_⟩
  · exact ht
  · intro side
    rfl
  · simp [scored, ht, Notice.score?, Scores.standings, scorers, Incident.scorer?]
  · simp [scored, ht, Bulletin.score?, Scores.standings, scorers, Incident.scorer?]

/-- A goal that does not reach the score that wins leaves both sides below it. -/
theorem Racing.point (hp : Racing win p) (hf : p.game.finishing = false) {scorer : Side}
    (hr : (p.game.tally scorer).reach p.game.rules.winScore = false) :
    Racing win (p.scored scorer) := by
  refine ⟨hp.rules, fun _ side => ?_, fun h => ?_, fun h => ?_⟩
  · by_contra hn
    have : (p.game.tally scorer).reach p.game.rules.winScore = true := by
      rw [Scores.reach_iff, hp.rules]
      exact ⟨side, Nat.le_of_not_lt hn⟩
    simp [hr] at this
  · simp [scored, hf] at h
  · simp [scored, hf] at h

/-- The last goal brings its scorer, and only its scorer, to the score that wins. -/
theorem Racing.lastGoal (hp : Racing win p) (hf : p.game.finishing = false) {scorer : Side}
    (hr : (p.game.tally scorer).reach p.game.rules.winScore = true) :
    Racing win (p.scored scorer).lastGoal := by
  have ht := hp.tally hf scorer
  refine ⟨hp.rules, fun h => by simp [Play.lastGoal] at h, fun _ => ⟨scorer, ?_⟩, fun _ => ?_⟩
  · change (p.game.tally scorer).get scorer = win ∧
      (p.game.tally scorer).get scorer.opponent < win
    rw [Scores.reach_iff, Side.exists_iff scorer, hp.rules, ht] at hr
    have hs := hp.below hf scorer
    have ho := hp.below hf scorer.opponent
    have hup : (p.game.scores.raise scorer).get scorer = p.game.scores.get scorer + 1 := by
      simp [Scores.raise]
    have hkeep : (p.game.scores.raise scorer).get scorer.opponent =
        p.game.scores.get scorer.opponent := by simp [Scores.raise]
    rw [ht, hup, hkeep]
    omega
  · exact Ball.not_live_stop _

/-- An incident is credited when the match replies to it, before the last goal. Unless it has
stopped the ball, the match goes on as before. -/
theorem credited_reply (he : p.game.phase ≠ .ended) (hp : Racing win p)
    (hf : p.game.finishing = false) (h : Reply p now i q) :
    Credited p [i] q ∧ Racing win q ∧
      (i.halts = false → q.game.phase ≠ .ended ∧ q.game.finishing = false) := by
  cases h with
  | @hit side =>
    have hc : Credited p [.hit side] (p.change fun m =>
        { m with hits := m.hits.modify side (· + 1) }) := by
      refine .uncounted rfl rfl rfl rfl rfl fun other => ?_
      cases side <;> cases other <;> rfl
    exact ⟨hc, hp.of_eq rfl rfl rfl fun _ => id, fun _ => ⟨he, hf⟩⟩
  | wall | trigger =>
    exact ⟨.uncounted rfl rfl rfl rfl rfl fun _ => rfl, hp, fun _ => ⟨he, hf⟩⟩
  | lateGoal hl | lateStuck hl => simp [hf] at hl
  | @stuck side q _ hs =>
    have hc : Credited p [.stuck side] p := .uncounted rfl rfl rfl rfl rfl fun _ => rfl
    exact ⟨hc.trans hs.credited, hp.served hf hs, fun h => by simp [Incident.halts] at h⟩
  | point _ hr hs =>
    exact ⟨(hp.credited_scored hf _).trans hs.credited, (hp.point hf hr).served hf hs,
      fun h => by simp [Incident.halts] at h⟩
  | @final scorer _ hr hc =>
    have hl : Credited (p.scored scorer) [] (p.scored scorer).lastGoal :=
      .silent rfl rfl rfl rfl rfl
    exact ⟨((hp.credited_scored hf scorer).trans hl).trans (credited_finish ..),
      (hp.lastGoal hf hr).finish .., fun h => by simp [Incident.halts] at h⟩
  | @celebrate scorer _ hr hc =>
    have hl : Credited (p.scored scorer) []
        ((p.scored scorer).lastGoal.schedule .celebration now p.game.rules.celebration) :=
      .silent (by simp [Play.lastGoal]) (by simp [Play.lastGoal]) (by simp [Play.lastGoal])
        (by simp [Play.lastGoal]) (by simp [Play.lastGoal])
    refine ⟨(hp.credited_scored hf scorer).trans hl, ?_, fun h => by simp [Incident.halts] at h⟩
    exact (hp.lastGoal hf hr).of_eq (by simp) (by simp) (by simp) fun _ h => by simpa using h

/-- All incidents of a window are credited, since only the last of them can end the match. -/
theorem credited_respondAll (he : p.game.phase ≠ .ended) (hp : Racing win p)
    (hf : p.game.finishing = false) (his : is.Pairwise fun i _ => i.halts = false)
    (h : p.respondAll now is = .ok q) : Credited p is q ∧ Racing win q := by
  induction is generalizing p with
  | nil =>
    cases h
    exact ⟨.refl _, hp⟩
  | cons i is ih =>
    obtain ⟨hi, his⟩ := List.pairwise_cons.mp his
    obtain ⟨r, hr, hq⟩ := respondAll_cons h
    obtain ⟨hc, hrace, hgo⟩ := credited_reply he hp hf hr
    rcases is with _ | ⟨j, js⟩
    · -- The last incident: whether or not it has ended the match, nothing is left.
      rcases hq with ⟨-, rfl⟩ | ⟨-, hq⟩
      · exact ⟨hc, hrace⟩
      · cases hq
        exact ⟨hc, hrace⟩
    · obtain ⟨hre, hrf⟩ := hgo (hi j (by simp))
      rcases hq with ⟨hend, -⟩ | ⟨-, hq⟩
      · exact absurd hend hre
      · obtain ⟨hcs, hracing⟩ := ih hre hrace hrf his hq
        exact ⟨hc.trans hcs, hracing⟩

/-- The incidents of a tick that simulates a window are credited. Once the ball rests for good there
are none. -/
theorem credited_stepped (ho : Open p.game) (hp : Racing win p)
    (hq : (p.stepped now).respondAll now (p.simulated now).incidents = .ok q) :
    Credited p (p.simulated now).incidents q ∧ Racing win q := by
  have hs : Credited p [] (p.stepped now) := .said rfl rfl rfl rfl rfl rfl
  have hend : (p.stepped now).game.phase ≠ .ended := ho.phase
  cases hf : p.game.finishing with
  | false =>
    have hrace : Racing win (p.stepped now) :=
      hp.of_eq rfl rfl rfl fun h => by simp [hf] at h
    obtain ⟨hc, hr⟩ := credited_respondAll hend hrace hf Arena.stopsLast_replayFrom.order hq
    exact ⟨hs.trans hc, hr⟩
  | true =>
    obtain ⟨hi, hb⟩ : p.game.arena.Rests (p.simulated now) :=
      Arena.rests_replayFrom (hp.rests hf)
    rw [hi] at hq ⊢
    cases hq
    refine ⟨hs, hp.of_eq rfl rfl rfl fun _ h => ?_⟩
    change ¬ (p.simulated now).arena.ball.Live
    rwa [hb]

/-- Play has been got under way, which does not happen after the last goal. -/
theorem Racing.begun {message : String} (hp : Racing win p) (hf : p.game.finishing = false)
    (hr : Credited p [] r) (hrules : r.game.rules = p.game.rules)
    (hfr : r.game.finishing = p.game.finishing) (hq : Served now (r.underWay now message) q) :
    Credited p [] q ∧ Racing win q := by
  have hu := hr.trans (credited_underWay r now message)
  have hfu : (r.underWay now message).game.finishing = p.game.finishing := by simpa using hfr
  have hrace : Racing win (r.underWay now message) :=
    hp.of_eq (by simpa using hrules) hu.scores hfu fun h => by simp [hf] at h
  exact ⟨hu.trans hq.credited, hrace.served (hfu.trans hf) hq⟩

theorem incidents_of_none (hw : p.window? m = none) :
    (⟨p, m, q⟩ : Passage).incidents = [] := by
  simp [Passage.incidents, Passage.window?, hw]

theorem incidents_stepped (he : p.game.stepper.expired now = false)
    (hw : p.game.phase = .playing)
    (ht : p.game.stepper.pace.tick ≤ now - p.game.stepper.lastTick) :
    (⟨p, .tick now, q⟩ : Passage).incidents = (p.simulated now).incidents := by
  simp [Passage.incidents, Passage.window?, window?_stepped he hw ht, windowTo]

/-- What happens in a passage is credited by its end. -/
theorem credited_step (hm : m.Ordinary) (ho : Open p.game) (hp : Racing win p) (h : Step p m q) :
    Credited p (⟨p, m, q⟩ : Passage).incidents q ∧ Racing win q := by
  have hfin := ho.not_finishing
  have hrules := step_rules h
  -- All moves but the ticks that simulate a window.
  have plain (hw : p.window? m = none) (hq : Credited p [] q ∧ Racing win q) :
      Credited p (⟨p, m, q⟩ : Passage).incidents q ∧ Racing win q := by
    rw [incidents_of_none hw]
    exact hq
  have ends {r : Play} (hr : Credited p [] r ∧ Racing win r) (reason : EndReason)
      (named : Option Side) : Credited p [] (r.finish reason named) ∧
        Racing win (r.finish reason named) :=
    ⟨hr.1.trans (credited_finish ..), hr.2.finish ..⟩
  have cancelled (d : Deadline) : Credited p [] (p.cancel d) ∧ Racing win (p.cancel d) :=
    ⟨credited_cancel p d, hp.of_eq (by simp) (by simp) (by simp) fun _ h => by simpa using h⟩
  cases h with
  | @again side | @alone side =>
    exact plain rfl ⟨credited_welcome p side,
      hp.of_eq hrules (by simp) (by simp) fun _ h => by simpa using h⟩
  | @goOn side now q hs hn hw hu hq =>
    exact plain rfl (hp.begun (hfin hw) (credited_welcome p side) (by simp) (by simp) hq)
  | @begin side now q hs hr ha hw hq =>
    exact plain rfl (hp.begun (hfin hw) (credited_paired p side) (by simp) (by simp) hq)
  | @forced side now hs hr ha hw =>
    have hc : Credited (p.paired side) [] (p.forced side now) := .said rfl rfl rfl rfl rfl rfl
    refine plain rfl ⟨(credited_paired p side).trans hc, hp.of_eq hrules ?_ ?_ fun h => ?_⟩
    · simp [forced]
    · simp [forced]
    · simp [hfin hw] at h
  | @unforgiven side now hs hr ha hw =>
    have hc : Credited (p.paired side) [] ((p.paired side).say (unforgivenNotice now)) :=
      .said rfl rfl rfl rfl rfl rfl
    exact plain rfl ⟨(credited_paired p side).trans hc,
      hp.of_eq hrules (by simp) (by simp) fun _ h => by simpa using h⟩
  | @back side now =>
    exact plain rfl ⟨credited_paired p side,
      hp.of_eq hrules (by simp) (by simp) fun _ h => by simpa using h⟩
  | absent | stale => exact plain rfl ⟨.refl p, hp⟩
  | still he h => exact plain (window?_still h) ⟨.refl p, hp⟩
  | @left side now => exact plain rfl ⟨credited_left p side, hp.of_eq rfl rfl rfl fun _ => id⟩
  | @pause side now =>
    exact plain rfl ⟨(credited_left p side).trans (credited_pause (p.left side) side now),
      hp.of_eq hrules (by simp [left]) (by simp [left]) fun _ h => by simpa [left] using h⟩
  | needless => exact plain rfl (cancelled _)
  | surrender | finish => exact plain rfl (ends ⟨.refl p, hp⟩ ..)
  | expired he => exact plain (window?_expired he) (ends ⟨.refl p, hp⟩ ..)
  | startPassed | reconnectPassed | celebrated => exact plain rfl (ends (cancelled _) ..)
  | @stepped now q he hw ht hq =>
    rw [incidents_stepped he hw ht]
    exact credited_stepped ho hp hq
  | close => exact absurd hm (by simp [Move.Ordinary])
  | @record side s =>
    obtain ⟨logs, hl⟩ := record_eq p side s
    rw [hl] at plain ⊢
    exact plain rfl ⟨credited_logs p logs, hp.of_eq rfl rfl rfl fun _ => id⟩

theorem racing_start {fixture : Fixture} {rules : Rules} {seed : UInt64}
    (hwin : 1 ≤ rules.winScore) : Racing rules.winScore (start fixture rules seed now) := by
  refine ⟨by simp [start], fun _ side => ?_, fun h => ?_, fun h => ?_⟩
  · cases side <;> simp [start, Sides.both, Sides.get] <;> omega
  · simp [start] at h
  · simp [start] at h

theorem credited_run {fixture : Fixture} {rules : Rules} {seed : UInt64}
    (hwin : 1 ≤ rules.winScore) (hm : ∀ m ∈ ms, m.Ordinary)
    (h : (start fixture rules seed now).run ms = .ok p) :
    Credited (start fixture rules seed now)
      (happened ((start fixture rules seed now).passages ms)) p ∧ Racing rules.winScore p := by
  refine passages_from_start (I := fun h _ p =>
    Credited (start fixture rules seed now) (happened h) p ∧ Racing rules.winScore p) ?_ ?_
    ⟨.refl _, racing_start hwin⟩ hm h
  · rintro h p m ms q hord ho hs ⟨hc, hr⟩
    obtain ⟨hcs, hrs⟩ := credited_step hord ho hr hs
    rw [happened_snoc]
    exact ⟨hc.trans hcs, hrs⟩
  · rintro h p m ms logs he ⟨hc, hr⟩
    have hnone : p.window? m = none := window?_of_ne (by simp [he])
    rw [happened_snoc, incidents_of_none hnone]
    exact ⟨hc.trans (credited_logs p logs), hr.of_eq rfl rfl rfl fun _ => id⟩

/-- Everything is counted as it happened, in a match that `win` points win. -/
structure Tallied (win : Nat) (is : List Incident) (p : Play) : Prop where
  scores : ∀ side, p.game.scores.get side = is.count (.goal side)
  limit : ∀ side, p.game.scores.get side ≤ win
  once : ∀ side, p.game.scores.get side = win → p.game.scores.get side.opponent < win
  hits : ∀ side, p.game.hits.get side = is.count (.hit side)
  /-- There is one message for each goal, with the score to which it has raised its scorer's. -/
  notices : p.notices.filterMap Notice.score? = Scores.standings (.both 0) (scorers is)
  bulletins : p.bulletins.filterMap Bulletin.score? =
    (Scores.standings (.both 0) (scorers is)).map fun t => (p.game.fixture.id, t.2)
  ending : ∀ b ∈ p.bulletins, b.isEnding = true → ∃ winner reason,
    b = .finished p.game.fixture.id p.game.fixture.players p.game.scores winner reason p.game.hits
      p.game.fixture.isFinal
  last : p.game.finishing = true → ∃ side, p.game.scores.get side = win

/-- The ball has stopped, and since some state it has not been served. -/
structure StoppedSince (p q : Play) : Prop where
  finishing : q.game.finishing = true
  moving : q.game.arena.ball.moving = false
  resumeAt : q.game.arena.ball.resumeAt = none
  notices : ∃ said, q.notices = p.notices ++ said ∧ ∀ n ∈ said, n.isServe = false

/-- What tells the system of the end does so with the final scores and hits. -/
theorem SingleEnding.eq_finished (hs : SingleEnding p) {b : Bulletin} (hb : b ∈ p.bulletins)
    (hend : b.isEnding = true) : ∃ winner reason,
      b = .finished p.game.fixture.id p.game.fixture.players p.game.scores winner reason
        p.game.hits p.game.fixture.isFinal := by
  have hpos : 0 < p.endingBulletins := List.countP_pos_iff.mpr ⟨b, hb, hend⟩
  have hcount := hs.bulletins.trans hs.notices
  have he : p.game.phase = .ended := by
    by_contra he
    rw [if_neg he] at hcount
    omega
  obtain ⟨winner, reason, -, hlast⟩ := hs.last he
  obtain ⟨front, hfront⟩ := List.getLast?_eq_some_iff.mp hlast
  rw [if_pos he, endingBulletins, hfront, List.countP_append] at hcount
  have hone : List.countP Bulletin.isEnding [.finished p.game.fixture.id p.game.fixture.players
      p.game.scores winner reason p.game.hits p.game.fixture.isFinal] = 1 := rfl
  have hnone : front.countP Bulletin.isEnding = 0 := by omega
  rw [hfront] at hb
  rcases List.mem_append.mp hb with hb | hb
  · exact absurd hend (List.countP_eq_zero.mp hnone b hb)
  · exact ⟨winner, reason, List.mem_singleton.mp hb⟩

/-- In every run the scores and hits are the goals and hits that the ball has made. Each goal is
made known once and in order, until one side, and never both, has the score that wins. From then on
the ball rests and is not served again, whatever happens. -/
theorem scores_are_goals {fixture : Fixture} {rules : Rules} {seed : UInt64}
    (hwin : 1 ≤ rules.winScore) (hm : ∀ m ∈ ms, m.Ordinary)
    (h : (start fixture rules seed now).run ms = .ok p) :
    Tallied rules.winScore (happened ((start fixture rules seed now).passages ms)) p ∧
      (p.game.finishing = true → ∀ ns q, (∀ n ∈ ns, n.Ordinary) → p.run ns = .ok q →
        StoppedSince p q) := by
  obtain ⟨hc, hr⟩ := credited_run hwin hm h
  have hfix : p.game.fixture = fixture := by simpa [start] using hc.fixture
  have hs0 : (start fixture rules seed now).game.scores = .both 0 := by simp [start]
  have hbelow (side : Side) : p.game.scores.get side ≤ rules.winScore ∧
      (p.game.scores.get side = rules.winScore →
        p.game.scores.get side.opponent < rules.winScore) := by
    cases hf : p.game.finishing with
    | false =>
      have := hr.below hf side
      omega
    | true =>
      obtain ⟨won, heq, hlt⟩ := hr.won hf
      cases won <;> cases side <;> simp only [Side.opponent] at hlt ⊢ <;> omega
  constructor
  · refine ⟨fun side => ?_, fun side => (hbelow side).1, fun side => (hbelow side).2,
      fun side => ?_, ?_, ?_, fun b => (settled_run h).eq_finished, fun hf => ?_⟩
    · rw [hc.scores, Scores.get_foldl_raise, count_scorers, hs0]
      cases side <;> simp [Sides.both, Sides.get]
    · rw [hc.hits]
      cases side <;> simp [start, Sides.both, Sides.get]
    · rw [hc.notices, hs0]
      simp [start]
    · rw [hc.bulletins, hs0, hfix]
      simp [start]
    · obtain ⟨side, heq, -⟩ := hr.won hf
      exact ⟨side, heq⟩
  · intro hf ns q hns hq
    obtain ⟨-, -, said, ht⟩ := told_on hns (covered_run hm h) (settled_run h) hq
    obtain ⟨hqf, hserve⟩ := ht.finishing hf
    have hall : ∀ m ∈ ms ++ ns, m.Ordinary := by
      intro m hmem
      rcases List.mem_append.mp hmem with hmem | hmem
      · exact hm m hmem
      · exact hns m hmem
    obtain ⟨-, hrq⟩ := credited_run hwin hall (run_append.mpr ⟨p, h, hq⟩)
    obtain ⟨hmoving, hresume⟩ := (Ball.not_live_iff _).mp (hrq.rests hqf)
    exact ⟨hqf, hmoving, hresume, said, ht.notices, hserve⟩

/-- One goal decides a match. A side leaves during the celebration, comes back, and play goes on. -/
theorem scores_are_goals_celebration :
    ∃ rules ms p q, rules = { winScore := 1, params := { triggerOffsets := [] } } ∧
      ms = [.join .left 0, .join .right 10, .tick 3000] ∧
      (start duel rules 7 0).run ms = .ok p ∧ p.game.scores = ⟨0, 1⟩ ∧ p.game.finishing = true ∧
      Tallied 1 (happened ((start duel rules 7 0).passages ms)) p ∧
      p.run [.leave .left 3100, .join .left 3200, .tick 3300] = .ok q ∧ StoppedSince p q := by
  obtain ⟨p, hp, hs, hf, hq⟩ := exists_run
    (start duel { winScore := 1, params := { triggerOffsets := [] } } 7 0)
    [.join .left 0, .join .right 10, .tick 3000]
    (fun p => p.game.scores = ⟨0, 1⟩ ∧ p.game.finishing = true ∧
      (p.run [.leave .left 3100, .join .left 3200, .tick 3300]).toOption.isSome = true)
    (by decide +kernel)
  cases hr : p.run [.leave .left 3100, .join .left 3200, .tick 3300] with
  | error e => simp [hr, Except.toOption] at hq
  | ok q =>
    obtain ⟨ht, hstop⟩ := scores_are_goals (by decide) (by decide) hp
    exact ⟨_, _, p, q, rfl, rfl, hp, hs, hf, ht, hr, hstop hf _ q (by decide) hr⟩

end Play
end Rally
