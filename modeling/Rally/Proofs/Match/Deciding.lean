import Rally.Proofs.Match.Absence

/-! The score that wins decides a match, whatever happens between the last goal and the end. -/
namespace Rally

/-- The winner that a move names, should it end the match. -/
def Move.named? : Move → Option Side
  | .surrender side => some side.opponent
  | .finish _ named => named
  | _ => none

/-- The match ends in a passage. -/
def Passage.Ends (x : Passage) : Prop :=
  x.before.game.phase ≠ .ended ∧ x.after.game.phase = .ended

/-- The side that leads when the score that wins has been reached is the winner, unless another is
named. The reason of the end, the coin and who is there do not matter. -/
theorem Verdict.winner_of_cap {v : Verdict} {side coin : Side} (hn : v.named = none)
    (hc : v.capReached = true) (hl : v.scores.get side.opponent < v.scores.get side) :
    v.winner coin = side := by
  have hw : v.winner? = v.leader? := by simp [Verdict.winner?, hn, hc]
  rw [winner, hw, leader?_eq_some hl]
  rfl

namespace Play
variable {p q r : Play} {now win : Nat} {m : Move} {ms ns : List Move} {i : Incident}
  {side : Side} {fixture : Fixture} {rules : Rules} {seed : UInt64}

/-- Nobody has the score that wins, or the last goal has been scored and just one side has. -/
structure Contest (win : Nat) (p : Play) : Prop where
  rules : p.game.rules.winScore = win
  below : p.game.finishing = false → ∀ side, p.game.scores.get side < win
  won : p.game.finishing = true →
    ∃ side, p.game.scores.get side = win ∧ p.game.scores.get side.opponent < win

/-- A side has scored the last goal. -/
structure Won (win : Nat) (side : Side) (p : Play) : Prop where
  rules : p.game.rules.winScore = win
  finishing : p.game.finishing = true
  score : p.game.scores.get side = win
  other : p.game.scores.get side.opponent < win

theorem Contest.of_eq (hp : Contest win p) (hr : q.game.rules = p.game.rules)
    (hs : q.game.scores = p.game.scores) (hf : q.game.finishing = p.game.finishing) :
    Contest win q := by
  refine ⟨?_, ?_, ?_⟩
  · rw [hr]
    exact hp.rules
  · rw [hf, hs]
    exact hp.below
  · rw [hf, hs]
    exact hp.won

theorem Won.of_eq (hp : Won win side p) (hr : q.game.rules = p.game.rules)
    (hs : q.game.scores = p.game.scores) (hf : q.game.finishing = p.game.finishing) :
    Won win side q := by
  refine ⟨?_, ?_, ?_, ?_⟩
  · rw [hr]
    exact hp.rules
  · rw [hf]
    exact hp.finishing
  · rw [hs]
    exact hp.score
  · rw [hs]
    exact hp.other

/-- Who has the score that wins has scored the last goal. -/
theorem Contest.decided (hp : Contest win p) (hs : win ≤ p.game.scores.get side) :
    Won win side p := by
  cases hf : p.game.finishing with
  | false =>
    have := hp.below hf side
    omega
  | true =>
    obtain ⟨winner, hscore, hother⟩ := hp.won hf
    have he : winner = side := by
      cases winner <;> cases side <;> simp only [Side.opponent] at hother ⊢ <;> omega
    subst he
    exact ⟨hp.rules, hf, hscore, hother⟩

/-- Whoever has won is the winner of any verdict that names nobody. -/
theorem Won.winner (hp : Won win side p) (reason : EndReason) (coin : Side) :
    (p.game.verdict reason none).winner coin = side := by
  refine Verdict.winner_of_cap rfl ?_ ?_
  · refine (Scores.reach_iff _ _).mpr ⟨side, ?_⟩
    change p.game.rules.winScore ≤ p.game.scores.get side
    rw [hp.rules, hp.score]
  · change p.game.scores.get side.opponent < p.game.scores.get side
    rw [hp.score]
    exact hp.other

/-- Only what the ball does in a tick can change the score or bring the last goal. -/
theorem step_scores (h : Step p m q) :
    (q.game.scores = p.game.scores ∧ q.game.finishing = p.game.finishing) ∨
      ∃ now, m = .tick now ∧ p.game.phase = .playing ∧
        (p.stepped now).respondAll now (p.simulated now).incidents = .ok q := by
  cases h with
  | again | alone | back | unforgiven | needless => exact .inl (by simp)
  | goOn hs ho hw hu hq | begin hs ho ha hw hq =>
    obtain ⟨dice, direction, rfl⟩ := hq
    exact .inl (by simp [serveAlong])
  | forced => exact .inl (by simp [forced])
  | absent | left | stale | still => exact .inl ⟨rfl, rfl⟩
  | pause => exact .inl (by simp [left])
  | surrender | expired | finish => exact .inl (by simp)
  | startPassed | reconnectPassed | celebrated => exact .inl (by simp)
  | stepped he hw ht hq => exact .inr ⟨_, rfl, hw, hq⟩
  | close =>
    rw [close_game]
    split <;> exact .inl ⟨rfl, rfl⟩
  | @record other s =>
    obtain ⟨logs, hl⟩ := record_eq p other s
    rw [hl]
    exact .inl ⟨rfl, rfl⟩

/-- After the last goal nothing more is counted. -/
theorem reply_late (hf : p.game.finishing = true) (h : Reply p now i q) :
    q.game.rules = p.game.rules ∧ q.game.scores = p.game.scores ∧
      q.game.finishing = p.game.finishing := by
  cases h with
  | hit | wall | trigger | lateGoal | lateStuck => exact ⟨rfl, rfl, rfl⟩
  | stuck hn | point hn | final hn | celebrate hn => simp [hf] at hn

theorem contest_reply (he : p.game.phase ≠ .ended) (hp : Contest win p) (h : Reply p now i q) :
    Contest win q := by
  cases hf : p.game.finishing with
  | true =>
    obtain ⟨hr, hs, hfin⟩ := reply_late hf h
    exact hp.of_eq hr hs hfin
  | false =>
    have hrace : Racing win p :=
      ⟨hp.rules, hp.below, hp.won, fun h => by simp [hf] at h⟩
    obtain ⟨-, hq, -⟩ := credited_reply he hrace hf h
    exact ⟨hq.rules, hq.below, hq.won⟩

theorem contest_step (hp : Contest win p) (h : Step p m q) : Contest win q := by
  rcases step_scores h with ⟨hs, hf⟩ | ⟨now, rfl, hw, hq⟩
  · exact hp.of_eq (step_rules h) hs hf
  · have he : (p.stepped now).game.phase ≠ .ended := by simp [Play.stepped, hw]
    have hst : Contest win (p.stepped now) := hp.of_eq rfl rfl rfl
    exact respondAll_invariant contest_reply he hst hq

/-- Nothing takes the victory from the side that has scored the last goal. -/
theorem won_step (hp : Won win side p) (h : Step p m q) : Won win side q := by
  rcases step_scores h with ⟨hs, hf⟩ | ⟨now, rfl, hw, hq⟩
  · exact hp.of_eq (step_rules h) hs hf
  · have he : (p.stepped now).game.phase ≠ .ended := by simp [Play.stepped, hw]
    have hst : Won win side (p.stepped now) := hp.of_eq rfl rfl rfl
    refine respondAll_invariant (I := Won win side) ?_ he hst hq
    intro r i s _ hr hrs
    obtain ⟨hrules, hs, hf⟩ := reply_late hr.finishing hrs
    exact hr.of_eq hrules hs hf

theorem contest_run (hwin : 1 ≤ rules.winScore)
    (h : (start fixture rules seed now).run ms = .ok p) : Contest rules.winScore p := by
  refine run_from_start (I := Contest rules.winScore) (A := fun _ => True)
    (fun _ hp _ hs => contest_step hp hs) (fun logs hp => hp.of_eq rfl rfl rfl) ?_ (by simp) h
  have hr : Racing rules.winScore (start fixture rules seed now) := racing_start hwin
  exact ⟨hr.rules, hr.below, hr.won⟩

theorem won_run (hset : Settled p) (hp : Won win side p) (h : p.run ns = .ok q) :
    Won win side q := by
  have hI : Won win side q ∧ Settled q := by
    refine run_invariant (I := fun p => Won win side p ∧ Settled p) (A := fun _ => True) ?_
      (by simp) ⟨hp, hset⟩ h
    intro p m q _ ⟨hp, hset⟩ hq
    refine ⟨?_, settled_apply hset hq⟩
    rcases hset.step_or_over hq with ⟨-, hs⟩ | ⟨-, logs, rfl⟩
    · exact won_step hp hs
    · exact hp.of_eq rfl rfl rfl
  exact hI.1

/-- The match has just ended, with the winner that is named, if one is. -/
def EndsWith (named : Option Side) (q : Play) : Prop :=
  ∃ (r : Play) (reason : EndReason), r.game.phase ≠ .ended ∧ q = r.finish reason named

theorem endsWith_reply (he : p.game.phase ≠ .ended) (h : Reply p now i q)
    (hq : q.game.phase = .ended) : EndsWith none q := by
  cases h with
  | hit | wall | trigger | lateGoal | lateStuck => exact absurd hq he
  | stuck hf hs | point hf hr hs =>
    obtain ⟨dice, direction, rfl⟩ := hs
    exact absurd hq he
  | @final scorer => exact ⟨(p.scored scorer).lastGoal, .scoreLimit, he, rfl⟩
  | celebrate => exact absurd (by simpa [lastGoal, scored] using hq) he

theorem endsWith_step (he : p.game.phase ≠ .ended) (h : Step p m q)
    (hq : q.game.phase = .ended) : EndsWith m.named? q := by
  cases h with
  | again | alone | unforgiven | back | needless => exact absurd (by simpa using hq) he
  | goOn hs ho hw hu hsv | begin hs ho ha hw hsv =>
    obtain ⟨dice, direction, rfl⟩ := hsv
    simp [serveAlong, underWay] at hq
  | forced => simp [forced] at hq
  | absent | left | stale | still => exact absurd hq he
  | @pause other now =>
    rw [pause_game] at hq
    split at hq
    · simp at hq
    · exact absurd hq he
  | surrender | expired | finish => exact ⟨p, _, he, rfl⟩
  | @startPassed id => exact ⟨p.cancel .start, _, by simpa using he, rfl⟩
  | @reconnectPassed other id => exact ⟨p.cancel (.reconnect other), _, by simpa using he, rfl⟩
  | @celebrated id => exact ⟨p.cancel .celebration, _, by simpa using he, rfl⟩
  | @stepped now q hx hw ht hr =>
    have hs : (p.stepped now).game.phase ≠ .ended := he
    refine respondAll_invariant (I := fun r => r.game.phase = .ended → EndsWith none r) ?_ hs
      (fun h => absurd h hs) hr hq
    intro r i s hre _ hrs hse
    exact endsWith_reply hre hrs hse
  | close =>
    rw [close_game] at hq
    split at hq
    · exact absurd hq he
    · exact absurd hq he
  | @record other s =>
    obtain ⟨logs, hl⟩ := record_eq p other s
    rw [hl] at hq
    exact absurd hq he

/-- A match that has ended has done so in one of its passages, and only its logs have changed
since. -/
theorem exists_ending (h : (start fixture rules seed now).run ms = .ok p)
    (he : p.game.phase = .ended) :
    ∃ x ∈ (start fixture rules seed now).passages ms, x.Ends ∧
      EndsWith x.move.named? x.after ∧ ∃ logs, p = x.after.change fun g => { g with logs } := by
  have hI : Settled p ∧ (p.game.phase = .ended →
      ∃ x ∈ [] ++ (start fixture rules seed now).passages ms, x.Ends ∧
        EndsWith x.move.named? x.after ∧ ∃ logs, p = x.after.change fun g => { g with logs }) := by
    refine run_passages (I := fun h _ p => Settled p ∧ (p.game.phase = .ended → ∃ x ∈ h, x.Ends ∧
      EndsWith x.move.named? x.after ∧ ∃ logs, p = x.after.change fun g => { g with logs }))
      ?_ ?_ h
    · rintro h p m ms q hq ⟨hset, hp⟩
      refine ⟨settled_apply hset hq, fun hend => ?_⟩
      rcases hset.step_or_over hq with ⟨he, hs⟩ | ⟨he, logs, rfl⟩
      · exact ⟨⟨p, m, q⟩, by simp, ⟨he, hend⟩, endsWith_step he hs hend, q.game.logs, rfl⟩
      · obtain ⟨x, hx, hends, hwith, old, hp⟩ := hp he
        refine ⟨x, by simp [hx], hends, hwith, logs, ?_⟩
        rw [hp]
        rfl
    · refine ⟨settled_start fixture rules seed now, fun he => ?_⟩
      simp [start] at he
  exact hI.2 he

/-- A match that a side has won by the score, at whatever later time. -/
structure Decided (win : Nat) (side : Side) (h : List Passage) (q : Play) : Prop where
  score : q.game.scores.get side = win
  other : q.game.scores.get side.opponent < win
  /-- The side wins however the match ends, unless another winner is named. -/
  winner : ∀ reason coin, (q.game.verdict reason none).winner coin = side
  /-- What has ended the match has named the winner, or the side has won. -/
  ended : q.game.phase = .ended → ∃ x ∈ h, x.Ends ∧ ∃ reason,
    q.notices.getLast? = some (.ended
      (q.game.fixture.players.get (x.move.named?.getD side)) q.game.scores reason
      q.game.fixture.kind q.game.fixture.tournament) ∧
    q.bulletins.getLast? = some (.finished q.game.fixture.id q.game.fixture.players q.game.scores
      (q.game.fixture.players.get (x.move.named?.getD side)) reason q.game.hits
      q.game.fixture.isFinal)

/-- In every run, once a side has the score that wins it keeps it, the other one stays below, and
however the match goes on and ends, whoever comes and goes, the side wins. It loses only to a winner
that is named: because it gives up, or because the match is ended in favour of the other side. -/
theorem cap_decides (hwin : 1 ≤ rules.winScore)
    (h : (start fixture rules seed now).run ms = .ok p)
    (hcap : rules.winScore ≤ p.game.scores.get side) (hq : p.run ns = .ok q) :
    Decided rules.winScore side ((start fixture rules seed now).passages (ms ++ ns)) q := by
  have hwon : Won rules.winScore side q :=
    won_run (settled_run h) ((contest_run hwin h).decided hcap) hq
  refine ⟨hwon.score, hwon.other, hwon.winner, fun he => ?_⟩
  obtain ⟨x, hx, hends, ⟨r, reason, hr, hfin⟩, logs, hlogs⟩ :=
    exists_ending (run_append.mpr ⟨p, h, hq⟩) he
  rw [hfin] at hlogs
  have hwr : Won rules.winScore side r := by
    refine hwon.of_eq ?_ ?_ ?_ <;> simp [hlogs]
  have hwinner : (r.game.verdict reason x.move.named?).winner r.game.dice.side.1 =
      x.move.named?.getD side := by
    cases hn : x.move.named? with
    | none => exact hwr.winner reason _
    | some named => rfl
  refine ⟨x, hx, hends, reason, ?_, ?_⟩
  · simp [hlogs, finish_notices _ _ _ hr, endedNotice, hwinner]
  · simp [hlogs, finish_bulletins _ _ _ hr, finishedBulletin, hwinner]

/-- The right side scores the only goal that is needed and leaves during the celebration. The match
is then ended because a side is away, with only the left side there, and the right side wins. -/
theorem cap_decides_absent :
    ∃ rules ms ns p q, rules = { winScore := 1, params := { triggerOffsets := [] } } ∧
      ms = [.join .left 0, .join .right 10, .tick 3000] ∧
      ns = [.leave .right 3100, .finish .disconnection none] ∧
      (start duel rules 7 0).run ms = .ok p ∧ p.run ns = .ok q ∧ q.game.phase = .ended ∧
      q.game.ready = ⟨true, false⟩ ∧
      Decided 1 .right ((start duel rules 7 0).passages (ms ++ ns)) q := by
  obtain ⟨p, hp, hs, hq⟩ := exists_run
    (start duel { winScore := 1, params := { triggerOffsets := [] } } 7 0)
    [.join .left 0, .join .right 10, .tick 3000]
    (fun p => p.game.scores = ⟨0, 1⟩ ∧
      (p.run [.leave .right 3100, .finish .disconnection none]).toOption.any (fun q =>
        q.game.phase = .ended ∧ q.game.ready = ⟨true, false⟩) = true)
    (by decide +kernel)
  obtain ⟨q, hrun, he, hr⟩ := exists_run p _
    (fun q => q.game.phase = .ended ∧ q.game.ready = ⟨true, false⟩) hq
  exact ⟨_, _, _, p, q, rfl, rfl, rfl, hp, hrun, he, hr,
    cap_decides (by decide) hp (by rw [hs]; decide) hrun⟩

end Play
end Rally
