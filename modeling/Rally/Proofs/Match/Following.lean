import Rally.Proofs.Match.Deadlines
import Rally.Proofs.Match.Lasting

/-! Who hears all that a match tells its players knows how it stands, whatever has happened. -/
namespace Rally

/-- How a match stands, as far as its players are told. -/
structure Standing where
  phase : Phase
  scores : Scores
deriving DecidableEq

def Match.standing (g : Match) : Standing := ⟨g.phase, g.scores⟩

namespace Standing

/-- What a player takes from a message. -/
def hear (s : Standing) : Notice → Standing
  | .joined _ _ scores _ _ _ => { s with scores }
  | .started _ _ => { s with phase := .playing }
  | .stopped _ => { s with phase := .waiting }
  | .score _ scores => { s with scores }
  | .ended _ scores _ _ _ => ⟨.ended, scores⟩
  | .update .. | .serve .. | .error .. | .pong .. => s

/-- What a player knows who has heard all messages from the first one on. -/
def ofNotices (ns : List Notice) : Standing := ns.foldl hear ⟨.waiting, .both 0⟩

end Standing

def Notice.isServe : Notice → Bool
  | .serve .. => true
  | _ => false

/-- Whether a move sends a message only in play. Snapshots are also sent to a side that joins. -/
def Move.sendsInPlay : Move → Notice → Bool
  | _, .score .. => true
  | _, .serve .. => true
  | .tick _, .update .. => true
  | _, _ => false

/-- A place in two lists, one after the other, is in the first or in the second. -/
theorem append_eq_middle {α : Type} {xs ys before after : List α} {a : α}
    (h : xs ++ ys = before ++ a :: after) :
    (∃ rest, xs = before ++ a :: rest ∧ after = rest ++ ys) ∨
      ∃ front, before = xs ++ front ∧ ys = front ++ a :: after := by
  rcases List.append_eq_append_iff.mp h with ⟨front, hb, hy⟩ | ⟨rest, hx, hy⟩
  · exact .inr ⟨front, hb, hy⟩
  · cases rest with
    | nil => exact .inr ⟨[], by simpa using hx.symm, by simpa using hy.symm⟩
    | cons b rest =>
      obtain ⟨rfl, rfl⟩ := List.cons.inj hy
      exact .inl ⟨rest, hx, rfl⟩

theorem singleton_eq_middle {α : Type} {x a : α} {before after : List α}
    (h : [x] = before ++ a :: after) : before = [] ∧ a = x ∧ after = [] := by
  cases before with
  | nil =>
    obtain ⟨rfl, rfl⟩ := List.cons.inj h
    exact ⟨rfl, rfl, rfl⟩
  | cons b before => simp at h

theorem pair_eq_middle {α : Type} {x y a : α} {before after : List α}
    (h : [x, y] = before ++ a :: after) :
    before = [] ∧ a = x ∧ after = [y] ∨ before = [x] ∧ a = y ∧ after = [] := by
  cases before with
  | nil =>
    obtain ⟨rfl, rfl⟩ := List.cons.inj h
    exact .inl ⟨rfl, rfl, rfl⟩
  | cons b before =>
    obtain ⟨rfl, ht⟩ := List.cons.inj h
    obtain ⟨rfl, rfl, rfl⟩ := singleton_eq_middle ht
    exact .inr ⟨rfl, rfl, rfl⟩

namespace Play
variable {p q r : Play} {now win : Nat} {m : Move} {ms : List Move} {i : Incident}
  {P : Notice → Bool} {a b : List Notice} {n : Notice}

/-- What a match has said by the way from one state to another, where `win` points win. -/
structure Told (P : Notice → Bool) (win : Nat) (p : Play) (said : List Notice) (q : Play) :
    Prop where
  notices : q.notices = p.notices ++ said
  /-- It adds up to how the match stands. -/
  standing : said.foldl Standing.hear p.game.standing = q.game.standing
  /-- What the test selects has been said in play. -/
  inPlay : ∀ {before n after}, said = before ++ n :: after → P n = true →
    (before.foldl Standing.hear p.game.standing).phase = .playing
  /-- A serve follows a point at once. -/
  served : ∀ {before after scorer scores}, said = before ++ .score scorer scores :: after →
    scores.reach win = false → ∃ time direction rest, after = .serve time direction :: rest
  /-- None follows the last point. -/
  last : ∀ {before after scorer scores}, said = before ++ .score scorer scores :: after →
    scores.reach win = true → q.game.finishing = true ∧ ∀ n ∈ after, n.isServe = false
  finishing : p.game.finishing = true → q.game.finishing = true ∧ ∀ n ∈ said, n.isServe = false

namespace Told

theorem nil (hn : q.notices = p.notices) (hs : q.game.standing = p.game.standing)
    (hf : q.game.finishing = p.game.finishing) : Told P win p [] q := by
  refine ⟨by simp [hn], hs.symm, ?_, ?_, ?_, fun h => ⟨hf.trans h, by simp⟩⟩
  · intro before n after h
    simp at h
  · intro before after scorer scores h
    simp at h
  · intro before after scorer scores h
    simp at h

/-- One message has been said, which is no score. -/
theorem one (hn : q.notices = p.notices ++ [n]) (hs : p.game.standing.hear n = q.game.standing)
    (hf : q.game.finishing = p.game.finishing) (hP : P n = true → p.game.phase = .playing)
    (hscore : ∀ scorer scores, n ≠ .score scorer scores)
    (hserve : n.isServe = true → p.game.finishing = false) : Told P win p [n] q := by
  refine ⟨hn, hs, ?_, ?_, ?_, fun h => ⟨hf.trans h, ?_⟩⟩
  · intro before a after h ha
    obtain ⟨rfl, rfl, rfl⟩ := singleton_eq_middle h
    exact hP ha
  · intro before after scorer scores h
    exact absurd (singleton_eq_middle h).2.1.symm (hscore scorer scores)
  · intro before after scorer scores h
    exact absurd (singleton_eq_middle h).2.1.symm (hscore scorer scores)
  · intro a ha
    obtain rfl := List.mem_singleton.mp ha
    cases hsv : a.isServe with
    | true => simp [hserve hsv] at h
    | false => rfl

theorem trans (hpq : Told P win p a q) (hqr : Told P win q b r) : Told P win p (a ++ b) r := by
  refine ⟨by rw [hqr.notices, hpq.notices, List.append_assoc], ?_, ?_, ?_, ?_, ?_⟩
  · rw [List.foldl_append, hpq.standing, hqr.standing]
  · intro before n after h hn
    rcases append_eq_middle h with ⟨rest, ha, -⟩ | ⟨front, rfl, hb⟩
    · exact hpq.inPlay ha hn
    · rw [List.foldl_append, hpq.standing]
      exact hqr.inPlay hb hn
  · intro before after scorer scores h hs
    rcases append_eq_middle h with ⟨rest, ha, rfl⟩ | ⟨front, rfl, hb⟩
    · obtain ⟨time, direction, rest, rfl⟩ := hpq.served ha hs
      exact ⟨time, direction, rest ++ b, rfl⟩
    · exact hqr.served hb hs
  · intro before after scorer scores h hs
    rcases append_eq_middle h with ⟨rest, ha, rfl⟩ | ⟨front, rfl, hb⟩
    · -- The last point has been made before, and nothing serves from then on.
      obtain ⟨hq, hrest⟩ := hpq.last ha hs
      obtain ⟨hr, hb⟩ := hqr.finishing hq
      exact ⟨hr, fun n hn => (List.mem_append.mp hn).elim (hrest n) (hb n)⟩
    · exact hqr.last hb hs
  · intro h
    obtain ⟨hq, ha⟩ := hpq.finishing h
    obtain ⟨hr, hb⟩ := hqr.finishing hq
    exact ⟨hr, fun n hn => (List.mem_append.mp hn).elim (ha n) (hb n)⟩

/-- Of all messages nothing need be selected. -/
theorem anyhow (h : Told P win p a q) : Told (fun _ => false) win p a q :=
  ⟨h.notices, h.standing, fun _ hn => (by simp at hn), h.served, h.last, h.finishing⟩

end Told

/-! What the parts of a move say. -/

theorem told_finish (he : p.game.phase ≠ .ended) (reason : EndReason) (named : Option Side) :
    Told m.sendsInPlay win p [p.endedNotice reason named] (p.finish reason named) := by
  refine .one (finish_notices _ _ _ he) ?_ (by simp) ?_ ?_ ?_
  · simp [Match.standing, endedNotice, Standing.hear]
  · cases m <;> simp [Move.sendsInPlay, endedNotice]
  · simp [endedNotice]
  · simp [Notice.isServe, endedNotice]

theorem told_cancel (p : Play) (d : Deadline) : Told P win p [] (p.cancel d) :=
  .nil (by simp) (by simp [Match.standing]) (by simp)

theorem told_welcome (win : Nat) (p : Play) (side : Side) (now : Nat) :
    ∃ said, Told (Move.sendsInPlay (.join side now)) win p said (p.welcome side) := by
  let r : Play := ⟨(p.welcome side).game, p.notices ++ [p.game.joinedNotice side], p.bulletins⟩
  have hj : Told (Move.sendsInPlay (.join side now)) win p [p.game.joinedNotice side] r := by
    refine .one rfl ?_ ?_ ?_ ?_ ?_
    · simp [r, Match.standing, Match.joinedNotice, Standing.hear]
    · simp [r]
    · simp [Move.sendsInPlay, Match.joinedNotice]
    · simp [Match.joinedNotice]
    · simp [Notice.isServe, Match.joinedNotice]
  -- The last snapshot is not sent in play.
  cases hl : p.game.stepper.recent.latest? with
  | none =>
    have hw : Told (Move.sendsInPlay (.join side now)) win r [] (p.welcome side) :=
      .nil (by simp [r, welcome_notices, hl]) rfl rfl
    exact ⟨_, hj.trans hw⟩
  | some s =>
    have hw : Told (Move.sendsInPlay (.join side now)) win r [s.notice] (p.welcome side) := by
      refine .one ?_ rfl rfl ?_ ?_ ?_
      · simp [r, welcome_notices, hl]
      · simp [Move.sendsInPlay, Snapshot.notice]
      · simp [Snapshot.notice]
      · simp [Notice.isServe, Snapshot.notice]
    exact ⟨_, hj.trans hw⟩

theorem told_paired (win : Nat) (p : Play) (side : Side) (now : Nat) :
    ∃ said, Told (Move.sendsInPlay (.join side now)) win p said (p.paired side) := by
  obtain ⟨said, hs⟩ := told_welcome win p side now
  have hp : Told (Move.sendsInPlay (.join side now)) win (p.welcome side) [] (p.paired side) :=
    .nil (by simp [paired]) (by simp [Match.standing]) (by simp)
  exact ⟨_, hs.trans hp⟩

/-- A message that play goes on, in a match that is being played from then on. -/
theorem told_started {side : Side} {message : String}
    (hn : q.notices = p.notices ++ [.started now message]) (hw : q.game.phase = .playing)
    (hs : q.game.scores = p.game.scores) (hf : q.game.finishing = p.game.finishing) :
    Told (Move.sendsInPlay (.join side now)) win p [.started now message] q := by
  refine .one hn ?_ hf ?_ ?_ ?_
  · simp [Match.standing, Standing.hear, hw, hs]
  · simp [Move.sendsInPlay]
  · simp
  · simp [Notice.isServe]

theorem told_underWay (p : Play) (side : Side) (now : Nat) (message : String) :
    Told (Move.sendsInPlay (.join side now)) win p [.started now message]
      (p.underWay now message) := by
  refine told_started ?_ ?_ ?_ ?_ <;> unfold underWay <;> split <;> rfl

theorem Served.told (hw : p.game.phase = .playing) (hf : p.game.finishing = false)
    (h : Served now p q) : ∃ said, Told P win p said q := by
  obtain ⟨dice, direction, rfl⟩ := h
  exact ⟨_, .one rfl rfl rfl (fun _ => hw) (by simp) (fun _ => hf)⟩

/-- Play has been got under way, and the ball has been served. -/
theorem Told.begun {side : Side} {message : String}
    (h : Told (Move.sendsInPlay (.join side now)) win p a r) (hf : r.game.finishing = false)
    (hq : Served now (r.underWay now message) q) :
    ∃ said, Told (Move.sendsInPlay (.join side now)) win p said q := by
  have hu : (r.underWay now message).game.finishing = false := by
    unfold underWay
    split <;> exact hf
  have hserve : ∃ b, Told (Move.sendsInPlay (.join side now)) win (r.underWay now message) b q :=
    hq.told rfl hu
  obtain ⟨b, hb⟩ := hserve
  exact ⟨_, (h.trans (told_underWay ..)).trans hb⟩

/-- A pause is made known only if play stops for it. -/
theorem told_pause (win : Nat) (p : Play) (side : Side) (now : Nat) :
    ∃ said, Told (Move.sendsInPlay (.leave side now)) win p said (p.pause side now) := by
  by_cases hw : p.game.phase = .playing
  · refine ⟨[.stopped "Opponent disconnected, waiting for reconnection"],
      .one ?_ ?_ ?_ ?_ ?_ ?_⟩
    · simp [pause, hw]
    · simp [Match.standing, Standing.hear, hw]
    · simp
    · simp [Move.sendsInPlay]
    · simp
    · simp [Notice.isServe]
  · refine ⟨_, .nil ?_ ?_ ?_⟩
    · simp [pause, hw]
    · simp [Match.standing, hw]
    · simp

/-- A point has been made that was not the last. -/
theorem told_point {scorer : Side} (hw : p.game.phase = .playing) (hf : p.game.finishing = false)
    (hr : (p.game.tally scorer).reach win = false) (h : Served now (p.scored scorer) q) :
    ∃ said, Told P win p said q := by
  obtain ⟨dice, direction, rfl⟩ := h
  let serve : Notice := .serve (p.game.arena.serveTime now) (direction.unit?.getD .unitX)
  refine ⟨[.score scorer (p.game.tally scorer), serve], ?_, rfl, ?_, ?_, ?_, ?_⟩
  · simp [serveAlong, scored, serve]
  · intro before n after h _
    rcases pair_eq_middle h with ⟨rfl, -, -⟩ | ⟨rfl, -, -⟩ <;> exact hw
  · intro before after scorer scores h _
    rcases pair_eq_middle h with ⟨-, -, rfl⟩ | ⟨-, hn, -⟩
    · exact ⟨_, _, [], rfl⟩
    · simp [serve] at hn
  · intro before after scorer scores h hs
    rcases pair_eq_middle h with ⟨-, hn, -⟩ | ⟨-, hn, -⟩
    · cases hn
      simp [hr] at hs
    · simp [serve] at hn
  · intro h
    simp [hf] at h

/-- The last point has been made. -/
theorem told_lastGoal {scorer : Side} (hw : p.game.phase = .playing)
    (hf : p.game.finishing = false) (hr : (p.game.tally scorer).reach win = true) :
    Told P win p [.score scorer (p.game.tally scorer)] (p.scored scorer).lastGoal := by
  refine ⟨rfl, rfl, ?_, ?_, ?_, ?_⟩
  · intro before n after h _
    obtain ⟨rfl, -, -⟩ := singleton_eq_middle h
    exact hw
  · intro before after scorer scores h hs
    cases (singleton_eq_middle h).2.1
    simp [hr] at hs
  · intro before after scorer scores h _
    obtain ⟨-, -, rfl⟩ := singleton_eq_middle h
    exact ⟨rfl, by simp⟩
  · intro h
    simp [hf] at h

/-- All that is said of an incident is said in play, and play goes on or the match has ended. -/
theorem told_reply (hw : p.game.phase = .playing) (hwin : p.game.rules.winScore = win)
    (h : Reply p now i q) :
    (∃ said, Told (Move.sendsInPlay (.tick now)) win p said q) ∧
      (q.game.phase = .playing ∨ q.game.phase = .ended) := by
  subst hwin
  cases h with
  | hit => exact ⟨⟨_, .nil rfl rfl rfl⟩, .inl hw⟩
  | wall | trigger | lateGoal | lateStuck => exact ⟨⟨_, .nil rfl rfl rfl⟩, .inl hw⟩
  | stuck hf hs =>
    refine ⟨hs.told hw hf, .inl ?_⟩
    obtain ⟨dice, along, rfl⟩ := hs
    exact hw
  | point hf hr hs =>
    refine ⟨told_point hw hf hr hs, .inl ?_⟩
    obtain ⟨dice, along, rfl⟩ := hs
    exact hw
  | @final scorer hf hr hc =>
    have hl : (p.scored scorer).lastGoal.game.phase ≠ .ended := by simp [lastGoal, scored, hw]
    exact ⟨⟨_, (told_lastGoal hw hf hr).trans (told_finish hl ..)⟩, .inr (finish_phase ..)⟩
  | @celebrate scorer hf hr hc =>
    refine ⟨⟨_, (told_lastGoal hw hf hr).trans (.nil ?_ ?_ ?_)⟩, .inl ?_⟩
    · simp
    · simp [Match.standing]
    · simp
    · simpa [lastGoal, scored] using hw

theorem told_respondAll {is : List Incident} (hw : p.game.phase = .playing)
    (hwin : p.game.rules.winScore = win) (h : p.respondAll now is = .ok q) :
    ∃ said, Told (Move.sendsInPlay (.tick now)) win p said q := by
  have hI : ((∃ said, Told (Move.sendsInPlay (.tick now)) win p said q) ∧
      (q.game.phase = .playing ∨ q.game.phase = .ended)) ∧ q.game.rules = p.game.rules := by
    refine respondAll_invariant (I := fun q =>
      ((∃ said, Told (Move.sendsInPlay (.tick now)) win p said q) ∧
        (q.game.phase = .playing ∨ q.game.phase = .ended)) ∧ q.game.rules = p.game.rules) ?_
      (by simp [hw]) ⟨⟨⟨_, .nil rfl rfl rfl⟩, .inl hw⟩, rfl⟩ h
    rintro r i s he ⟨⟨⟨said, hr⟩, hph⟩, hrules⟩ hrs
    obtain ⟨⟨more, hs⟩, hph⟩ := told_reply (hph.resolve_right he) (hrules ▸ hwin) hrs
    exact ⟨⟨⟨_, hr.trans hs⟩, hph⟩, (reply_alike hrs).1.trans hrules⟩
  exact hI.1.1

/-- Every move says what its players have to know, and says it in time. -/
theorem told_step (hm : m.Ordinary) (ho : Open p.game) (hwin : p.game.rules.winScore = win)
    (h : Step p m q) : ∃ said, Told m.sendsInPlay win p said q := by
  have he := ho.phase
  have hfin := ho.not_finishing
  have hplay := ho.playing_of_ne
  cases h with
  | @again side now | @alone side now => exact told_welcome win p side now
  | @goOn side now q hs hn hw hu hq =>
    obtain ⟨said, ht⟩ := told_welcome win p side now
    exact ht.begun (by simpa using hfin hw) hq
  | @begin side now q hs hr ha hw hq =>
    obtain ⟨said, ht⟩ := told_paired win p side now
    exact ht.begun (by simpa using hfin hw) hq
  | @forced side now =>
    obtain ⟨said, ht⟩ := told_paired win p side now
    exact ⟨_, ht.trans (told_started rfl rfl rfl rfl)⟩
  | @unforgiven side now hs hr ha hw =>
    obtain ⟨said, ht⟩ := told_paired win p side now
    exact ⟨_, ht.trans (told_started rfl (by simpa using hplay hw) rfl rfl)⟩
  | @back side now => exact told_paired win p side now
  | absent | stale | still => exact ⟨_, .nil rfl rfl rfl⟩
  | left => exact ⟨_, .nil rfl rfl rfl⟩
  | @pause side now hs hg hf ha =>
    have hl : Told (Move.sendsInPlay (.leave side now)) win p [] (p.left side) := .nil rfl rfl rfl
    obtain ⟨said, hp⟩ := told_pause win (p.left side) side now
    exact ⟨_, hl.trans hp⟩
  | surrender | expired | finish => exact ⟨_, told_finish he ..⟩
  | startPassed | reconnectPassed | celebrated =>
    exact ⟨_, (told_cancel ..).trans (told_finish (by simpa using he) ..)⟩
  | needless => exact ⟨_, told_cancel ..⟩
  | @stepped now q hx hw ht hq =>
    have hs : Told (Move.sendsInPlay (.tick now)) win p _ (p.stepped now) :=
      .one rfl rfl rfl (fun _ => hw) (by simp [Snapshot.notice])
        (by simp [Snapshot.notice, Notice.isServe])
    obtain ⟨said, hr⟩ := told_respondAll (p := p.stepped now) hw hwin hq
    exact ⟨_, hs.trans hr⟩
  | close => exact absurd hm (by simp [Move.Ordinary])
  | @record side s =>
    obtain ⟨logs, hl⟩ := record_eq p side s
    rw [hl]
    exact ⟨_, .nil rfl rfl rfl⟩

theorem told_apply (hm : m.Ordinary) (hc : Covered p) (hs : Settled p)
    (hwin : p.game.rules.winScore = win) (h : p.apply m = .ok q) :
    ∃ said, Told m.sendsInPlay win p said q := by
  rcases hs.step_or_over h with ⟨he, hst⟩ | ⟨-, logs, rfl⟩
  · have ho : Open p.game := hc.2.resolve_right fun ho => he ho.phase
    exact told_step hm ho hwin hst
  · exact ⟨_, .nil rfl rfl rfl⟩

/-- What is said from some state on adds up to the state that it leads to. -/
theorem told_on (hm : ∀ m ∈ ms, m.Ordinary) (hc : Covered p) (hs : Settled p)
    (h : p.run ms = .ok q) : Covered q ∧ q.game.rules = p.game.rules ∧
      ∃ said, Told (fun _ => false) p.game.rules.winScore p said q := by
  have hI : Settled q ∧ Covered q ∧ q.game.rules = p.game.rules ∧
      ∃ said, Told (fun _ => false) p.game.rules.winScore p said q := by
    refine run_invariant (I := fun q => Settled q ∧ Covered q ∧ q.game.rules = p.game.rules ∧
      ∃ said, Told (fun _ => false) p.game.rules.winScore p said q) (A := Move.Ordinary) ?_ hm
      ⟨hs, hc, rfl, [], .nil rfl rfl rfl⟩ h
    rintro r m s hm ⟨hs, hc, hr, said, ht⟩ hrs
    obtain ⟨more, hmore⟩ := told_apply hm hc hs (congrArg Rules.winScore hr) hrs
    have htold := ht.trans hmore.anyhow
    refine ⟨settled_apply hs hrs, ?_⟩
    rcases hs.step_or_over hrs with ⟨he, hst⟩ | ⟨-, logs, rfl⟩
    · exact ⟨covered_step hm he hc hst, (step_rules hst).trans hr, _, htold⟩
    · exact ⟨covered_logs hc logs, hr, _, htold⟩
  exact hI.2

theorem told_run {fixture : Fixture} {rules : Rules} {seed : UInt64}
    (hm : ∀ m ∈ ms, m.Ordinary) (h : (start fixture rules seed now).run ms = .ok p) :
    Covered p ∧ p.game.rules = rules ∧
      Told (fun _ => false) rules.winScore (start fixture rules seed now) p.notices p := by
  obtain ⟨hc, hr, said, ht⟩ := told_on hm (covered_start fixture rules seed)
    (settled_start fixture rules seed now) h
  have hrules : (start fixture rules seed now).game.rules = rules := by simp [start]
  have hsaid : p.notices = said := by simpa [start] using ht.notices
  rw [hrules] at hr ht
  exact ⟨hc, hr, hsaid ▸ ht⟩

/-- The players of a match, in which `win` points win, can tell how it stands from what they have
been told. -/
structure Followed (win : Nat) (p : Play) : Prop where
  standing : Standing.ofNotices p.notices = p.game.standing
  served : ∀ {before after scorer scores}, p.notices = before ++ .score scorer scores :: after →
    scores.reach win = false → ∃ time direction rest, after = .serve time direction :: rest
  last : ∀ {before after scorer scores}, p.notices = before ++ .score scorer scores :: after →
    scores.reach win = true → ∀ n ∈ after, n.isServe = false

/-- What a move says in play, it says while the players know that the match is being played. -/
def SaidInPlay (p : Play) (m : Move) (q : Play) : Prop :=
  ∃ said, q.notices = p.notices ++ said ∧ ∀ before n after, said = before ++ n :: after →
    m.sendsInPlay n = true → (Standing.ofNotices (p.notices ++ before)).phase = .playing

/-- After every move of a run the messages so far add up to the phase and the scores of the match.
Scores, serves and the snapshots of ticks are only sent while they add up to play. Every point is
followed by a serve at once, but for the last one, and no serve ever follows that. -/
theorem players_can_follow {fixture : Fixture} {rules : Rules} {seed : UInt64}
    (hm : ∀ m ∈ ms, m.Ordinary) (h : (start fixture rules seed now).run ms = .ok p) :
    Followed rules.winScore p ∧
      ∀ m q, m.Ordinary → p.apply m = .ok q → SaidInPlay p m q := by
  obtain ⟨hc, hr, ht⟩ := told_run hm h
  have hst : (start fixture rules seed now).game.standing = ⟨.waiting, .both 0⟩ := by
    simp [start, Match.standing]
  have hstanding : Standing.ofNotices p.notices = p.game.standing := by
    rw [← ht.standing, hst]
    rfl
  refine ⟨⟨hstanding, ht.served, fun he hs => (ht.last he hs).2⟩, fun m q hm hq => ?_⟩
  obtain ⟨said, hsaid⟩ := told_apply hm hc (settled_run h) (congrArg Rules.winScore hr) hq
  refine ⟨said, hsaid.notices, fun before n after he hn => ?_⟩
  have hbefore : Standing.ofNotices (p.notices ++ before) =
      before.foldl Standing.hear p.game.standing := by
    rw [← hstanding]
    exact List.foldl_append
  rw [hbefore]
  exact hsaid.inPlay he hn

/-- A match with a tick before a pause, after which the last snapshot is sent once more. -/
theorem players_can_follow_pause :
    ∃ p, (start duel {} 7 0).run [.join .left 0, .join .right 10, .tick 50, .leave .left 500,
        .join .left 600] = .ok p ∧
      p.game.standing = ⟨.playing, .both 0⟩ ∧ p.notices.length = 10 ∧ Followed 5 p ∧
      ∀ m q, m.Ordinary → p.apply m = .ok q → SaidInPlay p m q := by
  obtain ⟨p, hp, hs, hl⟩ := exists_run (start duel {} 7 0)
    [.join .left 0, .join .right 10, .tick 50, .leave .left 500, .join .left 600]
    (fun p => p.game.standing = ⟨.playing, .both 0⟩ ∧ p.notices.length = 10) (by decide +kernel)
  obtain ⟨hf, hsaid⟩ := players_can_follow (by decide) hp
  exact ⟨p, hp, hs, hl, hf, hsaid⟩

end Play
end Rally
