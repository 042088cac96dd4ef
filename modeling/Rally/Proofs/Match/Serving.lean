import Rally.Proofs.Arena.Serving
import Rally.Proofs.Arena.Stops
import Rally.Proofs.Match.Course
import Rally.Proofs.Match.Following

/-! From when a serve is made known until it leaves, the ball rests in the center. -/
namespace Rally

/-- What is said in a passage. -/
def Passage.said (x : Passage) : List Notice := x.after.notices.drop x.before.notices.length

/-- A serve is the last one among some messages. -/
def EndsInServe (said : List Notice) (t : Nat) (d : Vec) : Prop :=
  ∃ before after, said = before ++ .serve t d :: after ∧ ∀ n ∈ after, n.isServe = false

/-- The last serve so far has been made known, and some passages have been since. -/
def LastServe (h : List Passage) (t : Nat) (d : Vec) (since : List Passage) : Prop :=
  ∃ before x, h = before ++ x :: since ∧ EndsInServe x.said t d ∧
    ∀ y ∈ since, ∀ n ∈ y.said, n.isServe = false

/-- A window has some time after an instant. -/
def Window.Passes (w : Window) (t : Nat) : Prop := max t w.start < w.stop

/-- A window that comes after the serve of a ball that will leave at an
instant along a direction. -/
structure Honoured (params : Params) (since : List Passage) (t : Nat) (d : Vec) (w : Window) :
    Prop where
  /-- Up to that instant the ball is seen at rest in the center. -/
  waits : w.stop ≤ t → w.snapshot.ball = ⟨.zero, d, params.minSpeed, false⟩
  /-- So it is until a window has time after it. -/
  lingers : (∀ v ∈ windows since, ¬ v.Passes t) → ¬ w.Passes t →
    w.snapshot.ball = ⟨.zero, d, params.minSpeed, false⟩
  /-- The first such window lets the ball go just then, or at its start if that is later. Only to
  close the match holds the ball back for good. -/
  leaves : (∀ v ∈ windows since, ¬ v.Passes t) → (∀ y ∈ since, y.move ≠ .close) → w.Passes t →
    w.arena.ball.Due t ∧
      w.arena.Rests (w.arena.replay w.start (max t w.start) w.inputs) ∧
      w.played = ((w.arena.replay w.start (max t w.start) w.inputs).adjust Arena.launch).andThen
        (Arena.replay (max t w.start) w.stop w.inputs)

/-- A ball in the center that may leave along a direction, but at no other instant. -/
structure Ball.Waits (b : Ball) (t : Nat) (d : Vec) : Prop where
  position : b.position = .zero
  direction : b.direction = d
  speed : b.speed = b.minSpeed
  moving : b.moving = false
  due : ∀ u, b.resumeAt = some u → u = t

theorem Ball.Waits.stop {b : Ball} {t : Nat} {d : Vec} (h : b.Waits t d) : b.stop.Waits t d :=
  ⟨h.position, h.direction, h.speed, rfl, by simp [Ball.stop]⟩

variable {h : List Passage} {x : Passage} {t u : Nat} {d e : Vec} {since : List Passage}

/-- The last serve among some messages is one. -/
theorem EndsInServe.unique {said : List Notice} (hs : EndsInServe (said ++ [.serve t d]) u e) :
    u = t ∧ e = d := by
  obtain ⟨before, after, he, hn⟩ := hs
  rcases append_eq_middle he with ⟨rest, -, rfl⟩ | ⟨front, -, hlast⟩
  · have := hn (.serve t d) (by simp)
    simp [Notice.isServe] at this
  · obtain ⟨-, hsame, -⟩ := singleton_eq_middle hlast
    cases hsame
    exact ⟨rfl, rfl⟩

theorem lastServe_snoc (hs : LastServe (h ++ [x]) t d since) :
    since = [] ∧ EndsInServe x.said t d ∨
      ∃ rest, since = rest ++ [x] ∧ LastServe h t d rest ∧ ∀ n ∈ x.said, n.isServe = false := by
  obtain ⟨before, y, he, hy, hn⟩ := hs
  rcases append_eq_middle he with ⟨rest, rfl, rfl⟩ | ⟨front, rfl, hlast⟩
  · refine .inr ⟨rest, rfl, ⟨before, y, rfl, hy, fun z hz => hn z (by simp [hz])⟩, hn x (by simp)⟩
  · obtain ⟨-, rfl, rfl⟩ := singleton_eq_middle hlast
    exact .inl ⟨rfl, hy⟩

theorem LastServe.mem_windows {v : Window} (hs : LastServe h t d since) (hv : v ∈ windows since) :
    v ∈ windows h := by
  obtain ⟨before, x, rfl, -⟩ := hs
  obtain ⟨y, hy, hw⟩ := List.mem_filterMap.mp hv
  exact List.mem_filterMap.mpr ⟨y, by simp [hy], hw⟩

namespace Play
variable {p q r : Play} {now : Nat} {m : Move} {ms : List Move} {i : Incident} {is : List Incident}
  {w : Window} {rules : Rules} {clock : Nat}

/-! What the parts of a move say, apart from serves. -/

/-- By the way from one state to another, no serve has been made known. -/
def Silent (p q : Play) : Prop :=
  ∃ said, q.notices = p.notices ++ said ∧ ∀ n ∈ said, n.isServe = false

theorem Silent.of_eq (h : q.notices = p.notices) : Silent p q := ⟨[], by simp [h], by simp⟩

theorem Silent.one {n : Notice} (h : q.notices = p.notices ++ [n]) (hn : n.isServe = false) :
    Silent p q := ⟨[n], h, by simpa using hn⟩

theorem Silent.trans (hpq : Silent p q) (hqr : Silent q r) : Silent p r := by
  obtain ⟨said, hq, hs⟩ := hpq
  obtain ⟨more, hr, hm⟩ := hqr
  refine ⟨said ++ more, by rw [hr, hq, List.append_assoc], fun n hn => ?_⟩
  exact (List.mem_append.mp hn).elim (hs n) (hm n)

theorem silent_welcome (p : Play) (side : Side) : Silent p (p.welcome side) := by
  refine ⟨_, welcome_notices p side, fun n hn => ?_⟩
  simp only [List.mem_cons, Option.mem_toList, Option.map_eq_some_iff] at hn
  rcases hn with rfl | ⟨s, -, rfl⟩
  · rfl
  · rfl

theorem silent_paired (p : Play) (side : Side) : Silent p (p.paired side) :=
  (silent_welcome p side).trans (.of_eq (by simp [paired]))

theorem silent_underWay (p : Play) (now : Nat) (message : String) :
    Silent p (p.underWay now message) := by
  unfold underWay
  split
  · exact .one rfl rfl
  · exact .one rfl rfl

theorem silent_pause (p : Play) (side : Side) (now : Nat) : Silent p (p.pause side now) := by
  unfold pause
  split
  · refine ⟨[.stopped "Opponent disconnected, waiting for reconnection"], by simp, ?_⟩
    simp [Notice.isServe]
  · exact .of_eq (by simp)

/-- No serve has been made known, or one at the end and nothing after it. -/
def ServedLast (p q : Play) : Prop := Silent p q ∨ ∃ now r, Silent p r ∧ Served now r q

theorem silent_reply (hq : q.game.phase ≠ .ended) (h : Reply p now i q) :
    ServedLast p q ∧ (i.halts = false → Silent p q) := by
  cases h with
  | hit | wall | trigger => exact ⟨.inl (.of_eq rfl), fun _ => .of_eq rfl⟩
  | lateGoal | lateStuck => exact ⟨.inl (.of_eq rfl), fun _ => .of_eq rfl⟩
  | stuck hf hs => exact ⟨.inr ⟨now, p, .of_eq rfl, hs⟩, fun h => by cases h⟩
  | @point scorer q hf hr hs =>
    exact ⟨.inr ⟨now, p.scored scorer, .one rfl rfl, hs⟩, fun h => by cases h⟩
  | final => exact absurd (finish_phase ..) hq
  | @celebrate scorer =>
    have hs : Silent p (p.scored scorer) := .one rfl rfl
    exact ⟨.inl (hs.trans (.of_eq (by simp [lastGoal]))), fun h => by cases h⟩

/-- Only the last incident can lead to a serve. -/
theorem servedLast_respondAll (hq : q.game.phase ≠ .ended)
    (hi : is.Pairwise fun i _ => i.halts = false) (h : p.respondAll now is = .ok q) :
    ServedLast p q := by
  induction is generalizing p with
  | nil =>
    cases h
    exact .inl (.of_eq rfl)
  | cons i is ih =>
    obtain ⟨hfirst, hrest⟩ := List.pairwise_cons.mp hi
    obtain ⟨r, hr, ⟨he, rfl⟩ | ⟨he, hall⟩⟩ := respondAll_cons h
    · exact absurd he hq
    · obtain ⟨hlast, hquiet⟩ := silent_reply he hr
      cases is with
      | nil =>
        cases hall
        exact hlast
      | cons j js =>
        have hpr := hquiet (hfirst j (by simp))
        rcases ih hrest hall with hs | ⟨now, s, hs, hv⟩
        · exact .inl (hpr.trans hs)
        · exact .inr ⟨now, s, hpr.trans hs, hv⟩

/-! What a move does to the ball outside of windows. -/

/-- What a move says of serves, and what it does to the ball without a window. -/
inductive Delivery (p : Play) (m : Move) (q : Play) : Prop where
  | silent (hs : Silent p q) (hb : p.window? m = none →
      q.game.arena.ball = p.game.arena.ball ∨
        m = .close ∧ q.game.arena.ball = p.game.arena.ball.stop)
  | serves {now : Nat} {r : Play} (hs : Silent p r) (hr : Served now r q)

theorem delivery_step (hq : q.game.phase ≠ .ended) (h : Step p m q) : Delivery p m q := by
  cases h with
  | again | alone => exact .silent (silent_welcome p _) fun _ => .inl (by simp)
  | goOn hs ho hw hu hr => exact .serves ((silent_welcome p _).trans (silent_underWay ..)) hr
  | begin hs ho ha hw hr => exact .serves ((silent_paired p _).trans (silent_underWay ..)) hr
  | @forced side now =>
    exact .silent ((silent_paired p side).trans (.one rfl rfl)) fun _ => .inl (by simp [forced])
  | @unforgiven side now =>
    exact .silent ((silent_paired p side).trans (.one rfl rfl)) fun _ => .inl (by simp)
  | back => exact .silent (silent_paired p _) fun _ => .inl (by simp)
  | absent | left | stale | still => exact .silent (.of_eq rfl) fun _ => .inl rfl
  | @pause side now =>
    have hl : Silent p (p.left side) := .of_eq rfl
    exact .silent (hl.trans (silent_pause ..)) fun _ => .inl (by simp [left])
  | needless => exact .silent (.of_eq (by simp)) fun _ => .inl (by simp)
  | surrender | expired | finish | startPassed | reconnectPassed | celebrated =>
    exact absurd (finish_phase ..) hq
  | @stepped now q he hw ht hr =>
    have hwin := window?_stepped he hw ht
    have hstep : Silent p (p.stepped now) := .one rfl rfl
    have horder : (p.simulated now).incidents.Pairwise fun i _ => i.halts = false :=
      Arena.stopsLast_replayFrom.order
    rcases servedLast_respondAll hq horder hr with hs | ⟨now', r, hs, hv⟩
    · exact .silent (hstep.trans hs) fun hn => by simp [hwin] at hn
    · exact .serves (hstep.trans hs) hv
  | close =>
    refine .silent (.of_eq (by simp)) fun _ => ?_
    rw [close_game]
    split
    · exact .inl rfl
    · exact .inr ⟨rfl, rfl⟩
  | @record side s =>
    obtain ⟨logs, hl⟩ := record_eq p side s
    rw [hl]
    exact .silent (.of_eq rfl) fun _ => .inl rfl

/-- A window in which the ball rests does nothing to it. -/
theorem ball_of_window (h : Step p m q) (hw : p.window? m = some w)
    (hr : p.game.arena.Rests w.played) : q.game.arena.ball = p.game.arena.ball := by
  obtain ⟨now, rfl, hp, ht, rfl⟩ := window?_eq_some hw
  cases h with
  | expired he => simp [window?_expired he] at hw
  | still he hs => simp [window?_still hs] at hw
  | stepped he hw ht hq =>
    have hi : (p.simulated now).incidents = [] := hr.1
    rw [hi] at hq
    cases hq
    exact hr.2

/-- The ball of a serve, and what is said of it. -/
theorem Served.spawned (h : Served now p q) : ∃ t d, q.notices = p.notices ++ [.serve t d] ∧
    q.game.arena.ball.Waits t d ∧ q.game.arena.ball.resumeAt = some t := by
  obtain ⟨dice, direction, rfl⟩ := h
  refine ⟨_, _, rfl, ⟨rfl, rfl, rfl, rfl, fun u hu => ?_⟩, rfl⟩
  exact (Option.some.inj hu).symm

theorem minSpeed_finish (p : Play) (reason : EndReason) (named : Option Side) :
    (p.finish reason named).game.arena.ball.minSpeed = p.game.arena.ball.minSpeed := by
  by_cases he : p.game.phase = .ended
  · rw [finish_of_ended p reason named he]
  · rw [finish_game p reason named he, close_game]
    split <;> rfl

theorem Served.minSpeed (h : Served now p q) :
    q.game.arena.ball.minSpeed = p.game.arena.ball.minSpeed := by
  obtain ⟨dice, direction, rfl⟩ := h
  rfl

theorem minSpeed_reply (h : Reply p now i q) :
    q.game.arena.ball.minSpeed = p.game.arena.ball.minSpeed := by
  cases h with
  | hit | wall | trigger | lateGoal | lateStuck => rfl
  | stuck hf hs => exact hs.minSpeed
  | point hf hr hs => exact hs.minSpeed
  | final => exact minSpeed_finish ..
  | celebrate => simp [lastGoal, scored, Ball.stop]

theorem underWay_ball (p : Play) (now : Nat) (message : String) :
    (p.underWay now message).game.arena.ball = p.game.arena.ball := by
  unfold underWay
  split
  · simp
  · rfl

theorem minSpeed_step (h : Step p m q) :
    q.game.arena.ball.minSpeed = p.game.arena.ball.minSpeed := by
  cases h with
  | again | alone | forced | unforgiven | back | needless => simp [forced]
  | goOn hs ho hw hu hq | begin hs ho ha hw hq => simp [hq.minSpeed, underWay_ball]
  | absent | left | stale | still => rfl
  | pause => simp [left]
  | surrender | expired | finish => exact minSpeed_finish ..
  | startPassed | reconnectPassed | celebrated => simp [minSpeed_finish]
  | @stepped now q he hw ht hq =>
    have hs : (p.stepped now).game.phase ≠ .ended := by simp [Play.stepped, hw]
    refine respondAll_invariant
      (I := fun q => q.game.arena.ball.minSpeed = p.game.arena.ball.minSpeed) ?_ hs ?_ hq
    · intro r i s _ hr hrs
      rw [minSpeed_reply hrs, hr]
    · exact Arena.minSpeed_replay _
  | close =>
    rw [close_game]
    split <;> rfl
  | @record side s =>
    obtain ⟨logs, hl⟩ := record_eq p side s
    rw [hl]
    rfl

/-! The logs of a match are in the order of their times. -/

def Ordered (p : Play) : Prop := ∀ side, InOrder (p.game.logs.get side).samples

theorem Ordered.of_consumed (ho : Ordered p) (now : Nat)
    (hl : q.game.logs = p.game.stepper.consumed now p.game.logs) : Ordered q := by
  intro side
  rw [hl, Stepper.consumed, Sides.get_map]
  exact ho side

theorem ordered_underWay (ho : Ordered p) (now : Nat) (message : String) :
    Ordered (p.underWay now message) := by
  unfold underWay
  split
  · exact ho.of_consumed now (by simp [Stepper.resume_eq])
  · exact ho

theorem ordered_record (ho : Ordered p) (side : Side) (s : Sample) : Ordered (p.record side s) := by
  unfold record Match.record
  cases hr : (p.game.logs.get side).record s with
  | error e => exact ho
  | ok log =>
    intro other
    change InOrder ((p.game.logs.set side log).get other).samples
    rcases p.game.logs.get_set_cases side log other with ⟨-, hg⟩ | ⟨-, hg⟩
    · rw [hg]
      exact (InputLog.record_ok hr).inOrder (ho side)
    · rw [hg]
      exact ho other

theorem ordered_step (ho : Ordered p) (hq : q.game.phase ≠ .ended) (h : Step p m q) :
    Ordered q := by
  have same {r : Play} (hr : r.game.logs = p.game.logs) : Ordered r := fun side => hr ▸ ho side
  cases h with
  | again | alone | unforgiven | back | needless => exact same (by simp)
  | @goOn side now q hs hn hw hu hr =>
    obtain ⟨dice, direction, rfl⟩ := hr
    have hr : Ordered (p.welcome side) := same (by simp)
    exact ordered_underWay hr now "Opponent disconnected without forgiveness, match continues"
  | @begin side now q hs hn ha hw hr =>
    obtain ⟨dice, direction, rfl⟩ := hr
    have hr : Ordered (p.paired side) := same (by simp)
    exact ordered_underWay hr now "Game started"
  | @forced side now => exact ho.of_consumed now (by simp [forced, Stepper.resume_eq])
  | absent | left | stale | still => exact ho
  | pause => exact same (by simp [left])
  | surrender | expired | finish | startPassed | reconnectPassed | celebrated =>
    exact absurd (finish_phase ..) hq
  | @stepped now q he hw ht hr =>
    have hs : (p.stepped now).game.phase ≠ .ended := by simp [Play.stepped, hw]
    exact ho.of_consumed now ((unmoved_respondAll hs hr).goesOn hq).2.1
  | close =>
    intro side
    rw [close_game]
    split
    · exact ho side
    · rw [Sides.get_map]
      exact List.Pairwise.nil
  | @record side s => exact ordered_record ho side s

theorem Ordered.inputs (ho : Ordered p) (now : Nat) (side : Side) :
    InOrder ((p.game.stepper.inputs now p.game.logs).get side) := by
  rw [Stepper.inputs_get, InputLog.between_eq_filter (ho side)]
  exact (ho side).filter _

/-! The run of a match. -/

/-- A match that has not ended waits with its ball for the instant of the last serve, unless a
window has had time after it. -/
structure Serving (rules : Rules) (clock : Nat) (h : List Passage) (p : Play) : Prop where
  past : ∀ v ∈ windows h, v.stop ≤ clock
  order : Ordered p
  minSpeed : p.game.arena.ball.minSpeed = rules.params.minSpeed
  waits : ∀ {t d since}, LastServe h t d since → (∀ v ∈ windows since, ¬ v.Passes t) →
    p.game.arena.ball.Waits t d ∧
      ((∀ y ∈ since, y.move ≠ .close) → p.game.arena.ball.resumeAt = some t)

theorem serving_start (fixture : Fixture) (rules : Rules) (seed : UInt64) (now clock : Nat) :
    Serving rules clock [] (start fixture rules seed now) := by
  refine ⟨by simp [windows], ?_, ?_, ?_⟩
  · intro side
    cases side <;> exact List.Pairwise.nil
  · simp [start, Arena.ofParams, Ball.ofParams]
  · rintro t d since ⟨before, x, he, -⟩
    simp at he

/-- In a window without time after the instant for which the ball waits, it rests. -/
theorem Serving.rests (hs : Serving rules clock h p) (hl : LastServe h t d since)
    (hn : ∀ v ∈ windows since, ¬ v.Passes t) (hw : p.window? m = some w) (hpass : ¬ w.Passes t) :
    p.game.arena.Rests w.played := by
  obtain ⟨now, rfl, -, -, rfl⟩ := window?_eq_some hw
  obtain ⟨hb, -⟩ := hs.waits hl hn
  simp only [Window.Passes, windowTo] at hpass
  rcases Nat.lt_or_ge p.game.stepper.lastTick now with hlt | hle
  · refine Arena.replay_idle _ hb.moving fun u hu => ?_
    rw [hb.due u hu]
    omega
  · have hsame : p.simulated now = .start p.game.arena :=
      Arena.replay_of_le hle (hs.order.inputs now)
    rw [windowTo, hsame]
    exact ⟨rfl, rfl⟩

theorem Serving.honoured (hs : Serving rules clock h p) (hn : clock ≤ m.now?.getD clock)
    (hw : p.window? m = some w) (hl : LastServe h t d since) :
    Honoured rules.params since t d w := by
  have seen (hnot : ∀ v ∈ windows since, ¬ v.Passes t) (hpass : ¬ w.Passes t) :
      w.snapshot.ball = ⟨.zero, d, rules.params.minSpeed, false⟩ := by
    obtain ⟨hb, -⟩ := hs.waits hl hnot
    obtain ⟨-, hball⟩ := hs.rests hl hnot hw hpass
    obtain ⟨now, rfl, -, -, rfl⟩ := window?_eq_some hw
    change (p.windowTo now).played.arena.ball.view = _
    rw [hball, Ball.view, hb.position, hb.direction, hb.speed, hb.moving, hs.minSpeed]
  refine ⟨fun hstop => seen (fun v hv hpass => ?_) fun hpass => ?_, seen,
    fun hnot hopen hpass => ?_⟩
  · have hpast := hs.past v (hl.mem_windows hv)
    obtain ⟨now, rfl, -, -, rfl⟩ := window?_eq_some hw
    simp only [Window.Passes, windowTo, Move.now?, Option.getD_some] at hpass hstop hn
    omega
  · simp only [Window.Passes] at hpass
    omega
  · obtain ⟨hb, hdue⟩ := hs.waits hl hnot
    obtain ⟨now, rfl, -, -, rfl⟩ := window?_eq_some hw
    have hd : p.game.arena.ball.Due t := ⟨hb.moving, hdue hopen⟩
    exact ⟨hd, Arena.replay_due hd (hs.order.inputs now),
      Arena.replay_release hd hpass (hs.order.inputs now)⟩

theorem said_eq {said : List Notice} (h : q.notices = p.notices ++ said) :
    (⟨p, m, q⟩ : Passage).said = said := by
  simp [Passage.said, h]

/-- After a move the ball still waits for the last serve, or does so from now on. -/
theorem Serving.goOn (hs : Serving rules clock h p) (hq : q.game.phase ≠ .ended)
    (hst : Step p m q) (hl : LastServe (h ++ [⟨p, m, q⟩]) t d since)
    (hn : ∀ v ∈ windows since, ¬ v.Passes t) : q.game.arena.ball.Waits t d ∧
      ((∀ y ∈ since, y.move ≠ .close) → q.game.arena.ball.resumeAt = some t) := by
  have hd := delivery_step hq hst
  rcases lastServe_snoc hl with ⟨rfl, hlast⟩ | ⟨rest, rfl, hl, hsilent⟩
  · cases hd with
    | silent hquiet =>
      obtain ⟨said, hsaid, hno⟩ := hquiet
      obtain ⟨before, after, he, -⟩ := hlast
      have := hno (.serve t d) (by rw [← said_eq (m := m) hsaid, he]; simp)
      simp [Notice.isServe] at this
    | @serves now r hquiet hr =>
      obtain ⟨said, hsaid, -⟩ := hquiet
      obtain ⟨u, e, hnotices, hb, hres⟩ := hr.spawned
      rw [hsaid, List.append_assoc] at hnotices
      rw [said_eq hnotices] at hlast
      obtain ⟨rfl, rfl⟩ := hlast.unique
      exact ⟨hb, fun _ => hres⟩
  · rw [windows_snoc] at hn
    have hrest : ∀ v ∈ windows rest, ¬ v.Passes t := fun v hv => hn v (by simp [hv])
    obtain ⟨hb, hdue⟩ := hs.waits hl hrest
    have same (h : q.game.arena.ball = p.game.arena.ball) : q.game.arena.ball.Waits t d ∧
        ((∀ y ∈ rest ++ [⟨p, m, q⟩], y.move ≠ .close) →
          q.game.arena.ball.resumeAt = some t) := by
      rw [h]
      exact ⟨hb, fun hopen => hdue fun y hy => hopen y (by simp [hy])⟩
    cases hw : p.window? m with
    | some w =>
      have hpass : ¬ w.Passes t := hn w (by
        have hx : (⟨p, m, q⟩ : Passage).window? = some w := hw
        simp [hx])
      exact same (ball_of_window hst hw (hs.rests hl hrest hw hpass))
    | none =>
      cases hd with
      | silent hquiet hball =>
        rcases hball hw with hsame | ⟨rfl, hstop⟩
        · exact same hsame
        · refine ⟨hstop ▸ hb.stop, fun hopen => ?_⟩
          exact absurd rfl (hopen ⟨p, .close, q⟩ (by simp))
      | @serves now r hquiet hr =>
        obtain ⟨said, hsaid, -⟩ := hquiet
        obtain ⟨u, e, hnotices, -⟩ := hr.spawned
        rw [hsaid, List.append_assoc] at hnotices
        rw [said_eq hnotices] at hsilent
        have := hsilent (.serve u e) (by simp)
        simp [Notice.isServe] at this

theorem serving_step (hs : Serving rules clock h p) (hn : clock ≤ m.now?.getD clock)
    (hq : q.game.phase ≠ .ended) (hst : Step p m q) :
    Serving rules (m.now?.getD clock) (h ++ [⟨p, m, q⟩]) q := by
  refine ⟨fun v hv => ?_, ordered_step hs.order hq hst, (minSpeed_step hst).trans hs.minSpeed,
    fun hl hnot => hs.goOn hq hst hl hnot⟩
  rw [windows_snoc] at hv
  rcases List.mem_append.mp hv with hv | hv
  · exact Nat.le_trans (hs.past v hv) hn
  · obtain ⟨now, rfl, -, -, rfl⟩ := window?_eq_some (Option.mem_toList.mp hv)
    exact Nat.le_refl _

/-- Windows that come after a serve of a run, up to the next one. -/
theorem honoured_run {fixture : Fixture} {seed : UInt64} (hc : Clocked 0 ms)
    (hr : (start fixture rules seed now).run ms = .ok p) :
    Throughout (fun before x => ∀ w, x.window? = some w → ∀ t d since,
      LastServe before t d since → Honoured rules.params since t d w)
      ((start fixture rules seed now).passages ms) := by
  have hI : ∃ clock, Clocked clock [] ∧
      Throughout (fun before x => ∀ w, x.window? = some w → ∀ t d since,
        LastServe before t d since → Honoured rules.params since t d w)
        ([] ++ (start fixture rules seed now).passages ms) ∧
      Settled p ∧ (p.game.phase ≠ .ended →
        Serving rules clock ([] ++ (start fixture rules seed now).passages ms) p) := by
    refine run_passages (I := fun h ms p => ∃ clock, Clocked clock ms ∧
      Throughout (fun before x => ∀ w, x.window? = some w → ∀ t d since,
        LastServe before t d since → Honoured rules.params since t d w) h ∧
      Settled p ∧ (p.game.phase ≠ .ended → Serving rules clock h p)) ?_
      ⟨0, hc, .nil, settled_start fixture rules seed now,
        fun _ => serving_start fixture rules seed now 0⟩ hr
    rintro h p m ms q hq ⟨clock, hcl, hall, hset, hs⟩
    obtain ⟨hn, hrest⟩ := clocked_cons.mp hcl
    refine ⟨_, hrest, hall.snoc fun w hw t d since hl => ?_, settled_apply hset hq, fun hne => ?_⟩
    · have hp : p.game.phase ≠ .ended := fun he => by
        have hw' := window?_of_ne (p := p) (m := m) (by simp [he])
        rw [Passage.window?, hw'] at hw
        cases hw
      exact (hs hp).honoured hn hw hl
    · rcases hset.step_or_over hq with ⟨he, hst⟩ | ⟨he, logs, rfl⟩
      · exact serving_step (hs he) hn hne hst
      · exact absurd he hne
  obtain ⟨clock, -, hall, -⟩ := hI
  exact hall

/-- A serve is honoured at the instant that has been made known for it. In an arena whose ball is
due within a window, the ball rests up to then and moves from then on, as if these were two windows.
In a run in which time never goes back, each window that comes after a serve and before the next one
is as it should be. -/
theorem serve_is_honoured {fixture : Fixture} {seed : UInt64} (hc : Clocked 0 ms)
    (hr : (start fixture rules seed now).run ms = .ok p) :
    (∀ (a : Arena) (start t stop : Nat) (samples : Sides (List Sample)), a.ball.Due t →
      start ≤ t → t < stop → (∀ side, InOrder (samples.get side)) →
      a.Rests (a.replay start t samples) ∧
        a.replay start stop samples =
          ((a.replay start t samples).adjust Arena.launch).andThen (Arena.replay t stop samples)) ∧
      Throughout (fun before x => ∀ w, x.window? = some w → ∀ t d since,
        LastServe before t d since → Honoured rules.params since t d w)
        ((start fixture rules seed now).passages ms) := by
  refine ⟨fun a start t stop samples hd hs ht ho => ?_, honoured_run hc hr⟩
  have hmax : max t start = t := Nat.max_eq_left hs
  have hrest : a.Rests (a.replay start (max t start) samples) := Arena.replay_due hd ho
  have hrelease := a.replay_release hd (by rwa [hmax] : max t start < stop) ho
  rw [hmax] at hrest hrelease
  exact ⟨hrest, hrelease⟩

/-- A window before a pause, one after it before the next ball is due, and one
within which it is. -/
theorem serve_is_honoured_pause :
    ∃ rules ms p, rules = { params := { triggerOffsets := [] } } ∧
      ms = [.join .left 0, .join .right 10, .tick 50, .leave .left 60, .join .left 3000,
        .tick 3100, .tick 4050] ∧ (start duel rules 7 0).run ms = .ok p ∧
      ((start duel rules 7 0).passages ms).map (fun x => x.said.any Notice.isServe) =
        [false, true, false, false, true, false, false] ∧
      (windows ((start duel rules 7 0).passages ms)).map
        (fun w => (w.start, w.stop, w.snapshot.ball.moving)) =
        [(10, 50, false), (3000, 3100, false), (3100, 4050, true)] ∧
      Throughout (fun before x => ∀ w, x.window? = some w → ∀ t d since,
        LastServe before t d since → Honoured rules.params since t d w)
        ((start duel rules 7 0).passages ms) := by
  obtain ⟨p, hp, -⟩ := exists_run (start duel { params := { triggerOffsets := [] } } 7 0)
    [.join .left 0, .join .right 10, .tick 50, .leave .left 60, .join .left 3000, .tick 3100,
      .tick 4050] (·.game.phase = .playing) (by decide +kernel)
  obtain ⟨-, hall⟩ := serve_is_honoured (by decide) hp
  exact ⟨_, _, p, rfl, rfl, hp, by decide +kernel, by decide +kernel, hall⟩

end Play
end Rally
