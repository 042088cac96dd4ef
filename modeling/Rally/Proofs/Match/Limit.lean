import Rally.Proofs.Match.Following
import Rally.Proofs.Match.Windows

/-! The time limit of a match, which counts from the first start of play and through all pauses. -/
namespace Rally

/-- Play has begun at an instant, and never before. -/
def FirstPlay (h : List Passage) (t : Nat) : Prop :=
  ∃ before x since, h = before ++ x :: since ∧ x.Begins t ∧
    ∀ y ∈ before, y.after.game.phase ≠ .playing

variable {h : List Passage} {x : Passage} {t u : Nat}

theorem FirstPlay.snoc (ht : FirstPlay h t) (x : Passage) : FirstPlay (h ++ [x]) t := by
  obtain ⟨before, y, since, rfl, hb, hn⟩ := ht
  exact ⟨before, y, since ++ [x], by simp, hb, hn⟩

theorem FirstPlay.unique (ht : FirstPlay h t) (hu : FirstPlay h u) : t = u := by
  obtain ⟨before, x, since, rfl, hx, hbefore⟩ := ht
  obtain ⟨front, y, rest, he, hy, hfront⟩ := hu
  rcases append_eq_middle he with ⟨between, rfl, -⟩ | ⟨between, rfl, hx'⟩
  · exact absurd hy.playing (hbefore y (by simp))
  · cases between with
    | nil =>
      obtain ⟨rfl, -⟩ := List.cons.inj hx'
      exact Option.some.inj (hx.now.symm.trans hy.now)
    | cons z between =>
      obtain ⟨rfl, -⟩ := List.cons.inj hx'
      exact absurd hx.playing (hfront x (by simp))

/-- A match ends at a tick because its time is up, and nothing is simulated. -/
structure TimesOut (p : Play) (t : Nat) (q : Play) : Prop where
  apply : p.apply (.tick t) = .ok q
  ended : q.game.phase = .ended
  notices : q.notices = p.notices ++ [p.endedNotice .timeout none]
  bulletins : q.bulletins = p.bulletins ++ [p.finishedBulletin .timeout none]
  window : p.window? (.tick t) = none
  paddles : q.game.arena.paddles = p.game.arena.paddles
  scores : q.game.scores = p.game.scores

namespace Play
variable {p q r : Play} {now : Nat} {m : Move} {ms ns : List Move} {rules : Rules}

/-- What a move does to the time limit. -/
inductive Onset (p : Play) (m : Move) (q : Play) : Prop where
  | same (hs : q.game.stepper.startedAt = p.game.stepper.startedAt)
      (hpace : q.game.phase ≠ .ended → q.game.stepper.pace = p.game.stepper.pace)
      (hp : q.game.phase = .playing → p.game.phase = .playing)
  | begins {now : Nat} (hm : m.now? = some now) (hw : p.game.phase = .waiting)
      (hp : q.game.phase = .playing) (hs : q.game.stepper = p.game.stepper.start now)

theorem onset_finish (hr : r.game.stepper = p.game.stepper) (reason : EndReason)
    (named : Option Side) : Onset p m (r.finish reason named) := by
  refine .same ?_ (fun h => absurd (finish_phase ..) h) fun h => ?_
  · rw [finish_startedAt, hr]
  · simp at h

theorem onset_underWay {side : Side} {message : String} (hw : p.game.phase = .waiting)
    (hr : r.game.stepper = p.game.stepper) (hq : Served now (r.underWay now message) q) :
    Onset p (.join side now) q := by
  obtain ⟨dice, direction, rfl⟩ := hq
  refine .begins rfl hw rfl ?_
  cases hs : p.game.stepper.startedAt <;> simp [serveAlong, underWay, hr, hs]

theorem onset_step (h : Step p m q) : Onset p m q := by
  cases h with
  | again | alone | unforgiven | back | needless =>
    exact .same (by simp) (by simp) (by simp)
  | goOn hs ho hw hu hq => exact onset_underWay hw (by simp) hq
  | begin hs ho ha hw hq => exact onset_underWay hw (by simp) hq
  | forced hs ho ha hw => exact .begins rfl hw rfl (by simp [forced])
  | absent | left | stale | still => exact .same rfl (fun _ => rfl) id
  | @pause side now =>
    refine .same (by simp [left]) (by simp [left]) fun hp => ?_
    rw [pause_game] at hp
    split at hp <;> simp_all [left]
  | surrender | expired | finish => exact onset_finish rfl ..
  | startPassed | reconnectPassed | celebrated => exact onset_finish (by simp) ..
  | @stepped now q he hw ht hq =>
    have hs : (p.stepped now).game.phase ≠ .ended := by simp [Play.stepped, hw]
    refine .same (respondAll_alike hs hq).2 (fun hne => ?_) fun _ => hw
    rw [((unmoved_respondAll hs hq).goesOn hne).1]
    rfl
  | close =>
    unfold close
    split
    · exact .same rfl (fun _ => rfl) id
    · exact .same rfl (fun _ => rfl) id
  | @record side s =>
    obtain ⟨logs, hl⟩ := record_eq p side s
    rw [hl]
    exact .same rfl (fun _ => rfl) id

theorem not_expired_of_window {w : Window} (h : p.window? m = some w) :
    p.game.phase = .playing ∧ p.game.stepper.expired w.stop = false := by
  obtain ⟨now, rfl, hp, -, rfl⟩ := window?_eq_some h
  refine ⟨hp, ?_⟩
  cases he : p.game.stepper.expired now with
  | true =>
    rw [window?_expired he] at h
    cases h
  | false => exact he

theorem expired_iff {s : Stepper} (hs : s.startedAt = some t) :
    s.expired u = true ↔ s.pace.limit ≤ u - t := by
  simp [Stepper.expired, hs]

/-- The time of a match counts from the first start of play, and no window goes beyond it. -/
structure Limited (rules : Rules) (h : List Passage) (p : Play) : Prop where
  pace : p.game.phase ≠ .ended → p.game.stepper.pace = rules.pace
  unstarted : p.game.stepper.startedAt = none →
    p.game.phase ≠ .playing ∧ ∀ x ∈ h, x.after.game.phase ≠ .playing
  started : ∀ t, p.game.stepper.startedAt = some t → FirstPlay h t
  windows : ∀ w ∈ windows h, ∃ t, p.game.stepper.startedAt = some t ∧
    w.stop < t + rules.pace.limit

theorem limited_start (fixture : Fixture) (rules : Rules) (seed : UInt64) (now : Nat) :
    Limited rules [] (start fixture rules seed now) := by
  refine ⟨fun _ => ?_, fun _ => ?_, fun t ht => ?_, ?_⟩
  · simp [start, Stepper.ofPace]
  · simp [start]
  · simp [start, Stepper.ofPace] at ht
  · simp [Rally.windows]

/-- A window that is simulated ends before the time is up. -/
theorem Limited.window (hl : Limited rules h p) {w : Window} (hw : p.window? m = some w) :
    ∃ t, p.game.stepper.startedAt = some t ∧ w.stop < t + rules.pace.limit := by
  obtain ⟨hp, he⟩ := not_expired_of_window hw
  cases hs : p.game.stepper.startedAt with
  | none => exact absurd hp (hl.unstarted hs).1
  | some t =>
    have hlim : ¬ p.game.stepper.pace.limit ≤ w.stop - t := by
      rw [← expired_iff hs, he]
      simp
    rw [hl.pace (by simp [hp])] at hlim
    exact ⟨t, rfl, by omega⟩

/-- The time goes on as it does. -/
theorem Limited.same (hl : Limited rules h p)
    (hs : q.game.stepper.startedAt = p.game.stepper.startedAt)
    (hpace : q.game.phase ≠ .ended → q.game.stepper.pace = rules.pace)
    (hp : q.game.phase = .playing → p.game.phase = .playing) :
    Limited rules (h ++ [⟨p, m, q⟩]) q := by
  refine ⟨hpace, fun hn => ?_, fun t ht => ?_, fun w hw => ?_⟩
  · obtain ⟨hp', hall⟩ := hl.unstarted (hs ▸ hn)
    have hq : q.game.phase ≠ .playing := fun h => hp' (hp h)
    refine ⟨hq, fun x hx => ?_⟩
    rcases List.mem_append.mp hx with hx | hx
    · exact hall x hx
    · rw [List.mem_singleton.mp hx]
      exact hq
  · exact (hl.started t (hs ▸ ht)).snoc _
  · rw [windows_snoc] at hw
    rw [hs]
    rcases List.mem_append.mp hw with hw | hw
    · exact hl.windows w hw
    · exact hl.window (Option.mem_toList.mp hw)

theorem limited_step (hl : Limited rules h p) (hp : p.game.phase ≠ .ended) (hs : Step p m q) :
    Limited rules (h ++ [⟨p, m, q⟩]) q := by
  cases onset_step hs with
  | same hs hpace hq => exact hl.same hs (fun hne => (hpace hne).trans (hl.pace hp)) hq
  | @begins now hm hw hq hs =>
    have hwin : windows (h ++ [⟨p, m, q⟩]) = windows h :=
      windows_snoc_of_none (window?_of_ne (by simp [hw]))
    have hstart : q.game.stepper.startedAt = some (p.game.stepper.startedAt.getD now) := by
      rw [hs]
      rfl
    refine ⟨fun _ => ?_, fun hn => by simp [hstart] at hn, fun t ht => ?_, fun w hw => ?_⟩
    · rw [hs]
      exact hl.pace hp
    · rw [hstart] at ht
      obtain rfl := Option.some.inj ht
      cases hn : p.game.stepper.startedAt with
      | none => exact ⟨h, _, [], rfl, ⟨hw, hq, hm⟩, (hl.unstarted hn).2⟩
      | some t => exact (hl.started t hn).snoc _
    · rw [hwin] at hw
      obtain ⟨t, ht, hstop⟩ := hl.windows w hw
      exact ⟨t, by rw [hstart, ht]; rfl, hstop⟩

theorem limited_run {fixture : Fixture} {seed : UInt64}
    (hr : (start fixture rules seed now).run ms = .ok p) :
    Limited rules ((start fixture rules seed now).passages ms) p := by
  have hI : Limited rules ([] ++ (start fixture rules seed now).passages ms) p ∧ Settled p := by
    refine run_passages (I := fun h _ p => Limited rules h p ∧ Settled p) ?_
      ⟨limited_start fixture rules seed now, settled_start fixture rules seed now⟩ hr
    rintro h p m - q hq ⟨hl, hset⟩
    refine ⟨?_, settled_apply hset hq⟩
    rcases hset.step_or_over hq with ⟨he, hs⟩ | ⟨he, logs, rfl⟩
    · exact limited_step hl he hs
    · exact hl.same rfl (fun hne => absurd he hne) id
  exact hI.1

theorem Limited.startedAt_iff (hl : Limited rules h p) :
    p.game.stepper.startedAt = some t ↔ FirstPlay h t := by
  refine ⟨hl.started t, fun ht => ?_⟩
  cases hs : p.game.stepper.startedAt with
  | none =>
    obtain ⟨before, x, since, rfl, hx, -⟩ := ht
    exact absurd hx.playing ((hl.unstarted hs).2 x (by simp))
  | some u => rw [ht.unique (hl.started u hs)]

/-- A tick when the time is up ends the match, in play, in a pause or in its celebration. -/
theorem Limited.timesOut (hl : Limited rules h p) (hs : p.game.stepper.startedAt = some t)
    (hp : p.game.phase ≠ .ended) (hu : rules.pace.limit ≤ u - t) : ∃ q, TimesOut p u q := by
  have he : p.game.stepper.expired u = true := by
    rw [expired_iff hs, hl.pace hp]
    exact hu
  refine ⟨p.finish .timeout none, ?_, finish_phase .., finish_notices _ _ _ hp,
    finish_bulletins _ _ _ hp, window?_expired he, finish_paddles .., by simp⟩
  have hne : p.game.ended = false := by simp [Match.ended, hp]
  simp [apply, Play.tick, hne, he, pure, Except.pure]

/-- In every run, a match has the time of the first start of play from then on and for good. Once as
much time as the rules give has passed since, the next tick ends it for that reason, whether it is
in play or not, and simulates nothing. No window ever goes so far. -/
theorem limit_is_hard {fixture : Fixture} {seed : UInt64}
    (hr : (start fixture rules seed now).run ms = .ok p) :
    let h := (start fixture rules seed now).passages ms
    (∀ t, p.game.stepper.startedAt = some t ↔ FirstPlay h t) ∧
      (p.game.stepper.startedAt = none ↔ ∀ x ∈ h, x.after.game.phase ≠ .playing) ∧
      (∀ ns q t, p.run ns = .ok q → p.game.stepper.startedAt = some t →
        q.game.stepper.startedAt = some t) ∧
      (∀ t u, p.game.stepper.startedAt = some t → p.game.phase ≠ .ended →
        rules.pace.limit ≤ u - t → ∃ q, TimesOut p u q) ∧
      ∀ w ∈ windows h, ∃ t, p.game.stepper.startedAt = some t ∧
        w.stop < t + rules.pace.limit := by
  have hl := limited_run hr
  refine ⟨fun t => hl.startedAt_iff, ⟨fun hn => (hl.unstarted hn).2, fun hn => ?_⟩,
    fun ns q t hq ht => ?_, fun t u ht he hu => hl.timesOut ht he hu, hl.windows⟩
  · cases hs : p.game.stepper.startedAt with
    | none => rfl
    | some t =>
      obtain ⟨before, x, since, heq, hx, -⟩ := hl.started t hs
      exact absurd hx.playing (hn x (by simp [heq]))
  · have hlq := limited_run (run_append.mpr ⟨p, hr, hq⟩)
    rw [passages_append hr] at hlq
    obtain ⟨before, x, since, heq, hx, hb⟩ := hl.started t ht
    exact hlq.startedAt_iff.mpr ⟨before, x, since ++ p.passages ns, by simp [heq], hx, hb⟩

/-- A match whose time is up while it is paused for the second time. -/
theorem limit_is_hard_pause :
    ∃ p, (start duel { pace := { limit := 1000 } } 7 0).run [.join .left 0, .join .right 10,
        .tick 50, .leave .left 60, .join .left 600, .leave .right 700] = .ok p ∧
      p.game.stepper.startedAt = some 10 ∧ p.game.phase = .waiting ∧
      ∃ q, TimesOut p 1010 q := by
  obtain ⟨p, hp, hs, hw⟩ := exists_run (start duel { pace := { limit := 1000 } } 7 0)
    [.join .left 0, .join .right 10, .tick 50, .leave .left 60, .join .left 600,
      .leave .right 700]
    (fun p => p.game.stepper.startedAt = some 10 ∧ p.game.phase = .waiting) (by decide +kernel)
  obtain ⟨-, -, -, htime, -⟩ := limit_is_hard hp
  exact ⟨p, hp, hs, hw, htime 10 1010 hs (by simp [hw]) (by decide)⟩

end Play
end Rally
