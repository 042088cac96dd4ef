import Rally.Proofs.Arena.Replay
import Rally.Proofs.Stepper.Court

/-! Every input that is accepted takes effect once: in the first window that reaches its time. -/
namespace Rally

variable {c next : Court} {t : Turn} {d : Deed} {h h₁ h₂ : List Deed} {start time : Nat}
  {side : Side} {s : Sample}

theorem mem_accepted : s ∈ accepted h side ↔ .accepted side s ∈ h := by
  simp only [accepted, List.mem_filterMap]
  constructor
  · rintro ⟨d, hd, hs⟩
    cases d with
    | accepted other x =>
      simp only [Option.ite_none_right_eq_some, Option.some.injEq] at hs
      obtain ⟨rfl, rfl⟩ := hs
      exact hd
    | _ => cases hs
  · intro hs
    exact ⟨_, hs, by simp⟩

/-- A window is after what has been taken before it, and goes no further than it reaches. -/
theorem SoundThroughout.mem_window (hs : SoundThroughout start h) (hd : h = h₁ ++ d :: h₂)
    (hw : s ∈ d.window side) : takenUntil start h₁ < s.time ∧ d.Reaches s.time := by
  cases ht : d.taken? with
  | none => simp [Deed.window, ht] at hw
  | some w =>
    simp only [Deed.window, ht, Option.map_some, Option.getD_some,
      ((hs _ _ _ hd).1 w ht).2 side, List.mem_filter, decide_eq_true_eq] at hw
    exact ⟨hw.2.1, w, ht, hw.2.2⟩

/-- What has been taken is never taken back. -/
theorem SoundThroughout.takenUntil_le (hs : SoundThroughout start (h₁ ++ h₂)) :
    takenUntil start h₁ ≤ takenUntil start (h₁ ++ h₂) := by
  induction h₂ generalizing h₁ with
  | nil => simp
  | cons d h₂ ih =>
    have hd : takenUntil start h₁ ≤ takenUntil start (h₁ ++ [d]) := by
      rw [takenUntil_snoc]
      cases ht : d.taken? with
      | none => exact Nat.le_refl _
      | some w => exact ((hs _ _ _ rfl).1 w ht).1
    have hsplit : h₁ ++ d :: h₂ = (h₁ ++ [d]) ++ h₂ := by simp
    rw [hsplit] at hs ⊢
    exact hd.trans (ih hs)

theorem Deed.Reaches.le (hd : d.Reaches time) (start : Nat) (h : List Deed) :
    time ≤ takenUntil start (h ++ [d]) := by
  obtain ⟨w, hw, ht⟩ := hd
  rw [takenUntil_snoc, hw]
  exact ht

/-- As long as no window reaches an instant, nothing after it has been taken. -/
theorem takenUntil_lt (ht : takenUntil start h₁ < time) (hr : ∀ d ∈ h₂, ¬ d.Reaches time) :
    takenUntil start (h₁ ++ h₂) < time := by
  induction h₂ generalizing h₁ with
  | nil => simpa using ht
  | cons d h₂ ih =>
    have hd : takenUntil start (h₁ ++ [d]) < time := by
      rw [takenUntil_snoc]
      cases hw : d.taken? with
      | none => exact ht
      | some w =>
        have := hr d (by simp)
        simp only [Deed.Reaches, hw, not_exists, not_and, Nat.not_le] at this
        exact this w rfl
    have hsplit : h₁ ++ d :: h₂ = (h₁ ++ [d]) ++ h₂ := by simp
    rw [hsplit]
    exact ih hd fun e he => hr e (by simp [he])

theorem SoundThroughout.front (hs : SoundThroughout start (h₁ ++ h₂)) :
    SoundThroughout start h₁ := by
  intro a d b hd
  have hsplit : h₁ ++ h₂ = a ++ d :: (b ++ h₂) := by simp [hd]
  exact hs _ _ _ hsplit

/-- Before an instant that has not been taken, no window reaches it. -/
theorem SoundThroughout.not_reaches (hs : SoundThroughout start h)
    (ht : takenUntil start h < time) : ∀ d ∈ h, ¬ d.Reaches time := by
  intro d hd hr
  obtain ⟨a, b, rfl⟩ := List.append_of_mem hd
  have hsplit : a ++ d :: b = (a ++ [d]) ++ b := by simp
  rw [hsplit] at hs ht
  have := hr.le start a
  have := hs.takenUntil_le
  omega

/-- Once an instant has been taken, no sample of it is accepted any more. -/
theorem SoundThroughout.not_accepted (hs : SoundThroughout start (h₁ ++ h₂))
    (ht : s.time ≤ takenUntil start h₁) (hst : start < s.time) : s ∉ accepted h₂ side := by
  intro ha
  obtain ⟨a, b, rfl⟩ := List.append_of_mem (mem_accepted.mp ha)
  have hsplit : h₁ ++ (a ++ .accepted side s :: b) = (h₁ ++ a) ++ .accepted side s :: b := by simp
  rw [hsplit] at hs
  have hlt := (hs _ _ _ rfl).2 side s rfl hst
  have := hs.front.takenUntil_le
  omega

/-- What becomes of an accepted sample. It may have been accepted more than once. -/
structure TakenOnce (start : Nat) (h : List Deed) (c : Court) : Prop where
  /-- As long as no window reaches its time, it is in the log as often as it was accepted. -/
  waits : ∀ {before after side s}, h = before ++ .accepted side s :: after → start < s.time →
    (∀ d ∈ after, ¬ d.Reaches s.time) →
    (c.logs.get side).samples.count s = (accepted h side).count s ∧ ∀ d ∈ h, s ∉ d.window side
  /-- The first window that reaches its time takes it as often, and no other takes it. -/
  taken : ∀ {before between after side s d},
    h = before ++ .accepted side s :: (between ++ d :: after) → start < s.time →
    (∀ e ∈ between, ¬ e.Reaches s.time) → d.Reaches s.time →
    (d.window side).count s = (accepted h side).count s ∧
      ∀ e ∈ before ++ .accepted side s :: (between ++ after), s ∉ e.window side

/-- The first window that reaches the time of a sample takes it as often as it was accepted, and
no other window takes it. -/
theorem SoundThroughout.taken_once (hs : SoundThroughout start (h₁ ++ d :: h₂))
    (side : Side) (hst : start < s.time) (ht : takenUntil start h₁ < s.time)
    (hd : d.Reaches s.time) :
    (d.window side).count s = (accepted (h₁ ++ d :: h₂) side).count s ∧
      ∀ e ∈ h₁ ++ h₂, s ∉ e.window side := by
  have hsplit : h₁ ++ d :: h₂ = (h₁ ++ [d]) ++ h₂ := by simp
  have hsound := hs _ _ _ rfl
  have hfront := hs.front
  have hle := hd.le start h₁
  obtain ⟨w, hw, hnow⟩ := hd
  rw [hsplit] at hs ⊢
  constructor
  · have hbefore : accepted (h₁ ++ [d]) side = accepted h₁ side := by
      refine accepted_other ?_ h₁ side
      rintro side s rfl
      cases hw
    have hafter : (accepted h₂ side).count s = 0 :=
      List.count_eq_zero.mpr (hs.not_accepted hle hst)
    rw [accepted_append, List.count_append, hafter, hbefore, Deed.window, hw, Option.map_some,
      Option.getD_some, (hsound.1 w hw).2 side]
    exact List.count_filter (by simp [ht, hnow])
  · intro e he hwin
    rcases List.mem_append.mp he with he | he
    · obtain ⟨a, b, hab⟩ := List.append_of_mem he
      exact hfront.not_reaches ht e he (hfront.mem_window hab hwin).2
    · obtain ⟨a, b, rfl⟩ := List.append_of_mem he
      have hab : (h₁ ++ [d]) ++ (a ++ e :: b) = ((h₁ ++ [d]) ++ a) ++ e :: b := by simp
      have hlt := (hs.mem_window hab hwin).1
      rw [hab] at hs
      have := hs.front.takenUntil_le
      omega

/-- What is accepted is after the last window, and stays so until a window reaches it. -/
theorem SoundThroughout.ahead (hs : SoundThroughout start (h₁ ++ .accepted side s :: h₂))
    (hst : start < s.time) (hr : ∀ d ∈ h₂, ¬ d.Reaches s.time) :
    takenUntil start (h₁ ++ .accepted side s :: h₂) < s.time := by
  refine takenUntil_lt ((hs _ _ _ rfl).2 side s rfl hst) fun d hd => ?_
  rcases List.mem_cons.mp hd with rfl | hd
  · rintro ⟨w, hw, -⟩
    cases hw
  · exact hr d hd

theorem takenOnce (hs : SoundThroughout start h) (hh : Held start h c) : TakenOnce start h c := by
  constructor
  · rintro before after side s rfl hst hr
    have hahead := hs.ahead hst hr
    constructor
    · have hn := congrArg (List.count s) (hh.logs side).newer
      rw [← hh.upTo] at hn
      rwa [List.count_filter (by simpa using hahead), List.count_filter (by simpa using hahead)]
        at hn
    · intro d hd hw
      obtain ⟨a, b, hab⟩ := List.append_of_mem hd
      exact hs.not_reaches hahead d hd (hs.mem_window hab hw).2
  · rintro before between after side s d rfl hst hr hd
    have hsplit : before ++ .accepted side s :: (between ++ d :: after) =
        (before ++ .accepted side s :: between) ++ d :: after := by simp
    rw [hsplit] at hs ⊢
    have := hs.taken_once side hst (hs.front.ahead hst hr) hd
    simpa using this

/-- What a turn does with what it takes. -/
structure TurnEffect (c : Court) (t : Turn) (d : Deed) (next : Court) : Prop where
  /-- A tick takes a window unless it comes too late or too early. -/
  tick : ∀ {now}, t = .tick now → (d.taken?.isSome = true ↔
    c.stepper.expired now = false ∧ c.stepper.pace.tick ≤ now - c.stepper.lastTick)
  /-- A resume always takes one. -/
  resume : ∀ {now}, t = .resume now → d.taken?.isSome = true
  /-- Neither a refused sample nor a tick that comes too early or too late changes anything. -/
  still : d.taken? = none → (∀ side s, d ≠ .accepted side s) → next = c
  /-- A tick simulates its window. Each sample takes effect at its instant, between what is
  simulated of the samples before it and after it, and the last one of an instant prevails. -/
  ticked : ∀ {now window played}, d = .ticked now window played →
    next.arena = played.arena ∧ played = c.arena.replay c.stepper.lastTick now window ∧
    ∀ side, ∀ s ∈ window.get side,
      played =
        ((c.arena.replay c.stepper.lastTick s.time
          (window.map (List.filter (·.time < s.time)))).adjust
          (Arena.steerAt c.stepper.lastTick s.time window)).andThen
          (Arena.replay s.time now (window.map (List.filter (s.time < ·.time)))) ∧
      ∀ (a : Arena) (last : Sample),
        ((window.get side).filter (·.time = s.time)).getLast? = some last →
        ((a.steerAt c.stepper.lastTick s.time window).paddles.get side).direction = last.direction
  /-- A resume turns each paddle the way of the newest sample of its window. -/
  resumed : ∀ {now window}, d = .resumed now window →
    next.arena =
      { c.arena with
        paddles := ⟨c.arena.paddles.left.follow window.left,
          c.arena.paddles.right.follow window.right⟩ }

theorem mem_inputs {now : Nat} (hh : Held start h c)
    (hs : s ∈ (c.stepper.inputs now c.logs).get side) :
    s.Valid ∧ c.stepper.lastTick < s.time ∧ s.time ≤ now := by
  rw [Stepper.inputs_get, InputLog.between_eq_filter (hh.logs side).order] at hs
  obtain ⟨hm, ht⟩ := List.mem_filter.mp hs
  exact ⟨(hh.logs side).valid s hm, by simpa using ht⟩

theorem turnEffect (hh : Held start h c) (ha : Act c t d next) : TurnEffect c t d next := by
  have hv {now : Nat} : ∀ side, ∀ s ∈ (c.stepper.inputs now c.logs).get side, s.Valid :=
    fun side s hs => (mem_inputs hh hs).1
  have hw {now : Nat} : ∀ side, ∀ s ∈ (c.stepper.inputs now c.logs).get side,
      c.stepper.lastTick < s.time ∧ s.time ≤ now := fun side s hs => (mem_inputs hh hs).2
  have ho {now : Nat} : ∀ side, InOrder ((c.stepper.inputs now c.logs).get side) := by
    intro side
    rw [Stepper.inputs_get, InputLog.between_eq_filter (hh.logs side).order]
    exact (hh.logs side).order.filter _
  refine ⟨?_, ?_, ?_, ?_, ?_⟩
  · rintro now rfl
    cases ha with
    | expired he => simp [Deed.taken?, he]
    | idle he hn => simpa [Deed.taken?, he] using hn
    | ticked he hn => simpa [Deed.taken?, he] using hn
  · rintro now rfl
    cases ha with
    | resumed => rfl
  · intro ht hno
    cases ha with
    | accepted => exact absurd rfl (hno _ _)
    | refused | idle | expired => rfl
    | ticked | resumed => cases ht
  · rintro now window played rfl
    cases ha with
    | ticked =>
      refine ⟨rfl, rfl, fun side s hs => ⟨Arena.replay_cut ho hw hs, fun a last hl => ?_⟩⟩
      have hm := (List.mem_filter.mp (List.mem_of_getLast? hl)).1
      exact Arena.steerAt_direction (hv side last hm) (hw side s hs).1 hl
  · rintro now window rfl
    cases ha with
    | resumed => exact Stepper.resume_arena _ _ _ _ hv

/-- However inputs, ticks and resumes follow each other after a start, each input that is accepted
and newer than the start is taken once, by the first window that reaches it, and whatever comes
next does with its window what it should. -/
theorem inputs_take_effect_once {pace : Pace} {made : Nat} {limits : Sides (Nat × Nat)}
    {arena : Arena} {turns : List Turn} (ht : Timely start turns)
    (hr : (Court.fresh pace made start limits arena).run turns = (h, c)) :
    TakenOnce start h c ∧ ∀ t d next, c.play t = (d, next) → TurnEffect c t d next := by
  have hnil : SoundThroughout start [] := by
    intro h₁ d h₂ he
    simp at he
  obtain ⟨hs, hh⟩ := held_run held_fresh hnil (Nat.le_refl start) ht hr
  exact ⟨takenOnce hs hh, fun t d next hp => turnEffect hh (act_of_play hp)⟩

/-- An input waits through an idle tick for the next one, and a later one for the end of a pause. -/
theorem inputs_take_effect_once_pause :
    ∃ h c, (Court.fresh {} 0 100 (.both (500, 512)) (.ofParams {})).run
        [.record .left ⟨120, 1⟩, .tick 110, .tick 140, .record .left ⟨130, 0⟩,
          .record .left ⟨150, -1⟩, .resume 150, .tick 190] = (h, c) ∧
      h.map Deed.taken? = [none, none, some (140, ⟨[⟨120, 1⟩], []⟩), none, none,
        some (150, ⟨[⟨150, -1⟩], []⟩), some (190, ⟨[], []⟩)] ∧
      TakenOnce 100 h c ∧ ∀ t d next, c.play t = (d, next) → TurnEffect c t d next := by
  obtain ⟨⟨h, c⟩, hr, hm⟩ :
      ∃ r, (Court.fresh {} 0 100 (.both (500, 512)) (.ofParams {})).run
          [.record .left ⟨120, 1⟩, .tick 110, .tick 140, .record .left ⟨130, 0⟩,
            .record .left ⟨150, -1⟩, .resume 150, .tick 190] = r ∧
        r.1.map Deed.taken? = [none, none, some (140, ⟨[⟨120, 1⟩], []⟩), none, none,
          some (150, ⟨[⟨150, -1⟩], []⟩), some (190, ⟨[], []⟩)] :=
    ⟨_, rfl, by decide +kernel⟩
  exact ⟨h, c, hr, hm, inputs_take_effect_once (by decide) hr⟩

end Rally
