import Rally.Proofs.History
import Rally.Proofs.Stepper.Window

/-! A stepper among its inputs: the turns that it takes in any order, and what it does in each. -/
namespace Rally

/-- A stepper, the arena that it moves and the logs that it takes its inputs from. -/
structure Court where
  stepper : Stepper
  arena : Arena
  logs : Sides InputLog
deriving DecidableEq

inductive Turn where
  /-- An input of a side arrives. -/
  | record (side : Side) (sample : Sample)
  | tick (now : Nat)
  | resume (now : Nat)
deriving DecidableEq

/-- What comes of a turn. -/
inductive Deed where
  | accepted (side : Side) (sample : Sample)
  | refused (side : Side) (sample : Sample) (why : Refusal)
  /-- A tick came too early. -/
  | idle (now : Nat)
  /-- A tick came after the time limit. -/
  | expired (now : Nat)
  /-- A tick has taken a window and simulated it. -/
  | ticked (now : Nat) (window : Sides (List Sample)) (played : Played)
  /-- A resume has taken a window. -/
  | resumed (now : Nat) (window : Sides (List Sample))
deriving DecidableEq

/-- The instant of a turn of the stepper. -/
def Turn.now? : Turn → Option Nat
  | .record .. => none
  | .tick now => some now
  | .resume now => some now

/-- The turns of the stepper come at an instant or later, and never go back in time. -/
def Timely (clock : Nat) (turns : List Turn) : Prop :=
  (clock :: turns.filterMap Turn.now?).Pairwise (· ≤ ·)

instance (clock : Nat) (turns : List Turn) : Decidable (Timely clock turns) := by
  unfold Timely
  infer_instance

namespace Court
variable (c : Court)

/-- A stepper that has just been started, with new logs of any limits. -/
def fresh (pace : Pace) (made start : Nat) (limits : Sides (Nat × Nat)) (arena : Arena) :
    Court where
  stepper := (Stepper.ofPace pace made).start start
  arena
  logs := limits.map fun l => .withLimits l.1 l.2

def play : Turn → Deed × Court
  | .record side s =>
    match (c.logs.get side).record s with
    | .ok log => (.accepted side s, { c with logs := c.logs.set side log })
    | .error why => (.refused side s why, c)
  | .tick now =>
    match c.stepper.tick now c.arena c.logs with
    | .idle => (.idle now, c)
    | .expired => (.expired now, c)
    | .stepped stepper logs played _ =>
      (.ticked now (c.stepper.inputs now c.logs) played, ⟨stepper, played.arena, logs⟩)
  | .resume now =>
    let (stepper, arena, logs) := c.stepper.resume now c.arena c.logs
    (.resumed now (c.stepper.inputs now c.logs), ⟨stepper, arena, logs⟩)

/-- Takes turns one after another. -/
def run (c : Court) : List Turn → List Deed × Court
  | [] => ([], c)
  | t :: ts =>
    let (d, next) := c.play t
    let (ds, last) := next.run ts
    (d :: ds, last)

end Court

/-- When a deed took a window, and which. -/
def Deed.taken? : Deed → Option (Nat × Sides (List Sample))
  | .ticked now window _ => some (now, window)
  | .resumed now window => some (now, window)
  | _ => none

/-- The samples of a side that a deed took. -/
def Deed.window (d : Deed) (side : Side) : List Sample :=
  (d.taken?.map fun w => w.2.get side).getD []

/-- A deed took a window that ends at an instant or later. -/
def Deed.Reaches (d : Deed) (t : Nat) : Prop := ∃ w, d.taken? = some w ∧ t ≤ w.1

/-- The accepted samples of a side, in order. -/
def accepted (h : List Deed) (side : Side) : List Sample :=
  h.filterMap fun
    | .accepted other s => if other = side then some s else none
    | _ => none

/-- The end of the last window, or an instant before all windows. -/
def takenUntil (start : Nat) (h : List Deed) : Nat :=
  h.foldl (fun last d => (d.taken?.map Prod.fst).getD last) start

/-- All that a stepper can do in a turn. -/
inductive Act (c : Court) : Turn → Deed → Court → Prop where
  | accepted {side s new} (h : (c.logs.get side).Recorded s new) :
      Act c (.record side s) (.accepted side s) { c with logs := c.logs.set side new }
  | refused {side s why} : Act c (.record side s) (.refused side s why) c
  | idle {now} (he : c.stepper.expired now = false)
      (hn : now - c.stepper.lastTick < c.stepper.pace.tick) : Act c (.tick now) (.idle now) c
  | expired {now} (he : c.stepper.expired now = true) : Act c (.tick now) (.expired now) c
  | ticked {now} (he : c.stepper.expired now = false)
      (hn : c.stepper.pace.tick ≤ now - c.stepper.lastTick) : Act c (.tick now)
      (.ticked now (c.stepper.inputs now c.logs) (c.stepper.simulated now c.arena c.logs))
      ⟨c.stepper.stepped now c.arena c.logs, (c.stepper.simulated now c.arena c.logs).arena,
        c.stepper.consumed now c.logs⟩
  | resumed {now} : Act c (.resume now) (.resumed now (c.stepper.inputs now c.logs))
      ⟨c.stepper.start now, (c.stepper.resume now c.arena c.logs).2.1,
        c.stepper.consumed now c.logs⟩

variable {c next : Court} {t : Turn} {d : Deed} {h h₁ h₂ : List Deed} {start : Nat} {side : Side}

theorem act_of_play (hp : c.play t = (d, next)) : Act c t d next := by
  cases t with
  | record side s =>
    simp only [Court.play] at hp
    split at hp
    · rename_i log hr
      cases hp
      exact .accepted (InputLog.record_ok hr)
    · cases hp
      exact .refused
  | tick now =>
    simp only [Court.play, Stepper.tick_eq] at hp
    cases he : c.stepper.expired now with
    | true =>
      simp only [he, if_true] at hp
      cases hp
      exact .expired he
    | false =>
      by_cases hn : now - c.stepper.lastTick < c.stepper.pace.tick
      · simp only [he, Bool.false_eq_true, if_false, if_pos hn] at hp
        cases hp
        exact .idle he hn
      · simp only [he, Bool.false_eq_true, if_false, if_neg hn] at hp
        cases hp
        exact .ticked he (Nat.le_of_not_lt hn)
  | resume now =>
    cases hp
    exact .resumed

theorem accepted_append (h₁ h₂ : List Deed) (side : Side) :
    accepted (h₁ ++ h₂) side = accepted h₁ side ++ accepted h₂ side := List.filterMap_append

theorem takenUntil_snoc (start : Nat) (h : List Deed) (d : Deed) :
    takenUntil start (h ++ [d]) = (d.taken?.map Prod.fst).getD (takenUntil start h) := by
  simp [takenUntil]

/-- A deed is as it should be after what has been done before. A window begins where the last one
ended, goes no way back, and has just what has been accepted in its time. An accepted sample is
newer than the last window. -/
def Sound (start : Nat) (h : List Deed) (d : Deed) : Prop :=
  (∀ w, d.taken? = some w → takenUntil start h ≤ w.1 ∧ ∀ side, w.2.get side =
    (accepted h side).filter fun s => takenUntil start h < s.time ∧ s.time ≤ w.1) ∧
  ∀ side s, d = .accepted side s → start < s.time → takenUntil start h < s.time

/-- What is true of every court that has come from a fresh one. -/
structure Held (start : Nat) (h : List Deed) (c : Court) : Prop where
  upTo : takenUntil start h = c.stepper.lastTick
  le : start ≤ c.stepper.lastTick
  logs : ∀ side, (c.logs.get side).UpToDate start c.stepper.lastTick (accepted h side)

theorem held_fresh {pace : Pace} {made : Nat} {limits : Sides (Nat × Nat)} {arena : Arena} :
    Held start [] (.fresh pace made start limits arena) := by
  refine ⟨rfl, Nat.le_refl _, fun side => ?_⟩
  rw [Court.fresh, Sides.get_map]
  exact .withLimits ..

theorem accepted_other (hd : ∀ side s, d ≠ .accepted side s) (h : List Deed) (side : Side) :
    accepted (h ++ [d]) side = accepted h side := by
  rw [accepted_append]
  cases d with
  | accepted other s => exact absurd rfl (hd other s)
  | _ => simp [accepted]

theorem accepted_snoc (h : List Deed) (other side : Side) (s : Sample) :
    accepted (h ++ [.accepted other s]) side =
      accepted h side ++ if other = side then [s] else [] := by
  rw [accepted_append]
  by_cases ho : other = side <;> simp [accepted, ho]

/-- Nothing has been done. -/
theorem Held.same (hh : Held start h c) (ht : d.taken? = none)
    (hd : ∀ side s, d ≠ .accepted side s) : Sound start h d ∧ Held start (h ++ [d]) c := by
  refine ⟨⟨fun w hw => ?_, fun side s he => absurd he (hd side s)⟩, ?_, hh.le, fun side => ?_⟩
  · simp [ht] at hw
  · rw [takenUntil_snoc, ht]
    exact hh.upTo
  · rw [accepted_other hd]
    exact hh.logs side

theorem Held.record (hh : Held start h c) {s : Sample} {new : InputLog}
    (hr : (c.logs.get side).Recorded s new) :
    Sound start h (.accepted side s) ∧
      Held start (h ++ [.accepted side s]) { c with logs := c.logs.set side new } := by
  refine ⟨⟨fun w hw => ?_, fun other a ha hs => ?_⟩, ?_, hh.le, fun other => ?_⟩
  · simp [Deed.taken?] at hw
  · cases ha
    rw [hh.upTo]
    exact (hh.logs side).last_lt hr hs
  · rw [takenUntil_snoc]
    exact hh.upTo
  · rw [accepted_snoc]
    rcases c.logs.get_set_cases side new other with ⟨rfl, hg⟩ | ⟨ho, hg⟩
    · rw [hg, if_pos rfl]
      exact (hh.logs other).record hr
    · rw [hg, if_neg (Ne.symm ho), List.append_nil]
      exact hh.logs other

/-- A window has been taken, whatever has been done with it. -/
theorem Held.take (hh : Held start h c) {now : Nat} (hn : c.stepper.lastTick ≤ now)
    (hd : d.taken? = some (now, c.stepper.inputs now c.logs))
    (hs : next.stepper.lastTick = now) (hl : next.logs = c.stepper.consumed now c.logs) :
    Sound start h d ∧ Held start (h ++ [d]) next := by
  have hno : ∀ side s, d ≠ .accepted side s := by
    rintro side s rfl
    simp [Deed.taken?] at hd
  refine ⟨⟨fun w hw => ?_, fun side s he => absurd he (hno side s)⟩, ?_, ?_, fun side => ?_⟩
  · rw [hd] at hw
    cases hw
    rw [hh.upTo]
    refine ⟨hn, fun side => ?_⟩
    rw [Stepper.inputs_get]
    exact (hh.logs side).between now
  · rw [takenUntil_snoc, hd, hs]
    rfl
  · rw [hs]
    exact hh.le.trans hn
  · rw [hl, Stepper.consumed, Sides.get_map, accepted_other hno, hs]
    exact (hh.logs side).consume hh.le hn

theorem held_act (hh : Held start h c)
    (hn : ∀ now, t.now? = some now → c.stepper.lastTick ≤ now) (ha : Act c t d next) :
    Sound start h d ∧ Held start (h ++ [d]) next := by
  cases ha with
  | accepted hr => exact hh.record hr
  | refused | idle | expired => exact hh.same rfl (by simp)
  | ticked => exact hh.take (hn _ rfl) rfl rfl rfl
  | resumed => exact hh.take (hn _ rfl) rfl rfl rfl

/-- The stepper stays where it was, or goes to the instant of the turn. -/
theorem lastTick_act (ha : Act c t d next) :
    next.stepper.lastTick = c.stepper.lastTick ∨ t.now? = some next.stepper.lastTick := by
  cases ha with
  | accepted | refused | idle | expired => exact .inl rfl
  | ticked | resumed => exact .inr rfl

theorem timely_cons {clock : Nat} {ts : List Turn} : Timely clock (t :: ts) ↔
    clock ≤ t.now?.getD clock ∧ Timely (t.now?.getD clock) ts := ascending_cons

/-- Each deed of a history is as it should be after those before it. -/
def SoundThroughout (start : Nat) (h : List Deed) : Prop :=
  ∀ h₁ d h₂, h = h₁ ++ d :: h₂ → Sound start h₁ d

theorem SoundThroughout.snoc (hh : SoundThroughout start h) (hd : Sound start h d) :
    SoundThroughout start (h ++ [d]) := Throughout.snoc hh hd

theorem held_run {turns : List Turn} {clock : Nat} {ds : List Deed} {last : Court}
    (hh : Held start h c) (hs : SoundThroughout start h) (hc : c.stepper.lastTick ≤ clock)
    (ht : Timely clock turns) (hr : c.run turns = (ds, last)) :
    SoundThroughout start (h ++ ds) ∧ Held start (h ++ ds) last := by
  induction turns generalizing c h clock ds with
  | nil =>
    cases hr
    rw [List.append_nil]
    exact ⟨hs, hh⟩
  | cons t ts ih =>
    rcases hp : c.play t with ⟨d, next⟩
    have ha := act_of_play hp
    obtain ⟨hle, hts⟩ := timely_cons.mp ht
    have hn : ∀ now, t.now? = some now → c.stepper.lastTick ≤ now := by
      intro now hnow
      rw [hnow] at hle
      exact hc.trans hle
    obtain ⟨hd, hnext⟩ := held_act hh hn ha
    have hlast : next.stepper.lastTick ≤ t.now?.getD clock := by
      rcases lastTick_act ha with hl | hl
      · rw [hl]
        exact hc.trans hle
      · rw [hl]
        exact Nat.le_refl _
    rcases hq : next.run ts with ⟨es, last'⟩
    have hds : (d :: es, last') = (ds, last) := by
      rw [← hr, Court.run, hp]
      simp [hq]
    cases hds
    have := ih hnext (hs.snoc hd) hlast hts hq
    simpa using this

end Rally
