import Rally.Proofs.InputLog.Journal
import Rally.Proofs.Match.Course
import Rally.Proofs.Stepper.Steering

/-! Which of all the inputs that a match has accepted its paddles follow. -/
namespace Rally

/-- The samples after one instant and up to another. -/
def within (after upto : Nat) (xs : List Sample) : List Sample :=
  xs.filter fun s => after < s.time ∧ s.time ≤ upto

theorem mem_within {after upto : Nat} {xs : List Sample} {s : Sample} :
    s ∈ within after upto xs ↔ s ∈ xs ∧ after < s.time ∧ s.time ≤ upto := by
  simp [within]

@[simp] theorem within_self (t : Nat) (xs : List Sample) : within t t xs = [] := by
  refine List.eq_nil_iff_forall_not_mem.mpr fun s hs => ?_
  have := (mem_within.mp hs).2
  omega

theorem within_snoc {after upto : Nat} {s : Sample} (h : ¬ (after < s.time ∧ s.time ≤ upto))
    (xs : List Sample) : within after upto (xs ++ [s]) = within after upto xs := by
  simp [within, h]

/-- What comes in a time comes in its first part or, later, in its second. -/
theorem InOrder.within_append {xs : List Sample} (h : InOrder xs) {after t upto : Nat}
    (ha : after ≤ t) (hu : t ≤ upto) :
    within after upto xs = within after t xs ++ within t upto xs := by
  refine h.filter_split t (fun s => ?_) fun s => ?_
  · omega
  · omega

/-- What comes up to an instant comes up to an earlier one or in between. -/
theorem InOrder.upTo_append {xs : List Sample} (h : InOrder xs) {t upto : Nat} (hu : t ≤ upto) :
    xs.filter (·.time ≤ upto) = xs.filter (·.time ≤ t) ++ within t upto xs := by
  refine h.filter_split t (fun s => ?_) fun s => ?_
  · omega
  · exact and_comm

theorem within_of_lt {after upto : Nat} {xs : List Sample} (h : ∀ s ∈ xs, after < s.time) :
    within after upto xs = xs.filter (·.time ≤ upto) := by
  refine List.filter_congr fun s hs => ?_
  simp [h s hs]

/-- A log that has accepted some samples, and a paddle that follows those newer than `origin`, when
windows have been taken up to `last`. -/
structure Heeded (log : InputLog) (way : Int8) (origin last : Nat) (accepted : List Sample) :
    Prop where
  kept : ∃ begun, begun ≤ last ∧ Journal.Kept 500 512 ⟨log, accepted, begun⟩
  valid : ∀ s ∈ accepted, s.Valid
  /-- Before the first window nothing has been followed. -/
  taken : log.consumedUntil = last ∨ log.consumedUntil ≤ last ∧ last = origin
  way : way = newestWay 0 (within origin last accepted)

namespace Heeded
variable {log new : InputLog} {way : Int8} {origin last now : Nat} {accepted : List Sample}
  {s : Sample}

theorem fresh (made : Nat) : Heeded .empty 0 made made [] := by
  refine ⟨⟨0, Nat.zero_le _, Journal.kept_fresh 500 512⟩, by simp, .inr ⟨?_, rfl⟩, ?_⟩
  · simp [InputLog.empty, InputLog.withLimits]
  · simp [newestWay]

theorem order (h : Heeded log way origin last accepted) : InOrder accepted := by
  obtain ⟨begun, -, hk⟩ := h.kept
  exact hk.order

theorem between (h : Heeded log way origin last accepted) (now : Nat) :
    log.between last now = within last now accepted := by
  obtain ⟨begun, hb, hk⟩ := h.kept
  exact hk.between hb now

/-- An accepted sample is newer than all windows, or there have been none. -/
theorem record (h : Heeded log way origin last accepted) (hr : log.record s = .ok new) :
    Heeded new way origin last (accepted ++ [s]) := by
  obtain ⟨begun, hb, hk⟩ := h.kept
  obtain ⟨hv, hfresh, -, hpush⟩ := InputLog.record_push hr
  obtain ⟨-, rfl⟩ := InputLog.push_ok hpush
  refine ⟨⟨begun, hb, hk.record hr⟩, ?_, h.taken, ?_⟩
  · intro x hx
    rcases List.mem_append.mp hx with hx | hx
    · exact h.valid x hx
    · rw [List.mem_singleton.mp hx]
      exact hv
  · have hnew : ¬ (origin < s.time ∧ s.time ≤ last) := by
      rcases h.taken with ht | ⟨-, ht⟩ <;> omega
    rw [within_snoc hnew]
    exact h.way

/-- A window has been taken, and the paddle goes the way of the newest input in it. -/
theorem take (h : Heeded log way origin last accepted) (ho : origin ≤ last) (hn : last ≤ now) :
    Heeded (log.consume last now) (newestWay way (log.between last now)) origin now accepted := by
  obtain ⟨begun, hb, hk⟩ := h.kept
  refine ⟨⟨max begun last, by omega, hk.window last now⟩, h.valid, .inl ?_, ?_⟩
  · have := h.taken
    simp only [InputLog.consume]
    omega
  · rw [h.order.within_append ho hn, newestWay_append, ← h.way, h.between]

/-- The first window will begin later, and all before it is forgotten. -/
theorem skip (h : Heeded log way origin last accepted) (hl : last = origin) (hn : last ≤ now) :
    Heeded log way now now accepted := by
  obtain ⟨begun, hb, hk⟩ := h.kept
  have hway := h.way
  rw [hl, within_self] at hway
  refine ⟨⟨begun, by omega, hk⟩, h.valid, .inr ⟨?_, rfl⟩, ?_⟩
  · have := h.taken
    omega
  · rw [within_self]
    exact hway

end Heeded

/-- The sample that the log of a side accepts in a passage, if it does. -/
def Passage.accepted? (x : Passage) (side : Side) : Option Sample :=
  match x.move with
  | .record other s =>
    if other = side ∧ (x.before.game.record side s).toOption.isSome then some s else none
  | _ => none

/-- All samples that the log of a side has accepted, in order. -/
def acceptedBy (h : List Passage) (side : Side) : List Sample := h.filterMap (·.accepted? side)

theorem acceptedBy_snoc (h : List Passage) (x : Passage) (side : Side) :
    acceptedBy (h ++ [x]) side = acceptedBy h side ++ (x.accepted? side).toList := by
  cases hx : x.accepted? side <;> simp [acceptedBy, hx]

theorem accepted?_of_ne {x : Passage} (hx : ∀ side s, x.move ≠ .record side s) (side : Side) :
    x.accepted? side = none := by
  unfold Passage.accepted?
  split
  · rename_i other s hm
    exact absurd hm (hx other s)
  · rfl

namespace Play
variable {p q : Play} {now made clock : Nat} {m : Move} {ms : List Move} {rules : Rules}
  {h : List Passage}

/-- The instant from which on inputs are followed: the first start of play, or the making of the
match where already the first start counts as a return too many. -/
def origin (p : Play) (made : Nat) : Nat :=
  if p.game.rules.allowance = 0 then made else p.game.stepper.startedAt.getD made

/-- As long as a match goes on, its paddles follow what it has accepted from the origin on. -/
structure Heeding (rules : Rules) (made clock : Nat) (h : List Passage) (p : Play) : Prop where
  rules : p.game.rules = rules
  clock : p.game.stepper.lastTick ≤ clock
  origin : p.origin made ≤ p.game.stepper.lastTick
  unstarted : p.game.stepper.startedAt = none →
    p.game.stepper.lastTick = made ∧ p.game.returns = .both 0
  heeded : ∀ side, Heeded (p.game.logs.get side) (p.game.arena.way side) (p.origin made)
    p.game.stepper.lastTick (acceptedBy h side)

theorem heeding_start (fixture : Fixture) (rules : Rules) (seed : UInt64) (made : Nat) :
    Heeding rules made made [] (start fixture rules seed made) := by
  have ho : (start fixture rules seed made).origin made = made := by
    simp [Play.origin, start, Stepper.ofPace]
  refine ⟨by simp [start], by simp [start, Stepper.ofPace], ?_, fun _ => ?_, fun side => ?_⟩
  · rw [ho]
    simp [start, Stepper.ofPace]
  · simp [start, Stepper.ofPace]
  · rw [ho]
    have hlog : (start fixture rules seed made).game.logs.get side = .empty := by
      cases side <;> simp [start, Sides.both, Sides.get]
    have hway : (start fixture rules seed made).game.arena.way side = 0 := by
      cases side <;> simp [start, Arena.way, Arena.ofParams, Paddle.ofParams, Sides.get]
    have hlast : (start fixture rules seed made).game.stepper.lastTick = made := by
      simp [start, Stepper.ofPace]
    rw [hlog, hway, hlast]
    exact .fresh made

/-- The paddles, the logs and the stepper are the same. -/
theorem Heeding.same (hh : Heeding rules made clock h p) {x : Passage} {next : Nat}
    (hn : clock ≤ next) (hx : ∀ side s, x.move ≠ .record side s)
    (hr : q.game.rules = p.game.rules) (ha : q.game.arena.paddles = p.game.arena.paddles)
    (hs : q.game.stepper = p.game.stepper) (hl : q.game.logs = p.game.logs)
    (hret : p.game.stepper.startedAt = none → q.game.returns = p.game.returns) :
    Heeding rules made next (h ++ [x]) q := by
  have ho : q.origin made = p.origin made := by simp [Play.origin, hr, hs]
  refine ⟨hr.trans hh.rules, ?_, ?_, fun hnone => ?_, fun side => ?_⟩
  · rw [hs]
    exact Nat.le_trans hh.clock hn
  · rw [ho, hs]
    exact hh.origin
  · rw [hs] at hnone ⊢
    obtain ⟨hlast, hzero⟩ := hh.unstarted hnone
    exact ⟨hlast, (hret hnone).trans hzero⟩
  · have hway : q.game.arena.way side = p.game.arena.way side := by simp [Arena.way, ha]
    rw [acceptedBy_snoc, accepted?_of_ne hx, Option.toList_none, List.append_nil, ho, hs, hl, hway]
    exact hh.heeded side

/-- An input has arrived. -/
theorem Heeding.record (hh : Heeding rules made clock h p) {side : Side} {s : Sample} :
    Heeding rules made clock (h ++ [⟨p, .record side s, p.record side s⟩]) (p.record side s) := by
  cases hr : (p.game.logs.get side).record s with
  | error why =>
    have hq : p.record side s = p := by simp [Play.record, Match.record, hr, Except.map]
    have hnone (other : Side) :
        (⟨p, .record side s, p.record side s⟩ : Passage).accepted? other = none := by
      simp only [Passage.accepted?]
      rw [if_neg]
      rintro ⟨rfl, hok⟩
      simp [Match.record, hr, Except.map, Except.toOption] at hok
    rw [hq] at hnone ⊢
    refine ⟨hh.rules, hh.clock, hh.origin, hh.unstarted, fun other => ?_⟩
    rw [acceptedBy_snoc, hnone, Option.toList_none, List.append_nil]
    exact hh.heeded other
  | ok log =>
    have hq : p.record side s =
        p.change fun g => { g with logs := p.game.logs.set side log } := by
      simp [Play.record, Match.record, hr, Except.map, Play.change]
    have hsome (other : Side) :
        (⟨p, .record side s, p.record side s⟩ : Passage).accepted? other =
          if side = other then some s else none := by
      by_cases ho : side = other
      · subst ho
        simp [Passage.accepted?, Match.record, hr, Except.map, Except.toOption]
      · simp [Passage.accepted?, ho]
    rw [hq] at hsome ⊢
    refine ⟨hh.rules, hh.clock, hh.origin, hh.unstarted, fun other => ?_⟩
    rw [acceptedBy_snoc, hsome]
    rcases p.game.logs.get_set_cases side log other with ⟨rfl, hg⟩ | ⟨ho, hg⟩
    · simp only [change_game, hg, if_true, Option.toList_some]
      exact (hh.heeded other).record hr
    · simp only [change_game, hg, if_neg (Ne.symm ho), Option.toList_none, List.append_nil]
      exact hh.heeded other

theorem Heeding.inputs (hh : Heeding rules made clock h p) (now : Nat) (side : Side) :
    (p.game.stepper.inputs now p.game.logs).get side =
      within p.game.stepper.lastTick now (acceptedBy h side) := by
  rw [Stepper.inputs_get]
  exact (hh.heeded side).between now

theorem Heeding.mem_inputs (hh : Heeding rules made clock h p) {side : Side} {s : Sample}
    (hs : s ∈ (p.game.stepper.inputs now p.game.logs).get side) :
    s.Valid ∧ p.game.stepper.lastTick < s.time ∧ s.time ≤ now := by
  rw [hh.inputs] at hs
  obtain ⟨hm, ht⟩ := mem_within.mp hs
  exact ⟨(hh.heeded side).valid s hm, ht⟩

theorem Heeding.simulated_way (hh : Heeding rules made clock h p) (now : Nat) (side : Side) :
    (p.simulated now).arena.way side =
      newestWay (p.game.arena.way side) ((p.game.stepper.inputs now p.game.logs).get side) := by
  refine Stepper.simulated_way _ (fun other => ?_) (fun other s => hh.mem_inputs) side
  rw [hh.inputs]
  exact (hh.heeded other).order.filter _

/-- At the end of a window each paddle goes the way of the newest input from the origin on. -/
theorem Heeding.way_simulated (hh : Heeding rules made clock h p)
    (hn : p.game.stepper.lastTick ≤ now) (side : Side) : (p.simulated now).arena.way side =
      newestWay 0 (within (p.origin made) now (acceptedBy h side)) := by
  rw [hh.simulated_way, hh.inputs, (hh.heeded side).way, ← newestWay_append,
    (hh.heeded side).order.within_append hh.origin hn]

/-- A window has been taken, by a tick or after a pause. -/
theorem Heeding.take (hh : Heeding rules made clock h p) {x : Passage} (hn : clock ≤ now)
    (hx : ∀ side s, x.move ≠ .record side s) (hr : q.game.rules = p.game.rules)
    (ha : ∀ side, q.game.arena.way side =
      newestWay (p.game.arena.way side) ((p.game.stepper.inputs now p.game.logs).get side))
    (hlast : q.game.stepper.lastTick = now)
    (hl : q.game.logs = p.game.stepper.consumed now p.game.logs)
    (hg : q.game.stepper.startedAt ≠ none) (ho : q.origin made = p.origin made) :
    Heeding rules made now (h ++ [x]) q := by
  have hle : p.game.stepper.lastTick ≤ now := Nat.le_trans hh.clock hn
  refine ⟨hr.trans hh.rules, Nat.le_of_eq hlast, ?_, fun hnone => absurd hnone hg, fun side => ?_⟩
  · rw [ho, hlast]
    exact Nat.le_trans hh.origin hle
  · rw [acceptedBy_snoc, accepted?_of_ne hx, Option.toList_none, List.append_nil, ho, hlast, hl,
      ha side, Stepper.consumed, Sides.get_map, Stepper.inputs_get]
    exact (hh.heeded side).take hh.origin hle

/-- Play begins for the first time, and takes nothing from the logs. -/
theorem Heeding.begin (hh : Heeding rules made clock h p) {x : Passage} (hn : clock ≤ now)
    (hx : ∀ side s, x.move ≠ .record side s) (hr : q.game.rules = p.game.rules)
    (hg : p.game.stepper.startedAt = none) (ha0 : p.game.rules.allowance ≠ 0)
    (ha : q.game.arena.paddles = p.game.arena.paddles)
    (hs : q.game.stepper = p.game.stepper.start now) (hl : q.game.logs = p.game.logs) :
    Heeding rules made now (h ++ [x]) q := by
  have hle : p.game.stepper.lastTick ≤ now := Nat.le_trans hh.clock hn
  have hop : p.origin made = made := by simp [Play.origin, hg]
  have hoq : q.origin made = now := by simp [Play.origin, hr, ha0, hs, Stepper.start, hg]
  have hlast : q.game.stepper.lastTick = now := by
    rw [hs]
    rfl
  refine ⟨hr.trans hh.rules, Nat.le_of_eq hlast, ?_, fun hnone => ?_, fun side => ?_⟩
  · rw [hoq, hlast]
  · simp [hs, Stepper.start] at hnone
  · have hway : q.game.arena.way side = p.game.arena.way side := by simp [Arena.way, ha]
    rw [acceptedBy_snoc, accepted?_of_ne hx, Option.toList_none, List.append_nil, hoq, hlast, hl,
      hway]
    have hheed := hh.heeded side
    rw [hop] at hheed
    exact hheed.skip (hh.unstarted hg).1 hle

theorem heeding_step (hm : m.Ordinary) (ho : Open p.game) (hs : Step p m q)
    (hn : clock ≤ m.now?.getD clock) (hh : Heeding rules made clock h p)
    (hq : q.game.phase ≠ .ended) :
    Heeding rules made (m.now?.getD clock) (h ++ [⟨p, m, q⟩]) q := by
  have hr := step_rules hs
  cases course_step hm ho hs with
  | rests hw hm ha hst hl hp hret => exact hh.same hn hm hr ha hst hl hret
  | recorded hmr hqr =>
    subst hmr hqr
    exact hh.record
  | begins hmj hw hg ha0 ha hst hl hp =>
    obtain ⟨side, rfl⟩ := hmj
    exact hh.begin hn (by simp) hr hg ha0 ha hst hl
  | @resumes now hmj hw hret ha hst hl hp =>
    obtain ⟨side, rfl⟩ := hmj
    have hway : ∀ side, q.game.arena.way side = newestWay (p.game.arena.way side)
        ((p.game.stepper.inputs now p.game.logs).get side) := by
      intro side
      rw [← Stepper.resume_way _ fun other s hs => (hh.mem_inputs hs).1]
      simp [Arena.way, ha]
    refine hh.take hn (by simp) hr hway (by rw [hst]; rfl) hl (by simp [hst, Stepper.start]) ?_
    -- Nobody has returned before the first start, so it takes a window only without allowance.
    cases hg : p.game.stepper.startedAt with
    | some first => simp [Play.origin, hr, hst, Stepper.start, hg]
    | none =>
      obtain ⟨side, hside⟩ := hret.resolve_left (by simp [hg])
      have ha0 : p.game.rules.allowance = 0 := by
        rw [(hh.unstarted hg).2] at hside
        cases side <;> simp only [Sides.both, Sides.get] at hside <;> omega
      simp [Play.origin, hr, ha0]
  | @ticks now hmt hw ha hp =>
    subst hmt
    obtain ⟨hst, hl, hplay⟩ := hp hq
    obtain ⟨-, -, hpp, -⟩ := window?_eq_some hw
    have hway : ∀ side, q.game.arena.way side = newestWay (p.game.arena.way side)
        ((p.game.stepper.inputs now p.game.logs).get side) := by
      intro side
      rw [← hh.simulated_way]
      simp [Arena.way, ha]
    refine hh.take hn (by simp) hr hway (by rw [hst]; rfl) hl ?_ ?_
    · rw [hst]
      exact ho.started hpp
    · simp [Play.origin, hr, hst, Stepper.stepped]
  | ends hw hp => exact absurd hp hq

/-- The way of a paddle at the end of a window, after a first start of play and with some accepted
inputs: where sides may return, it follows the newest input after that start. That is as good as the
newest of all, unless the only inputs are older and would have turned the paddle. -/
structure Follows (allowance first : Nat) (inputs : List Sample) (way : Int8) (stop : Nat) :
    Prop where
  newest : way = newestWay 0
    (if allowance = 0 then inputs.filter (·.time ≤ stop) else within first stop inputs)
  ofAll_iff : way = newestWay 0 (inputs.filter (·.time ≤ stop)) ↔
    allowance = 0 ∨ within first stop inputs ≠ [] ∨ newestWay 0 (inputs.filter (·.time ≤ first)) = 0

theorem newestWay_of_ne_nil {xs : List Sample} (h : xs ≠ []) (d e : Int8) :
    newestWay d xs = newestWay e xs := by
  cases hl : xs.getLast? with
  | none => exact absurd (List.getLast?_eq_none_iff.mp hl) h
  | some s => simp [newestWay, hl]

/-- In a window that a match simulates, the paddles follow what it has accepted. -/
theorem Heeding.follows (hh : Heeding rules made clock h p) (hn : p.game.stepper.lastTick ≤ now)
    (hlate : ∀ side, ∀ s ∈ acceptedBy h side, made < s.time) {first : Nat}
    (hg : p.game.stepper.startedAt = some first) (side : Side) :
    Follows rules.allowance first (acceptedBy h side) ((p.simulated now).arena.way side) now := by
  have hway := hh.way_simulated hn side
  have horigin := hh.origin
  by_cases ha : rules.allowance = 0
  · have ho : p.origin made = made := by simp [Play.origin, hh.rules, ha]
    rw [ho, within_of_lt (hlate side)] at hway
    refine ⟨?_, iff_of_true hway (.inl ha)⟩
    rw [if_pos ha]
    exact hway
  · have ho : p.origin made = first := by simp [Play.origin, hh.rules, ha, hg]
    rw [ho] at hway horigin
    have hsplit := (hh.heeded side).order.upTo_append (Nat.le_trans horigin hn)
    refine ⟨?_, ?_⟩
    · rw [if_neg ha]
      exact hway
    · rw [hway, hsplit, newestWay_append]
      by_cases hw : within first now (acceptedBy h side) = []
      · rw [hw]
        simp [newestWay, ha, eq_comm]
      · exact iff_of_true (newestWay_of_ne_nil hw _ _) (.inr (.inl hw))

theorem accepted?_eq_some {x : Passage} {side : Side} {s : Sample}
    (h : x.accepted? side = some s) : x.move = .record side s := by
  unfold Passage.accepted? at h
  split at h
  · rename_i other t hm
    split at h
    · rename_i hg
      cases h
      rw [hm, hg.1]
    · cases h
  · cases h

/-- At the end of every window each paddle follows the inputs that its side's log has accepted. -/
def FollowsThroughout (allowance : Nat) (h : List Passage) : Prop :=
  Throughout (fun before x => ∀ w, x.window? = some w →
    ∃ first, x.before.game.stepper.startedAt = some first ∧ ∀ side,
      Follows allowance first (acceptedBy before side) (x.after.game.arena.way side) w.stop) h

/-- What is true of a match whose inputs all come after it has been made, with the moves to come. -/
structure Heard (rules : Rules) (made : Nat) (h : List Passage) (ms : List Move) (p : Play) :
    Prop where
  heeding : ∃ clock, Clocked clock ms ∧ (p.game.phase ≠ .ended → Heeding rules made clock h p)
  coming : ∀ side s, .record side s ∈ ms → made < s.time
  accepted : ∀ side, ∀ s ∈ acceptedBy h side, made < s.time
  followed : FollowsThroughout rules.allowance h

theorem Heard.accepted_snoc (hh : Heard rules made h (m :: ms) p) (side : Side) :
    ∀ s ∈ acceptedBy (h ++ [⟨p, m, q⟩]) side, made < s.time := by
  intro s hs
  rw [acceptedBy_snoc] at hs
  rcases List.mem_append.mp hs with hs | hs
  · exact hh.accepted side s hs
  · have hm : m = .record side s := accepted?_eq_some (Option.mem_toList.mp hs)
    exact hh.coming side s (by simp [hm])

theorem Heard.step (hm : m.Ordinary) (ho : Open p.game) (hs : Step p m q)
    (hh : Heard rules made h (m :: ms) p) : Heard rules made (h ++ [⟨p, m, q⟩]) ms q := by
  obtain ⟨clock, hc, hheed⟩ := hh.heeding
  have hheed := hheed ho.phase
  obtain ⟨hn, hrest⟩ := clocked_cons.mp hc
  refine ⟨⟨_, hrest, heeding_step hm ho hs hn hheed⟩,
    fun side s hs => hh.coming side s (List.mem_cons_of_mem _ hs), hh.accepted_snoc,
    hh.followed.snoc fun w hw => ?_⟩
  have hpad := (course_step hm ho hs).paddles hw
  obtain ⟨now, rfl, hp, -, rfl⟩ := window?_eq_some hw
  obtain ⟨first, hg⟩ := Option.ne_none_iff_exists'.mp (ho.started hp)
  refine ⟨first, hg, fun side => ?_⟩
  have hway : q.game.arena.way side = (p.simulated now).arena.way side := by
    rw [Arena.way, hpad]
    rfl
  rw [hway]
  exact hheed.follows (Nat.le_trans hheed.clock hn) hh.accepted hg side

/-- If the clock never goes back and no input is older than the match, the paddles follow what has
been accepted from the first start of play on. At the end of each window that is the newest of all
that has been accepted up to then, except that a paddle stays still as long as the only inputs of
its side are from before the first start and the newest of these would have turned it. There is no
such exception where already the first start counts as a return too many. -/
theorem inputs_followed_from_start {fixture : Fixture} {seed : UInt64}
    (hm : ∀ m ∈ ms, m.Ordinary) (hc : Clocked made ms)
    (hlate : ∀ side s, .record side s ∈ ms → made < s.time)
    (hr : (start fixture rules seed made).run ms = .ok p) :
    FollowsThroughout rules.allowance ((start fixture rules seed made).passages ms) := by
  have hh : Heard rules made ((start fixture rules seed made).passages ms) [] p := by
    refine passages_from_start (I := Heard rules made) (fun hm ho hs hh => hh.step hm ho hs) ?_
      ⟨⟨made, hc, fun _ => heeding_start fixture rules seed made⟩, hlate, by simp [acceptedBy],
        .nil⟩ hm hr
    intro h p m ms logs he hh
    obtain ⟨clock, hc, -⟩ := hh.heeding
    refine ⟨⟨_, (clocked_cons.mp hc).2, fun hne => absurd he hne⟩,
      fun side s hs => hh.coming side s (List.mem_cons_of_mem _ hs), hh.accepted_snoc,
      hh.followed.snoc fun w hw => ?_⟩
    have hnone : p.window? m = none := window?_of_ne (by simp [he])
    rw [Passage.window?, hnone] at hw
    cases hw
  exact hh.followed

/-- An input is accepted while its side waits for the other. Play begins after it, and at the end of
the first window the paddle still does not go its way. -/
theorem inputs_followed_from_start_early :
    ∃ ms p before x w, ms = [.join .left 0, .record .left ⟨5, 1⟩, .join .right 10, .tick 50] ∧
      (start duel {} 7 0).run ms = .ok p ∧
      (start duel {} 7 0).passages ms = before ++ [x] ∧ x.window? = some w ∧ w.stop = 50 ∧
      acceptedBy before .left = [⟨5, 1⟩] ∧ x.after.game.arena.way .left = 0 ∧
      FollowsThroughout 3 ((start duel {} 7 0).passages ms) := by
  obtain ⟨r, hr, hg, hw⟩ := exists_run (start duel {} 7 0)
    [.join .left 0, .record .left ⟨5, 1⟩, .join .right 10]
    (fun r => r.game.stepper.startedAt = some 10 ∧ ((r.window? (.tick 50)).isSome = true))
    (by decide +kernel)
  obtain ⟨w, hw⟩ := Option.isSome_iff_exists.mp hw
  obtain ⟨p, hp, -⟩ := exists_run (start duel {} 7 0)
    ([.join .left 0, .record .left ⟨5, 1⟩, .join .right 10] ++ [.tick 50]) (fun _ => True)
    (by decide +kernel)
  have hlate : ∀ side s, Move.record side s ∈
      ([.join .left 0, .record .left ⟨5, 1⟩, .join .right 10, .tick 50] : List Move) →
      0 < s.time := by
    intro side s hs
    simp only [List.mem_cons, List.not_mem_nil, or_false, reduceCtorEq, false_or,
      Move.record.injEq] at hs
    simp [hs.2]
  have hall := inputs_followed_from_start (by decide) (by decide) hlate hp
  obtain ⟨s, hs, hq⟩ := run_append.mp hp
  obtain rfl : r = s := Except.ok.inj (hr.symm.trans hs)
  obtain ⟨q, hq, -⟩ := run_cons.mp hq
  have hsplit : (start duel {} 7 0).passages
      ([.join .left 0, .record .left ⟨5, 1⟩, .join .right 10] ++ [.tick 50]) =
        (start duel {} 7 0).passages [.join .left 0, .record .left ⟨5, 1⟩, .join .right 10] ++
          [⟨r, .tick 50, q⟩] := by
    rw [passages_append hr, passages_cons hq]
    rfl
  have hacc : acceptedBy ((start duel {} 7 0).passages
      [.join .left 0, .record .left ⟨5, 1⟩, .join .right 10]) .left = [⟨5, 1⟩] := by
    decide +kernel
  obtain ⟨now, hm, -, -, rfl⟩ := window?_eq_some hw
  obtain rfl := Move.tick.inj hm
  obtain ⟨first, hf, hfollow⟩ := hall _ _ [] hsplit _ hw
  obtain rfl : 10 = first := Option.some.inj (hg.symm.trans hf)
  have hway := (hfollow .left).newest
  rw [hacc] at hway
  exact ⟨_, p, _, _, _, rfl, hp, hsplit, hw, rfl, hacc, hway, hall⟩

end Play
end Rally
