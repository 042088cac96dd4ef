import Rally.Proofs.Match.Checks

/-! No operation of a match fails, whatever happens, as long as balls are served at sane angles and
there is room to count. -/
namespace Rally
namespace Play
variable {p q r : Play} {now : Nat} {m : Move} {ms : List Move} {h : List Passage}
  {fixture : Fixture} {rules : Rules} {seed : UInt64}

/-! Where every ball can be served, no move is refused. -/

theorem goal_total (h : p.game.arena.params.Serves) (scorer : Side) (now : Nat) :
    ∃ q, p.goal scorer now = .ok q := by
  have hs : (p.scored scorer).game.arena.params.Serves := h
  unfold goal
  split
  · exact ⟨p, rfl⟩
  · simp only
    split
    · split
      · exact ⟨_, rfl⟩
      · exact ⟨_, rfl⟩
    · exact serve_total hs _ now

theorem respond_total (h : p.game.arena.params.Serves) (now : Nat) (i : Incident) :
    ∃ q, p.respond now i = .ok q := by
  cases i with
  | goal scorer => exact goal_total h scorer now
  | stuck side =>
    have hs :
        (p.change fun m => { m with dice := p.game.dice.side.2 }).game.arena.params.Serves := h
    change ∃ q, (if p.game.finishing then .ok p else p.serveAnywhere now) = .ok q
    split
    · exact ⟨p, rfl⟩
    · exact serve_total hs _ now
  | hit | trigger | wall => exact ⟨_, rfl⟩

theorem respondAll_total (h : p.game.arena.params.Serves) (now : Nat) (is : List Incident) :
    ∃ q, p.respondAll now is = .ok q := by
  induction is generalizing p with
  | nil => exact ⟨p, rfl⟩
  | cons i is ih =>
    obtain ⟨q, hq⟩ := respond_total h now i
    have hs : q.game.arena.params.Serves := by
      rw [(kept_reply (respond_reply hq)).params]
      exact h
    by_cases he : q.game.ended = true
    · exact ⟨q, bind_eq_ok.mpr ⟨q, hq, if_pos he⟩⟩
    · obtain ⟨r, hr⟩ := ih hs
      exact ⟨r, bind_eq_ok.mpr ⟨q, hq, (if_neg he).trans hr⟩⟩

theorem tick_total (h : p.game.arena.params.Serves) (now : Nat) : ∃ q, p.tick now = .ok q := by
  have hs : (p.stepped now).game.arena.params.Serves := by rwa [(kept_stepped p now).params]
  unfold tick
  split
  · exact ⟨p, rfl⟩
  · split
    · exact ⟨_, rfl⟩
    · rename_i hx
      split
      · exact ⟨p, rfl⟩
      · rw [Stepper.tick_eq, if_neg hx]
        by_cases ht : now - p.game.stepper.lastTick < p.game.stepper.pace.tick
        · rw [if_pos ht]
          exact ⟨p, rfl⟩
        · rw [if_neg ht]
          exact respondAll_total hs now (p.simulated now).incidents

theorem apply_total (h : p.game.arena.params.Serves) (m : Move) : ∃ q, p.apply m = .ok q := by
  cases m with
  | join side now => exact join_total h side now
  | tick now => exact tick_total h now
  | leave | surrender | alarm | finish | close | record => exact ⟨_, rfl⟩

theorem run_total (hset : Settled p) (h : p.game.arena.params.Serves) (ms : List Move) :
    ∃ q, p.run ms = .ok q := by
  induction ms generalizing p with
  | nil => exact ⟨p, rfl⟩
  | cons m ms ih =>
    obtain ⟨q, hq⟩ := apply_total h m
    have hs : q.game.arena.params.Serves := by rwa [(kept_apply hset hq).params]
    obtain ⟨r, hr⟩ := ih (settled_apply hset hq) hs
    exact ⟨r, run_cons.mpr ⟨q, hq, hr⟩⟩

/-! What is counted stays below what has happened. -/

/-- A match stands as it should after all that has happened, and has counted nothing else. -/
structure Sound (rules : Rules) (h : List Passage) (p : Play) : Prop where
  settled : Settled p
  params : p.game.arena.params = rules.params
  rules : p.game.rules = rules
  reined : p.game.arena.Reined
  order : Ordered p
  returns : ∀ side, p.game.returns.get side ≤ h.countP (Passage.joins side)
  hits : ∀ side, p.game.hits.get side ≤ (happened h).count (.hit side)
  ticks : p.game.stepper.ticks ≤ h.length
  alarms : p.game.alarms ≤ 2 + h.countP (Passage.joins .left) + h.countP (Passage.joins .right)

theorem sound_start (fixture : Fixture) (rules : Rules) (seed : UInt64) (now : Nat) :
    Sound rules [] (start fixture rules seed now) := by
  refine ⟨settled_start fixture rules seed now, by simp [start, Arena.ofParams], by simp [start],
    ?_, ?_, fun side => ?_, fun side => ?_, ?_, ?_⟩
  · have h := Arena.Reined.ofParams rules.params
    simpa [start] using h
  · intro side
    cases side <;> exact List.Pairwise.nil
  · cases side <;> simp [start, Sides.both, Sides.get]
  · cases side <;> simp [start, Sides.both, Sides.get]
  · simp [start, Stepper.ofPace]
  · simp [Match.alarms, start, Sides.both, Timers.schedule]

theorem countP_joins_snoc (h : List Passage) (p q : Play) (m : Move) (side : Side) :
    (h ++ [(⟨p, m, q⟩ : Passage)]).countP (Passage.joins side) =
      h.countP (Passage.joins side) + (m.joins side).toNat := by
  cases hm : m.joins side <;> simp [Passage.joins, hm]

theorem Sound.apply (hs : Sound rules h p) (hq : p.apply m = .ok q) :
    Sound rules (h ++ [⟨p, m, q⟩]) q := by
  have hk := kept_apply hs.settled hq
  refine ⟨settled_apply hs.settled hq, hk.params.trans hs.params, hk.rules.trans hs.rules,
    hk.reined hs.reined, hk.order hs.order, fun side => ?_, fun side => ?_, ?_, ?_⟩
  · have hr := returns_apply hs.settled hq side
    have hp := hs.returns side
    rw [countP_joins_snoc]
    omega
  · have hr := hk.hits side
    have hp := hs.hits side
    rw [happened_snoc, List.count_append]
    omega
  · have hr := hk.ticks
    have hp := hs.ticks
    rw [List.length_append, List.length_singleton]
    omega
  · have hr := hk.alarms
    have hp := hs.alarms
    rw [countP_joins_snoc, countP_joins_snoc]
    unfold Move.arrivals at hr
    omega

/-- There is room for some more moves after all that has happened. -/
structure Budget (rules : Rules) (h : List Passage) (p : Play) (ms : List Move) : Prop where
  sane : rules.params.Sane
  winScore : rules.winScore < 2 ^ 8
  times : ∀ m ∈ ms, ∀ t, m.now? = some t → t + rules.params.serveDelay < 2 ^ 64
  joins : ∀ side, h.countP (Passage.joins side) + ms.countP (Move.joins side) < 2 ^ 32
  hits : ∀ side, (happened (h ++ p.passages ms)).count (.hit side) < 2 ^ 32

theorem append_passages_cons (h : List Passage) (ms : List Move) (hq : p.apply m = .ok q) :
    h ++ p.passages (m :: ms) = (h ++ [⟨p, m, q⟩]) ++ q.passages ms := by
  rw [passages_cons hq, List.append_assoc]
  rfl

theorem Budget.apply (hb : Budget rules h p (m :: ms)) (hq : p.apply m = .ok q) :
    Budget rules (h ++ [⟨p, m, q⟩]) q ms := by
  refine ⟨hb.sane, hb.winScore, fun n hn => hb.times n (List.mem_cons_of_mem m hn),
    fun side => ?_, fun side => ?_⟩
  · have hj := hb.joins side
    rw [List.countP_cons] at hj
    rw [countP_joins_snoc]
    cases hm : m.joins side <;> simp [hm] at hj ⊢ <;> omega
  · rw [← append_passages_cons h ms hq]
    exact hb.hits side

/-- So there is room for the next one. -/
theorem Budget.affords (hb : Budget rules h p (m :: ms)) (hs : Sound rules h p)
    (hq : p.apply m = .ok q) (hn : m.now? = some now) :
    p.Affords now (⟨p, m, q⟩ : Passage).incidents := by
  refine ⟨⟨?_, ?_⟩, ?_, fun side => ?_, ?_⟩
  · rw [hs.params]
    exact hb.sane
  · rw [hs.params]
    exact hb.times m List.mem_cons_self now hn
  · rw [hs.rules]
    exact hb.winScore
  · have hh := hb.hits side
    have hp := hs.hits side
    rw [append_passages_cons h ms hq, happened_append, happened_snoc, List.count_append,
      List.count_append] at hh
    omega
  · have hl := hb.joins .left
    have hr := hb.joins .right
    have hp := hs.alarms
    omega

theorem applyChecked_eq (hb : Budget rules h p (m :: ms)) (hs : Sound rules h p)
    (hq : p.apply m = .ok q) : p.applyChecked m = .ok q ∨
      p.applyChecked m = .error .ticks ∧ 2 ^ 64 ≤ h.length + 1 := by
  cases m with
  | join side now =>
    have ha := hb.affords hs hq rfl
    have hj : p.game.returns.get side + 1 < 2 ^ 32 := by
      have hj := hb.joins side
      have hr := hs.returns side
      rw [List.countP_cons_of_pos (by simp [Move.joins])] at hj
      omega
    exact .inl ((join_agrees ha.serves hs.order hj).eq_ok hq)
  | tick now =>
    have ha := hb.affords hs hq rfl
    rcases tick_agrees hs.order hs.reined ha with hok | ⟨herr, hmany⟩
    · exact .inl (hok.eq_ok hq)
    · have ht := hs.ticks
      exact .inr ⟨herr, by omega⟩
  | leave side now =>
    have ha := hb.affords hs hq rfl
    cases hq
    exact .inl (leaveChecked_eq ha.timers side now)
  | surrender | alarm | finish | close | record =>
    cases hq
    exact .inl rfl

theorem runChecked_eq (hb : Budget rules h p ms) (hs : Sound rules h p) (hr : p.run ms = .ok r) :
    p.runChecked ms = .ok r ∨
      p.runChecked ms = .error .ticks ∧ 2 ^ 64 ≤ h.length + ms.length := by
  induction ms generalizing h p with
  | nil =>
    cases hr
    exact .inl rfl
  | cons m ms ih =>
    obtain ⟨q, hq, hr⟩ := run_cons.mp hr
    rcases applyChecked_eq hb hs hq with hok | ⟨herr, hmany⟩
    · have hrest := ih (hb.apply hq) (hs.apply hq) hr
      rw [List.length_append, List.length_singleton] at hrest
      rw [runChecked, hok, Checked.ok_bind, List.length_cons]
      rwa [Nat.add_comm ms.length, ← Nat.add_assoc]
    · refine .inr ⟨?_, ?_⟩
      · rw [runChecked, herr]
        rfl
      · rw [List.length_cons]
        omega

/-- As long as balls are served at sane angles, the clock has room for their delay and fewer than
2^32 arrivals and hits of each side are to be counted, a match takes every move of a run, and no
check of an operation fails: neither a bound nor a range is out of order, nor is a difference
negative or a sum too large. Only more ticks than 64 bits can count would be too many. -/
theorem no_check_fails (hsane : rules.params.Sane) (hwin : rules.winScore < 2 ^ 8)
    (htimes : ∀ m ∈ ms, ∀ t, m.now? = some t → t + rules.params.serveDelay < 2 ^ 64)
    (hjoins : ∀ side, ms.countP (Move.joins side) < 2 ^ 32)
    (hhits : ∀ side,
      (happened ((start fixture rules seed now).passages ms)).count (.hit side) < 2 ^ 32) :
    ∃ p, (start fixture rules seed now).run ms = .ok p ∧
      ((start fixture rules seed now).runChecked ms = .ok p ∨
        (start fixture rules seed now).runChecked ms = .error .ticks ∧ 2 ^ 64 ≤ ms.length) := by
  have hs := sound_start fixture rules seed now
  have hserves : (start fixture rules seed now).game.arena.params.Serves := by
    rw [hs.params]
    exact hsane.serves
  obtain ⟨p, hp⟩ := run_total hs.settled hserves ms
  have hb : Budget rules [] (start fixture rules seed now) ms :=
    ⟨hsane, hwin, htimes, by simpa using hjoins, by simpa using hhits⟩
  have hchecked := runChecked_eq hb hs hp
  rw [List.length_nil, Nat.zero_add] at hchecked
  exact ⟨p, hp, hchecked⟩

/-- A match without walls, with paddles that have no size and an infinite speed, and with the
largest sane angle. -/
theorem no_check_fails_misshapen : ∃ rules ms p, rules.params.height.isInf = true ∧
    rules.params.paddleSize.x.isNaN = true ∧ rules.params.paddleSpeed.isInf = true ∧
    (start duel rules 7 0).run ms = .ok p ∧ (start duel rules 7 0).runChecked ms = .ok p ∧
    p.game.stepper.ticks = 1 ∧ p.game.returns.right = 2 := by
  let rules : Rules :=
    { params :=
        { height := 1 / 0, paddleSize := ⟨0 / 0, -1⟩, paddleSpeed := -(1 / 0)
          triggerOffsets := [], serveAngle := Scalar.most / 4 } }
  let ms : List Move :=
    [.join .left 0, .join .right 10, .record .left ⟨1500, 1⟩, .tick 3000, .leave .right 3100,
      .join .right 3200]
  obtain ⟨p, hp, hticks, hreturns⟩ := exists_run (start duel rules 7 0) ms
    (fun p => p.game.stepper.ticks = 1 ∧ p.game.returns.right = 2) (by decide +kernel)
  have hhits (side : Side) :
      (happened ((start duel rules 7 0).passages ms)).count (.hit side) < 2 ^ 32 := by
    cases side <;> decide +kernel
  have htimes : ∀ m ∈ ms, ∀ t, m.now? = some t → t + rules.params.serveDelay < 2 ^ 64 := by
    simp [ms, rules, Move.now?]
  have hjoins (side : Side) : ms.countP (Move.joins side) < 2 ^ 32 := by
    cases side <;> decide +kernel
  obtain ⟨q, hq, hchecked⟩ :=
    no_check_fails (by decide +kernel : rules.params.Sane) (by decide) htimes hjoins hhits
  obtain rfl := Except.ok.inj (hp.symm.trans hq)
  have hfew : ¬ 2 ^ 64 ≤ ms.length := by decide +kernel
  exact ⟨rules, ms, p, by decide +kernel, by decide +kernel, by decide +kernel, hp,
    hchecked.resolve_right fun h => hfew h.2, hticks, hreturns⟩

end Play
end Rally
