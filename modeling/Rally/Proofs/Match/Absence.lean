import Rally.Proofs.Match.Scoring

/-! A side that stays away for too long loses the match to the one that has stayed. -/
namespace Rally

namespace Verdict
variable {v : Verdict} {side coin : Side}

/-- A verdict on absence: no winner is named, and no side has won by its score. -/
structure OnAbsence (v : Verdict) : Prop where
  reason : v.reason = .disconnection
  named : v.named = none
  cap : v.capReached = false

/-- The side that has stayed comes before the side that leads. -/
theorem OnAbsence.winner? (h : v.OnAbsence) : v.winner? = v.remaining?.or v.leader? := by
  simp [Verdict.winner?, h.reason, h.named, h.cap]

theorem remaining?_eq_some (hs : v.connected.get side = true)
    (ho : v.connected.get side.opponent = false) : v.remaining? = some side := by
  obtain ⟨reason, named, scores, ⟨l, r⟩, win⟩ := v
  cases side with
  | left =>
    obtain rfl : l = true := hs
    obtain rfl : r = false := ho
    rfl
  | right =>
    obtain rfl : r = true := hs
    obtain rfl : l = false := ho
    rfl

theorem remaining?_eq_none (h : ∀ side, v.connected.get side = false) : v.remaining? = none := by
  obtain ⟨reason, named, scores, ⟨l, r⟩, win⟩ := v
  obtain rfl : l = false := h .left
  obtain rfl : r = false := h .right
  rfl

theorem leader?_eq_some (h : v.scores.get side.opponent < v.scores.get side) :
    v.leader? = some side := by
  cases side with
  | left => exact if_pos h
  | right =>
    have hlt : v.scores.left < v.scores.right := h
    rw [leader?, if_neg (by omega), if_pos hlt]

theorem leader?_eq_none (h : v.scores.left = v.scores.right) : v.leader? = none := by
  rw [leader?, if_neg (by omega), if_neg (by omega)]

/-- Neither the scores nor the coin matter while one side is there. -/
theorem OnAbsence.winner_stayed (h : v.OnAbsence) (hs : v.connected.get side = true)
    (ho : v.connected.get side.opponent = false) : v.winner coin = side := by
  rw [winner, h.winner?, remaining?_eq_some hs ho]
  rfl

theorem OnAbsence.winner_empty (h : v.OnAbsence) (hn : ∀ side, v.connected.get side = false) :
    v.winner coin = v.leader?.getD coin := by
  rw [winner, h.winner?, remaining?_eq_none hn, Option.none_or]

end Verdict

namespace Play
variable {p q : Play} {now : Nat} {ms : List Move} {d : Deadline} {id : Nat}

/-- A match that has just ended since a side was away, before any side had `win` points. -/
structure Forfeited (win : Nat) (p q : Play) : Prop where
  phase : q.game.phase = .ended
  notices : q.notices = p.notices ++ [p.endedNotice .disconnection none]
  bulletins : q.bulletins = p.bulletins ++ [p.finishedBulletin .disconnection none]
  below : ∀ side, p.game.scores.get side < win
  away : ∃ side, p.game.ready.get side = false
  /-- The side that is there wins, whatever the scores and the coin. -/
  stayed : ∀ side coin, p.game.ready.get side = true → p.game.ready.get side.opponent = false →
    (p.game.verdict .disconnection none).winner coin = side
  /-- If nobody is there, the side that leads wins. -/
  leader : (∀ side, p.game.ready.get side = false) → ∀ side coin,
    p.game.scores.get side.opponent < p.game.scores.get side →
    (p.game.verdict .disconnection none).winner coin = side
  /-- If nobody is there and nobody leads, the coin decides. -/
  tie : (∀ side, p.game.ready.get side = false) → p.game.scores.left = p.game.scores.right →
    ∀ coin, (p.game.verdict .disconnection none).winner coin = coin

/-- While a deadline for a side is set, somebody is away. -/
theorem exists_away (ho : Open p.game) (hd : d ≠ .celebration) (ha : p.game.Awaits d) :
    ∃ side, p.game.ready.get side = false := by
  cases d with
  | start =>
    have hb := ho.unready (ho.start.mp ha)
    rw [bothReady_eq _ .left, Bool.and_eq_false_iff] at hb
    exact hb.elim (fun h => ⟨_, h⟩) fun h => ⟨_, h⟩
  | reconnect side => exact ⟨side, ho.away side ha⟩
  | celebration => exact absurd rfl hd

/-- While a deadline for a side is set, no goal has been the last. -/
theorem not_finishing_of_awaits (ho : Open p.game) (hd : d ≠ .celebration)
    (ha : p.game.Awaits d) : p.game.finishing = false := by
  refine ho.not_finishing ?_
  cases d with
  | start =>
    by_contra hw
    exact ho.started (ho.playing_of_ne hw) (ho.start.mp ha)
  | reconnect side => exact (ho.reconnect.mp ⟨side, ha⟩).1
  | celebration => exact absurd rfl hd

theorem onAbsence {win : Nat} (hr : Racing win p) (hf : p.game.finishing = false) :
    (p.game.verdict .disconnection none).OnAbsence := by
  refine ⟨rfl, rfl, ?_⟩
  by_contra hc
  rw [Bool.not_eq_false] at hc
  obtain ⟨side, hle⟩ := (Scores.reach_iff _ _).mp hc
  have hlt := hr.below hf side
  have hwin : (p.game.verdict .disconnection none).winScore = win := hr.rules
  rw [hwin] at hle
  exact absurd hlt (Nat.not_lt.mpr hle)

/-- In every run, the timer of the start or of a return that stands for its deadline ends the match
when it fires, because a side is away and before any side has the score that wins. The side that is
there wins, and so never the one whose return was waited for, unless the other one is away as well:
then the scores decide, and on a tie the coin. -/
theorem absence_forfeits {fixture : Fixture} {rules : Rules} {seed : UInt64}
    (hwin : 1 ≤ rules.winScore) (hm : ∀ m ∈ ms, m.Ordinary)
    (h : (start fixture rules seed now).run ms = .ok p) (hd : d ≠ .celebration)
    (hid : p.game.pending.get d = some id) :
    Forfeited rules.winScore p (p.alarm d id) ∧
      ∀ side, d = .reconnect side → p.game.ready.get side = false ∧
        (p.game.ready.get side.opponent = true →
          ∀ coin, (p.game.verdict .disconnection none).winner coin ≠ side) := by
  have ha : p.game.Awaits d := by simp [Match.Awaits, hid]
  have ho : Open p.game := (covered_run hm h).2.resolve_right fun hover => hover.awaits d ha
  obtain ⟨-, hr⟩ := credited_run hwin hm h
  have hf := not_finishing_of_awaits ho hd ha
  have hv := onAbsence hr hf
  have hend : (p.cancel d).game.phase ≠ .ended := by simpa using ho.phase
  have hreason : d.reason = .disconnection := by cases d <;> first | rfl | exact absurd rfl hd
  rw [alarm_eq ho hid, hreason]
  refine ⟨⟨finish_phase .., ?_, ?_, hr.below hf, exists_away ho hd ha, ?_, ?_, ?_⟩, ?_⟩
  · rw [finish_notices _ _ _ hend]
    simp [endedNotice, Match.verdict]
  · rw [finish_bulletins _ _ _ hend]
    simp [finishedBulletin, Match.verdict]
  · intro side coin hs hso
    exact hv.winner_stayed hs hso
  · intro hn side coin hlt
    rw [hv.winner_empty hn, Verdict.leader?_eq_some hlt]
    rfl
  · intro hn heq coin
    rw [hv.winner_empty hn, Verdict.leader?_eq_none heq]
    rfl
  · rintro side rfl
    have haway := ho.away side ha
    have hopp : p.game.ready.get side.opponent.opponent = false := by
      rwa [Side.opponent_opponent]
    refine ⟨haway, fun hso coin => ?_⟩
    rw [hv.winner_stayed hso hopp]
    exact side.opponent_ne

/-- The side that leads leaves and does not come back. -/
theorem absence_forfeits_leader :
    ∃ rules ms p, rules = { winScore := 2, params := { triggerOffsets := [] } } ∧
      ms = [.join .left 0, .join .right 10, .tick 3000, .leave .right 3100] ∧
      (start duel rules 7 0).run ms = .ok p ∧ p.game.scores = ⟨0, 1⟩ ∧
      p.game.pending.get (.reconnect .right) = some 2 ∧
      Forfeited 2 p (p.alarm (.reconnect .right) 2) ∧
      ∀ coin, (p.game.verdict .disconnection none).winner coin = .left := by
  obtain ⟨p, hp, hs, hid, hr⟩ := exists_run
    (start duel { winScore := 2, params := { triggerOffsets := [] } } 7 0)
    [.join .left 0, .join .right 10, .tick 3000, .leave .right 3100]
    (fun p => p.game.scores = ⟨0, 1⟩ ∧ p.game.pending.get (.reconnect .right) = some 2 ∧
      p.game.ready = ⟨true, false⟩) (by decide +kernel)
  obtain ⟨hf, -⟩ := absence_forfeits (by decide) (by decide) hp (by decide) hid
  refine ⟨_, _, p, rfl, rfl, hp, hs, hid, hf, fun coin => hf.stayed .left coin ?_ ?_⟩
  · rw [hr]
    rfl
  · rw [hr]
    rfl

end Play
end Rally
