import Rally.Proofs.Results
import Rally.Settings

/-! What the settings of a server say of the rules of its matches. All numbers arrive as they are
named, but for a time limit whose milliseconds no longer have 64 bits. -/
namespace Rally.Settings

variable {lookup lookup' : Lookup} {key : String} {bits default m n : Nat} {s s' : Settings}

/-- The number that a lookup names: the one that the text under the key writes, with white space
around it, or the default if the key is not set. -/
def Names (lookup : Lookup) (key : String) (bits default n : Nat) : Prop :=
  match lookup key with
  | none => n = default
  | some text => Text.natural? bits (Text.trim text.toList) = some n

theorem Names.unique (hm : Names lookup key bits default m) (hn : Names lookup key bits default n) :
    m = n := by
  unfold Names at hm hn
  cases hkey : lookup key with
  | none =>
    rw [hkey] at hm hn
    exact hm.trans hn.symm
  | some text =>
    rw [hkey] at hm hn
    exact Option.some.inj (hm.symm.trans hn)

theorem number_eq_ok :
    number lookup key bits default = .ok n ↔ Names lookup key bits default n := by
  unfold number Names
  cases lookup key with
  | none => exact ⟨fun h => (Except.ok.inj h).symm, fun h => congrArg Except.ok h.symm⟩
  | some text =>
    dsimp only
    cases Text.natural? bits (Text.trim text.toList) with
    | none => simp
    | some k => simp

/-- The rules of a match have the numbers that a lookup names, the time limit apart. -/
structure Named (lookup : Lookup) (r : Rules) : Prop where
  tick : Names lookup "TICK_MS" 64 33 r.pace.tick
  /-- Times to wait are named in seconds. -/
  startGrace : ∃ n, Names lookup "START_GRACE_SECS" 64 20 n ∧ r.startGrace = 1000 * n
  reconnectGrace : ∃ n, Names lookup "RECONNECT_GRACE_SECS" 64 10 n ∧ r.reconnectGrace = 1000 * n
  allowance : Names lookup "RECONNECT_ALLOWANCE" 32 3 r.allowance
  winScore : Names lookup "WIN_SCORE" 8 5 r.winScore
  tick_pos : 1 ≤ r.pace.tick
  winScore_pos : 1 ≤ r.winScore

/-- Settings that can be read have the numbers that are named, and two of them are not zero. -/
theorem read_ok (h : read lookup = .ok s) :
    Named lookup s.rules ∧ Names lookup "MATCH_MAX_DURATION_SECS" 64 300 s.limit := by
  unfold read at h
  split at h
  · obtain ⟨tick, htick, h⟩ := bind_eq_ok.mp h
    obtain ⟨limit, hlimit, h⟩ := bind_eq_ok.mp h
    obtain ⟨start, hstart, h⟩ := bind_eq_ok.mp h
    obtain ⟨back, hback, h⟩ := bind_eq_ok.mp h
    obtain ⟨allowance, hallowance, h⟩ := bind_eq_ok.mp h
    obtain ⟨win, hwin, h⟩ := bind_eq_ok.mp h
    dsimp only at h
    split at h
    · cases h
    · rename_i htick0
      split at h
      · cases h
      · rename_i hwin0
        cases h
        exact ⟨⟨number_eq_ok.mp htick, ⟨start, number_eq_ok.mp hstart, rfl⟩,
          ⟨back, number_eq_ok.mp hback, rfl⟩, number_eq_ok.mp hallowance, number_eq_ok.mp hwin,
          Nat.one_le_iff_ne_zero.mpr htick0, Nat.one_le_iff_ne_zero.mpr hwin0⟩,
          number_eq_ok.mp hlimit⟩
  · cases h

/-- The most seconds whose milliseconds have 64 bits. -/
def longest : Nat := (UInt64.size - 1) / 1000

/-- A time limit of more seconds than that is cut off. -/
theorem limit_eq_iff (s : Settings) : s.rules.pace.limit = 1000 * s.limit ↔ s.limit ≤ longest := by
  change 1000 * s.limit % UInt64.size = 1000 * s.limit ↔ s.limit ≤ longest
  unfold longest UInt64.size
  omega

/-- The rules of every match are those that the settings name, and of two time limits that can be
kept the longer one gives the longer match. Only a limit beyond all these comes out as what is left
of its milliseconds. -/
theorem rules_as_named_unless_too_long (h : read lookup = .ok s) :
    Named lookup s.rules ∧ ∃ n, Names lookup "MATCH_MAX_DURATION_SECS" 64 300 n ∧
      s.rules.pace.limit = 1000 * n % UInt64.size ∧ (s.rules.pace.limit = 1000 * n ↔ n ≤ longest) ∧
      ∀ {lookup' s' n'}, read lookup' = .ok s' →
        Names lookup' "MATCH_MAX_DURATION_SECS" 64 300 n' → n ≤ n' → n' ≤ longest →
          s.rules.pace.limit ≤ s'.rules.pace.limit := by
  obtain ⟨hnamed, hlimit⟩ := read_ok h
  refine ⟨hnamed, s.limit, hlimit, rfl, limit_eq_iff s, fun {lookup' s' n'} h' hn' hle hlong => ?_⟩
  obtain rfl := hn'.unique (read_ok h').2
  rw [(limit_eq_iff s').mpr hlong, (limit_eq_iff s).mpr (Nat.le_trans hle hlong)]
  exact Nat.mul_le_mul_left 1000 hle

/-- One second more than the longest limit makes matches that end after 384 milliseconds. -/
theorem rules_as_named_unless_too_long_by_one :
    ∃ s, read (fun key =>
        if key = "MATCH_MAX_DURATION_SECS" then some "18446744073709552" else none) =
        .ok s ∧ s.limit = longest + 1 ∧ s.rules.winScore = 5 ∧ s.rules.pace.limit = 384 := by
  obtain ⟨s, hs, hlimit, hwin⟩ := exists_ok
    (x := read fun key =>
      if key = "MATCH_MAX_DURATION_SECS" then some "18446744073709552" else none)
    (fun s => s.limit = longest + 1 ∧ s.winScore = 5) (by decide +kernel)
  obtain ⟨-, n, hn, hrest, -⟩ := rules_as_named_unless_too_long hs
  obtain rfl := hn.unique (read_ok hs).2
  refine ⟨s, hs, hlimit, hwin, ?_⟩
  rw [hrest, hlimit]
  decide +kernel

end Rally.Settings
