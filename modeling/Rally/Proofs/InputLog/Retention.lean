import Rally.Proofs.InputLog.Order

/-! What a log keeps of all that it has accepted, while windows are taken from it one after another.
-/
namespace Rally

/-- The direction is one that a paddle takes as it is. -/
def Sample.Valid (s : Sample) : Prop := ¬ (s.direction < -1 ∨ 1 < s.direction)

namespace InputLog
variable {log new : InputLog} {s : Sample}

/-- Only a front of the log goes, and nothing of it is after the last window's start. -/
theorem evict_suffix (log : InputLog) (time : Nat) (xs : List Sample) :
    ∃ dropped, xs = dropped ++ log.evict time xs ∧ ∀ a ∈ dropped, a.time ≤ log.windowStart := by
  induction xs with
  | nil => exact ⟨[], rfl, by simp⟩
  | cons x xs ih =>
    unfold evict
    split
    · rename_i hx
      obtain ⟨dropped, he, hd⟩ := ih
      refine ⟨x :: dropped, by rw [List.cons_append, ← he], ?_⟩
      intro a ha
      rcases List.mem_cons.mp ha with rfl | ha
      · exact hx.1
      · exact hd a ha
    · exact ⟨[], rfl, by simp⟩

/-- A sample has been recorded: it is new, and the latest. -/
structure Recorded (log : InputLog) (s : Sample) (new : InputLog) : Prop where
  valid : s.Valid
  fresh : log.consumedUntil < s.time
  latest : ∀ a, log.samples.getLast? = some a → a.time ≤ s.time
  kept : ∃ dropped kept, log.samples = dropped ++ kept ∧
    (∀ a ∈ dropped, a.time ≤ log.windowStart) ∧ new = { log with samples := kept ++ [s] }

theorem push_ok (h : record.push log s = .ok new) :
    (log.evict s.time log.samples).length < log.capacity ∧
      new = { log with samples := log.evict s.time log.samples ++ [s] } := by
  simp only [record.push] at h
  split at h
  · cases h
  · rename_i hc
    cases h
    exact ⟨by omega, rfl⟩

/-- What is recorded has passed all checks, and there was room for it. -/
theorem record_push (h : log.record s = .ok new) :
    s.Valid ∧ log.consumedUntil < s.time ∧
      (∀ a, log.samples.getLast? = some a → a.time ≤ s.time) ∧
      record.push log s = .ok new := by
  unfold record at h
  split at h
  · cases h
  · rename_i hv
    split at h
    · cases h
    · rename_i hs
      split at h
      · rename_i last hlast
        split at h
        · cases h
        · rename_i ht
          refine ⟨hv, by omega, ?_, h⟩
          intro a ha
          rw [hlast] at ha
          cases ha
          omega
      · rename_i hlast
        refine ⟨hv, by omega, ?_, h⟩
        intro a ha
        simp [hlast] at ha

theorem record_ok (h : log.record s = .ok new) : Recorded log s new := by
  obtain ⟨hv, hs, hl, hp⟩ := record_push h
  obtain ⟨dropped, he, hd⟩ := log.evict_suffix s.time log.samples
  exact ⟨hv, hs, hl, dropped, _, he, hd, (push_ok hp).2⟩

theorem Recorded.inOrder (h : Recorded log s new) (ho : InOrder log.samples) :
    InOrder new.samples := by
  obtain ⟨dropped, kept, he, -, rfl⟩ := h.kept
  have hk : kept <:+ log.samples := ⟨dropped, he.symm⟩
  refine (ho.suffix hk).snoc fun a ha => h.latest a ?_
  rw [he, List.getLast?_append, ha]
  rfl

/-- What is newer than the last window's start stays in the log, and the sample joins it. -/
theorem Recorded.newer (h : Recorded log s new) {t : Nat} (ht : log.windowStart ≤ t) :
    new.samples.filter (t < ·.time) =
      log.samples.filter (t < ·.time) ++ [s].filter (t < ·.time) := by
  obtain ⟨dropped, kept, he, hd, rfl⟩ := h.kept
  have hn : dropped.filter (t < ·.time) = [] := by
    refine List.filter_eq_nil_iff.mpr fun a ha => ?_
    have := hd a ha
    simp only [decide_eq_true_eq]
    omega
  rw [he, List.filter_append, List.filter_append, hn, List.nil_append]

theorem between_eq_filter (ho : InOrder log.samples) (after upto : Nat) :
    log.between after upto = log.samples.filter fun s => after < s.time ∧ s.time ≤ upto := by
  unfold between
  rw [ho.dropWhile_le, (ho.filter _).takeWhile_le, List.filter_filter]
  refine List.filter_congr fun a _ => ?_
  simp [Bool.and_comm]

/-- If a log lacks nothing after some instant, a window that begins there or later has just what has
been accepted in its time. -/
theorem between_of_newer (ho : InOrder log.samples) {u after : Nat} {accepted : List Sample}
    (hu : u ≤ after) (h : log.samples.filter (u < ·.time) = accepted.filter (u < ·.time))
    (upto : Nat) :
    log.between after upto = accepted.filter fun s => after < s.time ∧ s.time ≤ upto := by
  have hf := congrArg (List.filter fun s => after < s.time ∧ s.time ≤ upto) h
  rw [filter_window hu, filter_window hu] at hf
  rw [between_eq_filter ho, hf]

/-- What is true of a log that has accepted some samples, when windows have been taken up to `last`
since `start`. -/
structure UpToDate (log : InputLog) (start last : Nat) (accepted : List Sample) : Prop where
  order : InOrder log.samples
  valid : ∀ s ∈ log.samples, s.Valid
  begun : log.windowStart ≤ last
  /-- Before the first window, the log knows of none. -/
  ended : log.consumedUntil = last ∨ log.consumedUntil ≤ start ∧ last = start
  /-- What has been accepted and is newer than the last window is in the log. -/
  newer : log.samples.filter (last < ·.time) = accepted.filter (last < ·.time)

namespace UpToDate
variable {start last now : Nat} {accepted : List Sample}

theorem withLimits (start retention capacity : Nat) :
    (InputLog.withLimits retention capacity).UpToDate start start [] := by
  refine ⟨List.Pairwise.nil, by simp [InputLog.withLimits], Nat.zero_le _, ?_, rfl⟩
  exact .inr ⟨Nat.zero_le _, rfl⟩

/-- An accepted sample is newer than all windows, or older than the start. -/
theorem last_lt (h : log.UpToDate start last accepted) (hr : log.Recorded s new)
    (hs : start < s.time) : last < s.time := by
  have := hr.fresh
  rcases h.ended with he | ⟨-, he⟩
  · omega
  · omega

theorem record (h : log.UpToDate start last accepted) (hr : log.Recorded s new) :
    new.UpToDate start last (accepted ++ [s]) := by
  have hnewer := hr.newer h.begun
  have horder := hr.inOrder h.order
  obtain ⟨dropped, kept, he, hd, rfl⟩ := hr.kept
  refine ⟨horder, ?_, h.begun, h.ended, ?_⟩
  · intro a ha
    rcases List.mem_append.mp ha with ha | ha
    · exact h.valid a (by simp [he, ha])
    · rw [List.mem_singleton.mp ha]
      exact hr.valid
  · rw [hnewer, h.newer, List.filter_append]

/-- A window has just what has been accepted in its time. -/
theorem between (h : log.UpToDate start last accepted) (now : Nat) :
    log.between last now = accepted.filter fun s => last < s.time ∧ s.time ≤ now :=
  between_of_newer h.order (Nat.le_refl _) h.newer now

theorem consume (h : log.UpToDate start last accepted) (hs : start ≤ last) (hn : last ≤ now) :
    (log.consume last now).UpToDate start now accepted := by
  have hb := h.begun
  refine ⟨h.order, h.valid, ?_, ?_, ?_⟩
  · simp only [InputLog.consume]
    omega
  · simp only [InputLog.consume]
    rcases h.ended with he | he <;> omega
  · have hf := congrArg (List.filter (now < ·.time)) h.newer
    rwa [filter_later hn, filter_later hn] at hf

end UpToDate
end InputLog
end Rally
