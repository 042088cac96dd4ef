import Rally.Proofs.InputLog.Retention

/-! A log beside all that it has ever accepted: nobody can ask for what it has dropped. -/
namespace Rally

/-- What is done with a log. A window may be taken at any time, also twice or out of order. -/
inductive Access where
  | record (s : Sample)
  | window (after upto : Nat)

/-- A log, and what has come of all accesses to it. -/
structure Journal where
  log : InputLog
  /-- All samples that the log has accepted, in this order. -/
  accepted : List Sample
  /-- The furthest start of a window that has been taken. -/
  begun : Nat

namespace InputLog
variable {log new : InputLog} {s : Sample} {time : Nat} {xs : List Sample}

/-- Of the samples that a window has left behind, eviction keeps none that is too old. -/
theorem evict_aged (ho : InOrder xs) {a : Sample} (ha : a ∈ log.evict time xs)
    (hw : a.time ≤ log.windowStart) : time ≤ a.time + log.retention := by
  induction xs with
  | nil => simp [evict] at ha
  | cons x xs ih =>
    obtain ⟨hx, hxs⟩ := List.pairwise_cons.mp ho
    unfold evict at ha
    split at ha
    · exact ih hxs ha
    · rename_i hk
      -- What stands first is the oldest, and it has been kept.
      have hle : x.time ≤ a.time := by
        rcases List.mem_cons.mp ha with rfl | ha
        · exact Nat.le_refl _
        · exact hx a ha
      have : ¬ log.retention < time - x.time := fun h => hk ⟨hle.trans hw, .inl h⟩
      omega

theorem evict_isSuffix (log : InputLog) (time : Nat) (xs : List Sample) :
    log.evict time xs <:+ xs := by
  obtain ⟨dropped, he, -⟩ := log.evict_suffix time xs
  exact ⟨dropped, he.symm⟩

end InputLog

namespace Journal
variable {j : Journal} {retention capacity : Nat} {s : Sample} {new : InputLog}

def fresh (retention capacity : Nat) : Journal := ⟨.withLimits retention capacity, [], 0⟩

/-- A sample that is refused leaves the log as it was. -/
def access (j : Journal) : Access → Journal
  | .record s =>
    match j.log.record s with
    | .ok log => { j with log, accepted := j.accepted ++ [s] }
    | .error _ => j
  | .window after upto =>
    { j with log := (j.log.window after upto).2, begun := max j.begun after }

/-- Makes accesses one after another. -/
def run (j : Journal) (as : List Access) : Journal := as.foldl access j

/-- A log is the end of all that it has accepted, and reaches back to the furthest window. -/
structure Kept (retention capacity : Nat) (j : Journal) : Prop where
  age : j.log.retention = retention
  room : j.log.capacity = max capacity 1
  begun : j.log.windowStart = j.begun
  order : InOrder j.accepted
  suffix : j.log.samples <:+ j.accepted
  last : j.log.samples.getLast? = j.accepted.getLast?
  size : j.log.samples.length ≤ max capacity 1
  newer : j.log.samples.filter (j.begun < ·.time) = j.accepted.filter (j.begun < ·.time)

theorem kept_fresh (retention capacity : Nat) :
    Kept retention capacity (fresh retention capacity) :=
  ⟨rfl, rfl, rfl, List.Pairwise.nil, ⟨[], rfl⟩, rfl, Nat.zero_le _, rfl⟩

theorem Kept.record (h : Kept retention capacity j) (hr : j.log.record s = .ok new) :
    Kept retention capacity { j with log := new, accepted := j.accepted ++ [s] } := by
  have hnewer := (InputLog.record_ok hr).newer (Nat.le_of_eq h.begun)
  obtain ⟨-, -, hlatest, hpush⟩ := InputLog.record_push hr
  obtain ⟨hlt, rfl⟩ := InputLog.push_ok hpush
  refine ⟨h.age, h.room, h.begun, ?_, ?_, ?_, ?_, ?_⟩
  · refine h.order.snoc fun a ha => hlatest a ?_
    rw [h.last, ha]
  · obtain ⟨dropped, hd⟩ := (j.log.evict_isSuffix s.time j.log.samples).trans h.suffix
    exact ⟨dropped, by rw [← List.append_assoc, hd]⟩
  · simp
  · have := h.room
    simp only [List.length_append, List.length_cons, List.length_nil]
    omega
  · rw [hnewer, h.newer, List.filter_append]

theorem Kept.window (h : Kept retention capacity j) (after upto : Nat) :
    Kept retention capacity (j.access (.window after upto)) := by
  refine ⟨h.age, h.room, ?_, h.order, h.suffix, h.last, h.size, ?_⟩
  · simp [access, InputLog.window, InputLog.consume, h.begun]
  · have hf := congrArg (List.filter (max j.begun after < ·.time)) h.newer
    rwa [filter_later (Nat.le_max_left ..), filter_later (Nat.le_max_left ..)] at hf

theorem kept_access (h : Kept retention capacity j) (a : Access) :
    Kept retention capacity (j.access a) := by
  cases a with
  | record s =>
    simp only [access]
    split
    · rename_i hr
      exact h.record hr
    · exact h
  | window after upto => exact h.window after upto

theorem kept_run (h : Kept retention capacity j) (as : List Access) :
    Kept retention capacity (j.run as) := by
  induction as generalizing j with
  | nil => exact h
  | cons a as ih => exact ih (kept_access h a)

/-- A window that begins no earlier than those before it has all that was accepted in its time. -/
theorem Kept.between (h : Kept retention capacity j) {after : Nat} (ha : j.begun ≤ after)
    (upto : Nat) :
    j.log.between after upto = j.accepted.filter fun s => after < s.time ∧ s.time ≤ upto :=
  InputLog.between_of_newer (h.order.suffix h.suffix) ha h.newer upto

/-- A log has all that anyone can still ask for, and little more. -/
structure LosesNothing (retention capacity : Nat) (j : Journal) : Prop where
  order : InOrder j.accepted
  suffix : j.log.samples <:+ j.accepted
  size : j.log.samples.length ≤ max capacity 1
  newer : j.log.samples.filter (j.begun < ·.time) = j.accepted.filter (j.begun < ·.time)
  window : ∀ after upto, j.begun ≤ after →
    (j.log.window after upto).1 = j.accepted.filter fun s => after < s.time ∧ s.time ≤ upto
  /-- Taking a window does not change what it has. -/
  again : ∀ after upto, j.begun ≤ after →
    ((j.log.window after upto).2.window after upto).1 = (j.log.window after upto).1
  /-- Once a sample has been accepted, what windows have left behind is not too old. -/
  aged : ∀ s new, j.log.record s = .ok new →
    ∀ a ∈ new.samples, a.time ≤ j.begun → s.time ≤ a.time + retention

theorem Kept.aged (h : Kept retention capacity j) (hr : j.log.record s = .ok new) {a : Sample}
    (ha : a ∈ new.samples) (hw : a.time ≤ j.begun) : s.time ≤ a.time + retention := by
  obtain ⟨-, -, -, hpush⟩ := InputLog.record_push hr
  obtain ⟨-, rfl⟩ := InputLog.push_ok hpush
  rcases List.mem_append.mp ha with ha | ha
  · rw [← h.begun] at hw
    rw [← h.age]
    exact InputLog.evict_aged (h.order.suffix h.suffix) ha hw
  · rw [List.mem_singleton.mp ha]
    exact Nat.le_add_right ..

/-- However inputs are recorded in a log and windows are taken from it, with whatever limits, it has
lost nothing that a window from the furthest one on would have. -/
theorem log_loses_nothing (retention capacity : Nat) (as : List Access) :
    LosesNothing retention capacity ((fresh retention capacity).run as) := by
  have h := kept_run (kept_fresh retention capacity) as
  refine ⟨h.order, h.suffix, h.size, h.newer, fun after upto ha => h.between ha upto, ?_,
    fun s new hr a => h.aged hr⟩
  intro after upto ha
  have hle : (((fresh retention capacity).run as).access (.window after upto)).begun ≤ after :=
    Nat.max_le.mpr ⟨ha, Nat.le_refl _⟩
  have hagain := (h.window after upto).between hle upto
  exact hagain.trans (h.between ha upto).symm

end Journal
end Rally
