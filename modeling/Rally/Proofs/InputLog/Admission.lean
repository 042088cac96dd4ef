import Rally.Proofs.InputLog.Journal
import Mathlib.Data.List.Induction

/-! When a log refuses a sample: told by what it retains and by the windows asked of it so far. What
it refuses leaves it as it was, although room is made before it is known whether there is any. -/
namespace Rally

/-- What may be done with a log, in any order. -/
inductive LogUse where
  | record (s : Sample)
  | window (after upto : Nat)
  | clear

/-- The start of the window that is asked for. -/
def LogUse.start? : LogUse → Option Nat
  | .window after _ => some after
  | _ => none

/-- The end of the window that is asked for. -/
def LogUse.stop? : LogUse → Option Nat
  | .window _ upto => some upto
  | _ => none

/-- The furthest of some instants that have been asked for, or zero. -/
def furthest (f : LogUse → Option Nat) (us : List LogUse) : Nat := (us.filterMap f).foldl max 0

/-- The time of the newest of some samples, or zero. -/
def newestTime (samples : List Sample) : Nat := (samples.map Sample.time).max?.getD 0

/-- What a log with so much room has to say to a sample, when it retains these samples and windows
have been asked for that begin up to `begun` and end up to `ended`. -/
def judgement (room begun ended : Nat) (retained : List Sample) (s : Sample) :
    Except Refusal Unit :=
  if s.direction < -1 ∨ 1 < s.direction then .error (.invalidDirection s.direction)
  else if s.time ≤ ended then .error (.stale s.time ended)
  else if ∃ a ∈ retained, s.time < a.time then .error (.outOfOrder s.time (newestTime retained))
  else if retained.length = room ∧ ∀ a ∈ retained, begun < a.time then .error .full
  else .ok ()

theorem furthest_snoc (f : LogUse → Option Nat) (us : List LogUse) (u : LogUse) :
    furthest f (us ++ [u]) = max (furthest f us) ((f u).getD 0) := by
  unfold furthest
  rw [List.filterMap_append, List.foldl_append]
  cases hu : f u with
  | none => simp [hu]
  | some t => simp [hu]

theorem InOrder.newestTime_eq {xs : List Sample} (h : InOrder xs) {b : Sample}
    (hb : xs.getLast? = some b) : newestTime xs = b.time := by
  have hmax : (xs.map Sample.time).max? = some b.time := by
    rw [List.max?_eq_some_iff]
    refine ⟨List.mem_map_of_mem (List.mem_of_getLast? hb), fun t ht => ?_⟩
    obtain ⟨a, ha, rfl⟩ := List.mem_map.mp ht
    exact h.le_last hb a ha
  rw [newestTime, hmax, Option.getD_some]

namespace InputLog
variable {log : InputLog} {s : Sample} {capacity begun ended time : Nat} {xs : List Sample}

/-- Offers a sample to a log, which changes in place. Room may have been made even if there is too
little in the end. -/
def offer (log : InputLog) (s : Sample) : Except Refusal Unit × InputLog :=
  match log.record s with
  | .ok new => (.ok (), new)
  | .error .full => (.error .full, { log with samples := log.evict s.time log.samples })
  | .error e => (.error e, log)

/-- The log after a use. -/
def handle (log : InputLog) : LogUse → InputLog
  | .record s => (log.offer s).2
  | .window after upto => (log.window after upto).2
  | .clear => log.clear

/-- The log after one request after another. -/
def handleAll (log : InputLog) (us : List LogUse) : InputLog := us.foldl handle log

/-- To record a sample is to offer it. -/
theorem record_eq_offer (log : InputLog) (s : Sample) :
    log.record s = (log.offer s).1.map fun _ => (log.offer s).2 := by
  unfold offer
  cases log.record s with
  | ok new => rfl
  | error e => cases e <;> rfl

/-- Nothing goes before what windows may still need. -/
theorem evict_of_newer (h : ∀ a ∈ xs, log.windowStart < a.time) : log.evict time xs = xs := by
  cases xs with
  | nil => rfl
  | cons x xs =>
    have hx := h x (by simp)
    rw [evict, if_neg (by omega)]

/-- If there is no room, what stands first goes, unless a window may still need it. -/
theorem evict_makes_room (ho : InOrder xs) (hc : log.capacity ≤ xs.length) {a : Sample}
    (ha : a ∈ xs) (hw : a.time ≤ log.windowStart) : (log.evict time xs).length < xs.length := by
  cases xs with
  | nil => cases ha
  | cons x xs =>
    have hx : x.time ≤ log.windowStart := by
      rcases List.mem_cons.mp ha with rfl | ha
      · exact hw
      · exact ((List.pairwise_cons.mp ho).1 a ha).trans hw
    have hrest := (log.evict_isSuffix time xs).length_le
    rw [evict, if_pos ⟨hx, .inr hc⟩, List.length_cons]
    omega

/-- What is refused leaves the log as it was, if no room was made for it. -/
theorem offer_refused {e : Refusal} (he : log.record s = .error e)
    (hkeep : e = .full → log.evict s.time log.samples = log.samples) :
    log.offer s = (.error e, log) := by
  unfold offer
  rw [he]
  cases e with
  | full => simp only [hkeep rfl]
  | invalidDirection | outOfOrder | stale => rfl

/-- What is kept of a log through all requests. -/
structure InUse (capacity begun ended : Nat) (log : InputLog) : Prop where
  room : log.capacity = max capacity 1
  begun : log.windowStart = begun
  ended : log.consumedUntil = ended
  order : InOrder log.samples
  size : log.samples.length ≤ max capacity 1

namespace InUse

/-- There is no room only if all that is retained may still be needed, and then nothing goes. -/
theorem push_full (h : InUse capacity begun ended log)
    (hlen : log.samples.length = max capacity 1) (hnew : ∀ a ∈ log.samples, begun < a.time) :
    record.push log s = .error .full ∧ log.evict s.time log.samples = log.samples := by
  have hkeep : log.evict s.time log.samples = log.samples :=
    evict_of_newer fun a ha => h.begun.symm ▸ hnew a ha
  refine ⟨?_, hkeep⟩
  rw [record.push, hkeep, if_pos (by rw [h.room, hlen])]

theorem push_ok (h : InUse capacity begun ended log)
    (hroom : ¬ (log.samples.length = max capacity 1 ∧ ∀ a ∈ log.samples, begun < a.time)) :
    record.push log s =
      .ok { log with samples := log.evict s.time log.samples ++ [s] } := by
  have hsize := h.size
  have hlt : (log.evict s.time log.samples).length < log.capacity := by
    rw [h.room]
    by_cases hlen : log.samples.length = max capacity 1
    · have hold : ∃ a ∈ log.samples, a.time ≤ begun := by
        by_contra hno
        exact hroom ⟨hlen, fun a ha => Nat.lt_of_not_le fun hle => hno ⟨a, ha, hle⟩⟩
      obtain ⟨a, ha, hle⟩ := hold
      have hmade : (log.evict s.time log.samples).length < log.samples.length :=
        evict_makes_room h.order (by rw [h.room, hlen]) ha (h.begun.symm ▸ hle)
      omega
    · have hle := (log.evict_isSuffix s.time log.samples).length_le
      omega
  rw [record.push, if_neg (by omega)]

/-- A sample is older than some that is retained just if it is older than the last of them. -/
theorem record_in_time (h : InUse capacity begun ended log)
    (hv : ¬ (s.direction < -1 ∨ 1 < s.direction)) (hs : ended < s.time) :
    log.record s = if ∃ a ∈ log.samples, s.time < a.time then
      .error (.outOfOrder s.time (newestTime log.samples)) else record.push log s := by
  rw [record, if_neg hv, if_neg (by rw [h.ended]; omega)]
  cases hl : log.samples.getLast? with
  | none => simp [List.getLast?_eq_none_iff.mp hl]
  | some last =>
    simp only
    have hlast := h.order.le_last hl
    by_cases hlt : s.time < last.time
    · rw [if_pos hlt, if_pos ⟨last, List.mem_of_getLast? hl, hlt⟩, h.order.newestTime_eq hl]
    · rw [if_neg hlt, if_neg]
      rintro ⟨a, ha, hlt'⟩
      have := hlast a ha
      omega

/-- What becomes of a sample is what has to be said to it, and only an accepted
one changes the log. -/
theorem offer_eq (h : InUse capacity begun ended log) (s : Sample) :
    log.offer s =
      (judgement (max capacity 1) begun ended log.samples s,
        match judgement (max capacity 1) begun ended log.samples s with
        | .ok _ => { log with samples := log.evict s.time log.samples ++ [s] }
        | .error _ => log) := by
  unfold judgement
  split
  · rename_i hv
    exact offer_refused (by rw [record, if_pos hv]) (by simp)
  · rename_i hv
    split
    · rename_i hs
      refine offer_refused ?_ (by simp)
      rw [record, if_neg hv, if_pos (by rw [h.ended]; exact hs), h.ended]
    · rename_i hs
      have hrec := h.record_in_time hv (Nat.lt_of_not_le hs)
      split
      · rename_i ho
        rw [if_pos ho] at hrec
        exact offer_refused hrec (by simp)
      · rename_i ho
        rw [if_neg ho] at hrec
        split
        · rename_i hfull
          obtain ⟨hpush, hkeep⟩ := h.push_full hfull.1 hfull.2
          exact offer_refused (hrec.trans hpush) fun _ => hkeep
        · rename_i hroom
          unfold offer
          rw [hrec, h.push_ok hroom]

theorem offer (h : InUse capacity begun ended log) (s : Sample) :
    InUse capacity begun ended (log.offer s).2 := by
  rw [h.offer_eq s]
  dsimp only
  split
  · rename_i hj
    have hrec : log.record s = .ok { log with samples := log.evict s.time log.samples ++ [s] } := by
      rw [record_eq_offer, h.offer_eq s, hj]
      rfl
    obtain ⟨-, -, -, hpush⟩ := record_push hrec
    have hlt := (InputLog.push_ok hpush).1
    refine ⟨h.room, h.begun, h.ended, (record_ok hrec).inOrder h.order, ?_⟩
    rw [h.room] at hlt
    simpa using Nat.succ_le_of_lt hlt
  · exact h

theorem window (h : InUse capacity begun ended log) (after upto : Nat) :
    InUse capacity (max begun after) (max ended upto) (log.window after upto).2 := by
  refine ⟨h.room, ?_, ?_, h.order, h.size⟩
  · rw [← h.begun]
    rfl
  · rw [← h.ended]
    rfl

theorem clear (h : InUse capacity begun ended log) : InUse capacity begun ended log.clear :=
  ⟨h.room, h.begun, h.ended, List.Pairwise.nil, Nat.zero_le _⟩

end InUse

theorem handleAll_snoc (log : InputLog) (us : List LogUse) (u : LogUse) :
    log.handleAll (us ++ [u]) = (log.handleAll us).handle u := List.foldl_append

theorem inUse_run (retention capacity : Nat) (us : List LogUse) :
    InUse capacity (furthest LogUse.start? us) (furthest LogUse.stop? us)
      ((withLimits retention capacity).handleAll us) := by
  induction us using List.reverseRecOn with
  | nil => exact ⟨rfl, rfl, rfl, List.Pairwise.nil, Nat.zero_le _⟩
  | append_singleton us u ih =>
    rw [furthest_snoc, furthest_snoc, handleAll_snoc]
    cases u with
    | record s => simpa [handle, LogUse.start?, LogUse.stop?] using ih.offer s
    | window after upto => exact ih.window after upto
    | clear => simpa [handle, LogUse.start?, LogUse.stop?] using ih.clear

/-- What a log does with a sample, and what it then is. -/
structure Answers (room begun ended : Nat) (log : InputLog) (s : Sample) : Prop where
  verdict : (log.offer s).1 = judgement room begun ended log.samples s
  unchanged : ∀ e, (log.offer s).1 = .error e → (log.offer s).2 = log
  added : (log.offer s).1 = .ok () → ∃ dropped kept, log.samples = dropped ++ kept ∧
    (∀ a ∈ dropped, a.time ≤ begun) ∧ (log.offer s).2 = { log with samples := kept ++ [s] }
  /-- A match records its inputs so. -/
  recorded : log.record s = (log.offer s).1.map fun _ => (log.offer s).2
  /-- The log knows of the windows that have been asked for. -/
  windows : log.windowStart = begun ∧ log.consumedUntil = ended

/-- After any uses of a log with any limits, a sample is refused just for its direction, for a
window that has been taken, for a newer sample, or because the log is full of samples that windows
may still need, in this order. Nothing has then been dropped, also if there was no room. An accepted
sample comes last, and only a front of what windows have left behind is dropped for it. -/
theorem refused_as_judged (retention capacity : Nat) (us : List LogUse) (s : Sample) :
    Answers (max capacity 1) (furthest LogUse.start? us) (furthest LogUse.stop? us)
      ((withLimits retention capacity).handleAll us) s := by
  have h := inUse_run retention capacity us
  generalize (withLimits retention capacity).handleAll us = log at h
  have hoffer := h.offer_eq s
  refine ⟨congrArg Prod.fst hoffer, ?_, ?_, log.record_eq_offer s, h.begun, h.ended⟩
  · intro e he
    rw [hoffer] at he ⊢
    simp only at he ⊢
    rw [he]
  · intro hok
    rw [hoffer] at hok ⊢
    simp only at hok ⊢
    obtain ⟨dropped, hsplit, hold⟩ := log.evict_suffix s.time log.samples
    exact ⟨dropped, _, hsplit, fun a ha => h.begun ▸ hold a ha, by rw [hok]⟩

end InputLog
end Rally
