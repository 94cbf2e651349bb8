import Csics.Queue.Safety

/-!
# A drained queue

A producer that gets `Full` calls `acquire_write` again, in the hope that the reader has released
something by then. In a queue whose two indices are equal there is nothing to release, so `Full` is
final there (`retryWrite_of_full`): the call has no effect, and its answer depends on the queue
only.

The size test compares the payload with the capacity and the fullness test the payload and its
header. Requests between the two bounds get `Full` from a drained queue, and so does the one that
would fill it to the last byte (`serves_iff`). `run_serves_iff` says so of every run.
-/

namespace Csics.Queue

open Base
open QueueSlotHeader (sizeof)

/-! ## The capacity stays -/

namespace SPSCQueue

variable (q : SPSCQueue) (slot : Slot)

@[simp] theorem capacity_acquireWrite (size : UInt64) :
    (q.acquireWrite slot size).2.2.capacity = q.capacity := by
  simp only [acquireWrite]
  split
  · rfl
  · split
    · rfl
    · split <;> rfl

@[simp] theorem capacity_acquireRead : (q.acquireRead slot).2.2.capacity = q.capacity := by
  simp only [acquireRead]
  split
  · rfl
  · split <;> rfl

@[simp] theorem capacity_commitWrite (line : UInt64) :
    (q.commitWrite line slot).capacity = q.capacity := by
  unfold commitWrite
  split <;> rfl

@[simp] theorem capacity_commitRead (line : UInt64) :
    (q.commitRead line slot).capacity = q.capacity := by
  unfold commitRead
  split <;> rfl

end SPSCQueue

/-- No step changes the capacity. -/
theorem System.capacity_step {line : UInt64} {s t : System} {op : Op}
    (ht : s.step line op = some t) : t.queue.capacity = s.queue.capacity := by
  cases op with
  | acquireWrite size =>
    have hcap := s.queue.capacity_acquireWrite .init size
    simp only [step, System.acquireWrite] at ht
    split at ht
    · cases ht
    split at ht
    · cases ht
    split at ht
    all_goals
      rename_i heq
      rw [heq] at hcap
      cases ht
      exact hcap
  | fill i b =>
    simp only [step, fill] at ht
    split at ht
    · cases ht
    split at ht
    · cases ht
    split at ht
    · cases ht
      rfl
    · cases ht
  | commitWrite =>
    simp only [step, System.commitWrite] at ht
    split at ht
    · cases ht
    · cases ht
      exact s.queue.capacity_commitWrite _ line
  | acquireRead =>
    have hcap := s.queue.capacity_acquireRead .init
    simp only [step, System.acquireRead] at ht
    split at ht
    · cases ht
    split at ht
    all_goals
      rename_i heq
      rw [heq] at hcap
      cases ht
      exact hcap
  | commitRead =>
    simp only [step, System.commitRead] at ht
    split at ht
    · cases ht
    split at ht
    all_goals
      cases ht
      exact s.queue.capacity_commitRead _ line

/-! ## `Full` -/

namespace SPSCQueue

variable {q : SPSCQueue} {slot : Slot} {size : UInt64}

/-- `Full` comes from the second test. -/
theorem acquireWrite_eq_full :
    (q.acquireWrite slot size).1 = .full ↔
      size ≤ q.capacity ∧ q.capacity ≤ q.writeIndex - q.readIndex + (size + sizeof) := by
  simp only [acquireWrite]
  split
  · rename_i hgt
    exact iff_of_false (by rintro ⟨⟩) fun h => absurd hgt (UInt64.not_lt.mpr h.1)
  rename_i hle
  split
  · rename_i hfull
    exact iff_of_true rfl ⟨UInt64.not_lt.mp hle, hfull⟩
  · rename_i hfull
    refine iff_of_false ?_ fun h => hfull h.2
    split <;> rintro ⟨⟩

theorem acquireWrite_ne_empty : (q.acquireWrite slot size).1 ≠ .empty := by
  simp only [acquireWrite]
  split
  · rintro ⟨⟩
  split
  · rintro ⟨⟩
  · split <;> rintro ⟨⟩

/-- A call that returns `Full` has no effect. -/
theorem acquireWrite_of_full (h : (q.acquireWrite slot size).1 = .full) :
    q.acquireWrite slot size = (.full, slot, q) := by
  obtain ⟨hle, hfull⟩ := acquireWrite_eq_full.mp h
  simp only [acquireWrite, UInt64.not_lt.mpr hle, hfull, gt_iff_lt, if_false, if_true]

/-- The answer to a producer that calls `acquire_write` again each time it gets `Full`, at most `n`
times. -/
def retryWrite (q : SPSCQueue) (slot : Slot) (size : UInt64) : Nat → SPSCError × Slot × SPSCQueue
  | 0 => q.acquireWrite slot size
  | n + 1 =>
    match q.acquireWrite slot size with
    | (.full, slot, q) => q.retryWrite slot size n
    | answer => answer

/-- While the reader does nothing, `Full` stays the answer. -/
theorem retryWrite_of_full (h : (q.acquireWrite slot size).1 = .full) (n : Nat) :
    q.retryWrite slot size n = (.full, slot, q) := by
  have heq := acquireWrite_of_full h
  induction n with
  | zero => exact heq
  | succ n ih =>
    rw [retryWrite, heq]
    exact ih

/-- The producer gets its slot or learns that it never will, and its retries end. -/
def Serves (q : SPSCQueue) (slot : Slot) (size : UInt64) : Prop :=
  ((q.acquireWrite slot size).1 = .none ∨ (q.acquireWrite slot size).1 = .tooBig) ∧
    ∃ n, (q.retryWrite slot size n).1 ≠ .full

theorem serves_iff_ne_full : q.Serves slot size ↔ (q.acquireWrite slot size).1 ≠ .full := by
  constructor
  · rintro ⟨-, n, hn⟩ hfull
    apply hn
    rw [retryWrite_of_full hfull]
  · intro hfull
    refine ⟨?_, 0, hfull⟩
    have hempty : (q.acquireWrite slot size).1 ≠ .empty := acquireWrite_ne_empty
    cases herr : (q.acquireWrite slot size).1 with
    | none => exact Or.inl rfl
    | tooBig => exact Or.inr rfl
    | full => exact absurd herr hfull
    | empty => exact absurd herr hempty

/-- With equal indices the request alone decides. -/
theorem serves_iff {c : Config} (hcap : q.capacity = c.capacity)
    (hdrained : q.readIndex = q.writeIndex) :
    q.Serves slot size ↔ c.size < size.toNat ∨ size.toNat + 8 < c.size := by
  have hc := c.size_le
  have h8 : sizeof.toNat = 8 := rfl
  rw [serves_iff_ne_full, Ne, acquireWrite_eq_full, hcap, hdrained, UInt64.sub_self,
    UInt64.le_iff_toNat_le, UInt64.le_iff_toNat_le, UInt64.toNat_add, UInt64.toNat_add, h8,
    UInt64.toNat_zero]
  show ¬ (size.toNat ≤ c.size ∧ c.size ≤ _) ↔ _
  by_cases hsize : size.toNat ≤ c.size
  · rw [Nat.mod_eq_of_lt (show size.toNat + 8 < 2 ^ 64 by omega)]
    omega
  · exact iff_of_true (fun h => hsize h.1) (Or.inl (Nat.lt_of_not_le hsize))

end SPSCQueue

/-! ## Whole runs -/

/-- A producer is served by a drained queue exactly if its request is more than the capacity, or
leaves a byte of the ring free behind its header. -/
theorem run_serves_iff (c : Config) (buffer : Mem) (ops : List Op) (slot : Slot) (size : UInt64)
    {s : System}
    (hrun : run (System.step c.kCacheLineSize) (.init c.capacity buffer) ops = some s)
    (hdrained : s.queue.readIndex = s.queue.writeIndex) :
    s.queue.Serves slot size ↔ c.size < size.toNat ∨ size.toNat + 8 < c.size := by
  have hcap : s.queue.capacity = c.capacity :=
    run_preserves (I := fun s => s.queue.capacity = c.capacity)
      (fun s op t hs ht => (System.capacity_step ht).trans hs) rfl hrun
  exact SPSCQueue.serves_iff hcap hdrained

/-- Both messages are read, and the third one wraps. -/
theorem run_serves_iff_twoMessages :
    ∃ s, run (System.step 64) (.init 256 fun _ => 0)
        (twoMessages ++ [.acquireRead, .commitRead]) = some s ∧
      s.queue.readIndex = s.queue.writeIndex ∧ s.queue.Serves .init 100 :=
  ⟨_, rfl, by decide +kernel, (run_serves_iff fourLines (fun _ => 0)
    (twoMessages ++ [.acquireRead, .commitRead]) .init 100 rfl (by decide +kernel)).mpr
    (by decide)⟩

/-- A drained queue of 128 bytes never has a slot for 120, however often the producer calls. -/
theorem not_serves_drained :
    ∃ s, run (System.step 64) (.init 128 fun _ => 0)
        [.acquireWrite 40, .commitWrite, .acquireRead, .commitRead] = some s ∧
      s.writing.isNone ∧ s.reading.isNone ∧ s.queue.readIndex = s.queue.writeIndex ∧
      ¬ s.queue.Serves .init 120 ∧ ∀ n, (s.queue.retryWrite .init 120 n).1 = .full := by
  refine ⟨_, rfl, rfl, rfl, by decide +kernel, ?_, ?_⟩
  · intro hserves
    exact SPSCQueue.serves_iff_ne_full.mp hserves (by decide +kernel)
  · intro n
    rw [SPSCQueue.retryWrite_of_full (by decide +kernel)]

end Csics.Queue
