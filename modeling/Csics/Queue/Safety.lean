import Csics.Queue.Steps

/-!
# What the queue hands out

The two contracts of the queue over whole runs: a slot that `acquire_write` grants shares
no byte with an unread message, and `acquire_read` returns the oldest unread message.

Neither holds without a condition. The fullness test of `acquire_write` leaves out the
bytes a wrap skips, and starts from `read_index_`, which is already past the padding of a
message that is still being read. A wrapping `acquire_write` also publishes
`write_index_` before its slot is committed. `System.Meets` and `System.MeetsRead` exclude
exactly these steps, and the comparison of raw indices across `2^64`.
-/

namespace Csics.Queue

open Base

/-! ## Conditions on a run -/

namespace System

/-- A request has room or is turned down, and a reader ahead of the open slot sees so. -/
def Meets (s : System) : Op → Prop
  | .acquireWrite size => s.Rejected size ∨ s.Fits size
  | .acquireRead => ∀ w ∈ s.writing, w.released = true → s.queue.writeIndex ≤ s.queue.readIndex
  | _ => True

/-- The two indices tell whether a message is unread: with none, `write_index_` has not
been moved past the padding of an open slot, and with one the indices have not been
separated by `2^64`. -/
def ReadClear (s : System) : Prop :=
  if s.unread = [] then
    ∀ w ∈ s.writing, w.grant.pad.isSome → s.queue.writeIndex ≤ s.queue.readIndex
  else s.queue.readIndex < s.queue.writeIndex

def MeetsRead (s : System) : Op → Prop
  | .acquireWrite size => s.Rejected size ∨ s.Fits size
  | .acquireRead => s.ReadClear
  | _ => True

instance (s : System) : DecidablePred s.Meets
  | .acquireWrite _ => inferInstanceAs (Decidable (_ ∨ _))
  | .acquireRead => inferInstanceAs (Decidable (∀ w ∈ s.writing, _))
  | .fill _ _ | .commitWrite | .commitRead => isTrue trivial

instance (s : System) : Decidable s.ReadClear :=
  inferInstanceAs (Decidable (if s.unread = [] then
    ∀ w ∈ s.writing, w.grant.pad.isSome → s.queue.writeIndex ≤ s.queue.readIndex
    else s.queue.readIndex < s.queue.writeIndex))

instance (s : System) : DecidablePred s.MeetsRead
  | .acquireWrite _ => inferInstanceAs (Decidable (_ ∨ _))
  | .acquireRead => inferInstanceAs (Decidable s.ReadClear)
  | .fill _ _ | .commitWrite | .commitRead => isTrue trivial

/-! ## Contracts of one call -/

/-- If `acquire_write(size)` returns `None`, the bytes it writes and grants lie in the
ring, are pairwise disjoint and belong to no unread message. -/
def WriteSafe (s : System) (size : UInt64) : Prop :=
  (s.queue.acquireWrite .init size).1 = .none →
    (s.queue.grant size).Within s.queue.capacity.toNat ∧ (s.queue.grant size).Separated ∧
      ∀ m ∈ s.unread, m.grant.Disjoint (s.queue.grant size)

/-- `acquire_read` returns the oldest unread message, as it was committed, or `Empty`. -/
def ReadSafe (s : System) : Prop :=
  match s.queue.acquireRead .init, s.unread with
  | (err, _, _), [] => err = .empty
  | (err, slot, q), m :: _ =>
    err = .none ∧ slot = m.slot ∧ q.buffer.load m.grant.payload.pos slot.size.toNat = m.data

instance (s : System) (size : UInt64) : Decidable (s.WriteSafe size) :=
  inferInstanceAs (Decidable (_ → _))

instance (s : System) : Decidable s.ReadSafe := by
  unfold ReadSafe
  split <;> infer_instance

/-- A request that is turned down leaves the system as it was. -/
theorem acquireWrite_rejected {s t : System} {size : UInt64} (hrej : s.Rejected size)
    (ht : s.acquireWrite size = some t) : t = s := by
  obtain ⟨err, herr, hq⟩ := acquireWrite_of_rejected hrej .init
  obtain ⟨queue, writing, reading, unread⟩ := s
  cases writing with
  | some w => cases ht
  | none =>
    simp only [acquireWrite] at ht hq
    rw [hq] at ht
    split at ht
    · cases ht
    · cases err
      · exact absurd rfl herr
      all_goals exact (Option.some.inj ht).symm

end System

/-! ## Every state of a run -/

variable {c : Config} {s t : System}

/-- The messages and the indices of `s` lie on the index line. -/
def Inv (c : Config) (s : System) : Prop := ∃ a b, InvAt c s a b

namespace Inv

theorem init (c : Config) (buffer : Mem) : Inv c (.init c.capacity buffer) :=
  ⟨0, 0, init_inv c buffer⟩

/-- A step other than `acquire_read` keeps the invariant when a granted request fits. -/
theorem step_of_fits {op : Op} (h : Inv c s) (hread : op ≠ .acquireRead)
    (hfits : ∀ size, op = .acquireWrite size → s.Rejected size ∨ s.Fits size)
    (ht : s.step c.kCacheLineSize op = some t) : Inv c t := by
  obtain ⟨a, b, h⟩ := h
  cases op with
  | acquireWrite size =>
    by_cases hrej : s.Rejected size
    · exact ⟨a, b, System.acquireWrite_rejected hrej ht ▸ h⟩
    · have hidle : s.writing = none := by
        by_contra hw
        obtain ⟨w, hw⟩ := Option.ne_none_iff_exists'.mp hw
        simp [System.step, System.acquireWrite, hw] at ht
      have hsize : size ≠ 0 := by
        intro h0
        simp [System.step, System.acquireWrite, hidle, h0] at ht
      exact ⟨a, b, h.acquireWrite_step
        ⟨hidle, hsize, hrej, (hfits size rfl).resolve_left hrej⟩ ht⟩
  | fill i x => exact ⟨a, b, h.fill_step ht⟩
  | commitWrite =>
    obtain ⟨w, -, h'⟩ := h.commitWrite_step ht
    exact ⟨_, _, h'⟩
  | acquireRead => exact absurd rfl hread
  | commitRead =>
    obtain ⟨a', h', -⟩ := h.commitRead_step ht
    exact ⟨a', b, h'⟩

theorem step {op : Op} (h : Inv c s) (hmeets : s.Meets op)
    (ht : s.step c.kCacheLineSize op = some t) : Inv c t := by
  by_cases hread : op = .acquireRead
  · subst hread
    obtain ⟨a, b, h⟩ := h
    exact ⟨a, b, h.acquireRead_step ht fun _ w hw _ hrel => hmeets w hw hrel⟩
  · refine h.step_of_fits hread ?_ ht
    rintro size rfl
    exact hmeets

theorem step_of_readClear {op : Op} (h : Inv c s) (hmeets : s.MeetsRead op)
    (ht : s.step c.kCacheLineSize op = some t) : Inv c t := by
  by_cases hread : op = .acquireRead
  · subst hread
    obtain ⟨a, b, h⟩ := h
    refine ⟨a, b, h.acquireRead_step ht ?_⟩
    intro hu w hw hp _
    have hclear : s.ReadClear := hmeets
    rw [System.ReadClear, if_pos hu] at hclear
    exact hclear w hw hp
  · refine h.step_of_fits hread ?_ ht
    rintro size rfl
    exact hmeets

/-- A granted slot lies in the ring and away from the unread messages. -/
theorem writeSafe {size : UInt64} (h : Inv c s) (hidle : s.writing = none) (hsize : size ≠ 0)
    (hfits : s.Rejected size ∨ s.Fits size) : s.WriteSafe size := by
  obtain ⟨a, b, h⟩ := h
  intro hnone
  have hrej : ¬ s.Rejected size := by
    intro hrej
    rcases hrej with hgt | hge
    · simp [SPSCQueue.acquireWrite, hgt] at hnone
    · by_cases hgt : size > s.queue.capacity
      · simp [SPSCQueue.acquireWrite, hgt] at hnone
      · simp only [SPSCQueue.acquireWrite, hgt, hge, if_false, if_true, reduceCtorEq] at hnone
  have hg : InvAt.Granted s size := ⟨hidle, hsize, hrej, hfits.resolve_left hrej⟩
  have hfit := h.grant_fitted hg
  rw [h.capacity_eq]
  exact ⟨hfit.within, hfit.separated, fun m hm => h.laid.disjoint hfit (h.end_le hg) hm⟩

end Inv

theorem SPSCQueue.acquireRead_eq_empty {q : SPSCQueue} (slot : Slot) :
    (q.acquireRead slot).1 = .empty ↔ q.writeIndex ≤ q.readIndex := by
  unfold SPSCQueue.acquireRead
  by_cases hge : q.readIndex ≥ q.writeIndex
  · exact ⟨fun _ => hge, fun _ => by rw [if_pos hge]⟩
  · rw [if_neg hge]
    refine ⟨?_, fun h => absurd h hge⟩
    dsimp only
    split <;> intro h <;> cases h

theorem System.readSafe_of_nil (hu : s.unread = []) :
    s.ReadSafe ↔ s.queue.writeIndex ≤ s.queue.readIndex := by
  rw [← SPSCQueue.acquireRead_eq_empty .init, ReadSafe, hu]

/-- Where the consumer has no slot, the condition is exact for the next `acquire_read`. -/
theorem Inv.readSafe_iff (h : Inv c s) (hidle : s.reading = none) : s.ReadSafe ↔ s.ReadClear := by
  obtain ⟨a, b, h⟩ := h
  obtain ⟨queue, writing, reading, unread⟩ := s
  subst hidle
  obtain ⟨r, hr, hread⟩ := h.reader
  have hlaid := h.laid
  cases unread with
  | nil =>
    have hab : a = b := hlaid
    rw [System.readSafe_of_nil rfl, System.ReadClear, if_pos rfl]
    refine ⟨fun hle w _ _ => hle, ?_⟩
    intro hclear
    dsimp only at hr hread hclear ⊢
    cases hr with
    | ahead w _ hw hp => exact hclear w hw hp
    | idle =>
      -- an open slot that does not wrap has not moved `write_index_`
      by_contra hlt
      rcases h.acquireRead_idle hread hlt with ⟨m, rest, hu, -⟩ | ⟨w, -, -, hw, hp, -⟩
      · cases hu
      · exact hlt (hclear w hw hp)
  | cons m rest =>
    dsimp only at hr hread
    cases hr with
    | ahead w hu => cases hu
    | idle =>
      simp only [System.ReadClear, reduceCtorEq, if_false]
      by_cases hge : queue.writeIndex ≤ queue.readIndex
      · have hempty := (SPSCQueue.acquireRead_eq_empty .init).mpr hge
        refine ⟨fun hsafe => ?_, fun hlt => absurd hlt (UInt64.not_lt.mpr hge)⟩
        have hnone : (queue.acquireRead .init).1 = .none := hsafe.1
        rw [hempty] at hnone
        cases hnone
      · obtain ⟨r, hacq, -⟩ := InvAt.acquireRead_of_placed .init h.capacity_eq hlaid.1 hread hge
        refine ⟨fun _ => UInt64.not_le.mp hge, ?_⟩
        intro _
        rw [System.ReadSafe, hacq]
        refine ⟨rfl, rfl, ?_⟩
        rw [hlaid.1.toNat_size]
        exact hlaid.2.1

/-! ## Whole runs -/

/-- A ring of four cache lines. -/
def fourLines : Config := ⟨64, 256, 6, 8, rfl, rfl, by omega, by omega⟩

/-- Two messages, the first of which is read. -/
def twoMessages : List Op :=
  [.acquireWrite 100, .commitWrite, .acquireWrite 40, .commitWrite, .acquireRead, .commitRead]

/-- In a run where every granted request fits, `acquire_write` hands out no unread byte. -/
theorem run_acquireWrite_safe (c : Config) (buffer : Mem) (ops : List Op) (size : UInt64)
    (hrun : run (System.step c.kCacheLineSize) (.init c.capacity buffer) ops = some s)
    (hmeets : Guarded (System.step c.kCacheLineSize) System.Meets (.init c.capacity buffer)
      (ops ++ [.acquireWrite size]))
    (hidle : s.writing = none) (hsize : size ≠ 0) : s.WriteSafe size := by
  obtain ⟨hops, hlast⟩ := guarded_append.mp hmeets
  have hinv : Inv c s :=
    run_induction (fun _ _ _ h hok ht => h.step hok ht) (Inv.init c buffer) hops hrun
  exact hinv.writeSafe hidle hsize (hlast s hrun).1

theorem run_acquireWrite_safe_twoMessages :
    ∃ s, run (System.step 64) (.init 256 fun _ => 0) twoMessages = some s ∧
      (s.queue.acquireWrite .init 60).1 = .none ∧ s.WriteSafe 60 :=
  ⟨_, rfl, by decide +kernel, run_acquireWrite_safe fourLines (fun _ => 0) twoMessages 60 rfl
    (by decide +kernel) rfl (by decide)⟩

/-- Seven bytes past half the ring, a slot wraps over its own pad header. -/
theorem acquireWrite_unsafe_wrap :
    ∃ s, run (System.step 64) (.init 128 fun _ => 0)
        [.acquireWrite 40, .commitWrite, .acquireRead, .commitRead] = some s ∧
      s.writing = none ∧ ¬ s.WriteSafe 57 :=
  ⟨_, rfl, rfl, by decide +kernel⟩

/-- In a run whose steps meet the condition, `acquire_read` returns the oldest unread
message or `Empty`, and it does so only under the condition. -/
theorem run_acquireRead_safe_iff (c : Config) (buffer : Mem) (ops : List Op)
    (hrun : run (System.step c.kCacheLineSize) (.init c.capacity buffer) ops = some s)
    (hmeets : Guarded (System.step c.kCacheLineSize) System.MeetsRead (.init c.capacity buffer)
      ops)
    (hidle : s.reading = none) : s.ReadSafe ↔ s.ReadClear := by
  have hinv : Inv c s :=
    run_induction (fun _ _ _ h hok ht => h.step_of_readClear hok ht) (Inv.init c buffer) hmeets
      hrun
  exact hinv.readSafe_iff hidle

theorem run_acquireRead_safe_iff_twoMessages :
    ∃ s, run (System.step 64) (.init 256 fun _ => 0) twoMessages = some s ∧
      (s.ReadSafe ↔ s.ReadClear) :=
  ⟨_, rfl, run_acquireRead_safe_iff fourLines (fun _ => 0) twoMessages rfl (by decide +kernel) rfl⟩

/-- Two messages are read and a third one wraps; it is read before it is committed. -/
theorem acquireRead_unsafe_wrap :
    ∃ s, run (System.step 64) (.init 256 fun _ => 0)
        (twoMessages ++ [.acquireRead, .commitRead, .acquireWrite 100]) = some s ∧
      s.reading = none ∧ s.unread = [] ∧ ¬ s.ReadSafe :=
  ⟨_, rfl, rfl, rfl, by decide +kernel⟩

end Csics.Queue
