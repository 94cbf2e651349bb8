import Csics.Queue.Safety

/-!
# Reading without a commit

A consumer may call `acquire_read` again before it commits its slot, as a stream reader does that
only looks at the newest block. It gets the same slot as before where the message does not wrap:
`acquire_read` changes nothing there. A message that wraps is read once only. The first call moves
`read_index_` past the padding and 16 bytes into the next lap, where the payload lies and not the
header of the slot, and the second call takes these bytes for a header.

`System.PeekMeets` excludes such calls from a run, and the steps of `System.Meets`.
`run_peeks_iff` says when one more call returns the slot again.
-/

namespace Csics.Queue

open Base
open QueueSlotHeader (sizeof)

/-! ## Calls without a commit -/

/-- The operations of the two parties, and `acquire_read` while the consumer has a slot. -/
inductive PeekOp where
  | op (op : Op)
  | acquireReadAgain

namespace System

/-- The consumer, which has a slot, calls `acquire_read`. -/
def acquireReadAgain (s : System) : Option System :=
  match s.reading with
  | none => none
  | some _ =>
    match s.queue.acquireRead .init with
    | (.none, slot, q) => some { s with queue := q, reading := some slot }
    | (_, _, q) => some { s with queue := q }

/-- One atomic step of the system. -/
def peekStep (kCacheLineSize : UInt64) (s : System) : PeekOp → Option System
  | .op op => s.step kCacheLineSize op
  | .acquireReadAgain => s.acquireReadAgain

/-- `acquire_read` returns `None` and this slot. -/
def Peeks (s : System) (slot : Slot) : Prop :=
  (s.queue.acquireRead .init).1 = .none ∧ (s.queue.acquireRead .init).2.1 = slot

instance (s : System) (slot : Slot) : Decidable (s.Peeks slot) :=
  inferInstanceAs (Decidable (_ ∧ _))

/-! ## Conditions on a call -/

/-- The oldest unread message lies in one piece. -/
def InPlace (s : System) : Prop := ∀ m ∈ s.unread.head?, m.grant.pad = none

/-- The steps of `Meets`, and a repeated `acquire_read` of a message in one piece while the indices
tell that there is one. -/
def PeekMeets (s : System) : PeekOp → Prop
  | .op op => s.Meets op
  | .acquireReadAgain => s.queue.readIndex < s.queue.writeIndex ∧ s.InPlace

/-- The indices tell that there is a message. It lies in one piece, or the bytes behind the padding
look like a pad header, which leads back to the slot. -/
def PeekClear (s : System) : Prop :=
  s.queue.readIndex < s.queue.writeIndex ∧
    (s.InPlace ∨ (s.queue.headerAt s.queue.readModIndex.toNat).padded)

instance (s : System) : Decidable s.InPlace := inferInstanceAs (Decidable (∀ m ∈ s.unread.head?, _))

instance (s : System) : DecidablePred s.PeekMeets
  | .op op => inferInstanceAs (Decidable (s.Meets op))
  | .acquireReadAgain => inferInstanceAs (Decidable (_ ∧ _))

instance (s : System) : Decidable s.PeekClear := inferInstanceAs (Decidable (_ ∧ _))

end System

variable {c : Config} {s t : System} {a b : Nat} {slot : Slot}

/-! ## The second call -/

/-- What a slot holds that `acquire_read` has returned: the oldest unread message. Otherwise it
was read before it was committed, and the indices are equal since. -/
theorem InvAt.reading_cases (h : InvAt c s a b) (hreading : s.reading = some slot) :
    (∃ m rest, s.unread = m :: rest ∧ slot = m.slot ∧ Placed c s.queue.buffer a m.grant ∧
        s.queue.readIndex.toNat = bodyIndex c a m.grant % 2 ^ 64) ∨
      s.queue.readIndex = s.queue.writeIndex := by
  obtain ⟨queue, writing, reading, unread⟩ := s
  subst hreading
  obtain ⟨r, hr, hread⟩ := h.reader
  have hlaid := h.laid
  dsimp only at hr hread hlaid
  cases hr with
  | holding m rest hu hrel =>
    subst hu
    exact Or.inl ⟨m, rest, rfl, rfl, hlaid.1, hread⟩
  | early w hu hw hp hrel =>
    have ho := h.opened w hw
    exact Or.inr (UInt64.toNat_inj.mp (hread.trans ho.writeIndex_eq.symm))

/-- A message in one piece is returned again, and nothing changes. -/
theorem InvAt.acquireRead_again (h : InvAt c s a b) (hreading : s.reading = some slot)
    (hlt : s.queue.readIndex < s.queue.writeIndex) (hplace : s.InPlace) :
    s.queue.acquireRead .init = (.none, slot, s.queue) := by
  rcases h.reading_cases hreading with ⟨m, rest, hu, rfl, hplaced, hread⟩ | heq
  · have hpad : m.grant.pad = none := by
      apply hplace
      rw [hu]
      rfl
    have hbody : bodyIndex c a m.grant = a := by
      unfold bodyIndex
      rw [hpad]
    rw [hbody] at hread
    obtain ⟨r, hacquire, hr⟩ :=
      InvAt.acquireRead_of_placed .init h.capacity_eq hplaced hread (UInt64.not_le.mpr hlt)
    rw [hbody] at hr
    have hsame : r = s.queue.readIndex := UInt64.toNat_inj.mp (hr.trans hread.symm)
    rw [hacquire, hsame]
    rfl
  · rw [heq] at hlt
    exact absurd hlt (UInt64.lt_irrefl _)

/-- Behind the padding the reader is at byte `16`. -/
theorem Fitted.readModIndex_eq {q : SPSCQueue} {g : Grant} {p : Nat} (hg : Fitted c a g)
    (hcap : q.capacity = c.capacity) (hpad : g.pad = some p)
    (hread : q.readIndex.toNat = bodyIndex c a g % 2 ^ 64) : q.readModIndex.toNat = 16 := by
  have hbefore := hg.before_pad p hpad
  have hpos := hg.size_pos
  have hdvd : 8 ∣ p := by
    rw [hg.pad_eq p hpad]
    exact (Nat.dvd_mod_iff (c.eight_dvd.trans c.line_dvd)).mpr (c.eight_dvd.trans hg.aligned)
  have hlt : p < c.size := by
    rw [hg.pad_eq p hpad]
    exact Nat.mod_lt _ c.size_pos
  have hbody : bodyIndex c a g = lapEnd c.size a + 16 := by
    unfold bodyIndex
    rw [hpad]
  rw [SPSCQueue.readModIndex, hcap, toNat_and_pred c.capacity_eq, hread]
  show bodyIndex c a g % 2 ^ 64 % c.size = 16
  rw [c.mod_word_mod, hbody, Nat.add_mod, lapEnd_mod, Nat.zero_add, Nat.mod_mod]
  exact Nat.mod_eq_of_lt (by omega)

/-- Behind the padding the reader takes payload for a header. If it looks like a pad header, this
leads to the slot; otherwise to the bytes behind it. -/
theorem InvAt.peeks_of_pad (h : InvAt c s a b) {m : Message} {p : Nat}
    (hplaced : Placed c s.queue.buffer a m.grant) (hpad : m.grant.pad = some p)
    (hread : s.queue.readIndex.toNat = bodyIndex c a m.grant % 2 ^ 64)
    (hlt : s.queue.readIndex < s.queue.writeIndex) :
    s.Peeks m.slot ↔ (s.queue.headerAt s.queue.readModIndex.toNat).padded := by
  have hzero := hplaced.toFitted.header_of_pad hpad
  have hheader := hplaced.headerAt_header
  rw [hzero] at hheader
  have hmod := hplaced.toFitted.readModIndex_eq h.capacity_eq hpad hread
  have hge : ¬ s.queue.readIndex ≥ s.queue.writeIndex := UInt64.not_le.mpr hlt
  unfold System.Peeks
  simp only [SPSCQueue.acquireRead, hge, if_false, hmod]
  cases hpadded : (s.queue.headerAt 16).padded with
  | true =>
    refine iff_of_true ⟨rfl, ?_⟩ rfl
    show (⟨some 8, .ofNat (s.queue.headerAt 0).size⟩ : Slot) = m.slot
    rw [Message.slot, hzero, hheader, hplaced.toFitted.ofNat_make_size]
    rfl
  | false =>
    refine iff_of_false ?_ Bool.false_ne_true
    rintro ⟨-, hslot⟩
    have hdata := congrArg Slot.data hslot
    rw [Message.slot, hzero] at hdata
    cases hdata

/-- The condition is exact for one more call. -/
theorem InvAt.peeks_iff (h : InvAt c s a b) (hreading : s.reading = some slot) :
    s.Peeks slot ↔ s.PeekClear := by
  unfold System.PeekClear
  by_cases hlt : s.queue.readIndex < s.queue.writeIndex
  · rw [and_iff_right hlt]
    by_cases hplace : s.InPlace
    · have hacquire := h.acquireRead_again hreading hlt hplace
      refine iff_of_true ?_ (Or.inl hplace)
      unfold System.Peeks
      rw [hacquire]
      exact ⟨rfl, rfl⟩
    rw [or_iff_right hplace]
    rcases h.reading_cases hreading with ⟨m, rest, hu, rfl, hplaced, hread⟩ | heq
    · obtain ⟨p, hpad⟩ : ∃ p, m.grant.pad = some p := by
        apply Option.ne_none_iff_exists'.mp
        intro hnone
        apply hplace
        rw [System.InPlace, hu]
        rintro m' ⟨⟩
        exact hnone
      exact h.peeks_of_pad hplaced hpad hread hlt
    · rw [heq] at hlt
      exact absurd hlt (UInt64.lt_irrefl _)
  · refine iff_of_false ?_ fun hclear => hlt hclear.1
    rintro ⟨hnone, -⟩
    rw [(SPSCQueue.acquireRead_eq_empty .init).mpr (UInt64.not_lt.mp hlt)] at hnone
    cases hnone

/-! ## Whole runs -/

/-- A repeated `acquire_read` of a message in one piece leaves the system as it was. -/
theorem Inv.acquireReadAgain_eq (h : Inv c s)
    (hmeets : s.PeekMeets .acquireReadAgain) (ht : s.acquireReadAgain = some t) : t = s := by
  obtain ⟨a, b, h⟩ := h
  obtain ⟨hlt, hplace⟩ := hmeets
  cases hreading : s.reading with
  | none =>
    rw [System.acquireReadAgain, hreading] at ht
    cases ht
  | some slot =>
    have hacquire := h.acquireRead_again hreading hlt hplace
    simp only [System.acquireReadAgain, hreading, hacquire, Option.some.injEq] at ht
    rw [← ht, ← hreading]

theorem Inv.peekStep {op : PeekOp} (h : Inv c s) (hmeets : s.PeekMeets op)
    (ht : s.peekStep c.kCacheLineSize op = some t) : Inv c t := by
  cases op with
  | op op => exact h.step hmeets ht
  | acquireReadAgain =>
    rw [h.acquireReadAgain_eq hmeets ht]
    exact h

/-- In a run whose steps meet the condition, one more `acquire_read` returns the slot that the
consumer has, if and only if it is clear. -/
theorem run_peeks_iff (c : Config) (buffer : Mem) (ops : List PeekOp)
    (hrun : run (System.peekStep c.kCacheLineSize) (.init c.capacity buffer) ops = some s)
    (hmeets : Guarded (System.peekStep c.kCacheLineSize) System.PeekMeets
      (.init c.capacity buffer) ops)
    (hreading : s.reading = some slot) : s.Peeks slot ↔ s.PeekClear := by
  have hinv : Inv c s :=
    run_induction (fun _ _ _ h hok ht => h.peekStep hok ht) (Inv.init c buffer) hmeets hrun
  obtain ⟨a, b, hinv⟩ := hinv
  exact hinv.peeks_iff hreading

/-- A message is read, the producer goes on, and the message is read again. -/
theorem run_peeks_iff_again :
    ∃ s, run (System.peekStep 64) (.init 256 fun _ => 0)
        [.op (.acquireWrite 100), .op .commitWrite, .op .acquireRead, .op (.acquireWrite 40),
          .acquireReadAgain, .op .commitWrite] = some s ∧
      s.Peeks ⟨some 8, 100⟩ :=
  ⟨_, rfl, (run_peeks_iff fourLines (fun _ => 0)
    [.op (.acquireWrite 100), .op .commitWrite, .op .acquireRead, .op (.acquireWrite 40),
      .acquireReadAgain, .op .commitWrite] rfl (by decide +kernel) rfl).mpr (by decide +kernel)⟩

/-- The third message wraps, and only the first call returns it. -/
theorem not_peeks_wrap :
    ∃ s, run (System.peekStep 64) (.init 256 fun _ => 0)
        (List.map PeekOp.op (twoMessages ++
          [.acquireRead, .commitRead, .acquireWrite 100, .commitWrite, .acquireRead])) = some s ∧
      s.reading = some ⟨some 8, 100⟩ ∧ ¬ s.Peeks ⟨some 8, 100⟩ :=
  ⟨_, rfl, by decide +kernel, by decide +kernel⟩

end Csics.Queue
