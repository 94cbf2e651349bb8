import Csics.Queue.Blocks
import Csics.Queue.Steps

/-!
# Messages in a row

Messages of one size in a queue where no slot runs over the end of the ring. None of them has
padding, so the reader is never at a slot that is still open, and the blocks of the unread messages
follow one another. What the fullness test leaves out is the padding, hence a request that it lets
through has room (`Row.granted`).

The steps keep this as long as the next slot does not run over the end. It never does where the
blocks fill the laps (`not_over_of_lapRest`).
-/

namespace Csics.Queue

open Base
open QueueSlotHeader (sizeof)

/-! ## The reader writes no bytes -/

namespace SPSCQueue

variable (q : SPSCQueue) (slot : Slot)

@[simp] theorem buffer_acquireRead : (q.acquireRead slot).2.2.buffer = q.buffer := by
  simp only [acquireRead]
  split
  · rfl
  · split <;> rfl

@[simp] theorem buffer_commitRead (line : UInt64) :
    (q.commitRead line slot).buffer = q.buffer := by
  unfold commitRead
  split <;> rfl

end SPSCQueue

/-! ## The row -/

/-- A slot of the size `size` that is not padded. -/
structure Grant.InRow (g : Grant) (size : Nat) : Prop where
  pad : g.pad = none
  size_eq : g.size = size

/-- The messages from `a` to `b` and the open slot are in a row, within one revolution. -/
structure Row (c : Config) (size : Nat) (s : System) (a b : Nat) : Prop where
  inv : InvAt c s a b
  unread : ∀ m ∈ s.unread, m.grant.InRow size
  writing : ∀ w ∈ s.writing, w.grant.InRow size
  dvd : blockSize c size ∣ b
  le : b ≤ a + c.size
  room : ∀ w ∈ s.writing, b + blockSize c size ≤ a + c.size

variable {c : Config} {size : Nat} {s t : System} {a b : Nat} {g : Grant}

/-- Where the blocks fill the laps, no slot runs over the end. -/
theorem not_over_of_lapRest (hrest : lapRest c size = 0) (hb : blockSize c size ∣ b) :
    b % c.size + size + 8 ≤ c.size := by
  have hdvd : blockSize c size ∣ c.size := Nat.dvd_of_mod_eq_zero hrest
  have hslot := le_blockSize c size
  have hlt := Nat.mod_lt b c.size_pos
  obtain ⟨k, hk⟩ := (Nat.dvd_mod_iff hdvd).mpr hb
  obtain ⟨n, hn⟩ := hdvd
  rw [hk, hn] at hlt
  have hkn : k + 1 ≤ n := Nat.lt_of_mul_lt_mul_left hlt
  have hmul := Nat.mul_le_mul_left (blockSize c size) hkn
  rw [Nat.mul_succ] at hmul
  omega

namespace Grant.InRow

theorem bodyIndex_eq (h : g.InRow size) (i : Nat) : bodyIndex c i g = i := by
  rw [bodyIndex, h.pad]

theorem stopIndex_eq (h : g.InRow size) {i : Nat} (hi : c.line ∣ i) :
    stopIndex c i g = i + blockSize c size := by
  rw [stopIndex, h.bodyIndex_eq, h.size_eq, Nat.add_assoc, roundUp_add c.line_pos hi, blockSize]

end Grant.InRow

namespace Row

/-- A new queue. -/
theorem init (c : Config) (size : Nat) (buffer : Mem) :
    Row c size (.init c.capacity buffer) 0 0 where
  inv := init_inv c buffer
  unread m hm := by cases hm
  writing w hw := by cases hw
  dvd := Nat.dvd_zero _
  le := Nat.zero_le _
  room w hw := by cases hw

/-- The reader is at the first unread message, whether it holds it or not. -/
theorem reader (h : Row c size s a b) :
    s.queue.readIndex.toNat = a % 2 ^ 64 ∧ (∀ w ∈ s.writing, w.released = false) ∧
      ∀ slot ∈ s.reading, ∃ m rest, s.unread = m :: rest ∧ slot = m.slot := by
  obtain ⟨queue, writing, reading, unread⟩ := s
  obtain ⟨r, hr, hread⟩ := h.inv.reader
  have hopen := h.writing
  have hfirst := h.unread
  dsimp only at hr hread hopen hfirst ⊢
  cases hr with
  | idle hrel => exact ⟨hread, hrel, by rintro slot ⟨⟩⟩
  | holding m rest hu hrel =>
    subst hu
    rw [(hfirst m List.mem_cons_self).bodyIndex_eq] at hread
    refine ⟨hread, hrel, ?_⟩
    rintro slot ⟨⟩
    exact ⟨m, rest, rfl, rfl⟩
  | early w hu hw hp =>
    rw [(hopen w hw).pad] at hp
    cases hp
  | ahead w hu hw hp =>
    rw [(hopen w hw).pad] at hp
    cases hp

/-- A request that is let through has room. -/
theorem granted (h : Row c size s a b) (hw : s.writing = none) {word : UInt64}
    (hword : word.toNat = size) (hpos : 0 < size) (hsize : size + 8 < c.size)
    (hover : b % c.size + size + 8 ≤ c.size) (haccepted : ¬ s.Rejected word) :
    InvAt.Granted s word := by
  have hc := c.size_le
  have h8 : sizeof.toNat = 8 := rfl
  have hle := h.le
  have hlaid := h.inv.laid.le
  have hcap := h.inv.capacity_eq
  have hread := h.reader.1
  have hwrite := h.inv.idle hw
  refine ⟨hw, ?_, haccepted, ?_⟩
  · rintro rfl
    exact hpos.ne hword
  · have hlt := UInt64.not_le.mp (not_or.mp haccepted).2
    rw [UInt64.lt_iff_toNat_lt, UInt64.toNat_add, UInt64.toNat_add, UInt64.toNat_sub, hread, hwrite,
      hword, h8, hcap] at hlt
    change _ < c.size at hlt
    rw [h.inv.fits_iff hw, hword, if_neg (by omega)]
    omega

/-- The slot of a granted request is in the row. -/
theorem inRow_grant (h : Row c size s a b) {word : UInt64} (hword : word.toNat = size)
    (hover : b % c.size + size + 8 ≤ c.size) (hg : InvAt.Granted s word) :
    s.queue.grant word = ⟨s.queue.writeIndex, none, b % c.size, size⟩ := by
  rw [h.inv.grant_eq hg, hword, if_neg (by omega)]

/-- The block of a granted slot ends within a revolution of the first unread message. -/
theorem room_of_granted (h : Row c size s a b) {word : UInt64} (hword : word.toNat = size)
    (hover : b % c.size + size + 8 ≤ c.size) (hg : InvAt.Granted s word) :
    b + blockSize c size ≤ a + c.size := by
  have hend := h.inv.end_le hg
  have hline := h.inv.laid.aligned h.inv.aligned
  rw [h.inRow_grant hword hover hg] at hend
  have hup := roundUp_le c.line_pos (Nat.dvd_add hline c.line_dvd)
    (show b + (size + 8) ≤ a + c.size by
      simp only [headerIndex] at hend
      omega)
  rwa [roundUp_add c.line_pos h.inv.aligned] at hup

/-- `acquire_write`. -/
theorem acquireWrite_step (h : Row c size s a b) {word : UInt64} (hword : word.toNat = size)
    (hover : b % c.size + size + 8 ≤ c.size) (hg : InvAt.Granted s word)
    (ht : s.acquireWrite word = some t) : Row c size t a b := by
  have hinv := h.inv.acquireWrite_step hg ht
  have hgrant := h.inRow_grant hword hover hg
  rw [InvAt.acquireWrite_granted hg] at ht
  cases ht
  refine ⟨hinv, h.unread, ?_, h.dvd, h.le, fun _ _ => h.room_of_granted hword hover hg⟩
  rintro w ⟨⟩
  exact hgrant ▸ ⟨rfl, rfl⟩

/-- The producer writes bytes of its slot. -/
theorem payload_store (h : Row c size s a b) {w : Writing} (hw : s.writing = some w) {i : Nat}
    {bs : List UInt8} (hi : i + bs.length ≤ size) :
    Row c size { s with queue := { s.queue with
      buffer := s.queue.buffer.store (w.grant.header + 8 + i) bs } } a b := by
  have hinside : i + bs.length ≤ w.grant.size := by
    rw [(h.writing w hw).size_eq]
    exact hi
  exact ⟨h.inv.payload_store hw hinside, h.unread, h.writing, h.dvd, h.le, h.room⟩

/-- `commit_write` puts the slot at the end of the row. -/
theorem commitWrite_step (h : Row c size s a b) {w : Writing} (hw : s.writing = some w)
    (ht : s.commitWrite c.kCacheLineSize = some t) :
    Row c size t a (b + blockSize c size) ∧ t.unread = s.unread ++
      [⟨w.grant, s.queue.buffer.load w.grant.payload.pos w.grant.payload.len⟩] := by
  have hrow := h.writing w hw
  have hrel := h.reader.2.1 w hw
  obtain ⟨w', hw', hinv⟩ := h.inv.commitWrite_step ht
  cases hw.symm.trans hw'
  rw [hrel, if_neg Bool.false_ne_true, hrow.stopIndex_eq h.inv.aligned] at hinv
  have hunread : t.unread = s.unread ++
      [⟨w.grant, s.queue.buffer.load w.grant.payload.pos w.grant.payload.len⟩] := by
    simp only [System.commitWrite, hw, hrel, Bool.false_eq_true, if_false] at ht
    cases ht
    rfl
  have hidle : t.writing = none := by
    simp only [System.commitWrite, hw] at ht
    cases ht
    rfl
  refine ⟨⟨hinv, ?_, ?_, Nat.dvd_add h.dvd (Nat.dvd_refl _), h.room w hw, ?_⟩, hunread⟩
  · intro m hm
    rw [hunread] at hm
    rcases List.mem_append.mp hm with hm | hm
    · exact h.unread m hm
    · rw [List.mem_singleton.mp hm]
      exact hrow
  · intro w' hw'
    rw [hidle] at hw'
    cases hw'
  · intro w' hw'
    rw [hidle] at hw'
    cases hw'

/-- `acquire_read`. -/
theorem acquireRead_step (h : Row c size s a b) (ht : s.acquireRead = some t) :
    Row c size t a b := by
  have hinv : InvAt c t a b := by
    apply h.inv.acquireRead_step ht
    intro _ w hw hpad
    rw [(h.writing w hw).pad] at hpad
    cases hpad
  have hsame : t.unread = s.unread ∧ t.writing = s.writing := by
    simp only [System.acquireRead] at ht
    split at ht
    · cases ht
    split at ht
    all_goals
      cases ht
      exact ⟨rfl, rfl⟩
  refine ⟨hinv, ?_, ?_, h.dvd, h.le, ?_⟩
  · rw [hsame.1]
    exact h.unread
  · rw [hsame.2]
    exact h.writing
  · rw [hsame.2]
    exact h.room

/-- `commit_read` takes the first message off the row. -/
theorem commitRead_step (h : Row c size s a b) {slot : Slot} (hslot : s.reading = some slot)
    (ht : s.commitRead c.kCacheLineSize = some t) :
    Row c size t (a + blockSize c size) b ∧ t.unread = s.unread.tail ∧ t.writing = s.writing := by
  obtain ⟨m, rest, hu, -⟩ := h.reader.2.2 slot hslot
  obtain ⟨a', hinv, ha'⟩ := h.inv.commitRead_step ht
  have hfirst := h.unread m (hu ▸ List.mem_cons_self)
  have hline := h.inv.laid.aligned h.inv.aligned
  have hstop : a' = a + blockSize c size := by
    rw [ha' m (by rw [hu]; rfl), hfirst.stopIndex_eq hline]
  have hsame : t.unread = rest ∧ t.writing = s.writing := by
    simp only [System.commitRead, hslot, hu] at ht
    cases ht
    exact ⟨rfl, rfl⟩
  have hlt := h.le
  subst hstop
  refine ⟨⟨hinv, ?_, ?_, h.dvd, by omega, ?_⟩, ?_, hsame.2⟩
  · intro m' hm'
    rw [hsame.1] at hm'
    exact h.unread m' (hu ▸ List.mem_cons_of_mem _ hm')
  · rw [hsame.2]
    exact h.writing
  · intro w hw
    rw [hsame.2] at hw
    have hroom := h.room w hw
    omega
  · rw [hsame.1, hu]
    rfl

end Row

/-! ## An open slot -/

/-- Whether it wraps or not, the slot of a granted request is open in the queue of the answer. -/
theorem InvAt.exists_open {q : SPSCQueue} {word : UInt64} (hinv : InvAt c ⟨q, none, none, []⟩ b b)
    (hg : InvAt.Granted ⟨q, none, none, []⟩ word) : ∃ q' w,
      q.acquireWrite .init word = (.none, w.slot, q') ∧ q'.readIndex = q.readIndex ∧
        w.grant = q.grant word ∧ InvAt c ⟨q', some w, none, []⟩ b b := by
  have hstep := hinv.acquireWrite_step hg (InvAt.acquireWrite_granted hg)
  exact ⟨_, ⟨⟨some ((q.grant word).header + 8), word⟩, q.grant word, false⟩,
    SPSCQueue.acquireWrite_of_accepted (fun hgt => hg.accepted (Or.inl hgt))
      (fun hge => hg.accepted (Or.inr hge)), rfl, rfl, hstep⟩

end Csics.Queue
