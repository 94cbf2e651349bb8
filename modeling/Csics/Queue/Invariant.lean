import Csics.Queue.Placement

/-!
# The invariant of the queue

`InvAt c s a b`: the unread messages of `s` fill the index line from `a` to `b`, the
producer's slot, if one is open, begins at `b`, and the two indices of the queue are the
matching points of that line modulo `2^64`.

The reader is in one of four positions (`ReaderAt`). Two of them, `early` and `ahead`, only
occur because `acquire_write` moves `write_index_` past the padding before the slot is
committed: the reader then takes the open slot, and may release it before it is committed.
-/

namespace Csics.Queue

open Base
open QueueSlotHeader (sizeof)

/-! ## Conditions on a step -/

namespace System

/-- Where the oldest byte in use begins: at the first unread message, or else at
`write_index_`. -/
def oldest (s : System) : UInt64 :=
  match s.unread with
  | m :: _ => m.grant.begin
  | [] => s.queue.writeIndex

/-- The size test or the fullness test turns the request down. -/
def Rejected (s : System) (size : UInt64) : Prop :=
  size > s.queue.capacity ∨
    s.queue.writeIndex - s.queue.readIndex + (size + sizeof) ≥ s.queue.capacity

/-- The bytes to the end of the ring that a wrap skips. -/
def skipped (s : System) (size : UInt64) : Nat :=
  if s.queue.capacity.toNat < s.queue.writeModIndex.toNat + size.toNat + 8 then
    s.queue.capacity.toNat - s.queue.writeModIndex.toNat
  else 0

/-- The bytes in use, the bytes a wrap skips and the new slot fit in the ring. This is the
fullness test with the padding counted. -/
def Fits (s : System) (size : UInt64) : Prop :=
  (s.queue.writeIndex - s.oldest).toNat + s.skipped size + size.toNat + 8 ≤
    s.queue.capacity.toNat

instance (s : System) (size : UInt64) : Decidable (s.Rejected size) :=
  inferInstanceAs (Decidable (_ ∨ _))

instance (s : System) (size : UInt64) : Decidable (s.Fits size) :=
  inferInstanceAs (Decidable (_ ≤ _))

/-- A request that is turned down leaves the slot and the queue as they were. -/
theorem acquireWrite_of_rejected {s : System} {size : UInt64} (hrej : s.Rejected size)
    (slot : Slot) : ∃ err, err ≠ .none ∧ s.queue.acquireWrite slot size = (err, slot, s.queue) := by
  unfold SPSCQueue.acquireWrite
  by_cases hsize : size > s.queue.capacity
  · exact ⟨.tooBig, by decide, by rw [if_pos hsize]⟩
  · have hfull := hrej.resolve_left hsize
    exact ⟨.full, by decide, by simp only [hsize, hfull, if_false, if_true]⟩

end System

/-! ## The invariant -/

/-- The position `r` of the reader on the index line. -/
inductive ReaderAt (c : Config) (a b : Nat) (unread : List Message) (writing : Option Writing) :
    Option Slot → Nat → Prop where
  | idle (h : ∀ w ∈ writing, w.released = false) : ReaderAt c a b unread writing none a
  | holding (m : Message) (rest : List Message) (hu : unread = m :: rest)
      (h : ∀ w ∈ writing, w.released = false) :
      ReaderAt c a b unread writing (some m.slot) (bodyIndex c a m.grant)
  | early (w : Writing) (hu : unread = []) (hw : writing = some w) (hp : w.grant.pad.isSome)
      (h : w.released = false) :
      ReaderAt c a b unread writing (some w.slot) (bodyIndex c b w.grant)
  | ahead (w : Writing) (hu : unread = []) (hw : writing = some w) (hp : w.grant.pad.isSome)
      (h : w.released = true) :
      ReaderAt c a b unread writing none (stopIndex c b w.grant)

/-- The producer's slot, begun at index `b`, is open. -/
structure OpenAt (c : Config) (s : System) (a b : Nat) (w : Writing) : Prop where
  placed : Placed c s.queue.buffer b w.grant
  slot_eq : w.slot = ⟨some (w.grant.header + 8), .ofNat w.grant.size⟩
  writeIndex_eq : s.queue.writeIndex.toNat = bodyIndex c b w.grant % 2 ^ 64
  disjoint : ∀ m ∈ s.unread, m.grant.Disjoint w.grant
  stop_lt : stopIndex c b w.grant < a + 2 ^ 64

structure InvAt (c : Config) (s : System) (a b : Nat) : Prop where
  capacity_eq : s.queue.capacity = c.capacity
  aligned : c.line ∣ b
  laid : Laid c s.queue.buffer a s.unread b
  lt : b < a + 2 ^ 64
  idle : s.writing = none → s.queue.writeIndex.toNat = b % 2 ^ 64
  opened : ∀ w ∈ s.writing, OpenAt c s a b w
  reader : ∃ r, ReaderAt c a b s.unread s.writing s.reading r ∧
    s.queue.readIndex.toNat = r % 2 ^ 64

variable {c : Config} {s t : System} {a b : Nat}

theorem init_inv (c : Config) (buffer : Mem) : InvAt c (.init c.capacity buffer) 0 0 where
  capacity_eq := rfl
  aligned := Nat.dvd_zero _
  laid := rfl
  lt := by omega
  idle _ := rfl
  opened w hw := by cases hw
  reader := ⟨0, .idle (by intro w hw; cases hw), rfl⟩

/-! ## `acquire_write` -/

theorem Laid.aligned {mem : Mem} {ms : List Message} (h : Laid c mem a ms b) (hb : c.line ∣ b) :
    c.line ∣ a := by
  cases ms with
  | nil => exact h ▸ hb
  | cons m ms => exact h.1.aligned

namespace InvAt

theorem toNat_writeIndex_sub_oldest (h : InvAt c s a b) (hw : s.writing = none) :
    (s.queue.writeIndex - s.oldest).toNat = b - a := by
  have hidle := h.idle hw
  have hle := h.laid.le
  have hlt := h.lt
  unfold System.oldest
  cases hu : s.unread with
  | nil =>
    have hl := h.laid
    rw [hu] at hl
    have hl' : a = b := hl
    simp [hl']
  | cons m rest =>
    have hl := h.laid
    rw [hu] at hl
    have hb := hl.1.begin_eq
    simp only [UInt64.toNat_sub, hb, hidle]
    omega

theorem toNat_writeModIndex (h : InvAt c s a b) (hw : s.writing = none) :
    s.queue.writeModIndex.toNat = b % c.size := by
  rw [SPSCQueue.writeModIndex, h.capacity_eq, toNat_and_pred c.capacity_eq, h.idle hw]
  exact c.mod_word_mod b

theorem toNat_size_add (h : InvAt c s a b) {size : UInt64} (hsize : size ≤ s.queue.capacity) :
    (size + sizeof).toNat = size.toNat + 8 := by
  have hle := UInt64.le_iff_toNat_le.mp hsize
  have hc := c.size_le
  rw [h.capacity_eq] at hle
  unfold Config.size at hc
  rw [UInt64.toNat_add]
  exact Nat.mod_eq_of_lt (by change size.toNat + 8 < _; omega)

/-- Between two messages the reader is where the oldest byte in use begins. -/
theorem toNat_readIndex (h : InvAt c s a b) (hr : s.reading = none) (hw : s.writing = none) :
    s.queue.readIndex.toNat = a % 2 ^ 64 := by
  obtain ⟨r, hreader, hread⟩ := h.reader
  rw [hr, hw] at hreader
  cases hreader with
  | idle => exact hread
  | ahead w _ hw => cases hw

/-- The code computes a padding exactly when the slot would run over the end. -/
theorem padSize_eq (h : InvAt c s a b) (hw : s.writing = none) {size : UInt64}
    (hsize : size ≤ s.queue.capacity) (hfit : size.toNat + 8 ≤ c.size) :
    s.queue.padSize size =
      if c.size < b % c.size + size.toNat + 8 then
        c.capacity - .ofNat (b % c.size) + sizeof
      else 0 := by
  have hmod := h.toNat_writeModIndex hw
  have hadd := h.toNat_size_add hsize
  have hc := c.size_le
  have hlt := Nat.mod_lt b c.size_pos
  have hof : UInt64.ofNat (b % c.size) = s.queue.writeModIndex := by
    rw [← hmod, UInt64.ofNat_toNat]
  have hiff : s.queue.writeModIndex + (size + sizeof) > s.queue.capacity ↔
      c.size < b % c.size + size.toNat + 8 := by
    rw [gt_iff_lt, UInt64.lt_iff_toNat_lt, UInt64.toNat_add, hmod, hadd, h.capacity_eq]
    show c.size < _ ↔ _
    omega
  simp only [SPSCQueue.padSize, hiff, hof]
  rw [h.capacity_eq]

/-- The request `size` is not turned down and has room. -/
structure Granted (s : System) (size : UInt64) : Prop where
  idle : s.writing = none
  pos : size ≠ 0
  accepted : ¬ s.Rejected size
  fits : s.Fits size

theorem fits_iff (h : InvAt c s a b) (hw : s.writing = none) (size : UInt64) :
    s.Fits size ↔
      b - a + (if c.size < b % c.size + size.toNat + 8 then c.size - b % c.size else 0) +
        size.toNat + 8 ≤ c.size := by
  unfold System.Fits System.skipped
  rw [h.toNat_writeIndex_sub_oldest hw, h.toNat_writeModIndex hw, h.capacity_eq]
  rfl

theorem grant_eq (h : InvAt c s a b) {size : UInt64} (hg : Granted s size) :
    s.queue.grant size =
      if c.size < b % c.size + size.toNat + 8 then
        ⟨s.queue.writeIndex, some (b % c.size), 0, size.toNat⟩
      else ⟨s.queue.writeIndex, none, b % c.size, size.toNat⟩ := by
  have hsize : size ≤ s.queue.capacity := UInt64.not_lt.mp fun hlt => hg.accepted (Or.inl hlt)
  have hfits := (h.fits_iff hg.idle size).mp hg.fits
  have hc := c.size_le
  have hlt := Nat.mod_lt b c.size_pos
  unfold SPSCQueue.grant
  rw [h.padSize_eq hg.idle hsize (by omega), h.toNat_writeModIndex hg.idle]
  by_cases hwrap : c.size < b % c.size + size.toNat + 8
  · have hpos : c.capacity - .ofNat (b % c.size) + sizeof > 0 := by
      rw [gt_iff_lt, UInt64.lt_iff_toNat_lt, c.toNat_pad hlt]
      exact Nat.succ_pos _
    simp only [hwrap, hpos, if_true]
  · simp only [hwrap, if_false]
    rfl

theorem grant_fitted (h : InvAt c s a b) {size : UInt64} (hg : Granted s size) :
    Fitted c b (s.queue.grant size) := by
  have hfits := (h.fits_iff hg.idle size).mp hg.fits
  have hpos : 0 < size.toNat := UInt64.pos_iff_ne_zero.mpr hg.pos
  have hlt := Nat.mod_lt b c.size_pos
  rw [h.grant_eq hg]
  by_cases hwrap : c.size < b % c.size + size.toNat + 8
  · simp only [hwrap, if_true] at hfits ⊢
    refine ⟨h.idle hg.idle, h.aligned, hpos, (lapEnd_mod _ _).symm, ?_, by dsimp only; omega, ?_⟩
    · rintro p ⟨⟩
      rfl
    · rintro p ⟨⟩
      dsimp only
      omega
  · simp only [hwrap, if_false] at hfits ⊢
    refine ⟨h.idle hg.idle, h.aligned, hpos, rfl, ?_, by dsimp only; omega, ?_⟩
    · rintro p ⟨⟩
    · rintro p ⟨⟩

/-- The room check bounds the index the slot will be committed at. -/
theorem stop_lt (h : InvAt c s a b) {size : UInt64} (hg : Granted s size) :
    stopIndex c b (s.queue.grant size) < a + 2 ^ 64 := by
  have hfits := (h.fits_iff hg.idle size).mp hg.fits
  have hle := h.laid.le
  have hc := c.size_le
  have hpos : 0 < size.toNat := UInt64.pos_iff_ne_zero.mpr hg.pos
  rw [h.grant_eq hg]
  by_cases hwrap : c.size < b % c.size + size.toNat + 8
  · -- a wrap starts at a nonzero cache line, so the ring has at least two of them
    have hlap := lapEnd_eq c.size_pos b
    have hup := roundUp_lt c.line_pos (lapEnd c.size b + 16 + size.toNat + 8)
    have hline := c.add_line_le h.aligned
    simp only [hwrap, if_true] at hfits
    simp only [hwrap, if_true, stopIndex, bodyIndex]
    have hdvd := (Nat.dvd_mod_iff c.line_dvd).mpr h.aligned
    have hge := Nat.le_of_dvd (by omega) hdvd
    omega
  · simp only [hwrap, if_false] at hfits
    simp only [hwrap, if_false, stopIndex, bodyIndex]
    have hup := roundUp_le c.line_pos
      (Nat.dvd_add (h.laid.aligned h.aligned) c.line_dvd)
      (show b + size.toNat + 8 ≤ a + c.size by omega)
    omega

/-- The slot ends within one revolution of the oldest unread byte. -/
theorem end_le (h : InvAt c s a b) {size : UInt64} (hg : Granted s size) :
    headerIndex c b (s.queue.grant size) + 8 + (s.queue.grant size).size ≤ a + c.size := by
  have hfits := (h.fits_iff hg.idle size).mp hg.fits
  have hle := h.laid.le
  rw [h.grant_eq hg]
  by_cases hwrap : c.size < b % c.size + size.toNat + 8
  · have hlap := lapEnd_eq c.size_pos b
    simp only [hwrap, if_true] at hfits
    simp only [hwrap, if_true, headerIndex]
    omega
  · simp only [hwrap, if_false] at hfits
    simp only [hwrap, if_false, headerIndex]
    omega

theorem grant_size (h : InvAt c s a b) {size : UInt64} (hg : Granted s size) :
    (s.queue.grant size).size = size.toNat := by
  rw [h.grant_eq hg]
  split <;> rfl

theorem toNat_writeIndex_after (h : InvAt c s a b) {size : UInt64} (hg : Granted s size) :
    (if s.queue.padSize size > 0 then s.queue.writeIndex + (s.queue.padSize size + sizeof)
      else s.queue.writeIndex).toNat = bodyIndex c b (s.queue.grant size) % 2 ^ 64 := by
  have hsize : size ≤ s.queue.capacity := UInt64.not_lt.mp fun hlt => hg.accepted (Or.inl hlt)
  have hfits := (h.fits_iff hg.idle size).mp hg.fits
  have hlt := Nat.mod_lt b c.size_pos
  have hidle := h.idle hg.idle
  rw [h.grant_eq hg, h.padSize_eq hg.idle hsize (by omega)]
  by_cases hwrap : c.size < b % c.size + size.toNat + 8
  · have htoNat := c.toNat_pad hlt
    have hpos : c.capacity - .ofNat (b % c.size) + sizeof > 0 := by
      rw [gt_iff_lt, UInt64.lt_iff_toNat_lt, htoNat]
      exact Nat.succ_pos _
    have hlap := lapEnd_eq c.size_pos b
    have h8 : sizeof.toNat = 8 := rfl
    simp only [hwrap, hpos, if_true, bodyIndex]
    rw [UInt64.toNat_add, UInt64.toNat_add, htoNat, hidle, h8]
    omega
  · simpa [hwrap, bodyIndex] using hidle

/-- The headers of the granted slot are in memory. -/
theorem grant_placed (h : InvAt c s a b) {size : UInt64} (hg : Granted s size) :
    Placed c (s.queue.withHeaders size) b (s.queue.grant size) := by
  have hfit := h.grant_fitted hg
  have hsep := hfit.separated
  have hsize : size ≤ s.queue.capacity := UInt64.not_lt.mp fun hlt => hg.accepted (Or.inl hlt)
  have hfits := (h.fits_iff hg.idle size).mp hg.fits
  have hpad := h.padSize_eq hg.idle hsize (by omega)
  refine ⟨hfit, ?_, ?_⟩
  · unfold SPSCQueue.withHeaders
    rw [Mem.load_store_of_length (by simp), h.grant_size hg, UInt64.ofNat_toNat]
  · intro p hp
    have hwrap : c.size < b % c.size + size.toNat + 8 := by
      rw [h.grant_eq hg] at hp
      by_contra hwrap
      simp [hwrap] at hp
    have hd : Region.Disjoint ⟨p, 8⟩ ⟨(s.queue.grant size).header, 8⟩ := by
      simp only [Grant.Separated, Grant.regions, Option.mem_def.mp hp] at hsep
      exact (List.pairwise_cons.mp hsep).1 _ List.mem_cons_self
    rw [if_pos hwrap, ← hfit.pad_eq p hp] at hpad
    unfold SPSCQueue.withHeaders
    rw [Mem.load_store_of_disjoint (by simpa using hd), Option.mem_def.mp hp, hpad]
    exact Mem.load_store_of_length (by simp)

/-- The headers leave every region alone that shares no byte with the grant. -/
theorem load_withHeaders (q : SPSCQueue) (size : UInt64) {r : Region}
    (hr : ∀ r' ∈ (q.grant size).regions, r.Disjoint r') :
    (q.withHeaders size).load r.pos r.len = q.buffer.load r.pos r.len := by
  have hheader := hr _ (Grant.mem_regions.mpr (Or.inr (Or.inl rfl)))
  unfold SPSCQueue.withHeaders
  rw [Mem.load_store_of_disjoint (by rw [QueueSlotHeader.length_toBytes]; exact hheader)]
  cases hp : (q.grant size).pad with
  | none => rfl
  | some p =>
    have hpad := hr _ (Grant.mem_regions.mpr (Or.inl ⟨p, hp, rfl⟩))
    exact Mem.load_store_of_disjoint (by rw [QueueSlotHeader.length_toBytes]; exact hpad)

theorem acquireWrite_granted {size : UInt64} (hg : Granted s size) :
    s.acquireWrite size = some
      { s with
        queue := { s.queue with
          buffer := s.queue.withHeaders size
          writeIndex := if s.queue.padSize size > 0 then
              s.queue.writeIndex + (s.queue.padSize size + sizeof)
            else s.queue.writeIndex }
        writing := some ⟨⟨some ((s.queue.grant size).header + 8), size⟩, s.queue.grant size,
          false⟩ } := by
  have hsize : ¬ size > s.queue.capacity := fun hlt => hg.accepted (Or.inl hlt)
  have hfull : ¬ s.queue.writeIndex - s.queue.readIndex + (size + sizeof) ≥ s.queue.capacity :=
    fun hge => hg.accepted (Or.inr hge)
  simp only [System.acquireWrite, hg.idle, hg.pos, if_false,
    SPSCQueue.acquireWrite_of_accepted hsize hfull]
  rfl

theorem acquireWrite_step (h : InvAt c s a b) {size : UInt64} (hg : Granted s size)
    (ht : s.acquireWrite size = some t) : InvAt c t a b := by
  rw [acquireWrite_granted hg] at ht
  have hdisj : ∀ m ∈ s.unread, m.grant.Disjoint (s.queue.grant size) := fun m hm =>
    h.laid.disjoint (h.grant_fitted hg) (h.end_le hg) hm
  have hlaid : Laid c (s.queue.withHeaders size) a s.unread b :=
    h.laid.frame fun m hm r hr => load_withHeaders s.queue size (hdisj m hm r hr)
  have hplaced := h.grant_placed hg
  have hindex := h.toNat_writeIndex_after hg
  generalize s.queue.withHeaders size = buffer at ht hlaid hplaced
  cases ht
  refine ⟨h.capacity_eq, h.aligned, hlaid, h.lt, by simp, ?_, ?_⟩
  · rintro w ⟨⟩
    refine ⟨hplaced, ?_, hindex, hdisj, h.stop_lt hg⟩
    rw [h.grant_size hg, UInt64.ofNat_toNat]
  · obtain ⟨r, hr, hread⟩ := h.reader
    refine ⟨r, ?_, hread⟩
    have hw := hg.idle
    generalize s.reading = reading at hr ⊢
    generalize s.writing = writing at hr hw
    subst hw
    cases hr with
    | idle => exact .idle (by rintro w ⟨⟩; rfl)
    | holding m rest hu => exact .holding m rest hu (by rintro w ⟨⟩; rfl)
    | early w _ hw => cases hw
    | ahead w _ hw => cases hw

end InvAt

end Csics.Queue
