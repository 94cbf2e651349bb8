import Csics.Base.Memory

/-!
# The ring buffer queue

`SPSCQueue` of `src/queue/SPSCQueue.cpp`. The indices only grow, up to the wrap-around of
`size_t`, and are masked with `capacity_ - 1` to find the byte of the ring. A slot starts
with an 8-byte `QueueSlotHeader`; a slot that would run over the end of the ring is
preceded by a header with `padded` set, which tells the reader to go on at byte `0`.

Each function is one atomic step. The two indices are atomics that only one side writes,
so a function that loads an index it owns twice gets the same value.
-/

namespace Csics.Queue

open Base

/-- `SPSCError`. -/
inductive SPSCError where
  | none
  | full
  | empty
  | tooBig
  deriving DecidableEq, Repr

/-! ## Slot headers -/

/-- `QueueSlotHeader`: one bit `padded` and 63 bits `size`. -/
structure QueueSlotHeader where
  padded : Bool
  size : Nat
  deriving DecidableEq, Repr

namespace QueueSlotHeader

/-- `sizeof(QueueSlotHeader)`. -/
def sizeof : UInt64 := 8

/-- The assignments `hdr.size = size; hdr.padded = padded`: the bit-field keeps 63 bits. -/
def make (padded : Bool) (size : UInt64) : QueueSlotHeader := ⟨padded, size.toNat % 2 ^ 63⟩

/-- The bytes of the header in memory: the bit-fields are allocated from the low bit. -/
def toBytes (hdr : QueueSlotHeader) : List UInt8 :=
  leBytes 8 (2 * hdr.size + if hdr.padded then 1 else 0)

/-- The header that eight bytes of memory hold. -/
def ofBytes (bs : List UInt8) : QueueSlotHeader :=
  ⟨ofLeBytes bs % 2 = 1, ofLeBytes bs / 2⟩

@[simp] theorem make_padded (padded : Bool) (size : UInt64) :
    (make padded size).padded = padded := rfl

@[simp] theorem length_toBytes (hdr : QueueSlotHeader) : hdr.toBytes.length = 8 := by
  simp [toBytes]

theorem ofBytes_toBytes {hdr : QueueSlotHeader} (h : hdr.size < 2 ^ 63) :
    ofBytes hdr.toBytes = hdr := by
  obtain ⟨padded, size⟩ := hdr
  have hv : 2 * size + (if padded then 1 else 0) < 256 ^ 8 := by
    dsimp only at h
    split <;> omega
  simp only [ofBytes, toBytes, ofLeBytes_leBytes hv, mk.injEq]
  cases padded
  · simp
  · simp only [if_true]
    refine ⟨by simp only [decide_eq_true_eq]; omega, by omega⟩

theorem ofBytes_toBytes_make (padded : Bool) (size : UInt64) :
    ofBytes (make padded size).toBytes = make padded size :=
  ofBytes_toBytes (Nat.mod_lt _ (by omega))

end QueueSlotHeader

/-! ## The queue -/

/-- `ReadSlot` and `WriteSlot`: `data` is an offset into `buffer_`, or `none` for a null
pointer. -/
structure Slot where
  data : Option Nat
  size : UInt64
  deriving DecidableEq, Repr

/-- The slot a caller constructs: `data(nullptr), size(0)`. -/
def Slot.init : Slot := ⟨none, 0⟩

/-- The members of `SPSCQueue`; the size of `buffer` is `capacity`. -/
structure SPSCQueue where
  capacity : UInt64
  buffer : Mem
  readIndex : UInt64
  writeIndex : UInt64

namespace SPSCQueue

open QueueSlotHeader (sizeof)

/-- `write_index & (capacity_ - 1)`. -/
def writeModIndex (q : SPSCQueue) : UInt64 := q.writeIndex &&& (q.capacity - 1)

/-- `read_index & (capacity_ - 1)`. -/
def readModIndex (q : SPSCQueue) : UInt64 := q.readIndex &&& (q.capacity - 1)

/-- `pad_size` of `acquire_write`: `0` unless the slot would run over the end. -/
def padSize (q : SPSCQueue) (size : UInt64) : UInt64 :=
  if q.writeModIndex + (size + sizeof) > q.capacity then
    q.capacity - q.writeModIndex + sizeof
  else 0

/-- `acquire_write(slot, size)`. -/
def acquireWrite (q : SPSCQueue) (slot : Slot) (size : UInt64) :
    SPSCError × Slot × SPSCQueue :=
  if size > q.capacity then (.tooBig, slot, q)
  else
    let modIndex := q.writeModIndex
    let padSize := q.padSize size
    if q.writeIndex - q.readIndex + (size + sizeof) ≥ q.capacity then (.full, slot, q)
    else if padSize > 0 then
      let buffer := q.buffer.store modIndex.toNat (QueueSlotHeader.make true padSize).toBytes
      let buffer := buffer.store 0 (QueueSlotHeader.make false size).toBytes
      (.none, ⟨some sizeof.toNat, size⟩,
        { q with buffer := buffer, writeIndex := q.writeIndex + (padSize + sizeof) })
    else
      let buffer := q.buffer.store modIndex.toNat (QueueSlotHeader.make false size).toBytes
      (.none, ⟨some (modIndex.toNat + sizeof.toNat), size⟩, { q with buffer := buffer })

/-- The header at byte `pos` of the ring, as `acquire_read` reads it. -/
def headerAt (q : SPSCQueue) (pos : Nat) : QueueSlotHeader :=
  .ofBytes (q.buffer.load pos sizeof.toNat)

/-- `acquire_read(slot)`. -/
def acquireRead (q : SPSCQueue) (slot : Slot) : SPSCError × Slot × SPSCQueue :=
  if q.readIndex ≥ q.writeIndex then (.empty, slot, q)
  else
    let hdr := q.headerAt q.readModIndex.toNat
    if hdr.padded then
      (.none, ⟨some sizeof.toNat, .ofNat (q.headerAt 0).size⟩,
        { q with readIndex := q.readIndex + (.ofNat hdr.size + sizeof) })
    else
      (.none, ⟨some (q.readModIndex.toNat + sizeof.toNat), .ofNat hdr.size⟩, q)

/-- `(new_index + kCacheLineSize - 1) & ~(kCacheLineSize - 1)` for the index after a slot. -/
def indexAfter (kCacheLineSize index : UInt64) (slot : Slot) : UInt64 :=
  (index + slot.size + sizeof + kCacheLineSize - 1) &&& ~~~(kCacheLineSize - 1)

/-- `commit_write(slot)`. -/
def commitWrite (kCacheLineSize : UInt64) (q : SPSCQueue) (slot : Slot) : SPSCQueue :=
  if slot.data = none ∨ slot.size = 0 then q
  else { q with writeIndex := indexAfter kCacheLineSize q.writeIndex slot }

/-- `commit_read(slot)`. -/
def commitRead (kCacheLineSize : UInt64) (q : SPSCQueue) (slot : Slot) : SPSCQueue :=
  if slot.data = none ∨ slot.size = 0 then q
  else { q with readIndex := indexAfter kCacheLineSize q.readIndex slot }

theorem commitWrite_of_ne {line size : UInt64} {q : SPSCQueue} {p : Nat} (h : size ≠ 0) :
    q.commitWrite line ⟨some p, size⟩ =
      { q with writeIndex := indexAfter line q.writeIndex ⟨some p, size⟩ } := by
  simp [commitWrite, h]

theorem commitRead_of_ne {line size : UInt64} {q : SPSCQueue} {p : Nat} (h : size ≠ 0) :
    q.commitRead line ⟨some p, size⟩ =
      { q with readIndex := indexAfter line q.readIndex ⟨some p, size⟩ } := by
  simp [commitRead, h]

/-- A queue as the constructor leaves it; the memory is whatever `operator new` gave. -/
def init (capacity : UInt64) (buffer : Mem) : SPSCQueue := ⟨capacity, buffer, 0, 0⟩

end SPSCQueue

end Csics.Queue
