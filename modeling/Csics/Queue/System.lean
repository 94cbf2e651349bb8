import Csics.Base.Ring
import Csics.Base.Run
import Csics.Queue.SPSCQueue

/-!
# One producer and one consumer

The system around an `SPSCQueue`: a producer that acquires a slot, fills it and commits it,
and a consumer that acquires a slot and commits it, in any interleaving of the atomic
operations. `System.step` is `none` for an operation a party may not call in its state (a
second `acquire_write` before the commit, say).

Besides the queue and the two open slots the state carries what the two parties know and
the queue does not: the messages that are committed and not yet released, each with the
bytes its `acquire_write` wrote and granted.
-/

namespace Csics.Queue

open Base
open QueueSlotHeader (sizeof)

/-! ## What an `acquire_write` writes and grants -/

/-- The bytes of one `acquire_write`: the pad header if it wraps, the slot header and the
payload behind it. `begin` is the value of `write_index_` it started from. -/
structure Grant where
  begin : UInt64
  pad : Option Nat
  header : Nat
  size : Nat
  deriving DecidableEq, Repr

namespace Grant

/-- The payload. -/
def payload (g : Grant) : Region := ⟨g.header + sizeof.toNat, g.size⟩

/-- The pad header, the slot header and the payload. -/
def regions (g : Grant) : List Region :=
  (g.pad.map fun p => ⟨p, sizeof.toNat⟩).toList ++ [⟨g.header, sizeof.toNat⟩, g.payload]

/-- All bytes lie in `[0, capacity)`. -/
def Within (g : Grant) (capacity : Nat) : Prop := ∀ r ∈ g.regions, r.Within capacity

/-- The parts of the grant do not overlap. -/
def Separated (g : Grant) : Prop := g.regions.Pairwise Region.Disjoint

/-- No byte belongs to both grants. -/
def Disjoint (g g' : Grant) : Prop := ∀ r ∈ g.regions, ∀ r' ∈ g'.regions, r.Disjoint r'

instance (g : Grant) (n : Nat) : Decidable (g.Within n) :=
  inferInstanceAs (Decidable (∀ r ∈ g.regions, _))

instance (g : Grant) : Decidable g.Separated :=
  inferInstanceAs (Decidable (List.Pairwise _ _))

instance (g g' : Grant) : Decidable (g.Disjoint g') :=
  inferInstanceAs (Decidable (∀ r ∈ g.regions, ∀ r' ∈ g'.regions, _))

theorem mem_regions {g : Grant} {r : Region} : r ∈ g.regions ↔
    (∃ p ∈ g.pad, r = ⟨p, sizeof.toNat⟩) ∨ r = ⟨g.header, sizeof.toNat⟩ ∨ r = g.payload := by
  cases hp : g.pad <;> simp [regions, hp]

end Grant

/-- What `acquire_write(size)` writes and grants when it returns `None`. -/
def SPSCQueue.grant (q : SPSCQueue) (size : UInt64) : Grant :=
  if q.padSize size > 0 then ⟨q.writeIndex, some q.writeModIndex.toNat, 0, size.toNat⟩
  else ⟨q.writeIndex, none, q.writeModIndex.toNat, size.toNat⟩

/-- The memory after the headers of the grant are written. -/
def SPSCQueue.withHeaders (q : SPSCQueue) (size : UInt64) : Mem :=
  ((q.grant size).pad.elim q.buffer fun p =>
      q.buffer.store p (QueueSlotHeader.make true (q.padSize size)).toBytes).store
    (q.grant size).header (QueueSlotHeader.make false size).toBytes

/-- A request that passes both tests gets the slot of its grant. -/
theorem SPSCQueue.acquireWrite_of_accepted {q : SPSCQueue} {slot : Slot} {size : UInt64}
    (hsize : ¬ size > q.capacity)
    (hfull : ¬ q.writeIndex - q.readIndex + (size + sizeof) ≥ q.capacity) :
    q.acquireWrite slot size =
      (.none, ⟨some ((q.grant size).header + sizeof.toNat), size⟩,
        { q with
          buffer := q.withHeaders size
          writeIndex := if q.padSize size > 0 then q.writeIndex + (q.padSize size + sizeof)
            else q.writeIndex }) := by
  unfold acquireWrite withHeaders grant
  by_cases hpad : q.padSize size > 0
  · simp [hsize, hfull, hpad]
  · simp [hsize, hfull, hpad]

/-! ## The state -/

/-- The slot the producer has acquired and not committed. `released` records that the
consumer has already read and released it. -/
structure Writing where
  slot : Slot
  grant : Grant
  released : Bool

/-- A message that is committed and not yet released, with the payload it was committed
with. -/
structure Message where
  grant : Grant
  data : List UInt8

/-- The slot `acquire_read` should return for the message. -/
def Message.slot (m : Message) : Slot :=
  ⟨some (m.grant.header + sizeof.toNat), .ofNat m.grant.size⟩

structure System where
  queue : SPSCQueue
  writing : Option Writing
  reading : Option Slot
  unread : List Message

/-- The operations; `fill i b` is the producer writing byte `i` of its open slot. -/
inductive Op where
  | acquireWrite (size : UInt64)
  | fill (i : Nat) (b : UInt8)
  | commitWrite
  | acquireRead
  | commitRead

namespace System

/-- The state after the constructor. -/
def init (capacity : UInt64) (buffer : Mem) : System :=
  ⟨.init capacity buffer, none, none, []⟩

/-- The producer calls `acquire_write(size)`; it asks for at least one byte. -/
def acquireWrite (s : System) (size : UInt64) : Option System :=
  match s.writing with
  | some _ => none
  | none =>
    if size = 0 then none
    else
      match s.queue.acquireWrite .init size with
      | (.none, slot, q) =>
        some { s with queue := q, writing := some ⟨slot, s.queue.grant size, false⟩ }
      | (_, _, q) => some { s with queue := q }

/-- The producer writes one byte of the slot it has open. -/
def fill (s : System) (i : Nat) (b : UInt8) : Option System :=
  match s.writing with
  | none => none
  | some w =>
    match w.slot.data with
    | none => none
    | some pos =>
      if i < w.slot.size.toNat then
        some { s with queue := { s.queue with buffer := s.queue.buffer.store (pos + i) [b] } }
      else none

/-- The producer commits its slot. A slot the consumer has already released is not unread. -/
def commitWrite (kCacheLineSize : UInt64) (s : System) : Option System :=
  match s.writing with
  | none => none
  | some w =>
    let payload := s.queue.buffer.load w.grant.payload.pos w.grant.payload.len
    some { s with
      queue := s.queue.commitWrite kCacheLineSize w.slot
      writing := none
      unread := if w.released then s.unread else s.unread ++ [⟨w.grant, payload⟩] }

/-- The consumer calls `acquire_read`. -/
def acquireRead (s : System) : Option System :=
  match s.reading with
  | some _ => none
  | none =>
    match s.queue.acquireRead .init with
    | (.none, slot, q) => some { s with queue := q, reading := some slot }
    | (_, _, q) => some { s with queue := q }

/-- The consumer commits its slot. This releases the oldest committed message; when there
is none, the slot was read before it was committed and the open slot is released. -/
def commitRead (kCacheLineSize : UInt64) (s : System) : Option System :=
  match s.reading with
  | none => none
  | some slot =>
    let q := s.queue.commitRead kCacheLineSize slot
    match s.unread with
    | _ :: rest => some { s with queue := q, reading := none, unread := rest }
    | [] =>
      some { s with
        queue := q
        reading := none
        writing := s.writing.map fun w => { w with released := true } }

/-- One atomic step of the system. -/
def step (kCacheLineSize : UInt64) (s : System) : Op → Option System
  | .acquireWrite size => s.acquireWrite size
  | .fill i b => s.fill i b
  | .commitWrite => s.commitWrite kCacheLineSize
  | .acquireRead => s.acquireRead
  | .commitRead => s.commitRead kCacheLineSize

end System

end Csics.Queue
