import Csics.Base.Ledger
import Csics.Queue.MessageQueue

/-!
# The lifetimes of messages

A family of `SPSCMessageQueue<T>` objects that are constructed, pushed to, popped from, moved and
destroyed. The objects of type `T` live in the memory of the rings. They are numbered in the order
of their construction, and `Ring.objects` says which of them lies at a byte. A destructor call
(`Destroyed`) is for the object that lies there.

The move constructor of `SPSCMessageQueue` moves from the member that it constructs, and its move
assignment frees the memory of the target without a look at what lies in it.

Beside the queues the state carries the `Ledger` of the objects as the calls should keep it: a move
takes all messages along, and a queue that is destroyed or assigned to destroys what it holds.
-/

namespace Csics.Queue

open Base

/-! ## Moves and destruction of a queue -/

namespace SPSCQueue

/-- What a move leaves of a queue: `buffer_` is null and the rest is `0`. -/
def null : SPSCQueue := ⟨0, fun _ => 0, 0, 0⟩

/-- `SPSCQueue(SPSCQueue&& other)`, and what it leaves of `other`. -/
def moveConstruct (other : SPSCQueue) : SPSCQueue × SPSCQueue := (other, null)

/-- `empty()`. -/
def Empty (q : SPSCQueue) : Prop := q.readIndex = q.writeIndex

instance (q : SPSCQueue) : Decidable q.Empty := inferInstanceAs (Decidable (_ = _))

end SPSCQueue

variable {size : UInt64}

/-- An object that was constructed in a slot. -/
structure Item (size : UInt64) where
  id : Nat
  value : Object size

/-- A destructor call: the number of the object that lies in the slot, and its value then. -/
@[ext]
structure Destroyed (size : UInt64) where
  id : Option Nat
  value : Object size

/-- The destructor call that the object is due. -/
def Item.destroyed (m : Item size) : Destroyed size := ⟨some m.id, m.value⟩

/-- A message queue and the numbers of the objects that were constructed at the bytes of its
buffer last. -/
structure Ring (size : UInt64) where
  queue : SPSCMessageQueue size
  objects : Nat → Option Nat

namespace Ring

/-- `SPSCMessageQueue(capacity)`. -/
def make (kCacheLineSize capacity : UInt64) (buffer : Mem) : Ring size :=
  ⟨.make kCacheLineSize size capacity buffer, fun _ => none⟩

/-- `try_push(value)`, which constructs the object `id`. -/
def tryPush (kCacheLineSize : UInt64) (r : Ring size) (id : Nat) (value : Object size) :
    SPSCError × Ring size :=
  let slot := (r.queue.queue.acquireWrite .init size).2.1
  match r.queue.tryPush kCacheLineSize value with
  | (.none, queue) =>
    (.none, ⟨queue, slot.data.elim r.objects fun pos => Function.update r.objects pos (some id)⟩)
  | (ret, queue) => (ret, ⟨queue, r.objects⟩)

/-- `try_pop(msg)`, which destroys the object in the slot. -/
def tryPop (kCacheLineSize : UInt64) (r : Ring size) :
    SPSCError × Option (Destroyed size) × Ring size :=
  let slot := (r.queue.queue.acquireRead .init).2.1
  match r.queue.tryPop kCacheLineSize with
  | (ret, value, queue) =>
    (ret, value.map fun value => ⟨slot.data.bind r.objects, value⟩, ⟨queue, r.objects⟩)

/-- The loop of the destructor. It takes the objects out as `try_pop` does. -/
def drain (kCacheLineSize : UInt64) : Nat → Ring size → Option (List (Destroyed size))
  | 0, _ => none
  | n + 1, r =>
    match r.tryPop kCacheLineSize with
    | (.none, some d, r) => (drain kCacheLineSize n r).map fun ds => d :: ds
    | _ => some []

/-- `~SPSCMessageQueue()`: what it destroys. Every turn of its loop moves `read_index_` on, so there
are no more of them than bytes between the indices. -/
def destruct (kCacheLineSize : UInt64) (r : Ring size) : Option (List (Destroyed size)) :=
  if r.queue.queue.Empty then some []
  else r.drain kCacheLineSize ((r.queue.queue.writeIndex - r.queue.queue.readIndex).toNat + 1)

/-- `SPSCMessageQueue(SPSCMessageQueue&&)`, for an object in the memory `storage`. The parameter has
no name, and `queue_` is the member that is constructed: it is moved from itself, after which it is
what a move leaves. -/
def moveConstruct (storage : SPSCQueue) (other : Ring size) : Ring size × Ring size :=
  (⟨⟨storage.moveConstruct.2⟩, fun _ => none⟩, other)

/-- `operator=(SPSCMessageQueue&& other)` of another object. The memory of the old queue is
freed. -/
def moveAssign (other : Ring size) : Ring size × Ring size :=
  let (queue, rest) := other.queue.queue.moveConstruct
  (⟨⟨queue⟩, other.objects⟩, ⟨⟨rest⟩, fun _ => none⟩)

end Ring

/-! ## The family -/

/-- The message queues by their names, the number of objects that were constructed in their slots,
the destructor calls, and the ledger of the objects. -/
structure Owners (size : UInt64) where
  rings : Nat → Option (Ring size)
  constructed : Nat
  destroyed : List (Destroyed size)
  ledger : Ledger Nat (Item size)

/-- The calls. A new queue is given the memory that `operator new` returns, or, if it is constructed
by a move, the memory of its own members. -/
inductive OwnerOp (size : UInt64) where
  | make (q : Nat) (capacity : UInt64) (buffer : Mem)
  | tryPush (q : Nat) (value : Object size)
  | tryPop (q : Nat)
  | moveConstruct (dst src : Nat) (storage : SPSCQueue)
  | moveAssign (dst src : Nat)
  | destruct (q : Nat)

namespace Owners

/-- No queue and no object. -/
def init : Owners size := ⟨fun _ => none, 0, [], .empty⟩

def setRing (s : Owners size) (q : Nat) (r : Option (Ring size)) : Owners size :=
  { s with rings := Function.update s.rings q r }

/-- `operator new` does not give `2 ^ 63` bytes. -/
def make (kCacheLineSize : UInt64) (s : Owners size) (q : Nat) (capacity : UInt64) (buffer : Mem) :
    Option (Owners size) :=
  match s.rings q with
  | some _ => none
  | none =>
    if (SPSCMessageQueue.ringCapacity kCacheLineSize size capacity).toNat < 2 ^ 63 then
      some { s.setRing q (some (.make kCacheLineSize capacity buffer)) with
        ledger := s.ledger.create q }
    else none

def tryPush (kCacheLineSize : UInt64) (s : Owners size) (q : Nat) (value : Object size) :
    Option (Owners size) :=
  match s.rings q with
  | none => none
  | some r =>
    match r.tryPush kCacheLineSize s.constructed value with
    | (.none, r) =>
      some { s.setRing q (some r) with
        constructed := s.constructed + 1
        ledger := s.ledger.push q ⟨s.constructed, value⟩ }
    | (_, r) => some (s.setRing q (some r))

def tryPop (kCacheLineSize : UInt64) (s : Owners size) (q : Nat) : Option (Owners size) :=
  match s.rings q with
  | none => none
  | some r =>
    match r.tryPop kCacheLineSize with
    | (.none, d, r) =>
      some { s.setRing q (some r) with
        destroyed := s.destroyed ++ d.toList
        ledger := s.ledger.pop q }
    | (_, _, r) => some (s.setRing q (some r))

def moveConstruct (s : Owners size) (dst src : Nat) (storage : SPSCQueue) : Option (Owners size) :=
  match s.rings dst, s.rings src with
  | none, some r =>
    some { (s.setRing dst (some (r.moveConstruct storage).1)).setRing src
        (some (r.moveConstruct storage).2) with
      ledger := (s.ledger.create dst).move dst src }
  | _, _ => none

/-- An assignment of a queue to itself does nothing. -/
def moveAssign (s : Owners size) (dst src : Nat) : Option (Owners size) :=
  match s.rings dst, s.rings src with
  | some _, some r =>
    if dst = src then some s
    else some { (s.setRing dst (some r.moveAssign.1)).setRing src (some r.moveAssign.2) with
      ledger := s.ledger.replace dst src }
  | _, _ => none

def destruct (kCacheLineSize : UInt64) (s : Owners size) (q : Nat) : Option (Owners size) :=
  match s.rings q with
  | none => none
  | some r =>
    match r.destruct kCacheLineSize with
    | none => none
    | some ds =>
      some { s.setRing q none with
        destroyed := s.destroyed ++ ds
        ledger := s.ledger.close q }

/-- One call. -/
def step (kCacheLineSize : UInt64) (s : Owners size) : OwnerOp size → Option (Owners size)
  | .make q capacity buffer => s.make kCacheLineSize q capacity buffer
  | .tryPush q value => s.tryPush kCacheLineSize q value
  | .tryPop q => s.tryPop kCacheLineSize q
  | .moveConstruct dst src storage => s.moveConstruct dst src storage
  | .moveAssign dst src => s.moveAssign dst src
  | .destruct q => s.destruct kCacheLineSize q

end Owners

end Csics.Queue
