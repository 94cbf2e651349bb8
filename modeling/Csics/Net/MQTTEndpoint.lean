import Mathlib.Algebra.Ring.Nat
import Mathlib.Data.List.AList
import Csics.Base.Run

/-!
# The MQTT endpoint

`MQTTEndpoint` and `MQTTMessage` of `src/io/net/MQTTEndpoint.cpp`: the callback that Paho calls with
an arrived message, `subscribe`, `recv` and `poll`, and what the moves and the destructor of a
message do to the memory that Paho has allocated.

Paho is the environment. A `Delivery` is what it passes to the callback, and `Freed` is what is
handed to `MQTTAsync_freeMessage` and `MQTTAsync_free`. The queue of a topic is a bounded FIFO, and
all that happens under `topic_queues_mutex` is one function here. `connect` is left out, and
`publish` has a state of its own: no arrived message goes through them.
-/

namespace Csics.Net.MQTT

abbrev Pointer := Nat

/-- A key of `topic_queues`. -/
abbrev Topic := List UInt8

/-- A view: where it starts, and the bytes it covers. -/
structure StringView where
  data : Option Pointer
  bytes : List UInt8
  deriving DecidableEq, Repr

/-- Memory that Paho has allocated and the application gives back. -/
inductive Freed where
  | message (p : Pointer)
  | topic (p : Pointer)
  deriving DecidableEq, Repr

inductive NetStatus where
  | success
  | empty
  | timeout
  | disconnected
  | error
  deriving DecidableEq, Repr

structure NetResult where
  status : NetStatus
  bytesTransferred : Nat
  deriving DecidableEq, Repr

inductive PollStatus where
  | ready
  | empty
  | timeout
  | disconnected
  | error
  deriving DecidableEq, Repr

/-! ## Messages -/

/-- `payload` has the bytes of the view `payload_`. -/
structure MQTTMessage where
  payload : List UInt8
  topic : StringView
  internalMsg : Option Pointer
  deriving DecidableEq, Repr

namespace MQTTMessage

/-- The default constructor, and what a move leaves behind. -/
def init : MQTTMessage := ⟨[], ⟨none, []⟩, none⟩

/-- The constructor from two views. -/
def ofViews (topic : StringView) (payload : List UInt8) : MQTTMessage := ⟨payload, topic, none⟩

/-- What the destructor frees. -/
def destroy (msg : MQTTMessage) : List Freed :=
  match msg.internalMsg with
  | none => []
  | some p => .message p :: msg.topic.data.toList.map .topic

/-- The move constructor: the new message, and `other` behind it. -/
def move (other : MQTTMessage) : MQTTMessage × MQTTMessage := (other, init)

/-- The assignment from another object: the object that is assigned to, and `other` behind it.
What the object held before is not looked at. -/
def assign (_this other : MQTTMessage) : MQTTMessage × MQTTMessage := (other, init)

theorem destroy_of_none {msg : MQTTMessage} (h : msg.internalMsg = none) : msg.destroy = [] := by
  rw [destroy, h]

end MQTTMessage

/-! ## Queues -/

/-- An `SPSCMessageQueue<MQTTMessage>` as a bounded FIFO. It is one where whole cache lines of
messages fill its ring (`Csics.Queue.run_tryPush_iff`). -/
structure Fifo where
  items : List MQTTMessage
  capacity : Nat
  deriving DecidableEq, Repr

namespace Fifo

def HasRoom (q : Fifo) : Prop := q.items.length < q.capacity

instance (q : Fifo) : Decidable q.HasRoom := Nat.decLt _ _

/-- `try_push(std::move(msg))`: the queue, and `msg` behind the call. -/
def tryPush (q : Fifo) (msg : MQTTMessage) : Option (Fifo × MQTTMessage) :=
  if q.HasRoom then some ({ q with items := q.items ++ [msg.move.1] }, msg.move.2) else none

/-- `try_pop(msg)`: the queue, `msg` behind the call, and what is freed with the slot. -/
def tryPop (q : Fifo) (msg : MQTTMessage) : Option (Fifo × MQTTMessage × List Freed) :=
  match q.items with
  | [] => none
  | value :: rest =>
    some ({ q with items := rest }, (msg.assign value).1, (msg.assign value).2.destroy)

/-- The destructor of the queue destroys the messages in it. -/
def destroy (q : Fifo) : List Freed := q.items.flatMap MQTTMessage.destroy

end Fifo

/-! ## Deliveries -/

/-- A call of the callback: the memory behind `topicName`, `topicLen`, and the message. -/
structure Delivery where
  topicName : Pointer
  topicBytes : List UInt8
  topicLen : Nat
  message : Pointer
  payload : List UInt8
  deriving DecidableEq, Repr

/-- The exception of `std::string(topicName, topicLen)`. -/
inductive LengthError where
  | lengthError
  deriving DecidableEq, Repr

namespace Delivery

/-- The topic the message arrives on: of the given length, or up to the NUL. -/
def topic (d : Delivery) : Topic :=
  if d.topicLen > 0 then d.topicBytes.take d.topicLen
  else d.topicBytes.takeWhile (· ≠ 0)

/-- `strlen(topicName)`. -/
def strlen (d : Delivery) : Nat := (d.topicBytes.takeWhile (· ≠ 0)).length

/-- `topicLen = topicLen > 0 ? topicLen : std::strlen(topicName) - 1`, an `int`. -/
def keyLen (d : Delivery) : Int :=
  if d.topicLen > 0 then d.topicLen else ((d.strlen : Int) - 1).bmod (2 ^ 32)

/-- `std::string(topicName, topicLen)`. A negative length is a huge `size_t`. -/
def key (d : Delivery) : Except LengthError Topic :=
  if d.keyLen < 0 then .error .lengthError else .ok (d.topicBytes.take d.keyLen.toNat)

/-- What the application has to free. -/
def tokens (d : Delivery) : List Freed := [.message d.message, .topic d.topicName]

/-- With its length the key of a topic is the topic. -/
theorem key_of_pos {d : Delivery} (h : 0 < d.topicLen) : d.key = .ok d.topic := by
  have hlen : d.keyLen = d.topicLen := if_pos h
  rw [key, hlen, if_neg (by omega), topic, if_pos h, Int.toNat_natCast]

/-- Without it the key is a shorter text. -/
theorem key_ne_topic {d : Delivery} (h : d.topicLen = 0) : d.key ≠ .ok d.topic := by
  intro hkey
  have hlen : d.keyLen = ((d.strlen : Int) - 1).bmod (2 ^ 32) := if_neg (by omega)
  have htopic : d.topic = d.topicBytes.takeWhile (· ≠ 0) := if_neg (by omega)
  by_cases hneg : d.keyLen < 0
  · rw [key, if_pos hneg] at hkey
    cases hkey
  · rw [key, if_neg hneg] at hkey
    have hcount := congrArg List.length (Except.ok.inj hkey)
    have hle : d.strlen ≤ d.topicBytes.length := (List.takeWhile_sublist _).length_le
    rw [List.length_take, htopic] at hcount
    have hstrlen : min d.keyLen.toNat d.topicBytes.length = d.strlen := hcount
    have hbmod : ((d.strlen : Int) - 1).bmod (2 ^ 32) ≤ (d.strlen : Int) - 1 := by
      rw [Int.bmod_def]
      split <;> omega
    omega

end Delivery

/-! ## The endpoint -/

/-- `MQTTEndpoint::Internal`. -/
structure Internal where
  topicQueues : AList fun _ : Topic => Fifo
  deriving DecidableEq

namespace Internal

/-- The state after the constructor. -/
def init : Internal := ⟨∅⟩

/-- `msg_arvd` under the lock: the endpoint, the value that is returned, and what is freed. -/
def deliver (s : Internal) (d : Delivery) (key : Topic) : Internal × Nat × List Freed :=
  match s.topicQueues.lookup key with
  | none => (s, 0, [])
  | some q =>
    let msg : MQTTMessage := ⟨d.payload, ⟨some d.topicName, key⟩, some d.message⟩
    match q.tryPush msg with
    -- the destructor of `msg` runs at both returns
    | none => (s, 0, msg.destroy)
    | some (q, msg) => (⟨s.topicQueues.insert key q⟩, 1, msg.destroy)

/-- `msg_arvd`. -/
def msgArvd (s : Internal) (d : Delivery) : Except LengthError (Internal × Nat × List Freed) :=
  d.key.map (s.deliver d)

/-- `subscribe`, with the outcome of `MQTTAsync_subscribe`. -/
def subscribe (s : Internal) (topic : Topic) (accepted : Bool) : Internal × NetStatus :=
  (⟨if topic ∈ s.topicQueues then s.topicQueues
    else s.topicQueues.insert topic ⟨[], 1024⟩⟩,
    if accepted then .success else .error)

/-- `recv`: the endpoint, the status, the caller's message behind the call, and what is freed. -/
def recv (s : Internal) (topic : Topic) (message : MQTTMessage) :
    Internal × NetStatus × MQTTMessage × List Freed :=
  match s.topicQueues.lookup topic with
  | none => (s, .error, message, [])
  | some q =>
    match q.tryPop .init with
    | none => (s, .empty, message, [])
    | some (q, msg, freed) =>
      (⟨s.topicQueues.insert topic q⟩, .success, (message.assign msg).1,
        freed ++ (message.assign msg).2.destroy)

/-- `poll` as one step: it sees the queue once, if there is time. -/
def poll (s : Internal) (topic : Topic) (timeoutMs : Int) : PollStatus :=
  match s.topicQueues.lookup topic with
  | none => .error
  | some q => if 0 < timeoutMs ∧ q.items ≠ [] then .ready else .timeout

/-- `delete internal_`: the queues are destroyed. -/
def destroy (s : Internal) : List Freed := s.topicQueues.entries.flatMap fun e => e.2.destroy

end Internal

/-! ## What a call can do -/

/-- The queue of a topic takes one more message. -/
def Internal.HasRoom (s : Internal) (topic : Topic) : Prop :=
  ∃ q, s.topicQueues.lookup topic = some q ∧ q.HasRoom

/-- There is a queue for the topic, and it is full. -/
def Internal.Full (s : Internal) (topic : Topic) : Prop :=
  ∃ q, s.topicQueues.lookup topic = some q ∧ ¬ q.HasRoom

/-- The message that the callback makes of a delivery. -/
def Delivery.toMessage (d : Delivery) (key : Topic) : MQTTMessage :=
  ⟨d.payload, ⟨some d.topicName, key⟩, some d.message⟩

theorem Delivery.destroy_toMessage (d : Delivery) (key : Topic) :
    (d.toMessage key).destroy = d.tokens := rfl

namespace Internal

variable {s : Internal} {d : Delivery} {topic key : Topic} {q : Fifo}

/-- On a topic without a queue the message stays with Paho. -/
theorem deliver_of_unknown (h : s.topicQueues.lookup key = none) :
    s.deliver d key = (s, 0, []) := by
  rw [deliver, h]

/-- A queue with room takes the message. -/
theorem deliver_of_room (h : s.topicQueues.lookup key = some q) (hroom : q.HasRoom) :
    s.deliver d key =
      (⟨s.topicQueues.insert key { q with items := q.items ++ [d.toMessage key] }⟩, 1, []) := by
  rw [deliver, h]
  dsimp only
  rw [Fifo.tryPush, if_pos hroom]
  rfl

/-- A full queue does not, and the local message frees what Paho keeps. -/
theorem deliver_of_full (h : s.topicQueues.lookup key = some q) (hfull : ¬ q.HasRoom) :
    s.deliver d key = (s, 0, d.tokens) := by
  rw [deliver, h]
  dsimp only
  rw [Fifo.tryPush, if_neg hfull]
  rfl

theorem recv_of_unknown (message : MQTTMessage) (h : s.topicQueues.lookup topic = none) :
    s.recv topic message = (s, .error, message, []) := by
  rw [recv, h]

theorem recv_of_empty (message : MQTTMessage) (h : s.topicQueues.lookup topic = some q)
    (hempty : q.items = []) : s.recv topic message = (s, .empty, message, []) := by
  rw [recv, h]
  dsimp only
  rw [Fifo.tryPop, hempty]

/-- The first message of the queue replaces what the caller's object held. -/
theorem recv_of_cons {value : MQTTMessage} {rest : List MQTTMessage} (message : MQTTMessage)
    (h : s.topicQueues.lookup topic = some q) (hcons : q.items = value :: rest) :
    s.recv topic message =
      (⟨s.topicQueues.insert topic { q with items := rest }⟩, .success, value, []) := by
  rw [recv, h]
  dsimp only
  rw [Fifo.tryPop, hcons]
  rfl

end Internal

end Csics.Net.MQTT
