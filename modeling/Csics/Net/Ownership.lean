import Csics.Base.Total
import Csics.Net.MQTTEndpoint

/-!
# Who frees an arrived message

Paho allocates a message and its topic, and hands them over when the callback returns 1. From then
on one `MQTTMessage` has to own them, in a queue or with the user, until its destructor gives them
back. The state is a ledger: what Paho keeps, what it has handed over, and what has been freed.

`owes` counts the objects whose destructor would free a pointer. `Inv` is the conservation law, and
`freedOnce_iff` says which calls break it: an arrival at a full queue, which frees what Paho keeps,
and an assignment over an object that owns a message, which nobody frees any more.
-/

namespace Csics.Net.MQTT

open Base

/-- The endpoint until it is destroyed, the messages of its user, and the ledger. -/
structure Ownership where
  endpoint : Option Internal
  objects : AList fun _ : Nat => MQTTMessage
  kept : List Delivery
  owned : List Delivery
  freed : List Freed
  deriving DecidableEq

namespace Ownership

/-- The calls. Objects have numbers. -/
inductive Op where
  | subscribe (topic : Topic) (accepted : Bool)
  | arrive (d : Delivery)
  | recv (topic : Topic) (object : Nat)
  | construct (object : Nat) (topic : StringView) (payload : List UInt8)
  | moveConstruct (object other : Nat)
  | assign (object other : Nat)
  | destroy (object : Nat)
  | destroyEndpoint
  deriving DecidableEq, Repr

def init : Ownership := ⟨some .init, ∅, [], [], []⟩

/-- Everything that Paho has allocated so far. -/
def allocated (s : Ownership) : List Freed := (s.owned ++ s.kept).flatMap Delivery.tokens

/-- A message that Paho may deliver: one it keeps, or a new one. -/
def Deliverable (s : Ownership) (d : Delivery) : Prop :=
  d ∈ s.kept ∨ ∀ x ∈ d.tokens, x ∉ s.allocated

instance (s : Ownership) (d : Delivery) : Decidable (s.Deliverable d) :=
  inferInstanceAs (Decidable (_ ∨ _))

/-- Paho calls `msg_arvd`. For a 1 it hands the message over, otherwise it keeps it. -/
def arrive (s : Ownership) (endpoint : Internal) (d : Delivery) : Ownership :=
  match endpoint.msgArvd d with
  | .error _ => { s with kept := d :: s.kept.erase d }
  | .ok (endpoint, result, freed) =>
    if result = 1 then
      { s with
        endpoint := some endpoint
        kept := s.kept.erase d
        owned := s.owned ++ [d]
        freed := s.freed ++ freed }
    else
      { s with
        endpoint := some endpoint
        kept := d :: s.kept.erase d
        freed := s.freed ++ freed }

/-- `recv` into an object. -/
def recv (s : Ownership) (endpoint : Internal) (topic : Topic) (object : Nat)
    (msg : MQTTMessage) : Ownership :=
  match endpoint.recv topic msg with
  | (endpoint, _, msg, freed) =>
    { s with
      endpoint := some endpoint
      objects := s.objects.insert object msg
      freed := s.freed ++ freed }

/-- The move constructor and the assignment, which is guarded by `this != &other`. -/
def moved (s : Ownership) (object other : Nat) (msgs : MQTTMessage × MQTTMessage) : Ownership :=
  { s with objects := (s.objects.insert object msgs.1).insert other msgs.2 }

/-- One call. It needs the endpoint and the objects it is about. -/
def step (s : Ownership) : Op → Option Ownership
  | .subscribe topic accepted =>
    s.endpoint.map fun e => { s with endpoint := some (e.subscribe topic accepted).1 }
  | .arrive d =>
    s.endpoint.bind fun e => if s.Deliverable d then some (s.arrive e d) else none
  | .recv topic object =>
    s.endpoint.bind fun e => (s.objects.lookup object).map fun msg => s.recv e topic object msg
  | .construct object topic payload =>
    if object ∈ s.objects then none
    else some { s with objects := s.objects.insert object (.ofViews topic payload) }
  | .moveConstruct object other =>
    if object ∈ s.objects then none
    else (s.objects.lookup other).map fun msg => s.moved object other msg.move
  | .assign object other =>
    (s.objects.lookup object).bind fun this => (s.objects.lookup other).map fun msg =>
      if object = other then s else s.moved object other (this.assign msg)
  | .destroy object =>
    (s.objects.lookup object).map fun msg =>
      { s with objects := s.objects.erase object, freed := s.freed ++ msg.destroy }
  | .destroyEndpoint =>
    s.endpoint.map fun e => { s with endpoint := none, freed := s.freed ++ e.destroy }

/-! ## The contract -/

/-- How many objects would free `x`: those of the user, and those in the queues. -/
def owes (s : Ownership) (x : Freed) : Nat :=
  total (fun msg => msg.destroy.count x) s.objects +
    s.endpoint.elim 0 fun e => total (fun q => q.destroy.count x) e.topicQueues

/-- What was handed over is freed once, by now or by the one object that owns it, and what Paho
keeps is not freed. -/
structure FreedOnce (s : Ownership) : Prop where
  owned : ∀ d ∈ s.owned, ∀ x ∈ d.tokens, s.owes x + s.freed.count x = 1
  kept : ∀ d ∈ s.kept, ∀ x ∈ d.tokens, x ∉ s.freed

/-- When the endpoint and all objects are gone, everything that was handed over is freed once. -/
theorem FreedOnce.freed {s : Ownership} (h : s.FreedOnce) (hobjects : s.objects = ∅)
    (hendpoint : s.endpoint = none) : ∀ d ∈ s.owned, ∀ x ∈ d.tokens, s.freed.count x = 1 := by
  intro d hd x hx
  have howned := h.owned d hd x hx
  rw [owes, hobjects, hendpoint] at howned
  rwa [total_empty, Option.elim_none, Nat.add_zero, Nat.zero_add] at howned

/-- A call that keeps to the contract whatever the rest of the program does: a message does not
arrive at a full queue, and the object that gets a message does not own one. -/
def Careful (s : Ownership) : Op → Prop
  | .arrive d => ∀ e ∈ s.endpoint, ∀ key, d.key = .ok key → ¬ e.Full key
  | .recv topic object => ∀ e ∈ s.endpoint, ∀ q ∈ e.topicQueues.lookup topic, q.items ≠ [] →
      ∀ msg ∈ s.objects.lookup object, msg.internalMsg = none
  | .assign object other => object ≠ other →
      ∀ msg ∈ s.objects.lookup object, msg.internalMsg = none
  | _ => True

/-- The calls that can be made are careful. -/
def CarefulCall (s : Ownership) (op : Op) : Prop := s.step op ≠ none → s.Careful op

/-- The call leads to a state in which the contract holds. -/
def KeepsContract (s : Ownership) (op : Op) : Prop := ∀ s', s.step op = some s' → s'.FreedOnce

/-- The ledger: what the objects owe and what has been freed is what was handed over, and no
pointer is allocated twice. -/
structure Inv (s : Ownership) : Prop where
  balance : ∀ x, s.owes x + s.freed.count x = (s.owned.flatMap Delivery.tokens).count x
  distinct : s.allocated.Nodup

variable {s s' : Ownership} {d : Delivery} {e : Internal}

theorem inv_init : Inv init := by
  refine ⟨fun x => rfl, List.nodup_nil⟩

/-- The ledger keeps the contract. -/
theorem Inv.freedOnce (h : s.Inv) : s.FreedOnce := by
  have hdistinct := h.distinct
  rw [allocated, List.flatMap_append] at hdistinct
  obtain ⟨howned, -, hdisjoint⟩ := List.nodup_append.mp hdistinct
  constructor
  · intro d hd x hx
    rw [h.balance x]
    exact List.count_eq_one_of_mem howned (List.mem_flatMap.mpr ⟨d, hd, hx⟩)
  · intro d hd x hx hfreed
    have hkept : x ∈ s.kept.flatMap Delivery.tokens := List.mem_flatMap.mpr ⟨d, hd, hx⟩
    have hpos : 0 < s.freed.count x := List.count_pos_iff.mpr hfreed
    have hbalance := h.balance x
    have hmem : x ∈ s.owned.flatMap Delivery.tokens := List.count_pos_iff.mp (by omega)
    exact hdisjoint x hmem x hkept rfl

/-- Who owes a pointer owes one that was handed over. -/
theorem Inv.exists_owned (h : s.Inv) {x : Freed} (hx : 0 < s.owes x) :
    ∃ d ∈ s.owned, x ∈ d.tokens := by
  have hbalance := h.balance x
  exact List.mem_flatMap.mp (List.count_pos_iff.mp (by omega))

/-- A pointer that is dropped is never freed. -/
theorem not_freedOnce_of_lost (h : s.Inv) {x : Freed} (howes : s'.owes x < s.owes x)
    (howned : s'.owned = s.owned) (hfreed : s'.freed.count x = s.freed.count x) :
    ¬ s'.FreedOnce := by
  intro hcontract
  obtain ⟨d, hd, hx⟩ := h.exists_owned (by omega : 0 < s.owes x)
  have hbefore := h.freedOnce.owned d hd x hx
  have hafter := hcontract.owned d (howned ▸ hd) x hx
  omega

/-! ## Single calls -/

/-- What the callback has been given, now or before, is allocated once. -/
theorem Inv.distinct_of_deliverable (h : s.Inv) (hd : s.Deliverable d) :
    ((s.owned ++ d :: s.kept.erase d).flatMap Delivery.tokens).Nodup := by
  by_cases hmem : d ∈ s.kept
  · have hperm : (s.owned ++ s.kept).Perm (s.owned ++ d :: s.kept.erase d) :=
      List.Perm.append_left _ (List.perm_cons_erase hmem)
    exact (hperm.flatMap_right _).nodup_iff.mp h.distinct
  · have hfresh := hd.resolve_left hmem
    have htokens : d.tokens.Nodup := by simp [Delivery.tokens]
    have hperm : (d :: (s.owned ++ s.kept)).Perm (s.owned ++ d :: s.kept) :=
      List.perm_middle.symm
    rw [List.erase_of_not_mem hmem]
    refine (hperm.flatMap_right _).nodup_iff.mp ?_
    rw [List.flatMap_cons, List.nodup_append]
    refine ⟨htokens, h.distinct, ?_⟩
    rintro x hx y hy rfl
    exact hfresh x hx hy

theorem Inv.subscribe (h : s.Inv) (he : s.endpoint = some e) (topic : Topic) (accepted : Bool) :
    Inv { s with endpoint := some (e.subscribe topic accepted).1 } := by
  refine ⟨?_, h.distinct⟩
  intro x
  have hbalance := h.balance x
  have htotal : total (fun q => q.destroy.count x) (e.subscribe topic accepted).1.topicQueues =
      total (fun q => q.destroy.count x) e.topicQueues := by
    by_cases hmem : topic ∈ e.topicQueues
    · rw [Internal.subscribe, if_pos hmem]
    · rw [Internal.subscribe, if_neg hmem, total_insert_of_notMem _ hmem]
      rfl
  rw [owes, he] at hbalance
  rw [owes]
  dsimp only [Option.elim_some] at hbalance ⊢
  rw [htotal]
  exact hbalance

/-- Paho keeps the message, and nothing is freed. -/
theorem Inv.keep (h : s.Inv) (hd : s.Deliverable d) :
    Inv { s with kept := d :: s.kept.erase d } :=
  ⟨h.balance, h.distinct_of_deliverable hd⟩

/-- The queue takes the message over. -/
theorem Inv.accept {key : Topic} {q : Fifo} (h : s.Inv) (he : s.endpoint = some e)
    (hd : s.Deliverable d) (hlookup : e.topicQueues.lookup key = some q) :
    Inv { s with
      endpoint := some ⟨e.topicQueues.insert key
        { q with items := q.items ++ [d.toMessage key] }⟩
      kept := s.kept.erase d
      owned := s.owned ++ [d] } := by
  constructor
  · intro x
    have hbalance := h.balance x
    have htotal := total_insert_of_lookup (fun q => q.destroy.count x) hlookup
      (v := { q with items := q.items ++ [d.toMessage key] })
    have hqueue : Fifo.destroy { q with items := q.items ++ [d.toMessage key] } =
        q.destroy ++ d.tokens := by
      unfold Fifo.destroy
      rw [List.flatMap_append, List.flatMap_singleton, d.destroy_toMessage]
    rw [hqueue, List.count_append] at htotal
    rw [owes, he] at hbalance
    rw [owes]
    dsimp only [Option.elim_some] at hbalance ⊢
    rw [List.flatMap_append, List.flatMap_singleton, List.count_append]
    omega
  · have hdistinct := h.distinct_of_deliverable hd
    rw [allocated]
    dsimp only
    rw [List.append_assoc]
    exact hdistinct

/-- A message goes from the queue to an object that owns none. -/
theorem Inv.receive {topic : Topic} {q : Fifo} {object : Nat} {msg value : MQTTMessage}
    {rest : List MQTTMessage} (h : s.Inv) (he : s.endpoint = some e)
    (hlookup : e.topicQueues.lookup topic = some q) (hitems : q.items = value :: rest)
    (hobject : s.objects.lookup object = some msg) (hmsg : msg.internalMsg = none) :
    Inv { s with
      endpoint := some ⟨e.topicQueues.insert topic { q with items := rest }⟩
      objects := s.objects.insert object value } := by
  refine ⟨?_, h.distinct⟩
  intro x
  have hbalance := h.balance x
  have hqueues := total_insert_of_lookup (fun q => q.destroy.count x) hlookup
    (v := { q with items := rest })
  have hobjects := total_insert_of_lookup (fun msg => msg.destroy.count x) hobject (v := value)
  have hqueue : q.destroy = value.destroy ++ Fifo.destroy { q with items := rest } := by
    unfold Fifo.destroy
    rw [hitems, List.flatMap_cons]
  rw [hqueue, List.count_append] at hqueues
  rw [MQTTMessage.destroy_of_none hmsg, List.count_nil] at hobjects
  rw [owes, he] at hbalance
  rw [owes]
  dsimp only [Option.elim_some] at hbalance ⊢
  omega

/-- The objects after a move into one of them: the other one owns nothing any more. -/
theorem total_moved (f : MQTTMessage → Nat) {objects : AList fun _ : Nat => MQTTMessage}
    {object other : Nat} {this msg : MQTTMessage} (hinit : f .init = 0) (hne : object ≠ other)
    (hthis : objects.lookup object = some this) (hother : objects.lookup other = some msg) :
    total f ((objects.insert object msg).insert other .init) + f this = total f objects := by
  have hfirst := total_insert_of_lookup f hthis (v := msg)
  have hlookup : (objects.insert object msg).lookup other = some msg := by
    rw [AList.lookup_insert_ne (Ne.symm hne), hother]
  have hsecond := total_insert_of_lookup f hlookup (v := .init)
  omega

theorem Inv.moved {object other : Nat} {this msg : MQTTMessage} (h : s.Inv)
    (hne : object ≠ other) (hthis : s.objects.lookup object = some this)
    (hother : s.objects.lookup other = some msg) (hnone : this.internalMsg = none) :
    Inv (s.moved object other (this.assign msg)) := by
  refine ⟨?_, h.distinct⟩
  intro x
  have hbalance := h.balance x
  have htotal := total_moved (fun msg => msg.destroy.count x) rfl hne hthis hother
  rw [MQTTMessage.destroy_of_none hnone, List.count_nil] at htotal
  rw [owes] at hbalance
  rw [owes, Ownership.moved]
  dsimp only [MQTTMessage.assign]
  omega

/-- A message that owns nothing is constructed. -/
theorem Inv.constructed {object : Nat} {msg : MQTTMessage} (h : s.Inv) (hnew : object ∉ s.objects)
    (hnone : ∀ x, msg.destroy.count x = 0) :
    Inv { s with objects := s.objects.insert object msg } := by
  refine ⟨?_, h.distinct⟩
  intro x
  have hbalance := h.balance x
  have htotal := total_insert_of_notMem (fun msg => msg.destroy.count x) hnew (v := msg)
  have hx := hnone x
  rw [owes] at hbalance
  rw [owes]
  dsimp only at htotal ⊢
  omega

theorem Inv.moveConstructed {object other : Nat} {msg : MQTTMessage} (h : s.Inv)
    (hnew : object ∉ s.objects) (hother : s.objects.lookup other = some msg) :
    Inv (s.moved object other msg.move) := by
  refine ⟨?_, h.distinct⟩
  intro x
  have hbalance := h.balance x
  have hne : object ≠ other := by
    rintro rfl
    rw [AList.lookup_eq_none.mpr hnew] at hother
    cases hother
  have hfirst := total_insert_of_notMem (fun msg => msg.destroy.count x) hnew (v := msg)
  have hlookup : (s.objects.insert object msg).lookup other = some msg := by
    rw [AList.lookup_insert_ne (Ne.symm hne), hother]
  have hsecond := total_insert_of_lookup (fun msg => msg.destroy.count x) hlookup (v := .init)
  have hinit : (MQTTMessage.init.destroy).count x = 0 := rfl
  rw [owes] at hbalance
  rw [owes, Ownership.moved]
  dsimp only [MQTTMessage.move] at hfirst hsecond ⊢
  omega

theorem Inv.destroyed {object : Nat} {msg : MQTTMessage} (h : s.Inv)
    (hobject : s.objects.lookup object = some msg) :
    Inv { s with objects := s.objects.erase object, freed := s.freed ++ msg.destroy } := by
  refine ⟨?_, h.distinct⟩
  intro x
  have hbalance := h.balance x
  have htotal := total_erase_of_lookup (fun msg => msg.destroy.count x) hobject
  rw [owes] at hbalance
  rw [owes]
  dsimp only
  rw [List.count_append]
  omega

/-- The destructor of the endpoint frees what its queues owe. -/
theorem Inv.destroyedEndpoint (h : s.Inv) (he : s.endpoint = some e) :
    Inv { s with endpoint := none, freed := s.freed ++ e.destroy } := by
  refine ⟨?_, h.distinct⟩
  intro x
  have hbalance := h.balance x
  have hcount : e.destroy.count x = total (fun q => q.destroy.count x) e.topicQueues := by
    rw [Internal.destroy, List.count_flatMap]
    rfl
  rw [owes, he] at hbalance
  rw [owes]
  dsimp only [Option.elim_some, Option.elim_none] at hbalance ⊢
  rw [List.count_append]
  omega

/-! ## Every call -/

/-- Paho keeps the message, or the queue of the key is full and the message is freed as well, or it
has room and takes the message over. -/
theorem arrive_cases (he : s.endpoint = some e) (d : Delivery) :
    s.arrive e d = { s with kept := d :: s.kept.erase d } ∨
      (∃ key, d.key = .ok key ∧ e.Full key ∧
        s.arrive e d = { s with kept := d :: s.kept.erase d, freed := s.freed ++ d.tokens }) ∨
      ∃ key q, e.topicQueues.lookup key = some q ∧ s.arrive e d =
        { s with
          endpoint := some ⟨e.topicQueues.insert key
            { q with items := q.items ++ [d.toMessage key] }⟩
          kept := s.kept.erase d
          owned := s.owned ++ [d] } := by
  unfold arrive Internal.msgArvd
  cases hkey : d.key with
  | error err => exact Or.inl rfl
  | ok key =>
    dsimp only [Except.map]
    cases hlookup : e.topicQueues.lookup key with
    | none =>
      rw [Internal.deliver_of_unknown hlookup]
      dsimp only
      rw [if_neg Nat.zero_ne_one, List.append_nil, ← he]
      exact Or.inl rfl
    | some q =>
      by_cases hroom : q.HasRoom
      · rw [Internal.deliver_of_room hlookup hroom]
        dsimp only
        rw [if_pos rfl, List.append_nil]
        exact Or.inr (Or.inr ⟨key, q, hlookup, rfl⟩)
      · rw [Internal.deliver_of_full hlookup hroom]
        dsimp only
        rw [if_neg Nat.zero_ne_one, ← he]
        exact Or.inr (Or.inl ⟨key, rfl, ⟨q, hlookup, hroom⟩, rfl⟩)

/-- `recv` leaves everything as it is, or moves the first message of the queue. -/
theorem recv_cases (topic : Topic) (object : Nat) (msg : MQTTMessage)
    (he : s.endpoint = some e) :
    s.recv e topic object msg = { s with objects := s.objects.insert object msg } ∨
      ∃ q value rest, e.topicQueues.lookup topic = some q ∧ q.items = value :: rest ∧
        s.recv e topic object msg =
          { s with
            endpoint := some ⟨e.topicQueues.insert topic { q with items := rest }⟩
            objects := s.objects.insert object value } := by
  unfold recv
  cases hlookup : e.topicQueues.lookup topic with
  | none =>
    rw [Internal.recv_of_unknown msg hlookup]
    dsimp only
    rw [List.append_nil, ← he]
    exact Or.inl rfl
  | some q =>
    cases hitems : q.items with
    | nil =>
      rw [Internal.recv_of_empty msg hlookup hitems]
      dsimp only
      rw [List.append_nil, ← he]
      exact Or.inl rfl
    | cons value rest =>
      rw [Internal.recv_of_cons msg hlookup hitems]
      dsimp only
      rw [List.append_nil]
      exact Or.inr ⟨q, value, rest, rfl, hitems, rfl⟩

/-- An object may be written back as it is. -/
theorem Inv.rewrite {object : Nat} {msg : MQTTMessage} (h : s.Inv)
    (hobject : s.objects.lookup object = some msg) :
    Inv { s with objects := s.objects.insert object msg } := by
  refine ⟨?_, h.distinct⟩
  intro x
  have hbalance := h.balance x
  have htotal := total_insert_of_lookup (fun msg => msg.destroy.count x) hobject (v := msg)
  rw [owes] at hbalance
  rw [owes]
  dsimp only
  omega

/-- A careful call keeps the ledger. -/
theorem Inv.step {op : Op} (h : s.Inv) (hcareful : s.CarefulCall op)
    (hstep : s.step op = some s') : s'.Inv := by
  have hcare : s.Careful op := hcareful (by rw [hstep]; exact Option.some_ne_none s')
  cases op with
  | subscribe topic accepted =>
    obtain ⟨e, he, rfl⟩ := Option.map_eq_some_iff.mp hstep
    exact h.subscribe he topic accepted
  | arrive d =>
    obtain ⟨e, he, harrive⟩ := Option.bind_eq_some_iff.mp hstep
    split at harrive
    · rename_i hd
      cases harrive
      rcases arrive_cases he d with heq | ⟨key, hkey, hfull, -⟩ | ⟨key, q, hlookup, heq⟩
      · rw [heq]
        exact h.keep hd
      · exact absurd hfull (hcare e he key hkey)
      · rw [heq]
        exact h.accept he hd hlookup
    · cases harrive
  | recv topic object =>
    obtain ⟨e, he, hrecv⟩ := Option.bind_eq_some_iff.mp hstep
    obtain ⟨msg, hobject, rfl⟩ := Option.map_eq_some_iff.mp hrecv
    rcases recv_cases topic object msg he with heq | ⟨q, value, rest, hlookup, hitems, heq⟩
    · rw [heq]
      exact h.rewrite hobject
    · rw [heq]
      have hne : q.items ≠ [] := by
        rw [hitems]
        exact List.cons_ne_nil _ _
      exact h.receive he hlookup hitems hobject (hcare e he q hlookup hne msg hobject)
  | construct object topic payload =>
    rw [Ownership.step] at hstep
    split at hstep
    · cases hstep
    · rename_i hnew
      cases hstep
      exact h.constructed hnew fun _ => rfl
  | moveConstruct object other =>
    rw [Ownership.step] at hstep
    split at hstep
    · cases hstep
    · rename_i hnew
      obtain ⟨msg, hother, rfl⟩ := Option.map_eq_some_iff.mp hstep
      exact h.moveConstructed hnew hother
  | assign object other =>
    obtain ⟨this, hthis, hassign⟩ := Option.bind_eq_some_iff.mp hstep
    obtain ⟨msg, hother, rfl⟩ := Option.map_eq_some_iff.mp hassign
    by_cases hne : object = other
    · rw [if_pos hne]
      exact h
    · rw [if_neg hne]
      exact h.moved hne hthis hother (hcare hne this hthis)
  | destroy object =>
    obtain ⟨msg, hobject, rfl⟩ := Option.map_eq_some_iff.mp hstep
    exact h.destroyed hobject
  | destroyEndpoint =>
    obtain ⟨e, he, rfl⟩ := Option.map_eq_some_iff.mp hstep
    exact h.destroyedEndpoint he

/-- An owning message owes its pointer. -/
theorem count_destroy_pos {msg : MQTTMessage} {p : Pointer} (h : msg.internalMsg = some p) :
    0 < msg.destroy.count (.message p) := by
  rw [List.count_pos_iff, MQTTMessage.destroy, h]
  exact List.mem_cons_self

/-- A full queue frees a message that Paho keeps. -/
theorem not_freedOnce_of_full {d : Delivery} {key : Topic} (he : s.endpoint = some e)
    (hkey : d.key = .ok key) (hfull : e.Full key) : ¬ FreedOnce (s.arrive e d) := by
  obtain ⟨q, hlookup, hroom⟩ := hfull
  have heq : s.arrive e d =
      { s with kept := d :: s.kept.erase d, freed := s.freed ++ d.tokens } := by
    rw [arrive, Internal.msgArvd, hkey]
    dsimp only [Except.map]
    rw [Internal.deliver_of_full hlookup hroom]
    dsimp only
    rw [if_neg Nat.zero_ne_one, ← he]
  rw [heq]
  intro hcontract
  refine hcontract.kept d List.mem_cons_self (.message d.message) List.mem_cons_self ?_
  exact List.mem_append_right _ List.mem_cons_self

/-- An object that receives a message forgets the one it owned. -/
theorem not_freedOnce_of_received {topic : Topic} {object : Nat} {msg : MQTTMessage} {p : Pointer}
    {q : Fifo} (h : s.Inv) (he : s.endpoint = some e)
    (hobject : s.objects.lookup object = some msg) (hlookup : e.topicQueues.lookup topic = some q)
    (hne : q.items ≠ []) (hp : msg.internalMsg = some p) :
    ¬ FreedOnce (s.recv e topic object msg) := by
  obtain ⟨value, rest, hitems⟩ := List.exists_cons_of_ne_nil hne
  have heq : s.recv e topic object msg =
      { s with
        endpoint := some ⟨e.topicQueues.insert topic { q with items := rest }⟩
        objects := s.objects.insert object value } := by
    rw [Ownership.recv, Internal.recv_of_cons msg hlookup hitems]
    dsimp only
    rw [List.append_nil]
  rw [heq]
  have hpos := count_destroy_pos hp
  refine not_freedOnce_of_lost h (x := .message p) ?_ rfl rfl
  have hqueues := total_insert_of_lookup (fun q => q.destroy.count (.message p)) hlookup
    (v := { q with items := rest })
  have hobjects := total_insert_of_lookup (fun msg => msg.destroy.count (.message p)) hobject
    (v := value)
  have hqueue : q.destroy = value.destroy ++ Fifo.destroy { q with items := rest } := by
    unfold Fifo.destroy
    rw [hitems, List.flatMap_cons]
  rw [hqueue, List.count_append] at hqueues
  rw [owes, owes, he]
  dsimp only [Option.elim_some]
  omega

/-- So does an object that is assigned to. -/
theorem not_freedOnce_of_assigned {object other : Nat} {this msg : MQTTMessage} {p : Pointer}
    (h : s.Inv) (hne : object ≠ other) (hthis : s.objects.lookup object = some this)
    (hother : s.objects.lookup other = some msg) (hp : this.internalMsg = some p) :
    ¬ FreedOnce (s.moved object other (this.assign msg)) := by
  have hpos := count_destroy_pos hp
  refine not_freedOnce_of_lost h (x := .message p) ?_ rfl rfl
  have htotal := total_moved (fun msg => msg.destroy.count (.message p)) rfl hne hthis hother
  rw [owes, owes, Ownership.moved]
  dsimp only [MQTTMessage.assign]
  omega

theorem careful_of_keepsContract {op : Op} (h : s.Inv) (hkeeps : s.KeepsContract op) :
    s.CarefulCall op := by
  intro havailable
  obtain ⟨s', hstep⟩ := Option.ne_none_iff_exists'.mp havailable
  have hcontract := hkeeps s' hstep
  cases op with
  | arrive d =>
    intro e he key hkey hfull
    obtain ⟨e', he', harrive⟩ := Option.bind_eq_some_iff.mp hstep
    obtain rfl : e = e' := Option.some.inj (he.symm.trans he')
    split at harrive
    · cases harrive
      exact not_freedOnce_of_full he hkey hfull hcontract
    · cases harrive
  | recv topic object =>
    intro e he q hlookup hne msg hobject
    by_contra howner
    obtain ⟨p, hp⟩ := Option.ne_none_iff_exists'.mp howner
    obtain ⟨e', he', hrecv⟩ := Option.bind_eq_some_iff.mp hstep
    obtain rfl : e = e' := Option.some.inj (he.symm.trans he')
    obtain ⟨msg', hobject', rfl⟩ := Option.map_eq_some_iff.mp hrecv
    obtain rfl : msg = msg' := Option.some.inj (hobject.symm.trans hobject')
    exact not_freedOnce_of_received h he hobject hlookup hne hp hcontract
  | assign object other =>
    intro hne this hthis
    by_contra howner
    obtain ⟨p, hp⟩ := Option.ne_none_iff_exists'.mp howner
    obtain ⟨this', hthis', hassign⟩ := Option.bind_eq_some_iff.mp hstep
    obtain rfl : this = this' := Option.some.inj (hthis.symm.trans hthis')
    obtain ⟨msg, hother, rfl⟩ := Option.map_eq_some_iff.mp hassign
    rw [if_neg hne] at hcontract
    exact not_freedOnce_of_assigned h hne hthis hother hp hcontract
  | subscribe topic accepted => trivial
  | construct object topic payload => trivial
  | moveConstruct object other => trivial
  | destroy object => trivial
  | destroyEndpoint => trivial

end Ownership

/-- In every order of the calls the contract holds behind each of them exactly if all are
careful. -/
theorem freedOnce_iff (ops : List Ownership.Op) :
    Guarded Ownership.step Ownership.CarefulCall .init ops ↔
      Guarded Ownership.step Ownership.KeepsContract .init ops := by
  refine guarded_congr (I := Ownership.Inv) ?_ ?_ Ownership.inv_init
  · intro s op h
    constructor
    · intro hcareful s' hs'
      exact (h.step hcareful hs').freedOnce
    · exact Ownership.careful_of_keepsContract h
  · intro s op s' h hcareful hs'
    exact h.step hcareful hs'

/-- Two messages on the topic `a`. -/
def firstArrival : Delivery := ⟨0, [0x61], 1, 0, [0x78]⟩

def secondArrival : Delivery := ⟨1, [0x61], 1, 1, [0x79]⟩

/-- One object receives both, and nobody frees the first. -/
theorem not_freedOnce_reused : ¬ Guarded Ownership.step Ownership.KeepsContract .init
    [.subscribe [0x61] true, .arrive firstArrival, .arrive secondArrival,
      .construct 0 ⟨none, []⟩ [], .recv [0x61] 0, .recv [0x61] 0] := by
  intro hrun
  obtain ⟨-, hrun⟩ := hrun
  obtain ⟨-, hrun⟩ := hrun _ rfl
  obtain ⟨-, hrun⟩ := hrun _ rfl
  obtain ⟨-, hrun⟩ := hrun _ rfl
  obtain ⟨-, hrun⟩ := hrun _ rfl
  obtain ⟨hkeeps, -⟩ := hrun _ rfl
  have hcontract := hkeeps _ rfl
  have hcount := hcontract.owned firstArrival (by decide) (.message 0) (by decide)
  revert hcount
  decide

end Csics.Net.MQTT
