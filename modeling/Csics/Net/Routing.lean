import Csics.Net.MQTTEndpoint

/-!
# Messages by topic

The endpoint between Paho and its user, in any order of their calls: what the callback has
accepted and what `recv` has returned, in the order of the calls. `Routes` says that a call does
what a subscriber relies on, and `routes_iff` that every call of a run does exactly when no message
arrives with a length of zero that could be taken: from a text that ends in a NUL the callback
makes a key without its last byte.
-/

namespace Csics.Net.MQTT

open Base

/-- The endpoint, and the history of the calls that gave or took a message. -/
structure Routing where
  endpoint : Internal
  accepted : List Delivery
  received : List (Topic × MQTTMessage)
  deriving DecidableEq

namespace Routing

/-- The calls. -/
inductive Op where
  | subscribe (topic : Topic) (accepted : Bool)
  | arrive (d : Delivery)
  | poll (topic : Topic) (timeoutMs : Int)
  | recv (topic : Topic) (message : MQTTMessage)
  deriving DecidableEq, Repr

def init : Routing := ⟨.init, [], []⟩

/-- Paho calls `msg_arvd`. -/
def arrive (s : Routing) (d : Delivery) : Routing :=
  match s.endpoint.msgArvd d with
  | .error _ => s
  | .ok (endpoint, result, _) =>
    { s with
      endpoint := endpoint
      accepted := if result = 1 then s.accepted ++ [d] else s.accepted }

/-- The user calls `recv`. -/
def recv (s : Routing) (topic : Topic) (message : MQTTMessage) : Routing :=
  match s.endpoint.recv topic message with
  | (endpoint, status, message, _) =>
    { s with
      endpoint := endpoint
      received := if status = .success then s.received ++ [(topic, message)] else s.received }

/-- One call. `poll` only looks. -/
def step (s : Routing) : Op → Option Routing
  | .subscribe topic accepted =>
    some { s with endpoint := (s.endpoint.subscribe topic accepted).1 }
  | .arrive d => some (s.arrive d)
  | .poll _ _ => some s
  | .recv topic message => some (s.recv topic message)

end Routing

/-! ## What a subscriber relies on -/

/-- What the reader of a message sees. -/
def MQTTMessage.content (msg : MQTTMessage) : Topic × List UInt8 := (msg.topic.bytes, msg.payload)

def Delivery.content (d : Delivery) : Topic × List UInt8 := (d.topic, d.payload)

/-- What is in the queue of a topic. -/
def Internal.pendingOn (s : Internal) (topic : Topic) : List (Topic × List UInt8) :=
  match s.topicQueues.lookup topic with
  | none => []
  | some q => q.items.map MQTTMessage.content

namespace Routing

/-- The arrivals on a topic that were accepted. -/
def acceptedOn (s : Routing) (topic : Topic) : List (Topic × List UInt8) :=
  (s.accepted.filter fun d => d.topic = topic).map Delivery.content

/-- What `recv(topic)` has returned. -/
def receivedOn (s : Routing) (topic : Topic) : List (Topic × List UInt8) :=
  (s.received.filter fun r => r.1 = topic).map fun r => r.2.content

/-- What was received on a topic, and then what is still in its queue, are the accepted
arrivals. -/
def Routed (s : Routing) : Prop :=
  ∀ topic ∈ s.endpoint.topicQueues,
    s.receivedOn topic ++ s.endpoint.pendingOn topic = s.acceptedOn topic

/-- The call accepts an arrival that there is room for, and leaves the messages routed. -/
def Routes (s : Routing) (op : Op) : Prop :=
  ∀ s', s.step op = some s' → s'.Routed ∧
    ∀ d, op = .arrive d → s.endpoint.HasRoom d.topic → s'.accepted = s.accepted ++ [d]

/-- A message that arrives has a length, or there is no room for it: neither in the queue of its
topic, nor in the one of the key that `msg_arvd` makes of it. -/
def Named (s : Routing) (op : Op) : Prop :=
  ∀ d, op = .arrive d → 0 < d.topicLen ∨
    (¬ s.endpoint.HasRoom d.topic ∧ ∀ key, d.key = .ok key → ¬ s.endpoint.HasRoom key)

/-- What holds in every state as long as all messages have a length. -/
structure Inv (s : Routing) : Prop where
  routed : s.Routed
  accepted : ∀ d ∈ s.accepted, d.topic ∈ s.endpoint.topicQueues
  received : ∀ r ∈ s.received, r.1 ∈ s.endpoint.topicQueues

end Routing

/-! ## Single calls -/

section
variable {m : AList fun _ : Topic => Fifo} {topic topic' : Topic} {q : Fifo}

theorem Internal.pendingOn_insert_self :
    (Internal.mk (m.insert topic q)).pendingOn topic = q.items.map MQTTMessage.content := by
  rw [pendingOn, AList.lookup_insert]

theorem Internal.pendingOn_insert_ne (h : topic' ≠ topic) :
    (Internal.mk (m.insert topic q)).pendingOn topic' = (Internal.mk m).pendingOn topic' := by
  rw [pendingOn, AList.lookup_insert_ne h, pendingOn]

end

namespace Routing

variable {s : Routing} {d : Delivery} {topic key : Topic} {q : Fifo}

theorem acceptedOn_accept (endpoint : Internal) :
    ({ s with endpoint := endpoint, accepted := s.accepted ++ [d] } : Routing).acceptedOn topic =
      s.acceptedOn topic ++ if d.topic = topic then [d.content] else [] := by
  unfold acceptedOn
  rw [List.filter_append, List.map_append]
  by_cases h : d.topic = topic
  · rw [if_pos h, List.filter_cons_of_pos (by simpa using h)]
    rfl
  · rw [if_neg h, List.filter_cons_of_neg (by simpa using h)]
    rfl

theorem receivedOn_receive (endpoint : Internal) (key : Topic) (msg : MQTTMessage) :
    ({ s with endpoint := endpoint, received := s.received ++ [(key, msg)] } : Routing).receivedOn
        topic =
      s.receivedOn topic ++ if key = topic then [msg.content] else [] := by
  unfold receivedOn
  rw [List.filter_append, List.map_append]
  by_cases h : key = topic
  · rw [if_pos h, List.filter_cons_of_pos (by simpa using h)]
    rfl
  · rw [if_neg h, List.filter_cons_of_neg (by simpa using h)]
    rfl

/-- An arrival changes nothing, or the queue of its key has room and takes it. -/
theorem arrive_cases (s : Routing) (d : Delivery) :
    ((∀ key, d.key = .ok key → ¬ s.endpoint.HasRoom key) ∧ s.arrive d = s) ∨
      ∃ key q, d.key = .ok key ∧ s.endpoint.topicQueues.lookup key = some q ∧ q.HasRoom ∧
        s.arrive d =
          { s with
            endpoint := ⟨s.endpoint.topicQueues.insert key
              { q with items := q.items ++ [d.toMessage key] }⟩
            accepted := s.accepted ++ [d] } := by
  unfold arrive Internal.msgArvd
  cases hkey : d.key with
  | error e =>
    refine Or.inl ⟨?_, rfl⟩
    intro key h
    cases h
  | ok key =>
    dsimp only [Except.map]
    cases hlookup : s.endpoint.topicQueues.lookup key with
    | none =>
      rw [Internal.deliver_of_unknown hlookup]
      refine Or.inl ⟨?_, rfl⟩
      rintro key' h ⟨q, hq, -⟩
      obtain rfl := Except.ok.inj h
      rw [hlookup] at hq
      cases hq
    | some q =>
      by_cases hroom : q.HasRoom
      · rw [Internal.deliver_of_room hlookup hroom]
        exact Or.inr ⟨key, q, rfl, hlookup, hroom, rfl⟩
      · rw [Internal.deliver_of_full hlookup hroom]
        refine Or.inl ⟨?_, rfl⟩
        rintro key' h ⟨q', hq', hroom'⟩
        obtain rfl := Except.ok.inj h
        rw [hlookup] at hq'
        obtain rfl := Option.some.inj hq'
        exact hroom hroom'

/-- A `recv` changes nothing, or returns the first message of the queue. -/
theorem recv_cases (s : Routing) (topic : Topic) (message : MQTTMessage) :
    s.recv topic message = s ∨
      ∃ q value rest, s.endpoint.topicQueues.lookup topic = some q ∧ q.items = value :: rest ∧
        s.recv topic message =
          { s with
            endpoint := ⟨s.endpoint.topicQueues.insert topic { q with items := rest }⟩
            received := s.received ++ [(topic, value)] } := by
  unfold recv
  cases hlookup : s.endpoint.topicQueues.lookup topic with
  | none =>
    rw [Internal.recv_of_unknown message hlookup]
    exact Or.inl rfl
  | some q =>
    cases hitems : q.items with
    | nil =>
      rw [Internal.recv_of_empty message hlookup hitems]
      exact Or.inl rfl
    | cons value rest =>
      rw [Internal.recv_of_cons message hlookup hitems]
      exact Or.inr ⟨q, value, rest, rfl, hitems, rfl⟩

/-! ## The invariant -/

theorem inv_init : Inv init := by
  refine ⟨?_, ?_, ?_⟩
  · intro topic hmem
    exact absurd hmem (AList.notMem_empty topic)
  · intro d hd
    cases hd
  · intro r hr
    cases hr

/-- A new queue is empty, and nothing was received or accepted on its topic. -/
theorem Inv.subscribe (h : s.Inv) (topic : Topic) (accepted : Bool) :
    Inv { s with endpoint := (s.endpoint.subscribe topic accepted).1 } := by
  obtain ⟨⟨m⟩, deliveries, received⟩ := s
  by_cases hmem : topic ∈ m
  · have hsame : (Internal.subscribe ⟨m⟩ topic accepted).1 = ⟨m⟩ := by
      rw [Internal.subscribe, if_pos hmem]
    dsimp only
    rw [hsame]
    exact h
  · have hnew : (Internal.subscribe ⟨m⟩ topic accepted).1 = ⟨m.insert topic ⟨[], 1024⟩⟩ := by
      rw [Internal.subscribe, if_neg hmem]
    dsimp only
    rw [hnew]
    refine ⟨?_, ?_, ?_⟩
    · intro topic' hmem'
      rcases (AList.mem_insert m).mp hmem' with rfl | hold
      · have hreceived : received.filter (fun r => r.1 = topic') = [] := by
          rw [List.filter_eq_nil_iff]
          intro r hr heq
          exact hmem (of_decide_eq_true heq ▸ h.received r hr)
        have haccepted : deliveries.filter (fun d => d.topic = topic') = [] := by
          rw [List.filter_eq_nil_iff]
          intro d hd heq
          exact hmem (of_decide_eq_true heq ▸ h.accepted d hd)
        dsimp only [receivedOn, acceptedOn]
        rw [hreceived, haccepted, Internal.pendingOn_insert_self]
        rfl
      · have hne : topic' ≠ topic := by
          rintro rfl
          exact hmem hold
        have hrouted := h.routed topic' hold
        dsimp only
        rw [Internal.pendingOn_insert_ne hne]
        exact hrouted
    · intro d hd
      exact (AList.mem_insert m).mpr (Or.inr (h.accepted d hd))
    · intro r hr
      exact (AList.mem_insert m).mpr (Or.inr (h.received r hr))

theorem Inv.recv (h : s.Inv) (topic : Topic) (message : MQTTMessage) :
    (s.recv topic message).Inv := by
  rcases recv_cases s topic message with heq | ⟨q, value, rest, hlookup, hitems, heq⟩
  · rw [heq]
    exact h
  · rw [heq]
    have hmem : topic ∈ s.endpoint.topicQueues := by
      rw [← AList.lookup_isSome, hlookup]
      rfl
    refine ⟨?_, ?_, ?_⟩
    · intro topic' hmem'
      rw [receivedOn_receive]
      by_cases htopic : topic = topic'
      · subst htopic
        have hrouted := h.routed topic hmem
        rw [Internal.pendingOn, hlookup] at hrouted
        dsimp only at hrouted
        rw [hitems] at hrouted
        rw [if_pos rfl, Internal.pendingOn_insert_self, List.append_assoc]
        exact hrouted
      · have hmem'' : topic' ∈ s.endpoint.topicQueues :=
          ((AList.mem_insert _).mp hmem').resolve_left (Ne.symm htopic)
        rw [if_neg htopic, List.append_nil, Internal.pendingOn_insert_ne (Ne.symm htopic)]
        exact h.routed topic' hmem''
    · intro d hd
      exact (AList.mem_insert _).mpr (Or.inr (h.accepted d hd))
    · intro r hr
      refine (AList.mem_insert _).mpr (Or.inr ?_)
      rcases List.mem_append.mp hr with hr | hr
      · exact h.received r hr
      · rw [List.mem_singleton.mp hr]
        exact hmem

/-- A message that is put into the queue of its own topic keeps the messages routed. -/
theorem Inv.accept (h : s.Inv) (hlookup : s.endpoint.topicQueues.lookup d.topic = some q) :
    Inv { s with
      endpoint := ⟨s.endpoint.topicQueues.insert d.topic
        { q with items := q.items ++ [d.toMessage d.topic] }⟩
      accepted := s.accepted ++ [d] } := by
  have hmem : d.topic ∈ s.endpoint.topicQueues := by
    rw [← AList.lookup_isSome, hlookup]
    rfl
  refine ⟨?_, ?_, ?_⟩
  · intro topic hmem'
    rw [acceptedOn_accept]
    by_cases htopic : d.topic = topic
    · subst htopic
      have hrouted := h.routed d.topic hmem
      rw [Internal.pendingOn, hlookup] at hrouted
      rw [if_pos rfl, Internal.pendingOn_insert_self, List.map_append, ← List.append_assoc]
      congr 1
    · have hmem'' : topic ∈ s.endpoint.topicQueues :=
        ((AList.mem_insert _).mp hmem').resolve_left (Ne.symm htopic)
      rw [if_neg htopic, List.append_nil, Internal.pendingOn_insert_ne (Ne.symm htopic)]
      exact h.routed topic hmem''
  · intro d' hd'
    refine (AList.mem_insert _).mpr (Or.inr ?_)
    rcases List.mem_append.mp hd' with hd' | hd'
    · exact h.accepted d' hd'
    · rw [List.mem_singleton.mp hd']
      exact hmem
  · intro r hr
    exact (AList.mem_insert _).mpr (Or.inr (h.received r hr))

/-- In the queue of another topic it does not. -/
theorem not_routed_accept (h : s.Inv) (hlookup : s.endpoint.topicQueues.lookup key = some q)
    (hne : d.topic ≠ key) : ¬ Routed { s with
      endpoint := ⟨s.endpoint.topicQueues.insert key
        { q with items := q.items ++ [d.toMessage key] }⟩
      accepted := s.accepted ++ [d] } := by
  intro hrouted
  have hmem : key ∈ s.endpoint.topicQueues := by
    rw [← AList.lookup_isSome, hlookup]
    rfl
  have hbefore := congrArg List.length (h.routed key hmem)
  have hafter := congrArg List.length
    (hrouted key ((AList.mem_insert _).mpr (Or.inr hmem)))
  rw [acceptedOn_accept, if_neg hne, List.append_nil, Internal.pendingOn_insert_self] at hafter
  rw [Internal.pendingOn, hlookup] at hbefore
  have hreceived : ({ s with
      endpoint := ⟨s.endpoint.topicQueues.insert key
        { q with items := q.items ++ [d.toMessage key] }⟩
      accepted := s.accepted ++ [d] } : Routing).receivedOn key = s.receivedOn key := rfl
  rw [hreceived] at hafter
  simp only [List.length_append, List.length_map, List.length_singleton] at hbefore hafter
  omega

/-! ## Every call -/

theorem Inv.arrive (h : s.Inv) (hnamed : s.Named (.arrive d)) : (s.arrive d).Inv := by
  rcases arrive_cases s d with ⟨-, heq⟩ | ⟨key, q, hkey, hlookup, hroom, heq⟩
  · rw [heq]
    exact h
  · rcases hnamed d rfl with hpos | ⟨-, hkeys⟩
    · rw [d.key_of_pos hpos] at hkey
      obtain rfl := Except.ok.inj hkey
      rw [heq]
      exact h.accept hlookup
    · exact absurd ⟨q, hlookup, hroom⟩ (hkeys key hkey)

theorem Inv.step {op : Op} {s' : Routing} (h : s.Inv) (hnamed : s.Named op)
    (hstep : s.step op = some s') : s'.Inv := by
  cases op with
  | subscribe topic accepted =>
    cases hstep
    exact h.subscribe topic accepted
  | arrive d =>
    cases hstep
    exact h.arrive hnamed
  | poll topic timeoutMs =>
    cases hstep
    exact h
  | recv topic message =>
    cases hstep
    exact h.recv topic message

/-- An arrival does what a subscriber relies on exactly if it has a length or cannot be taken. -/
theorem named_iff_routes_arrive (h : s.Inv) : s.Named (.arrive d) ↔ s.Routes (.arrive d) := by
  constructor
  · intro hnamed s' hs'
    cases hs'
    refine ⟨(h.arrive hnamed).routed, ?_⟩
    intro d' hd' hroom
    cases hd'
    rcases hnamed d rfl with hpos | ⟨hnone, -⟩
    · rcases arrive_cases s d with ⟨hkeys, -⟩ | ⟨key, q, -, -, -, heq⟩
      · exact absurd hroom (hkeys _ (d.key_of_pos hpos))
      · rw [heq]
    · exact absurd hroom hnone
  · intro hroutes d' hd'
    cases hd'
    by_cases hpos : 0 < d.topicLen
    · exact Or.inl hpos
    · obtain ⟨hrouted, haccepts⟩ := hroutes _ rfl
      have hkey_ne := d.key_ne_topic (by omega)
      rcases arrive_cases s d with ⟨hkeys, heq⟩ | ⟨key, q, hkey, hlookup, -, heq⟩
      · refine Or.inr ⟨?_, hkeys⟩
        intro hroom
        have hlen := congrArg List.length (haccepts d rfl hroom)
        rw [heq, List.length_append] at hlen
        exact absurd hlen (by simp)
      · rw [heq] at hrouted
        refine absurd hrouted (not_routed_accept h hlookup ?_)
        rintro rfl
        exact hkey_ne hkey

theorem named_iff_routes {op : Op} (h : s.Inv) : s.Named op ↔ s.Routes op := by
  have hother : (∀ d, op ≠ .arrive d) → (s.Named op ↔ s.Routes op) := by
    intro hne
    have hnamed : s.Named op := fun d hd => absurd hd (hne d)
    refine iff_of_true hnamed ?_
    intro s' hs'
    exact ⟨(h.step hnamed hs').routed, fun d hd => absurd hd (hne d)⟩
  cases op with
  | arrive d => exact named_iff_routes_arrive h
  | subscribe topic accepted => exact hother fun d => Op.noConfusion
  | poll topic timeoutMs => exact hother fun d => Op.noConfusion
  | recv topic message => exact hother fun d => Op.noConfusion

end Routing

/-- In every order of the calls, each of them routes the messages exactly if no message arrives
with a length of zero where it could be taken. -/
theorem routes_iff (ops : List Routing.Op) :
    Guarded Routing.step Routing.Named .init ops ↔ Guarded Routing.step Routing.Routes .init ops :=
  guarded_congr (fun _ _ h => Routing.named_iff_routes h)
    (fun _ _ _ h hnamed hstep => h.step hnamed hstep) Routing.inv_init

/-- `ab`, then a NUL. -/
def nulTerminated : Delivery := ⟨0, [0x61, 0x62, 0x00], 0, 1, [0x78]⟩

/-- A subscriber of `ab` gets nothing, and one of `a` would get the message. -/
theorem not_routes_nulTerminated : ¬ Guarded Routing.step Routing.Routes .init
    [.subscribe [0x61, 0x62] true, .arrive nulTerminated] := by
  rintro ⟨-, hrest⟩
  obtain ⟨hroutes, -⟩ := hrest _ rfl
  obtain ⟨-, haccepts⟩ := hroutes _ rfl
  have hroom : Internal.HasRoom ⟨(∅ : AList fun _ : Topic => Fifo).insert [0x61, 0x62] ⟨[], 1024⟩⟩
      nulTerminated.topic := ⟨⟨[], 1024⟩, rfl, Nat.succ_pos 1023⟩
  have haccepted := haccepts nulTerminated rfl hroom
  cases haccepted

end Csics.Net.MQTT
