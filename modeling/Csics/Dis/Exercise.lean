import Csics.Base.Run
import Csics.Dis.Dispatch
import Csics.Dis.Hosts

/-!
# Exercises

Hosts of both byte orders, each with a `DISDispatcher`, that send entity states and emissions to
each other. What `serialize_wire` has written goes out as a datagram, and a datagram arrives at any
host at any time, any number of times or never.

In an ideal exercise the PDUs themselves arrive. `exercise_iff` tells when the datagrams are as good
as that. A transmitter is not sent: its encoder has no decoder that reads it back.
-/

namespace Csics.Dis

open Base Serialization

/-! ## What is sent -/

/-- A PDU that a host sends. -/
inductive Sent where
  | entityState (pdu : EntityStatePDU)
  | emission (pdu : ElectromagneticEmissionPDU)

namespace Sent

def kind : Sent → PDU
  | entityState _ => .entityState
  | emission _ => .electromagneticEmission

def value : (x : Sent) → x.kind.Value
  | entityState pdu => pdu
  | emission pdu => pdu

def header : Sent → PDUHeader
  | entityState pdu => pdu.header
  | emission pdu => pdu.header

/-- `pdu_size_calc(pdu)`. -/
def pduSizeCalc : Sent → Nat
  | entityState pdu => pdu.pduSizeCalc
  | emission pdu => pdu.pduSizeCalc

/-- `serialize(s, bv, pdu)`. -/
def serialize (host : Endian) : Sent → Wire
  | entityState pdu => serializeWire host pdu
  | emission pdu => serializeWire host pdu

def wire (host : Endian) : Sent → List UInt8
  | entityState pdu => pdu.wire host
  | emission pdu => pdu.wire

/-- The decoder of the other host gives the PDU back. -/
def Readable (host host' : Endian) : Sent → Prop
  | entityState pdu => pdu.Readable host host'
  | emission pdu => pdu.Recoverable

theorem writtenBytes_eq (host : Endian) (x : Sent) (mem : Mem) {bv : View}
    (h : x.pduSizeCalc ≤ bv.size) : writtenBytes (x.serialize host mem bv) = x.wire host := by
  cases x with
  | entityState pdu => exact pdu.writtenBytes_eq host mem h
  | emission pdu => exact pdu.writtenBytes_eq host mem h

/-- The PDU starts with its header. -/
theorem exists_wire (host : Endian) (x : Sent) :
    ∃ rest, x.wire host = x.header.wire x.pduSizeCalc ++ rest := by
  cases x with
  | entityState pdu =>
    simp only [wire, EntityStatePDU.wire, EntityStatePDU.wireAround, EntityStatePDU.headWire,
      List.flatten_cons, List.append_assoc]
    exact ⟨_, rfl⟩
  | emission pdu =>
    simp only [wire, ElectromagneticEmissionPDU.wire, ElectromagneticEmissionPDU.head,
      List.append_assoc]
    exact ⟨_, rfl⟩

end Sent

/-- What a handler compares of a PDU: of an entity state the selected reading of the union, of an
emission not whether a list without track jams is there. -/
def PDU.normal : (p : PDU) → p.Value → p.Value
  | entityState => EntityStatePDU.selected
  | electromagneticEmission => ElectromagneticEmissionPDU.canonical
  | transmitter => id

def Argument.normal : Argument → Argument
  | .bytes bv => .bytes bv
  | .pdu p x => .pdu p (p.normal x)

def Call.normal {ι : Type} (call : Call ι) : Call ι :=
  { call with argument := call.argument.normal }

/-! ## Exercises -/

section

variable {N ι : Type}

/-- What the hosts do, and the arrival of a datagram at a host. -/
inductive ExerciseOp (N ι : Type) where
  | on (host : N) (p : PDU) (func : Handler ι)
  | send (host : N) (x : Sent) (mem : Mem) (bv : View)
  | deliver (host : N) (datagram : Nat)

/-- A PDU is sent with the type of its class in the header, from a buffer that holds it. -/
def ExerciseOp.Proper : ExerciseOp N ι → Prop
  | .send _ x _ bv => x.header.pduType.toNat = x.kind.pduType ∧ x.pduSizeCalc ≤ bv.size
  | _ => True

/-- The dispatchers of the hosts, the datagrams that have been sent, and what the handlers have been
called with, arrival by arrival. -/
structure Exercise (N ι : Type) where
  tables : N → Table ι
  datagrams : List (List UInt8)
  calls : List (List (Call ι))

namespace Exercise

def init : Exercise N ι := ⟨fun _ => .init, [], []⟩

/-- `order` are the byte orders of the hosts. A dispatch that has no result ends the exercise. -/
def step [DecidableEq N] (order : N → Endian) (s : Exercise N ι) :
    ExerciseOp N ι → Option (Exercise N ι)
  | .on host p func =>
    some { s with
      tables := Function.update s.tables host ((s.tables host).on (order host) p func) }
  | .send host x mem bv =>
    some { s with datagrams := s.datagrams ++ [writtenBytes (x.serialize (order host) mem bv)] }
  | .deliver host datagram => do
    let bv ← s.datagrams[datagram]?
    let calls ← ((s.tables host).dispatch bv).toOption
    return { s with calls := s.calls ++ [calls] }

end Exercise

/-! ## Ideal exercises -/

/-- The arrival of a PDU, and the handler of its class. -/
structure Delivery (N ι : Type) where
  sender : N
  receiver : N
  pdu : Sent
  handler : Option (Handler ι)

/-- The handler is called with the PDU, or with the bytes of its sender. -/
def Delivery.calls (order : N → Endian) (d : Delivery N ι) : List (Call ι) :=
  match d.handler with
  | none => []
  | some (.bufferView f) => [⟨f, .bytes (d.pdu.wire (order d.sender))⟩]
  | some (.constPdu f) => [⟨f, .pdu d.pdu.kind d.pdu.value⟩]

/-- If the handler takes a PDU, the receiver reads what the sender has written. -/
def Delivery.Exact (order : N → Endian) (d : Delivery N ι) : Prop :=
  ∀ f, d.handler = some (.constPdu f) → d.pdu.Readable (order d.sender) (order d.receiver)

/-- The handlers of the hosts, the PDUs that have been sent, and their arrivals. -/
structure IdealExercise (N ι : Type) where
  handlers : N → PDU → Option (Handler ι)
  sent : List (N × Sent)
  deliveries : List (Delivery N ι)

namespace IdealExercise

def init : IdealExercise N ι := ⟨fun _ _ => none, [], []⟩

def step [DecidableEq N] (s : IdealExercise N ι) : ExerciseOp N ι → Option (IdealExercise N ι)
  | .on host p func =>
    some { s with
      handlers := Function.update s.handlers host
        (Function.update (s.handlers host) p (some func)) }
  | .send host x _ _ => some { s with sent := s.sent ++ [(host, x)] }
  | .deliver host datagram => do
    let (sender, x) ← s.sent[datagram]?
    return { s with deliveries := s.deliveries ++ [⟨sender, host, x, s.handlers host x.kind⟩] }

end IdealExercise

/-! ## One arrival -/

/-- The function that a handler is stored as, and the one of a new table. -/
def storedFunc (host : Endian) (p : PDU) : Option (Handler ι) → DispatchFunc ι
  | some func => func.func host p
  | none => noOp

/-- The decoder reads the PDU, up to what is not compared. -/
def PDU.Reads (p : PDU) (host : Endian) (bs : List UInt8) (x : p.Value) : Prop :=
  ∃ x' rest, (deserializeDirect host : Get (Expected p.Value)).run bs = .ok (.ok x', rest) ∧
    p.normal x' = p.normal x

/-- A handler of PDUs is called with what the decoder reads. -/
theorem constPdu_iff (host : Endian) (p : PDU) (f : ι) (bs : List UInt8) (x : p.Value) :
    (∃ calls, (Handler.constPdu f).func host p bs = .ok calls ∧
      calls.map Call.normal = [Call.normal ⟨f, .pdu p x⟩]) ↔ p.Reads host bs x := by
  rw [Handler.func, PDU.Reads]
  dsimp only
  split
  · rename_i fault hrun
    rw [hrun]
    simp
  · rename_i error rest hrun
    rw [hrun]
    simp
  · rename_i pdu rest hrun
    rw [hrun]
    simp [Call.normal, Argument.normal]

/-- An emission arrives if and only if its counts are found out. -/
theorem emission_reads_iff (host : Endian) (pdu : ElectromagneticEmissionPDU) :
    PDU.Reads .electromagneticEmission host pdu.wire pdu ↔ pdu.Recoverable := by
  constructor
  · intro ⟨pdu', rest, hrun, hsame⟩
    rw [← List.append_nil pdu.wire] at hrun
    exact pdu.recoverable_of_run host pdu' [] rest hrun hsame
  · intro h
    have hrun := pdu.runs_wire host h []
    rw [List.append_nil] at hrun
    exact ⟨_, _, hrun, pdu.canonical_canonical⟩

theorem Sent.reads_iff (host host' : Endian) (x : Sent) :
    x.kind.Reads host' (x.wire host) x.value ↔ x.Readable host host' := by
  cases x with
  | entityState pdu => exact EntityStatePDU.reads_iff
  | emission pdu => exact emission_reads_iff host' pdu

/-- The dispatcher finds the handler of the class. -/
theorem dispatch_wire {host host' : Endian} {table : Table ι} {x : Sent}
    {handler : Option (Handler ι)} (htype : x.header.pduType.toNat = x.kind.pduType)
    (htable : table x.kind.pduType = storedFunc host' x.kind handler) :
    table.dispatch (x.wire host) = storedFunc host' x.kind handler (x.wire host) := by
  obtain ⟨rest, hwire⟩ := x.exists_wire host
  have hlen : 2 < (x.wire host).length := by
    rw [hwire, List.length_append, PDUHeader.length_wire]
    omega
  have hbyte : (x.wire host).getD 2 0 = x.header.pduType := by
    rw [hwire]
    rfl
  have hlt : x.header.pduType.toNat < 255 := by
    rw [htype]
    exact x.kind.pduType.isLt
  have hindex : (⟨x.header.pduType.toNat, hlt⟩ : Fin 255) = x.kind.pduType := Fin.ext htype
  rw [Table.dispatch_of_gt _ hlen, hbyte, dif_pos hlt, hindex, htable]

/-- An arrival makes the calls that it should make if and only if it is exact. -/
theorem deliver_iff (order : N → Endian) {table : Table ι} (d : Delivery N ι)
    (htype : d.pdu.header.pduType.toNat = d.pdu.kind.pduType)
    (htable : table d.pdu.kind.pduType =
      storedFunc (order d.receiver) d.pdu.kind d.handler) :
    (∃ calls, table.dispatch (d.pdu.wire (order d.sender)) = .ok calls ∧
      calls.map Call.normal = (d.calls order).map Call.normal) ↔ d.Exact order := by
  rw [dispatch_wire htype htable, Delivery.calls, Delivery.Exact]
  cases d.handler with
  | none => exact iff_of_true ⟨[], rfl, rfl⟩ nofun
  | some func =>
    cases func with
    | bufferView f => exact iff_of_true ⟨_, rfl, rfl⟩ nofun
    | constPdu f =>
      rw [storedFunc]
      refine (constPdu_iff _ _ f _ _).trans ((d.pdu.reads_iff _ _).trans ?_)
      exact ⟨fun h _ _ => h, fun h => h f rfl⟩

end

/-! ## Runs -/

section

variable {N ι : Type} {order : N → Endian} {s s' : Exercise N ι} {t t' : IdealExercise N ι}
  {op : ExerciseOp N ι}

/-- The exercise is where the ideal one is, but for what has arrived. -/
structure Mirrors (order : N → Endian) (s : Exercise N ι) (t : IdealExercise N ι) : Prop where
  tables : ∀ host p, s.tables host p.pduType = storedFunc (order host) p (t.handlers host p)
  datagrams : s.datagrams = t.sent.map fun e => e.2.wire (order e.1)
  proper : ∀ e ∈ t.sent, e.2.header.pduType.toNat = e.2.kind.pduType

/-- Arrival by arrival the handlers have been called as they should. -/
def Agrees (order : N → Endian) (s : Exercise N ι) (t : IdealExercise N ι) : Prop :=
  s.calls.map (List.map Call.normal) =
    t.deliveries.map fun d => (d.calls order).map Call.normal

theorem mirrors_init : Mirrors order (.init : Exercise N ι) .init := by
  constructor
  case tables => intro host p; rfl
  case datagrams => rfl
  case proper => exact List.forall_mem_nil _

theorem Table.on_pduType (host : Endian) (table : Table ι) (p q : PDU) (func : Handler ι) :
    table.on host p func q.pduType =
      if q = p then func.func host p else table q.pduType := by
  by_cases h : q = p
  · rw [if_pos h, h, Table.on, Function.update_self]
  · have hne : q.pduType ≠ p.pduType := fun h' => h (PDU.pduType_injective h')
    rw [if_neg h, Table.on, Function.update_of_ne hne]

variable [DecidableEq N]

theorem Mirrors.step (h : Mirrors order s t) (hproper : op.Proper)
    (hs : Exercise.step order s op = some s') (ht : IdealExercise.step t op = some t') :
    Mirrors order s' t' := by
  obtain ⟨htables, hdatagrams, hsent⟩ := h
  cases op with
  | on host p func =>
    cases hs
    cases ht
    refine ⟨?_, hdatagrams, hsent⟩
    intro host' q
    by_cases hhost : host' = host
    · subst hhost
      simp only [Function.update_self, Table.on_pduType]
      by_cases hq : q = p
      · subst hq
        rw [if_pos rfl, Function.update_self]
        rfl
      · rw [if_neg hq, Function.update_of_ne hq]
        exact htables host' q
    · simp only [Function.update_of_ne hhost]
      exact htables host' q
  | send host x mem bv =>
    cases hs
    cases ht
    refine ⟨htables, ?_, ?_⟩
    · rw [List.map_append, List.map_singleton, hdatagrams, x.writtenBytes_eq _ mem hproper.2]
    · intro e he
      rcases List.mem_append.mp he with he | he
      · exact hsent e he
      · rw [List.mem_singleton.mp he]
        exact hproper.1
  | deliver host datagram =>
    obtain ⟨bv, -, hs⟩ := Option.bind_eq_some_iff.mp hs
    obtain ⟨calls, -, hs⟩ := Option.bind_eq_some_iff.mp hs
    obtain ⟨e, -, ht⟩ := Option.bind_eq_some_iff.mp ht
    cases hs
    cases ht
    exact ⟨htables, hdatagrams, hsent⟩

theorem IdealExercise.exists_deliveries (h : IdealExercise.step t op = some t') :
    ∃ ds, t'.deliveries = t.deliveries ++ ds := by
  cases op with
  | on host p func | send host x mem bv =>
    cases h
    exact ⟨[], (List.append_nil _).symm⟩
  | deliver host datagram =>
    obtain ⟨e, -, h⟩ := Option.bind_eq_some_iff.mp h
    cases h
    exact ⟨_, rfl⟩

/-- An arrival, once the datagram is there. -/
theorem Exercise.step_deliver_iff {host : N} {datagram : Nat} {bv : List UInt8}
    (hbv : s.datagrams[datagram]? = some bv) :
    Exercise.step order s (.deliver host datagram) = some s' ↔
      ∃ calls, (s.tables host).dispatch bv = .ok calls ∧
        { s with calls := s.calls ++ [calls] } = s' := by
  rw [Exercise.step, hbv, Option.bind_eq_bind, Option.bind_some]
  cases (s.tables host).dispatch bv with
  | error fault => simp [Except.toOption]
  | ok calls => simp [Except.toOption]

/-- A step of the ideal exercise is also one of the exercise, with calls that agree, if and only if
what arrives in it is exact. -/
theorem step_iff (h : Mirrors order s t) (hstep : IdealExercise.step t op = some t')
    {ds : List (Delivery N ι)} (hds : t'.deliveries = t.deliveries ++ ds) :
    (∃ s', Exercise.step order s op = some s' ∧ Agrees order s' t') ↔
      Agrees order s t ∧ ∀ d ∈ ds, d.Exact order := by
  obtain ⟨htables, hdatagrams, hsent⟩ := h
  cases op with
  | on host p func | send host x mem bv =>
    cases hstep
    obtain rfl := List.append_cancel_left ((List.append_nil _).trans hds)
    rw [and_iff_left (List.forall_mem_nil _)]
    constructor
    · rintro ⟨s', hs, hagrees⟩
      cases hs
      exact hagrees
    · intro hagrees
      exact ⟨_, rfl, hagrees⟩
  | deliver host datagram =>
    obtain ⟨⟨sender, x⟩, hx, hstep⟩ := Option.bind_eq_some_iff.mp hstep
    cases hstep
    obtain rfl := List.append_cancel_left hds
    have hbv : s.datagrams[datagram]? = some (x.wire (order sender)) := by
      rw [hdatagrams, List.getElem?_map, hx]
      rfl
    have hdeliver := deliver_iff order ⟨sender, host, x, t.handlers host x.kind⟩
      (hsent _ (List.mem_of_getElem? hx)) (htables host x.kind)
    rw [List.forall_mem_singleton, ← hdeliver]
    simp only [Exercise.step_deliver_iff hbv]
    constructor
    · rintro ⟨s', ⟨calls, hcalls, rfl⟩, hagrees⟩
      rw [Agrees, List.map_append, List.map_append, List.map_singleton, List.map_singleton,
        List.append_singleton_inj] at hagrees
      exact ⟨hagrees.1, calls, hcalls, hagrees.2⟩
    · rintro ⟨hagrees, calls, hcalls, hsame⟩
      refine ⟨_, ⟨calls, hcalls, rfl⟩, ?_⟩
      rw [Agrees, List.map_append, List.map_append, List.map_singleton, List.map_singleton,
        List.append_singleton_inj]
      exact ⟨hagrees, hsame⟩

theorem mirrors_run {ops : List (ExerciseOp N ι)} (hproper : ∀ op ∈ ops, op.Proper)
    (hs : run (Exercise.step order) .init ops = some s)
    (ht : run IdealExercise.step .init ops = some t) :
    Mirrors order s t := by
  induction ops using List.reverseRecOn generalizing s t with
  | nil =>
    cases hs
    cases ht
    exact mirrors_init
  | append_singleton ops op ih =>
    obtain ⟨s₀, hs₀, hs⟩ := run_concat_eq_some.mp hs
    obtain ⟨t₀, ht₀, ht⟩ := run_concat_eq_some.mp ht
    have hmirrors := ih (fun op' hop' => hproper op' (List.mem_append_left _ hop')) hs₀ ht₀
    exact hmirrors.step (hproper op (List.mem_append_right _ (List.mem_singleton_self op))) hs ht

/-- In every run of registrations, sends and arrivals, no dispatch is undefined and the handlers are
called as if the PDUs themselves had arrived, if and only if every PDU that arrives at a handler of
PDUs is readable between the two hosts. -/
theorem exercise_iff {ops : List (ExerciseOp N ι)} (hproper : ∀ op ∈ ops, op.Proper)
    (ht : run IdealExercise.step .init ops = some t) :
    (∃ s, run (Exercise.step order) .init ops = some s ∧ Agrees order s t) ↔
      ∀ d ∈ t.deliveries, d.Exact order := by
  induction ops using List.reverseRecOn generalizing t with
  | nil =>
    cases ht
    exact iff_of_true ⟨_, rfl, rfl⟩ (List.forall_mem_nil _)
  | append_singleton ops op ih =>
    obtain ⟨t₀, ht₀, ht⟩ := run_concat_eq_some.mp ht
    have hproper₀ : ∀ op ∈ ops, op.Proper := fun op' hop' =>
      hproper op' (List.mem_append_left _ hop')
    have hrun := ih hproper₀ ht₀
    obtain ⟨ds, hds⟩ := IdealExercise.exists_deliveries ht
    rw [hds, List.forall_mem_append, ← hrun]
    constructor
    · rintro ⟨s, hs, hagrees⟩
      obtain ⟨s₀, hs₀, hs⟩ := run_concat_eq_some.mp hs
      have hstep := step_iff (mirrors_run hproper₀ hs₀ ht₀) ht hds
      obtain ⟨hagrees₀, hexact⟩ := hstep.mp ⟨s, hs, hagrees⟩
      exact ⟨⟨s₀, hs₀, hagrees₀⟩, hexact⟩
    · rintro ⟨⟨s₀, hs₀, hagrees₀⟩, hexact⟩
      have hstep := step_iff (mirrors_run hproper₀ hs₀ ht₀) ht hds
      obtain ⟨s, hs, hagrees⟩ := hstep.mpr ⟨hagrees₀, hexact⟩
      exact ⟨s, run_concat_eq_some.mpr ⟨s₀, hs₀, hs⟩, hagrees⟩

end

/-! ## Two hosts -/

/-- A little-endian host and a big-endian one. -/
def hostOrder (host : Bool) : Endian := if host then .big else .little

/-- An appearance that is a palindrome, and dead reckoning with local angles. -/
def EntityStatePDU.seen : EntityStatePDU :=
  { (default : EntityStatePDU) with
    header := { (default : PDUHeader) with protocolVersion := 7, pduType := 1 }
    entityAppearance := 0x12343412
    drParameters := { (default : DeadReckoningParameters) with paramsType := 1 } }

def ElectromagneticEmissionPDU.silent : ElectromagneticEmissionPDU :=
  { (default : ElectromagneticEmissionPDU) with
    header := { (default : PDUHeader) with protocolVersion := 7, pduType := 23 } }

/-- An entity state that arrives twice, and an emission that arrives before its handler is there and
behind it. -/
def twoHosts : List (ExerciseOp Bool Unit) :=
  [.on true .entityState (.constPdu ()), .send false (.entityState .seen) (fun _ => 0) ⟨4096, 144⟩,
    .deliver true 0, .send true (.emission .silent) (fun _ => 0) ⟨4096, 28⟩, .deliver false 1,
    .on false .electromagneticEmission (.constPdu ()), .deliver true 0, .deliver false 1]

theorem exercise_iff_twoHosts : ∃ t, run IdealExercise.step .init twoHosts = some t ∧
    t.deliveries.length = 4 ∧
    ∃ s, run (Exercise.step hostOrder) .init twoHosts = some s ∧ Agrees hostOrder s t := by
  refine ⟨_, rfl, rfl, (exercise_iff ?_ rfl).mpr ?_⟩
  · simp only [twoHosts, List.forall_mem_cons, ExerciseOp.Proper, true_and]
    exact ⟨by decide, by decide, List.forall_mem_nil _⟩
  · have hseen : EntityStatePDU.seen.Readable .little .big :=
      ⟨Or.inr (by decide), by decide, Or.inl rfl⟩
    have hsilent : ElectromagneticEmissionPDU.silent.Recoverable :=
      ElectromagneticEmissionPDU.Fits.recoverable (by decide)
    refine List.forall_mem_cons.mpr ⟨fun _ _ => hseen, List.forall_mem_cons.mpr ⟨?_, ?_⟩⟩
    · intro f hf
      cases hf
    · exact List.forall_mem_cons.mpr ⟨fun _ _ => hseen,
        List.forall_mem_singleton.mpr fun _ _ => hsilent⟩

end Csics.Dis
