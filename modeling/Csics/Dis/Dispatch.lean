import Csics.Dis.Complete
import Mathlib.Data.List.Induction
import Mathlib.Logic.Function.Basic

/-!
# Dispatch

`DISDispatcher` of `include/csics/lvc/dis/DISDispatch.hpp`: a table of 255 functions, indexed
by the type of the PDU in the third byte of a datagram. A handler that takes bytes is stored
as it is; one that takes a PDU is wrapped into a function that decodes the datagram and calls
the handler with `*res`, whether `res` has a value or not.
-/

namespace Csics.Dis

open Base Serialization

/-- The classes that `on` is instantiated with. -/
inductive PDU where
  | entityState
  | electromagneticEmission
  | transmitter
  deriving DecidableEq, Repr

namespace PDU

def Value : PDU → Type
  | entityState => EntityStatePDU
  | electromagneticEmission => ElectromagneticEmissionPDU
  | transmitter => TransmitterPDU

instance : (p : PDU) → Serde p.Value
  | entityState => inferInstanceAs (Serde EntityStatePDU)
  | electromagneticEmission => inferInstanceAs (Serde ElectromagneticEmissionPDU)
  | transmitter => inferInstanceAs (Serde TransmitterPDU)

/-- `PDU::pdu_type`. -/
def pduType : PDU → Fin 255
  | entityState => 1
  | electromagneticEmission => 23
  | transmitter => 25

/-- The datagrams that the decoder of the class accepts. -/
def Complete : PDU → List UInt8 → Prop
  | entityState => EntityStatePDU.Complete
  | electromagneticEmission => ElectromagneticEmissionPDU.Complete
  | transmitter => TransmitterPDU.Complete

theorem decodes_iff (p : PDU) (host : Endian) (bs : List UInt8) :
    Decodes p.Value host bs ↔ p.Complete bs := by
  cases p with
  | entityState => exact EntityStatePDU.decodes_iff host bs
  | electromagneticEmission => exact ElectromagneticEmissionPDU.decodes_iff host bs
  | transmitter => exact TransmitterPDU.decodes_iff host bs

theorem pduType_injective {p q : PDU} (h : p.pduType = q.pduType) : p = q := by
  revert h
  cases p <;> cases q <;> decide

end PDU

/-! ## The dispatcher -/

/-- Why a dispatch has no result: a read behind the end of the datagram, a fault of a decoder,
or a handler that is called with the value of a result that has none. -/
inductive DispatchFault where
  | outOfBounds
  | decoder (fault : Fault)
  | emptyExpected
  deriving DecidableEq, Repr

/-- The argument of a handler. -/
inductive Argument where
  | bytes (bv : List UInt8)
  | pdu (p : PDU) (x : p.Value)

/-- A call of a handler; `ι` names the handlers. -/
structure Call (ι : Type) where
  handler : ι
  argument : Argument

/-- A handler that is invocable with `BufferView`, and one that is invocable with
`const PDU&`. -/
inductive Handler (ι : Type) where
  | bufferView (f : ι)
  | constPdu (f : ι)

/-- `dispatch_func`: the calls it makes. -/
abbrev DispatchFunc (ι : Type) := List UInt8 → Except DispatchFault (List (Call ι))

/-- `dispatch_table_`. -/
abbrev Table (ι : Type) := Fin 255 → DispatchFunc ι

section

variable {ι : Type}

/-- `no_op`. -/
def noOp : DispatchFunc ι := fun _ => .ok []

/-- The table of a new dispatcher. -/
def Table.init : Table ι := fun _ => noOp

/-- What `on<PDU>` stores for a handler. -/
def Handler.func (host : Endian) (p : PDU) : Handler ι → DispatchFunc ι
  | .bufferView f => fun bv => .ok [⟨f, .bytes bv⟩]
  | .constPdu f => fun bv =>
    match (deserializeDirect host : Get (Expected p.Value)).run bv with
    | .error fault => .error (.decoder fault)
    | .ok (.error _, _) => .error .emptyExpected
    | .ok (.ok pdu, _) => .ok [⟨f, .pdu p pdu⟩]

/-- `on<PDU>(func)`. -/
def Table.on (host : Endian) (table : Table ι) (p : PDU) (func : Handler ι) : Table ι :=
  Function.update table p.pduType (func.func host p)

/-- `pdu_type()` of `PDUHeaderView`. -/
def headerPduType (buffer : List UInt8) : Except DispatchFault UInt8 :=
  match buffer[2]? with
  | some byte => .ok byte
  | none => .error .outOfBounds

/-- `dispatch(bv)`. -/
def Table.dispatch (table : Table ι) (bv : List UInt8) : Except DispatchFault (List (Call ι)) :=
  if bv.length < 2 then .ok []
  else do
    let pduType ← headerPduType bv
    if h : pduType.toNat < 255 then table ⟨pduType.toNat, h⟩ bv else return []

/-! ## Registrations -/

/-- The table behind a sequence of calls of `on`. -/
def Table.build (host : Endian) (handlers : List (PDU × Handler ι)) : Table ι :=
  handlers.foldl (fun table r => table.on host r.1 r.2) .init

/-- The last handler that was registered for a class. -/
def registered (handlers : List (PDU × Handler ι)) (p : PDU) : Option (Handler ι) :=
  (handlers.reverse.find? fun r => r.1 = p).map (·.2)

theorem registered_concat (handlers : List (PDU × Handler ι)) (r : PDU × Handler ι) (p : PDU) :
    registered (handlers ++ [r]) p = if r.1 = p then some r.2 else registered handlers p := by
  rw [registered, List.reverse_concat, List.find?_cons]
  split
  · simp_all
  · simp_all [registered]

theorem Table.build_concat (host : Endian) (handlers : List (PDU × Handler ι))
    (r : PDU × Handler ι) :
    Table.build host (handlers ++ [r]) = (Table.build host handlers).on host r.1 r.2 :=
  List.foldl_concat ..

theorem Table.build_pduType (host : Endian) (handlers : List (PDU × Handler ι)) (p : PDU) :
    Table.build host handlers p.pduType =
      match registered handlers p with
      | some func => func.func host p
      | none => noOp := by
  induction handlers using List.reverseRecOn with
  | nil => rfl
  | append_singleton handlers r ih =>
    rw [Table.build_concat, Table.on, registered_concat]
    by_cases h : r.1 = p
    · rw [if_pos h, ← h, Function.update_self]
    · have hne : p.pduType ≠ r.1.pduType := fun h' => h (PDU.pduType_injective h').symm
      rw [if_neg h, Function.update_of_ne hne, ih]

theorem Table.build_of_ne (host : Endian) (handlers : List (PDU × Handler ι)) {i : Fin 255}
    (h : ∀ p : PDU, p.pduType ≠ i) : Table.build host handlers i = noOp := by
  induction handlers using List.reverseRecOn with
  | nil => rfl
  | append_singleton handlers r ih =>
    rw [Table.build_concat, Table.on, Function.update_of_ne (h r.1).symm, ih]

/-! ## Safety -/

/-- The dispatch reads no byte behind the datagram, and what a handler gets as a PDU is the
value that the datagram is decoded to. -/
def Safe (host : Endian) (table : Table ι) (bv : List UInt8) : Prop :=
  ∃ calls, table.dispatch bv = .ok calls ∧ ∀ call ∈ calls, ∀ p x, call.argument = .pdu p x →
    ∃ rest, (deserializeDirect host : Get (Expected p.Value)).run bv = .ok (.ok x, rest)

theorem Table.dispatch_of_lt (table : Table ι) {bv : List UInt8} (h : bv.length < 2) :
    table.dispatch bv = .ok [] := if_pos h

/-- The guard lets datagrams of two bytes through. -/
theorem Table.dispatch_of_eq (table : Table ι) {bv : List UInt8} (h : bv.length = 2) :
    table.dispatch bv = .error .outOfBounds := by
  match bv, h with
  | [_, _], _ => rfl

theorem Table.dispatch_of_gt (table : Table ι) {bv : List UInt8} (h : 2 < bv.length) :
    table.dispatch bv =
      if h : (bv.getD 2 0).toNat < 255 then table ⟨(bv.getD 2 0).toNat, h⟩ bv else .ok [] := by
  match bv, h with
  | a :: b :: c :: bv, _ =>
    have hle : ¬ (a :: b :: c :: bv).length < 2 := by
      simp only [List.length_cons]
      omega
    rw [Table.dispatch, if_neg hle]
    rfl

variable (host : Endian) {bv : List UInt8}

theorem Handler.func_of_complete {p : PDU} (f : ι) (h : p.Complete bv) :
    ∃ x rest, (deserializeDirect host : Get (Expected p.Value)).run bv = .ok (.ok x, rest) ∧
      (Handler.constPdu f).func host p bv = .ok [⟨f, .pdu p x⟩] := by
  obtain ⟨x, rest, hrun⟩ := (p.decodes_iff host bv).mpr h
  refine ⟨x, rest, hrun, ?_⟩
  rw [Handler.func]
  dsimp only
  rw [hrun]

theorem Handler.func_of_not_complete {p : PDU} (f : ι) (h : ¬ p.Complete bv) :
    ∃ fault, (Handler.constPdu f).func host p bv = .error fault := by
  rw [← p.decodes_iff host bv] at h
  rw [Handler.func]
  dsimp only
  split
  · exact ⟨_, rfl⟩
  · exact ⟨_, rfl⟩
  · rename_i x rest hrun
    exact absurd ⟨x, rest, hrun⟩ h

theorem safe_of_noOp {table : Table ι} (h : table.dispatch bv = .ok []) : Safe host table bv :=
  ⟨[], h, fun _ hcall => nomatch hcall⟩

/-- A datagram with the type of a class. -/
theorem safe_iff_of_pduType {table : Table ι} {p : PDU} {func : Option (Handler ι)}
    (h : table.dispatch bv = (match func with
      | some func => func.func host p
      | none => noOp) bv) :
    Safe host table bv ↔ ∀ f, func = some (.constPdu f) → p.Complete bv := by
  cases func with
  | none => exact ⟨fun _ f hf => (nomatch hf), fun _ => safe_of_noOp host h⟩
  | some func =>
    cases func with
    | bufferView f =>
      refine ⟨fun _ f hf => (nomatch hf), fun _ => ⟨_, h, ?_⟩⟩
      intro call hcall q x hx
      rw [List.mem_singleton.mp hcall] at hx
      cases hx
    | constPdu f =>
      constructor
      · intro ⟨calls, hrun, _⟩ _ _
        by_contra hp
        obtain ⟨fault, hfault⟩ := Handler.func_of_not_complete host f hp
        cases (h.symm.trans hrun).symm.trans hfault
      · intro hp
        obtain ⟨x, rest, hdecode, hcalls⟩ := Handler.func_of_complete host f (hp f rfl)
        refine ⟨_, h.trans hcalls, ?_⟩
        intro call hcall q y hy
        rw [List.mem_singleton.mp hcall] at hy
        cases hy
        exact ⟨rest, hdecode⟩

/-- A dispatch is safe when the datagram is not two bytes long and, if a handler of PDUs is
registered for its type, complete. -/
theorem safe_iff (host : Endian) (handlers : List (PDU × Handler ι)) (bv : List UInt8) :
    Safe host (Table.build host handlers) bv ↔ bv.length ≠ 2 ∧
      ∀ p f, registered handlers p = some (.constPdu f) → 3 ≤ bv.length →
        (bv.getD 2 0).toNat = p.pduType → p.Complete bv := by
  obtain hlt | heq | hgt := Nat.lt_trichotomy bv.length 2
  · have hsafe := safe_of_noOp host (Table.dispatch_of_lt (Table.build host handlers) hlt)
    exact ⟨fun _ => ⟨by omega, fun p f _ h3 _ => by omega⟩, fun _ => hsafe⟩
  · constructor
    · intro ⟨calls, hrun, _⟩
      rw [Table.dispatch_of_eq _ heq] at hrun
      cases hrun
    · exact fun h => absurd heq h.1
  · have hdispatch := Table.dispatch_of_gt (Table.build host handlers) hgt
    rw [and_iff_right (by omega)]
    by_cases hp : ∃ p : PDU, (bv.getD 2 0).toNat = p.pduType
    · obtain ⟨p, hp⟩ := hp
      have hlt : (bv.getD 2 0).toNat < 255 := by
        rw [hp]
        exact p.pduType.isLt
      have hindex : (⟨(bv.getD 2 0).toNat, hlt⟩ : Fin 255) = p.pduType := Fin.ext hp
      rw [dif_pos hlt, hindex, Table.build_pduType] at hdispatch
      rw [safe_iff_of_pduType host hdispatch]
      constructor
      · intro h q f hreg _ hq
        obtain rfl := PDU.pduType_injective (Fin.ext (hp.symm.trans hq))
        exact h f hreg
      · intro h f hreg
        exact h p f hreg hgt hp
    · have hnone (q : PDU) (h : (bv.getD 2 0).toNat < 255) :
          q.pduType ≠ ⟨(bv.getD 2 0).toNat, h⟩ :=
        fun heq => hp ⟨q, (congrArg Fin.val heq).symm⟩
      refine ⟨fun _ q _ _ _ hq => absurd ⟨q, hq⟩ hp, fun _ => safe_of_noOp host ?_⟩
      rw [hdispatch]
      split
      · rename_i hlt
        rw [Table.build_of_ne host handlers fun q => hnone q hlt]
        rfl
      · rfl

end

/-- A truncated entity state with a handler for it, and a datagram of two bytes. -/
theorem not_safe_truncated :
    ¬ Safe .little (Table.build .little [(.entityState, .constPdu ())]) [7, 0, 1] ∧
      ¬ Safe .little (Table.init : Table Unit) [7, 0] := by
  constructor
  · rintro ⟨calls, hrun, _⟩
    have hlen : ¬ PDU.Complete .entityState [7, 0, 1] := (by decide : ¬ EntityStatePDU.Complete _)
    obtain ⟨fault, hfault⟩ := Handler.func_of_not_complete .little () hlen
    have hdispatch : (Table.build .little [(.entityState, .constPdu ())]).dispatch [7, 0, 1] =
        (Handler.constPdu ()).func .little .entityState [7, 0, 1] := by
      rw [Table.dispatch_of_gt _ (by decide), dif_pos (by decide)]
      exact congrFun (Table.build_pduType .little _ .entityState) _
    cases (hdispatch.symm.trans hrun).symm.trans hfault
  · rintro ⟨calls, hrun, _⟩
    cases hrun

end Csics.Dis
