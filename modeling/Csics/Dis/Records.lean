import Csics.Serialization.Direct

/-!
# The common records

The records that several PDUs share, from `include/csics/lvc/dis/PDUs.hpp`, with their
`serialize_wire` and `deserialize_direct` of `serde.hpp`. A float is its bit pattern, and an
enumeration with a fixed underlying type is that type.

For every record, `wire` is its byte string, `emits_wire` says that `serialize_wire` writes
it and `runs_wire` that `deserialize_direct` reads the record back from it.
-/

namespace Csics.Dis

open Base Serialization

/-- A `float`, and a `double`, as bit patterns. -/
abbrev FloatBits := UInt32

abbrev DoubleBits := UInt64

/-- The overloads of `serialize_wire` and `deserialize_direct`. -/
class Serde (α : Type) where
  serializeWire : Endian → α → Wire
  deserializeDirect : Endian → Get (Expected α)

export Serde (serializeWire deserializeDirect)

/-- A count in a byte. -/
theorem toNat_ofNat_eq_iff {n : Nat} : (UInt8.ofNat n).toNat = n ↔ n ≤ 255 := by
  rw [UInt8.toNat_ofNat']
  omega

/-! ## The PDU header -/

/-- `ProtocolVersion`. -/
abbrev ProtocolVersion := UInt8

/-- `IEEE_1278_1998`. -/
def ProtocolVersion.ieee1278_1998 : ProtocolVersion := 6

/-- `IEEE_1278_2012`. -/
def ProtocolVersion.ieee1278_2012 : ProtocolVersion := 7

structure PDUHeader where
  protocolVersion : ProtocolVersion
  exerciseId : UInt8
  pduType : UInt8
  timestamp : UInt32
  protocolFamily : UInt8
  status : UInt8
  deriving DecidableEq, Inhabited

/-- `serialize_pdu_header(s, bv_, pdu, pdu_size)`. -/
def serializePduHeader (host : Endian) (pdu : PDUHeader) (pduSize : Nat) : List Stmt :=
  [write host pdu.protocolVersion,
    write host pdu.exerciseId,
    write host pdu.pduType,
    write host pdu.protocolFamily,
    write host (be host pdu.timestamp),
    write host (be host (UInt16.ofNat pduSize)),
    write host pdu.status,
    pad 1]

def PDUHeader.deserializeDirect (host : Endian) : Get (Expected PDUHeader) := do
  let protocolVersion ← read UInt8 host
  let exerciseId ← read UInt8 host
  let pduType ← read UInt8 host
  let protocolFamily ← read UInt8 host
  let timestamp ← read (Be UInt32) host
  let pduLength ← read (Be UInt16) host
  let status ← read UInt8 host
  let _padding ← read UInt8 host
  if !protocolVersion.hasValue || !exerciseId.hasValue || !pduType.hasValue ||
      !protocolFamily.hasValue || !timestamp.hasValue || !pduLength.hasValue ||
      !status.hasValue then
    return unexpect
  return .ok {
    protocolVersion := ← deref protocolVersion
    exerciseId := ← deref exerciseId
    pduType := ← deref pduType
    timestamp := (← deref timestamp).native host
    protocolFamily := ← deref protocolFamily
    status := ← deref status }

/-- The bytes of the header; the length of the PDU is not a field of it. -/
def PDUHeader.wire (pdu : PDUHeader) (pduSize : Nat) : List UInt8 :=
  [[pdu.protocolVersion], [pdu.exerciseId], [pdu.pduType], [pdu.protocolFamily],
    Word.beBytes pdu.timestamp, Word.beBytes (UInt16.ofNat pduSize), [pdu.status],
    List.replicate 1 0].flatten

@[simp] theorem PDUHeader.length_wire (pdu : PDUHeader) (pduSize : Nat) :
    (pdu.wire pduSize).length = 12 := by simp [wire]

theorem writes_serializePduHeader (host : Endian) (pdu : PDUHeader) (pduSize : Nat) :
    WritesAll (serializePduHeader host pdu pduSize) (pdu.wire pduSize) :=
  .cons (writes_byte host _) <| .cons (writes_byte host _) <| .cons (writes_byte host _) <|
    .cons (writes_byte host _) <| .cons (writes_be host _) <| .cons (writes_be host _) <|
    .cons (writes_byte host _) <| .cons (writes_pad 1) .nil

theorem PDUHeader.runs_wire (host : Endian) (pdu : PDUHeader) (pduSize : Nat) :
    Runs (PDUHeader.deserializeDirect host) (pdu.wire pduSize) (.ok pdu) := by
  simp only [wire, List.flatten_cons, List.flatten_nil]
  refine (runs_read_byte host _).bind <| (runs_read_byte host _).bind <|
    (runs_read_byte host _).bind <| (runs_read_byte host _).bind <|
    (runs_read_be host _).bind <| (runs_read_be host _).bind <|
    (runs_read_byte host _).bind <| (runs_read host rfl).bind ?_
  simpa using runs_return pdu

/-! ## Identifiers -/

/-- `ID`, the type of entity, object and event identifiers. -/
structure EntityID where
  site : UInt16
  application : UInt16
  id : UInt16
  deriving DecidableEq, Inhabited

namespace EntityID

/-- The words of the record. -/
def words (pdu : EntityID) : List UInt16 := [pdu.site, pdu.application, pdu.id]

instance : Serde EntityID where
  serializeWire host pdu := writeWords host pdu.words
  deserializeDirect host := do
    match ← readWords UInt16 host 3 with
    | .ok [site, application, id] => return .ok ⟨site, application, id⟩
    | _ => return unexpect

def wire (pdu : EntityID) : List UInt8 := pdu.words.flatMap Word.beBytes

@[simp] theorem length_wire (pdu : EntityID) : pdu.wire.length = 6 := by
  simp [wire, words]

theorem emits_wire (host : Endian) (pdu : EntityID) : Emits (serializeWire host pdu) pdu.wire :=
  emits_writeWords host pdu.words

theorem runs_wire (host : Endian) (pdu : EntityID) :
    Runs (deserializeDirect host) pdu.wire (.ok pdu) := by
  rw [← List.append_nil pdu.wire]
  exact (runs_readWords host pdu.words).bind (runs_return pdu)

end EntityID

structure EntityType where
  kind : UInt8
  domain : UInt8
  country : UInt16
  category : UInt8
  subcategory : UInt8
  specific : UInt8
  extra : UInt8
  deriving DecidableEq, Inhabited

namespace EntityType

instance : Serde EntityType where
  serializeWire host entityType := record [
    write host entityType.kind,
    write host entityType.domain,
    write host (be host entityType.country),
    write host entityType.category,
    write host entityType.subcategory,
    write host entityType.specific,
    write host entityType.extra]
  deserializeDirect host := do
    let kind ← read UInt8 host
    let domain ← read UInt8 host
    let country ← read (Be UInt16) host
    let category ← read UInt8 host
    let subcategory ← read UInt8 host
    let specific ← read UInt8 host
    let extra ← read UInt8 host
    if !kind.hasValue || !domain.hasValue || !country.hasValue || !category.hasValue ||
        !subcategory.hasValue || !specific.hasValue || !extra.hasValue then
      return unexpect
    return .ok {
      kind := ← deref kind
      domain := ← deref domain
      country := (← deref country).native host
      category := ← deref category
      subcategory := ← deref subcategory
      specific := ← deref specific
      extra := ← deref extra }

def wire (pdu : EntityType) : List UInt8 :=
  [[pdu.kind], [pdu.domain], Word.beBytes pdu.country, [pdu.category], [pdu.subcategory],
    [pdu.specific], [pdu.extra]].flatten

@[simp] theorem length_wire (pdu : EntityType) : pdu.wire.length = 8 := by simp [wire]

theorem emits_wire (host : Endian) (pdu : EntityType) : Emits (serializeWire host pdu) pdu.wire :=
  emits_record <| .cons (writes_byte host _) <| .cons (writes_byte host _) <|
    .cons (writes_be host _) <| .cons (writes_byte host _) <| .cons (writes_byte host _) <|
    .cons (writes_byte host _) <| .cons (writes_byte host _) .nil

theorem runs_wire (host : Endian) (pdu : EntityType) :
    Runs (deserializeDirect host) pdu.wire (.ok pdu) := by
  simp only [wire, List.flatten_cons, List.flatten_nil]
  refine (runs_read_byte host _).bind <| (runs_read_byte host _).bind <|
    (runs_read_be host _).bind <| (runs_read_byte host _).bind <| (runs_read_byte host _).bind <|
    (runs_read_byte host _).bind <| (runs_read_byte host _).bind ?_
  simpa using runs_return pdu

end EntityType

/-! ## Vectors and angles -/

/-- `Vector` and `EntityCoordinates`. -/
structure Vec3 where
  x : FloatBits
  y : FloatBits
  z : FloatBits
  deriving DecidableEq, Inhabited

namespace Vec3

/-- The words of the record. -/
def words (pdu : Vec3) : List FloatBits := [pdu.x, pdu.y, pdu.z]

instance : Serde Vec3 where
  serializeWire host pdu := writeWords host pdu.words
  deserializeDirect host := do
    match ← readWords FloatBits host 3 with
    | .ok [x, y, z] => return .ok ⟨x, y, z⟩
    | _ => return unexpect

def wire (pdu : Vec3) : List UInt8 := pdu.words.flatMap Word.beBytes

@[simp] theorem length_wire (pdu : Vec3) : pdu.wire.length = 12 := by
  simp [wire, words]

theorem emits_wire (host : Endian) (pdu : Vec3) : Emits (serializeWire host pdu) pdu.wire :=
  emits_writeWords host pdu.words

theorem runs_wire (host : Endian) (pdu : Vec3) :
    Runs (deserializeDirect host) pdu.wire (.ok pdu) := by
  rw [← List.append_nil pdu.wire]
  exact (runs_readWords host pdu.words).bind (runs_return pdu)

end Vec3

structure WorldCoordinates where
  x : DoubleBits
  y : DoubleBits
  z : DoubleBits
  deriving DecidableEq, Inhabited

namespace WorldCoordinates

/-- The words of the record. -/
def words (pdu : WorldCoordinates) : List DoubleBits := [pdu.x, pdu.y, pdu.z]

instance : Serde WorldCoordinates where
  serializeWire host pdu := writeWords host pdu.words
  deserializeDirect host := do
    match ← readWords DoubleBits host 3 with
    | .ok [x, y, z] => return .ok ⟨x, y, z⟩
    | _ => return unexpect

def wire (pdu : WorldCoordinates) : List UInt8 := pdu.words.flatMap Word.beBytes

@[simp] theorem length_wire (pdu : WorldCoordinates) : pdu.wire.length = 24 := by
  simp [wire, words]

theorem emits_wire (host : Endian) (pdu : WorldCoordinates) :
    Emits (serializeWire host pdu) pdu.wire :=
  emits_writeWords host pdu.words

theorem runs_wire (host : Endian) (pdu : WorldCoordinates) :
    Runs (deserializeDirect host) pdu.wire (.ok pdu) := by
  rw [← List.append_nil pdu.wire]
  exact (runs_readWords host pdu.words).bind (runs_return pdu)

end WorldCoordinates

structure EulerAngles where
  psi : FloatBits
  theta : FloatBits
  phi : FloatBits
  deriving DecidableEq, Inhabited

namespace EulerAngles

/-- The words of the record. -/
def words (pdu : EulerAngles) : List FloatBits := [pdu.psi, pdu.theta, pdu.phi]

instance : Serde EulerAngles where
  serializeWire host pdu := writeWords host pdu.words
  deserializeDirect host := do
    match ← readWords FloatBits host 3 with
    | .ok [psi, theta, phi] => return .ok ⟨psi, theta, phi⟩
    | _ => return unexpect

def wire (pdu : EulerAngles) : List UInt8 := pdu.words.flatMap Word.beBytes

@[simp] theorem length_wire (pdu : EulerAngles) : pdu.wire.length = 12 := by
  simp [wire, words]

theorem emits_wire (host : Endian) (pdu : EulerAngles) : Emits (serializeWire host pdu) pdu.wire :=
  emits_writeWords host pdu.words

theorem runs_wire (host : Endian) (pdu : EulerAngles) :
    Runs (deserializeDirect host) pdu.wire (.ok pdu) := by
  rw [← List.append_nil pdu.wire]
  exact (runs_readWords host pdu.words).bind (runs_return pdu)

end EulerAngles

structure DISQuat where
  u0 : UInt16
  x : FloatBits
  y : FloatBits
  z : FloatBits
  deriving DecidableEq, Inhabited

namespace DISQuat

instance : Serde DISQuat where
  serializeWire host pdu := record [
    write host (be host pdu.u0),
    write host (be host pdu.x),
    write host (be host pdu.y),
    write host (be host pdu.z)]
  deserializeDirect host := do
    let u0 ← read (Be UInt16) host
    let x ← read (Be FloatBits) host
    let y ← read (Be FloatBits) host
    let z ← read (Be FloatBits) host
    if !u0.hasValue || !x.hasValue || !y.hasValue || !z.hasValue then
      return unexpect
    return .ok {
      u0 := (← deref u0).native host
      x := (← deref x).native host
      y := (← deref y).native host
      z := (← deref z).native host }

def wire (pdu : DISQuat) : List UInt8 :=
  [Word.beBytes pdu.u0, Word.beBytes pdu.x, Word.beBytes pdu.y, Word.beBytes pdu.z].flatten

@[simp] theorem length_wire (pdu : DISQuat) : pdu.wire.length = 14 := by simp [wire]

theorem emits_wire (host : Endian) (pdu : DISQuat) : Emits (serializeWire host pdu) pdu.wire :=
  emits_record <| .cons (writes_be host _) <| .cons (writes_be host _) <|
    .cons (writes_be host _) <| .cons (writes_be host _) .nil

theorem runs_wire (host : Endian) (pdu : DISQuat) :
    Runs (deserializeDirect host) pdu.wire (.ok pdu) := by
  simp only [wire, List.flatten_cons, List.flatten_nil]
  refine (runs_read_be host _).bind <| (runs_read_be host _).bind <| (runs_read_be host _).bind <|
    (runs_read_be host _).bind ?_
  simpa using runs_return pdu

end DISQuat

end Csics.Dis
