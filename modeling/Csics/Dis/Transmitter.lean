import Csics.Dis.Records

/-!
# Transmitter

`TransmitterPDU` with its radio type, antenna patterns and variable parameters. The union of
the two radio types is kept as its two readings, selected by the protocol version. The
encoder pads the cursor `bv` of its caller where it should pad `bv_`, and the decoder turns
the result of reading the count of the variable parameters into a number, not its value.
-/

namespace Csics.Dis

open Base Serialization

/-! ## The radio type -/

structure RadioType6 where
  entityKind : UInt8
  domain : UInt8
  countryCode : UInt16
  nomenclatureVersion : UInt8
  nomenclature : UInt16
  deriving DecidableEq, Inhabited

structure RadioType7 where
  entityKind : UInt8
  domain : UInt8
  countryCode : UInt16
  category : UInt8
  subcategory : UInt8
  specific : UInt8
  extra : UInt8
  deriving DecidableEq, Inhabited

/-- The union of the radio types. -/
structure RadioType where
  dis6 : RadioType6
  dis7 : RadioType7
  deriving DecidableEq, Inhabited

namespace RadioType

/-- `serialize_radio_type(s, bv, pdu, protocol_version)`. -/
def serialize (host : Endian) (pdu : RadioType) (protocolVersion : ProtocolVersion) : Wire :=
  if protocolVersion = .ieee1278_1998 then
    record [
      write host pdu.dis6.entityKind,
      write host pdu.dis6.domain,
      write host (be host pdu.dis6.countryCode),
      write host pdu.dis6.nomenclatureVersion,
      write host (be host pdu.dis6.nomenclature)]
  else if protocolVersion = .ieee1278_2012 then
    record [
      write host pdu.dis7.entityKind,
      write host pdu.dis7.domain,
      write host (be host pdu.dis7.countryCode),
      write host pdu.dis7.category,
      write host pdu.dis7.subcategory,
      write host pdu.dis7.specific,
      write host pdu.dis7.extra]
  else fun mem bv =>
    let (res, mem) := record [pad 8] mem bv
    ({ res with status := .nonFatalError }, mem)

/-- `deserialize_radio_type(d, protocol_version)`. -/
def deserialize (host : Endian) (protocolVersion : ProtocolVersion) : Get (Expected RadioType) :=
  if protocolVersion = .ieee1278_1998 then do
    let entityKind ← read UInt8 host
    let domain ← read UInt8 host
    let countryCode ← read (Be UInt16) host
    let nomenclatureVersion ← read UInt8 host
    let nomenclature ← read (Be UInt16) host
    if !entityKind.hasValue || !domain.hasValue || !countryCode.hasValue ||
        !nomenclatureVersion.hasValue || !nomenclature.hasValue then
      return unexpect
    return .ok { (default : RadioType) with
      dis6 := {
        entityKind := ← deref entityKind
        domain := ← deref domain
        countryCode := (← deref countryCode).native host
        nomenclatureVersion := ← deref nomenclatureVersion
        nomenclature := (← deref nomenclature).native host } }
  else if protocolVersion = .ieee1278_2012 then do
    let entityKind ← read UInt8 host
    let domain ← read UInt8 host
    let countryCode ← read (Be UInt16) host
    let category ← read UInt8 host
    let subcategory ← read UInt8 host
    let specific ← read UInt8 host
    let extra ← read UInt8 host
    if !entityKind.hasValue || !domain.hasValue || !countryCode.hasValue ||
        !category.hasValue || !subcategory.hasValue || !specific.hasValue || !extra.hasValue then
      return unexpect
    return .ok { (default : RadioType) with
      dis7 := {
        entityKind := ← deref entityKind
        domain := ← deref domain
        countryCode := (← deref countryCode).native host
        category := ← deref category
        subcategory := ← deref subcategory
        specific := ← deref specific
        extra := ← deref extra } }
  else
    return unexpect

/-- The radio type with only the reading for the protocol version. -/
def selected (pdu : RadioType) (protocolVersion : ProtocolVersion) : RadioType where
  dis6 := if protocolVersion = .ieee1278_1998 then pdu.dis6 else default
  dis7 := if protocolVersion = .ieee1278_2012 then pdu.dis7 else default

/-- The number of bytes of a radio type. -/
def wireSize (protocolVersion : ProtocolVersion) : Nat :=
  if protocolVersion = .ieee1278_1998 then 7 else 8

def wire6 (pdu : RadioType6) : List UInt8 :=
  [[pdu.entityKind], [pdu.domain], Word.beBytes pdu.countryCode, [pdu.nomenclatureVersion],
    Word.beBytes pdu.nomenclature].flatten

def wire7 (pdu : RadioType7) : List UInt8 :=
  [[pdu.entityKind], [pdu.domain], Word.beBytes pdu.countryCode, [pdu.category],
    [pdu.subcategory], [pdu.specific], [pdu.extra]].flatten

def wire (pdu : RadioType) (protocolVersion : ProtocolVersion) : List UInt8 :=
  if protocolVersion = .ieee1278_1998 then wire6 pdu.dis6 else wire7 pdu.dis7

theorem length_wire (pdu : RadioType) (protocolVersion : ProtocolVersion) :
    (pdu.wire protocolVersion).length = wireSize protocolVersion := by
  unfold wire wireSize
  split
  · simp [wire6]
  · simp [wire7]

theorem emits_wire (host : Endian) (pdu : RadioType) {protocolVersion : ProtocolVersion}
    (h : protocolVersion = .ieee1278_1998 ∨ protocolVersion = .ieee1278_2012) :
    Emits (pdu.serialize host protocolVersion) (pdu.wire protocolVersion) := by
  unfold serialize wire
  by_cases h6 : protocolVersion = .ieee1278_1998
  · rw [if_pos h6, if_pos h6]
    exact emits_record <| .cons (writes_byte host _) <| .cons (writes_byte host _) <|
      .cons (writes_be host _) <| .cons (writes_byte host _) <| .cons (writes_be host _) .nil
  · rw [if_neg h6, if_neg h6, if_pos (h.resolve_left h6)]
    exact emits_record <| .cons (writes_byte host _) <| .cons (writes_byte host _) <|
      .cons (writes_be host _) <| .cons (writes_byte host _) <| .cons (writes_byte host _) <|
      .cons (writes_byte host _) <| .cons (writes_byte host _) .nil

end RadioType

/-! ## Modulation and antennas -/

structure ModulationType where
  spreadSpectrum : UInt16
  majorModulation : UInt16
  detailModulation : UInt16
  radioSystem : UInt16
  deriving DecidableEq, Inhabited

namespace ModulationType

/-- The words of the record. -/
def words (pdu : ModulationType) : List UInt16 :=
  [pdu.spreadSpectrum, pdu.majorModulation, pdu.detailModulation, pdu.radioSystem]

instance : Serde ModulationType where
  serializeWire host pdu := writeWords host pdu.words
  deserializeDirect host := do
    match ← readWords UInt16 host 4 with
    | .ok [spreadSpectrum, majorModulation, detailModulation, radioSystem] =>
      return .ok ⟨spreadSpectrum, majorModulation, detailModulation, radioSystem⟩
    | _ => return unexpect

def wire (pdu : ModulationType) : List UInt8 := pdu.words.flatMap Word.beBytes

@[simp] theorem length_wire (pdu : ModulationType) : pdu.wire.length = 8 := by
  simp [wire, words]

theorem emits_wire (host : Endian) (pdu : ModulationType) :
    Emits (serializeWire host pdu) pdu.wire := emits_writeWords host pdu.words

end ModulationType

structure BeamAntennaPattern where
  beamDirection : EulerAngles
  azimuthBeamwidth : FloatBits
  elevationBeamwidth : FloatBits
  referenceSystem : UInt8
  eZ : FloatBits
  eX : FloatBits
  phase : FloatBits
  deriving DecidableEq, Inhabited

namespace BeamAntennaPattern

def deserialize (host : Endian) : Get (Expected BeamAntennaPattern) := do
  let beamDirection ← deserializeDirect host
  let azimuthBeamwidth ← read (Be FloatBits) host
  let elevationBeamwidth ← read (Be FloatBits) host
  let referenceSystem ← read UInt8 host
  let _padding ← skip 3
  let eZ ← read (Be FloatBits) host
  let eX ← read (Be FloatBits) host
  let phase ← read (Be FloatBits) host
  let _padding ← skip 4
  if !beamDirection.hasValue || !azimuthBeamwidth.hasValue || !elevationBeamwidth.hasValue ||
      !referenceSystem.hasValue || !eZ.hasValue || !eX.hasValue || !phase.hasValue then
    return unexpect
  return .ok {
    beamDirection := ← deref beamDirection
    azimuthBeamwidth := (← deref azimuthBeamwidth).native host
    elevationBeamwidth := (← deref elevationBeamwidth).native host
    referenceSystem := ← deref referenceSystem
    eZ := (← deref eZ).native host
    eX := (← deref eX).native host
    phase := (← deref phase).native host }

instance : Serde BeamAntennaPattern where
  serializeWire host pdu := record [
    nested (serializeWire host pdu.beamDirection),
    write host (be host pdu.azimuthBeamwidth),
    write host (be host pdu.elevationBeamwidth),
    write host pdu.referenceSystem,
    pad 3,
    write host (be host pdu.eZ),
    write host (be host pdu.eX),
    write host (be host pdu.phase),
    pad 4]
  deserializeDirect host := deserialize host

def wire (pdu : BeamAntennaPattern) : List UInt8 :=
  [pdu.beamDirection.wire, Word.beBytes pdu.azimuthBeamwidth, Word.beBytes pdu.elevationBeamwidth,
    [pdu.referenceSystem], List.replicate 3 0, Word.beBytes pdu.eZ, Word.beBytes pdu.eX,
    Word.beBytes pdu.phase, List.replicate 4 0].flatten

@[simp] theorem length_wire (pdu : BeamAntennaPattern) : pdu.wire.length = 40 := by simp [wire]

theorem emits_wire (host : Endian) (pdu : BeamAntennaPattern) :
    Emits (serializeWire host pdu) pdu.wire :=
  emits_record <| .cons (writes_nested (EulerAngles.emits_wire host _)) <|
    .cons (writes_be host _) <| .cons (writes_be host _) <| .cons (writes_byte host _) <|
    .cons (writes_pad 3) <| .cons (writes_be host _) <| .cons (writes_be host _) <|
    .cons (writes_be host _) <| .cons (writes_pad 4) .nil

end BeamAntennaPattern

/-! ## Variable parameters -/

structure VariableTransmitterParameters where
  type : UInt32
  data : List UInt8
  deriving DecidableEq, Inhabited

namespace VariableTransmitterParameters

/-- `(8 - n % 8) % 8`, the bytes from `n` to the next multiple of eight. -/
def paddingOf (n : Nat) : Nat := (8 - n % 8) % 8

/-- `required_padding`. -/
def requiredPadding (pdu : VariableTransmitterParameters) : Nat := paddingOf pdu.data.length

/-- The body of the loop over the variable parameters. -/
def serialize (host : Endian) (pdu : VariableTransmitterParameters) : List Stmt :=
  [write host (be host pdu.type),
    write host (be host (UInt16.ofNat (6 + pdu.data.length + pdu.requiredPadding)))] ++
  pdu.data.map (fun byte => write host byte) ++ [padCaller pdu.requiredPadding]

/-- `length->native() - 6`, an `int` that is converted to `size_t`. -/
def dataLength (length : UInt16) : Nat := (((length.toNat : Int) - 6) % 2 ^ 64).toNat

/-- The body of the loop over the variable parameters. -/
def deserialize (host : Endian) : Get (Expected VariableTransmitterParameters) := do
  let type ← read (Be UInt32) host
  let length ← read (Be UInt16) host
  let _padding ← read UInt16 host
  if !type.hasValue || !length.hasValue then
    return unexpect
  let dataLength := dataLength ((← deref length).native host)
  match ← Parser.many (read UInt8 host) dataLength with
  | none => return unexpect
  | some data =>
    let padding := paddingOf ((6 + dataLength) % 2 ^ 64)
    if padding > 0 then
      let _padding ← skip padding
    return .ok ⟨(← deref type).native host, data⟩

/-- The bytes of a record and the padding do not go the same way. -/
theorem shifts_serialize (host : Endian) (pdu : VariableTransmitterParameters) :
    Shifts (pdu.serialize host) (6 + pdu.data.length) pdu.requiredPadding := by
  have hlength := writes_be host (UInt16.ofNat (6 + pdu.data.length + pdu.requiredPadding))
  have hdata : WritesAll (pdu.data.map fun byte => write host byte) pdu.data := .map_byte host _
  have h := (Shifts.of_writesAll (.append (.cons (writes_be host pdu.type) (.cons hlength .nil))
    hdata)).append (.padCaller pdu.requiredPadding)
  rw [List.length_append, List.length_append, List.length_append, Word.length_beBytes,
    Word.length_beBytes, Nat.zero_add] at h
  exact h

end VariableTransmitterParameters

/-! ## The PDU -/

structure TransmitterPDU where
  header : PDUHeader
  radioReferenceId : EntityID
  radioNumber : UInt16
  radioType : RadioType
  transmitState : UInt8
  inputSource : UInt8
  antennaLocation : WorldCoordinates
  relativeAntennaLocation : Vec3
  antennaPatternType : UInt16
  centerFrequency : UInt64
  transmitFrequencyBandwidth : FloatBits
  power : FloatBits
  modulationType : ModulationType
  cryptoSystem : UInt16
  cryptoKeyId : UInt16
  modulationParameters : List UInt8
  antennaPatterns : List BeamAntennaPattern
  variableParameters : List VariableTransmitterParameters
  deriving DecidableEq, Inhabited

namespace TransmitterPDU

/-- `pdu_size_calc(pdu)`. -/
def pduSizeCalc (pdu : TransmitterPDU) : Nat :=
  let m := pdu.modulationParameters.length + 8 - pdu.modulationParameters.length % 8
  let sizeBits := 832 + m * 8 + pdu.antennaPatterns.length * 320
  (sizeBits + (pdu.variableParameters.map fun varParam =>
    varParam.data.length * 8 + (8 - varParam.data.length % 8)).sum) / 8

/-- The statements up to the number of modulation parameters. -/
def serializeHead (host : Endian) (pdu : TransmitterPDU) : List Stmt :=
  serializePduHeader host pdu.header pdu.pduSizeCalc ++ [
    nested (serializeWire host pdu.radioReferenceId),
    write host (be host pdu.radioNumber),
    nested (pdu.radioType.serialize host pdu.header.protocolVersion),
    write host pdu.transmitState,
    write host pdu.inputSource,
    if pdu.header.protocolVersion = .ieee1278_1998 then pad 2
    else write host (be host (UInt16.ofNat pdu.variableParameters.length)),
    nested (serializeWire host pdu.antennaLocation),
    nested (serializeWire host pdu.relativeAntennaLocation),
    write host (be host pdu.antennaPatternType),
    write host (be host (UInt16.ofNat pdu.antennaPatterns.length)),
    write host (be host pdu.centerFrequency),
    write host (be host pdu.transmitFrequencyBandwidth),
    write host (be host pdu.power),
    nested (serializeWire host pdu.modulationType),
    write host (be host pdu.cryptoSystem),
    write host (be host pdu.cryptoKeyId),
    write host (UInt8.ofNat pdu.modulationParameters.length)]

/-- The three loops. -/
def serializeLists (host : Endian) (pdu : TransmitterPDU) : List Stmt :=
  pdu.modulationParameters.map (fun modParam => write host modParam) ++
  pdu.antennaPatterns.map (fun antennaPattern => nested (serializeWire host antennaPattern)) ++
  pdu.variableParameters.flatMap fun varParam => varParam.serialize host

/-- The reads up to the padding behind the number of modulation parameters, and the check of
them: the PDU without its lists, and how long these are. The count of the variable parameters
is an `optional<uint16_t>` that is assigned the `expected` itself, which converts to `bool`. -/
def deserializeHead (host : Endian) : Get (Expected (TransmitterPDU × Nat × Nat × Nat)) := do
  let header ← PDUHeader.deserializeDirect host
  let radioReferenceId ← deserializeDirect host
  let radioNumber ← read (Be UInt16) host
  let radioType ← RadioType.deserialize host (← deref header).protocolVersion
  let transmitState ← read UInt8 host
  let inputSource ← read UInt8 host
  let variableParameterCount := (← read (Be UInt16) host).hasValue.toNat
  let antennaLocation ← deserializeDirect host
  let relativeAntennaLocation ← deserializeDirect host
  let antennaPatternType ← read (Be UInt16) host
  let numAntennaPatterns ← read (Be UInt16) host
  let centerFrequency ← read (Be UInt64) host
  let transmitFrequencyBandwidth ← read (Be FloatBits) host
  let power ← read (Be FloatBits) host
  let modulationType ← deserializeDirect host
  let cryptoSystem ← read (Be UInt16) host
  let cryptoKeyId ← read (Be UInt16) host
  let numModulationParameters ← read UInt8 host
  let _padding ← read UInt16 host
  let _padding ← read UInt8 host
  if !header.hasValue || !radioReferenceId.hasValue || !radioNumber.hasValue ||
      !radioType.hasValue || !transmitState.hasValue || !inputSource.hasValue ||
      !antennaLocation.hasValue || !relativeAntennaLocation.hasValue ||
      !antennaPatternType.hasValue || !numAntennaPatterns.hasValue ||
      !centerFrequency.hasValue || !transmitFrequencyBandwidth.hasValue || !power.hasValue ||
      !modulationType.hasValue || !cryptoSystem.hasValue || !cryptoKeyId.hasValue ||
      !numModulationParameters.hasValue then
    return unexpect
  let pdu : TransmitterPDU := {
    header := ← deref header
    radioReferenceId := ← deref radioReferenceId
    radioNumber := (← deref radioNumber).native host
    radioType := ← deref radioType
    transmitState := ← deref transmitState
    inputSource := ← deref inputSource
    antennaLocation := ← deref antennaLocation
    relativeAntennaLocation := ← deref relativeAntennaLocation
    antennaPatternType := (← deref antennaPatternType).native host
    centerFrequency := (← deref centerFrequency).native host
    transmitFrequencyBandwidth := (← deref transmitFrequencyBandwidth).native host
    power := (← deref power).native host
    modulationType := ← deref modulationType
    cryptoSystem := (← deref cryptoSystem).native host
    cryptoKeyId := (← deref cryptoKeyId).native host
    modulationParameters := []
    antennaPatterns := []
    variableParameters := [] }
  return .ok (pdu, (← deref numModulationParameters).toNat,
    ((← deref numAntennaPatterns).native host).toNat, variableParameterCount)

instance : Serde TransmitterPDU where
  serializeWire host pdu :=
    record (pdu.serializeHead host ++ padCaller 3 :: pdu.serializeLists host)
  deserializeDirect host := do
    match ← deserializeHead host with
    | .error _ => return unexpect
    | .ok (pdu, numModulationParameters, numAntennaPatterns, variableParameterCount) =>
      match ← Parser.many (read UInt8 host) numModulationParameters with
      | none => return unexpect
      | some modulationParameters =>
        match ← Parser.many (deserializeDirect host) numAntennaPatterns with
        | none => return unexpect
        | some antennaPatterns =>
          match ← Parser.many (VariableTransmitterParameters.deserialize host)
            variableParameterCount with
          | none => return unexpect
          | some variableParameters =>
            return .ok { pdu with
              modulationParameters := modulationParameters
              antennaPatterns := antennaPatterns
              variableParameters := variableParameters }

/-- The bytes up to the number of modulation parameters. -/
def headWire (pdu : TransmitterPDU) : List UInt8 :=
  pdu.header.wire pdu.pduSizeCalc ++ [pdu.radioReferenceId.wire, Word.beBytes pdu.radioNumber,
    pdu.radioType.wire pdu.header.protocolVersion, [pdu.transmitState], [pdu.inputSource],
    if pdu.header.protocolVersion = .ieee1278_1998 then List.replicate 2 0
    else Word.beBytes (UInt16.ofNat pdu.variableParameters.length),
    pdu.antennaLocation.wire, pdu.relativeAntennaLocation.wire,
    Word.beBytes pdu.antennaPatternType,
    Word.beBytes (UInt16.ofNat pdu.antennaPatterns.length), Word.beBytes pdu.centerFrequency,
    Word.beBytes pdu.transmitFrequencyBandwidth, Word.beBytes pdu.power,
    pdu.modulationType.wire, Word.beBytes pdu.cryptoSystem, Word.beBytes pdu.cryptoKeyId,
    [UInt8.ofNat pdu.modulationParameters.length]].flatten

/-- Its length. -/
def headSize (protocolVersion : ProtocolVersion) : Nat := 93 + RadioType.wireSize protocolVersion

theorem length_headWire (pdu : TransmitterPDU) :
    pdu.headWire.length = headSize pdu.header.protocolVersion := by
  have hcount : (if pdu.header.protocolVersion = .ieee1278_1998 then List.replicate 2 (0 : UInt8)
      else Word.beBytes (UInt16.ofNat pdu.variableParameters.length)).length = 2 := by
    split <;> simp
  simp only [headWire, headSize, List.length_append, List.flatten_cons, List.flatten_nil, hcount,
    RadioType.length_wire, PDUHeader.length_wire, EntityID.length_wire, Word.length_beBytes,
    WorldCoordinates.length_wire, Vec3.length_wire, ModulationType.length_wire, List.length_cons,
    List.length_nil, Word.width_uint16, Word.width_uint32, Word.width_uint64]
  omega

theorem writes_serializeHead (host : Endian) (pdu : TransmitterPDU)
    (h : pdu.header.protocolVersion = .ieee1278_1998 ∨
      pdu.header.protocolVersion = .ieee1278_2012) :
    WritesAll (pdu.serializeHead host) pdu.headWire := by
  have hcount : Writes
      (if pdu.header.protocolVersion = .ieee1278_1998 then pad 2
      else write host (be host (UInt16.ofNat pdu.variableParameters.length)))
      (if pdu.header.protocolVersion = .ieee1278_1998 then List.replicate 2 0
      else Word.beBytes (UInt16.ofNat pdu.variableParameters.length)) := by
    split
    · exact writes_pad 2
    · exact writes_be host _
  apply WritesAll.append (writes_serializePduHeader host _ _)
  exact .cons (writes_nested (EntityID.emits_wire host _)) <| .cons (writes_be host _) <|
    .cons (writes_nested (RadioType.emits_wire host _ h)) <| .cons (writes_byte host _) <|
    .cons (writes_byte host _) <| .cons hcount <|
    .cons (writes_nested (WorldCoordinates.emits_wire host _)) <|
    .cons (writes_nested (Vec3.emits_wire host _)) <| .cons (writes_be host _) <|
    .cons (writes_be host _) <| .cons (writes_be host _) <| .cons (writes_be host _) <|
    .cons (writes_be host _) <| .cons (writes_nested (ModulationType.emits_wire host _)) <|
    .cons (writes_be host _) <| .cons (writes_be host _) <| .cons (writes_byte host _) .nil

/-- The bytes of the three lists that go through `bv_`. -/
def listsSize (pdu : TransmitterPDU) : Nat :=
  pdu.modulationParameters.length + 40 * pdu.antennaPatterns.length +
    (pdu.variableParameters.map fun varParam => 6 + varParam.data.length).sum

/-- The padding of the variable parameters, which goes through `bv`. -/
def paddingSize (pdu : TransmitterPDU) : Nat :=
  (pdu.variableParameters.map VariableTransmitterParameters.requiredPadding).sum

theorem shifts_serializeLists (host : Endian) (pdu : TransmitterPDU) :
    Shifts (pdu.serializeLists host) pdu.listsSize pdu.paddingSize := by
  have hmods : WritesAll (pdu.modulationParameters.map fun modParam => write host modParam) _ :=
    .map_byte host _
  have hants : WritesAll
      (pdu.antennaPatterns.map fun pattern => nested (serializeWire host pattern)) _ :=
    .map fun pattern _ => writes_nested (BeamAntennaPattern.emits_wire host pattern)
  have hparams := Shifts.flatMap (fun varParam =>
    VariableTransmitterParameters.shifts_serialize host varParam) pdu.variableParameters
  have h := (Shifts.of_writesAll (hmods.append hants)).append hparams
  have hsize : pdu.listsSize = (pdu.modulationParameters ++
      pdu.antennaPatterns.flatMap BeamAntennaPattern.wire).length +
        (pdu.variableParameters.map fun varParam => 6 + varParam.data.length).sum := by
    simp [listsSize, List.length_flatMap, Nat.mul_comm]
  rw [Nat.zero_add, ← hsize] at h
  exact h

/-- The PDU with only the selected reading of the radio type. -/
def selected (pdu : TransmitterPDU) : TransmitterPDU :=
  { pdu with radioType := pdu.radioType.selected pdu.header.protocolVersion }

end TransmitterPDU

end Csics.Dis
