import Csics.Dis.Records

/-!
# Electromagnetic emission

`ElectromagneticEmissionPDU` with its emitter systems, beams and track jams. The systems and
the beams are counted by a byte, the track jams of a beam only by the record length of the
beam: `(record_length * 32 - 416) / 64` in the arithmetic of `int`, converted to `size_t`.
-/

namespace Csics.Dis

open Base Serialization

/-! ## Flat records -/

structure EEFundamentalParameterData where
  centerFrequency : FloatBits
  frequencyRange : FloatBits
  effectiveRadiatedPower : FloatBits
  pulseRepetitionFrequency : FloatBits
  pulseWidth : FloatBits
  deriving DecidableEq, Inhabited

namespace EEFundamentalParameterData

/-- The words of the record. -/
def words (pdu : EEFundamentalParameterData) : List FloatBits :=
  [pdu.centerFrequency, pdu.frequencyRange, pdu.effectiveRadiatedPower,
    pdu.pulseRepetitionFrequency, pdu.pulseWidth]

instance : Serde EEFundamentalParameterData where
  serializeWire host pdu := writeWords host pdu.words
  deserializeDirect host := do
    match ← readWords FloatBits host 5 with
    | .ok [centerFrequency, frequencyRange, effectiveRadiatedPower,
        pulseRepetitionFrequency, pulseWidth] =>
      return .ok ⟨centerFrequency, frequencyRange, effectiveRadiatedPower,
        pulseRepetitionFrequency, pulseWidth⟩
    | _ => return unexpect

def wire (pdu : EEFundamentalParameterData) : List UInt8 := pdu.words.flatMap Word.beBytes

@[simp] theorem length_wire (pdu : EEFundamentalParameterData) : pdu.wire.length = 20 := by
  simp [wire, words]

theorem emits_wire (host : Endian) (pdu : EEFundamentalParameterData) :
    Emits (serializeWire host pdu) pdu.wire :=
  emits_writeWords host pdu.words

theorem runs_wire (host : Endian) (pdu : EEFundamentalParameterData) :
    Runs (deserializeDirect host) pdu.wire (.ok pdu) := by
  rw [← List.append_nil pdu.wire]
  exact (runs_readWords host pdu.words).bind (runs_return pdu)

end EEFundamentalParameterData

structure BeamData where
  beamAzimuthCenter : FloatBits
  beamElevationCenter : FloatBits
  beamAzimuthSweep : FloatBits
  beamElevationSweep : FloatBits
  beamSweepSync : FloatBits
  deriving DecidableEq, Inhabited

namespace BeamData

/-- The words of the record. -/
def words (pdu : BeamData) : List FloatBits :=
  [pdu.beamAzimuthCenter, pdu.beamElevationCenter, pdu.beamAzimuthSweep,
    pdu.beamElevationSweep, pdu.beamSweepSync]

instance : Serde BeamData where
  serializeWire host pdu := writeWords host pdu.words
  deserializeDirect host := do
    match ← readWords FloatBits host 5 with
    | .ok [beamAzimuthCenter, beamElevationCenter, beamAzimuthSweep,
        beamElevationSweep, beamSweepSync] =>
      return .ok ⟨beamAzimuthCenter, beamElevationCenter, beamAzimuthSweep,
        beamElevationSweep, beamSweepSync⟩
    | _ => return unexpect

def wire (pdu : BeamData) : List UInt8 := pdu.words.flatMap Word.beBytes

@[simp] theorem length_wire (pdu : BeamData) : pdu.wire.length = 20 := by
  simp [wire, words]

theorem emits_wire (host : Endian) (pdu : BeamData) : Emits (serializeWire host pdu) pdu.wire :=
  emits_writeWords host pdu.words

theorem runs_wire (host : Endian) (pdu : BeamData) :
    Runs (deserializeDirect host) pdu.wire (.ok pdu) := by
  rw [← List.append_nil pdu.wire]
  exact (runs_readWords host pdu.words).bind (runs_return pdu)

end BeamData

structure JammingTechnique where
  kind : UInt8
  category : UInt8
  subcategory : UInt8
  specific : UInt8
  deriving DecidableEq, Inhabited

namespace JammingTechnique

instance : Serde JammingTechnique where
  serializeWire host pdu := record [
    write host pdu.kind,
    write host pdu.category,
    write host pdu.subcategory,
    write host pdu.specific]
  deserializeDirect host := do
    let kind ← read UInt8 host
    let category ← read UInt8 host
    let subcategory ← read UInt8 host
    let specific ← read UInt8 host
    if !kind.hasValue || !category.hasValue || !subcategory.hasValue || !specific.hasValue then
      return unexpect
    return .ok {
      kind := ← deref kind
      category := ← deref category
      subcategory := ← deref subcategory
      specific := ← deref specific }

def wire (pdu : JammingTechnique) : List UInt8 :=
  [[pdu.kind], [pdu.category], [pdu.subcategory], [pdu.specific]].flatten

@[simp] theorem length_wire (pdu : JammingTechnique) : pdu.wire.length = 4 := by simp [wire]

theorem emits_wire (host : Endian) (pdu : JammingTechnique) :
    Emits (serializeWire host pdu) pdu.wire :=
  emits_record <| .cons (writes_byte host _) <| .cons (writes_byte host _) <|
    .cons (writes_byte host _) <| .cons (writes_byte host _) .nil

theorem runs_wire (host : Endian) (pdu : JammingTechnique) :
    Runs (deserializeDirect host) pdu.wire (.ok pdu) := by
  simp only [wire, List.flatten_cons, List.flatten_nil]
  refine (runs_read_byte host _).bind <| (runs_read_byte host _).bind <|
    (runs_read_byte host _).bind <| (runs_read_byte host _).bind ?_
  simpa using runs_return pdu

end JammingTechnique

/-! ## Track jams -/

structure TrackJam where
  trackJamTarget : EntityID
  emitterNumber : UInt8
  beamNumber : UInt8
  deriving DecidableEq, Inhabited

namespace TrackJam

instance : Serde TrackJam where
  serializeWire host pdu := record [
    nested (serializeWire host pdu.trackJamTarget),
    write host pdu.emitterNumber,
    write host pdu.beamNumber]
  deserializeDirect host := do
    let trackJamTarget ← deserializeDirect host
    let emitterNumber ← read UInt8 host
    let beamNumber ← read UInt8 host
    if !trackJamTarget.hasValue || !emitterNumber.hasValue || !beamNumber.hasValue then
      return unexpect
    return .ok {
      trackJamTarget := ← deref trackJamTarget
      emitterNumber := ← deref emitterNumber
      beamNumber := ← deref beamNumber }

def wire (pdu : TrackJam) : List UInt8 :=
  [pdu.trackJamTarget.wire, [pdu.emitterNumber], [pdu.beamNumber]].flatten

@[simp] theorem length_wire (pdu : TrackJam) : pdu.wire.length = 8 := by simp [wire]

theorem emits_wire (host : Endian) (pdu : TrackJam) : Emits (serializeWire host pdu) pdu.wire :=
  emits_record <| .cons (writes_nested (EntityID.emits_wire host _)) <|
    .cons (writes_byte host _) <| .cons (writes_byte host _) .nil

theorem runs_wire (host : Endian) (pdu : TrackJam) :
    Runs (deserializeDirect host) pdu.wire (.ok pdu) := by
  simp only [wire, List.flatten_cons, List.flatten_nil]
  refine (EntityID.runs_wire host _).bind <| (runs_read_byte host _).bind <|
    (runs_read_byte host _).bind ?_
  simpa using runs_return pdu

end TrackJam

/-! ## Beams -/

structure Beam where
  beamParameterIndex : UInt16
  beamNumber : UInt8
  numberOfTargets : UInt8
  beamFunction : UInt8
  highDensityTrackJam : UInt8
  beamStatus : UInt8
  jammingTechnique : JammingTechnique
  fundamentalParameters : EEFundamentalParameterData
  beamData : BeamData
  trackJams : Option (List TrackJam)
  deriving DecidableEq, Inhabited

namespace Beam

/-- `pdu.track_jams.has_value() ? pdu.track_jams->size() : 0`. -/
def trackJamsSize (pdu : Beam) : Nat := (pdu.trackJams.getD []).length

/-- `(*record_length * 32 - 416) / 64`, an `int` that is converted to `size_t`. -/
def trackJamsOfLength (recordLength : UInt8) : Nat :=
  (((recordLength.toNat : Int) * 32 - 416).tdiv 64 % 2 ^ 64).toNat

instance : Serde Beam where
  serializeWire host pdu := record <| [
    write host (UInt8.ofNat ((416 + 64 * pdu.trackJamsSize) / 32)),
    write host pdu.beamNumber,
    write host (be host pdu.beamParameterIndex),
    nested (serializeWire host pdu.fundamentalParameters),
    nested (serializeWire host pdu.beamData),
    write host pdu.beamFunction,
    write host pdu.numberOfTargets,
    write host pdu.highDensityTrackJam,
    write host pdu.beamStatus,
    nested (serializeWire host pdu.jammingTechnique)] ++
    match pdu.trackJams with
    | some trackJams => trackJams.map fun trackJam => nested (serializeWire host trackJam)
    | none => []
  deserializeDirect host := do
    let recordLength ← read UInt8 host
    let beamNumber ← read UInt8 host
    let beamParameterIndex ← read (Be UInt16) host
    let fundamentalParameters ← deserializeDirect host
    let beamData ← deserializeDirect host
    let beamFunction ← read UInt8 host
    let numberOfTargets ← read UInt8 host
    let highDensityTrackJam ← read UInt8 host
    let beamStatus ← read UInt8 host
    let jammingTechnique ← deserializeDirect host
    if !recordLength.hasValue || !beamNumber.hasValue || !beamParameterIndex.hasValue ||
        !fundamentalParameters.hasValue || !beamData.hasValue || !beamFunction.hasValue ||
        !numberOfTargets.hasValue || !highDensityTrackJam.hasValue || !beamStatus.hasValue ||
        !jammingTechnique.hasValue then
      return unexpect
    let pdu : Beam := {
      beamParameterIndex := (← deref beamParameterIndex).native host
      beamNumber := ← deref beamNumber
      numberOfTargets := ← deref numberOfTargets
      beamFunction := ← deref beamFunction
      highDensityTrackJam := ← deref highDensityTrackJam
      beamStatus := ← deref beamStatus
      jammingTechnique := ← deref jammingTechnique
      fundamentalParameters := ← deref fundamentalParameters
      beamData := ← deref beamData
      trackJams := none }
    let trackJamsSize := trackJamsOfLength (← deref recordLength)
    if trackJamsSize > 0 then
      match ← Parser.many (deserializeDirect host) trackJamsSize with
      | none => return unexpect
      | some jams => return .ok { pdu with trackJams := some jams }
    else
      return .ok pdu

/-- The beam with an empty list of track jams left out. -/
def canonical (pdu : Beam) : Beam :=
  { pdu with trackJams := pdu.trackJams.filter fun jams => !jams.isEmpty }

/-- The bytes before the track jams. -/
def head (pdu : Beam) : List UInt8 :=
  [[UInt8.ofNat ((416 + 64 * pdu.trackJamsSize) / 32)], [pdu.beamNumber],
    Word.beBytes pdu.beamParameterIndex, pdu.fundamentalParameters.wire, pdu.beamData.wire,
    [pdu.beamFunction], [pdu.numberOfTargets], [pdu.highDensityTrackJam], [pdu.beamStatus],
    pdu.jammingTechnique.wire].flatten

def wire (pdu : Beam) : List UInt8 :=
  pdu.head ++ (pdu.trackJams.getD []).flatMap TrackJam.wire

theorem length_wire (pdu : Beam) : pdu.wire.length = 52 + 8 * pdu.trackJamsSize := by
  simp [wire, head, trackJamsSize, List.length_flatMap, Nat.mul_comm]
  omega

theorem emits_wire (host : Endian) (pdu : Beam) : Emits (serializeWire host pdu) pdu.wire := by
  refine emits_record (.append ?_ ?_)
  · exact .cons (writes_byte host _) <| .cons (writes_byte host _) <| .cons (writes_be host _) <|
      .cons (writes_nested (EEFundamentalParameterData.emits_wire host _)) <|
      .cons (writes_nested (BeamData.emits_wire host _)) <| .cons (writes_byte host _) <|
      .cons (writes_byte host _) <| .cons (writes_byte host _) <| .cons (writes_byte host _) <|
      .cons (writes_nested (JammingTechnique.emits_wire host _)) .nil
  · cases pdu.trackJams with
    | none => exact .nil
    | some jams => exact .map fun jam _ => writes_nested (TrackJam.emits_wire host jam)

/-- The record length of a beam with `t` track jams, modulo 256, gives `t` back. -/
theorem trackJamsOfLength_eq_iff {t : Nat} :
    trackJamsOfLength (UInt8.ofNat ((416 + 64 * t) / 32)) = t ↔
      t ≤ 121 ∨ 2 ^ 64 - 6 ≤ t ∧ t < 2 ^ 64 := by
  have hlen : (UInt8.ofNat ((416 + 64 * t) / 32)).toNat = (13 + 2 * t) % 256 := by
    rw [UInt8.toNat_ofNat']
    omega
  rw [trackJamsOfLength, hlen]
  by_cases h : 13 ≤ (13 + 2 * t) % 256
  · rw [Int.tdiv_eq_ediv_of_nonneg (by omega)]
    omega
  · -- the quotient is negative and wraps to one of the last six values of `size_t`
    have hneg : (((13 + 2 * t) % 256 : Nat) : Int) * 32 - 416 =
        -(416 - (((13 + 2 * t) % 256 : Nat) : Int) * 32) := by
      omega
    rw [hneg, Int.neg_tdiv, Int.tdiv_eq_ediv_of_nonneg (by omega)]
    omega

/-- The decoder finds out the number of track jams. The second case is about the numbers only:
a vector is not that long. -/
def Recoverable (pdu : Beam) : Prop :=
  pdu.trackJamsSize ≤ 121 ∨ 2 ^ 64 - 6 ≤ pdu.trackJamsSize ∧ pdu.trackJamsSize < 2 ^ 64

/-- The decoder behind the head of a beam. -/
theorem run_wire (host : Endian) (pdu : Beam) (rest : List UInt8) :
    (deserializeDirect host : Get (Expected Beam)).run (pdu.wire ++ rest) =
      (if trackJamsOfLength (UInt8.ofNat ((416 + 64 * pdu.trackJamsSize) / 32)) > 0 then do
        match ← Parser.many (deserializeDirect host)
          (trackJamsOfLength (UInt8.ofNat ((416 + 64 * pdu.trackJamsSize) / 32))) with
        | none => return unexpect
        | some jams => return .ok { pdu with trackJams := some jams }
      else
        return .ok { pdu with trackJams := none } : Get (Expected Beam)).run
        ((pdu.trackJams.getD []).flatMap TrackJam.wire ++ rest) := by
  simp only [wire, head, List.flatten_cons, List.flatten_nil, List.append_assoc, List.nil_append]
  refine (Parser.run_bind_of_ok (runs_read_byte host _ _)).trans <|
    (Parser.run_bind_of_ok (runs_read_byte host _ _)).trans <|
    (Parser.run_bind_of_ok (runs_read_be host _ _)).trans <|
    (Parser.run_bind_of_ok (EEFundamentalParameterData.runs_wire host _ _)).trans <|
    (Parser.run_bind_of_ok (BeamData.runs_wire host _ _)).trans <|
    (Parser.run_bind_of_ok (runs_read_byte host _ _)).trans <|
    (Parser.run_bind_of_ok (runs_read_byte host _ _)).trans <|
    (Parser.run_bind_of_ok (runs_read_byte host _ _)).trans <|
    (Parser.run_bind_of_ok (runs_read_byte host _ _)).trans <|
    (Parser.run_bind_of_ok (JammingTechnique.runs_wire host _ _)).trans ?_
  simp only [hasValue_ok, deref_ok, Bool.not_true, Bool.or_self, Bool.false_eq_true, if_false,
    pure_bind, Be.native_fromNative]

theorem runs_wire (host : Endian) (pdu : Beam) (h : pdu.Recoverable) :
    Runs (deserializeDirect host) pdu.wire (.ok pdu.canonical) := by
  intro rest
  have hmany := Runs.many (f := id) fun jam (_ : jam ∈ pdu.trackJams.getD []) =>
    TrackJam.runs_wire host jam
  rw [List.map_id] at hmany
  rw [run_wire, trackJamsOfLength_eq_iff.mpr h]
  by_cases hjams : pdu.trackJams.getD [] = []
  · have hcanon : pdu.canonical = { pdu with trackJams := none } := by
      cases ht : pdu.trackJams with
      | none => simp [canonical, ht]
      | some jams =>
        have hnil : jams = [] := by simpa [ht] using hjams
        simp [canonical, ht, hnil]
    simp only [trackJamsSize, hjams, hcanon]
    rfl
  · have hcanon : pdu.canonical = { pdu with trackJams := some (pdu.trackJams.getD []) } := by
      cases ht : pdu.trackJams with
      | none => simp [ht] at hjams
      | some jams =>
        have hne : jams ≠ [] := by simpa [ht] using hjams
        simp [canonical, ht, hne]
    have hpos : pdu.trackJamsSize > 0 := List.length_pos_iff.mpr hjams
    rw [if_pos hpos, hcanon]
    exact Parser.run_bind_of_ok (hmany rest)

end Beam

/-! ## Emitter systems -/

structure EmitterSystem where
  emitterName : UInt16
  function : UInt8
  emitterNumber : UInt8
  emitterLocation : Vec3
  beams : List Beam
  deriving DecidableEq, Inhabited

namespace EmitterSystem

/-- `beams_size`, in bits. -/
def beamsSize (pdu : EmitterSystem) : Nat :=
  (pdu.beams.map fun beam => 416 + 64 * beam.trackJamsSize).sum

instance : Serde EmitterSystem where
  serializeWire host pdu := record <| [
    write host (UInt8.ofNat ((160 + pdu.beamsSize) / 32)),
    write host (UInt8.ofNat pdu.beams.length),
    pad 2,
    write host (be host pdu.emitterName),
    write host pdu.function,
    write host pdu.emitterNumber,
    nested (serializeWire host pdu.emitterLocation)] ++
    pdu.beams.map fun beam => nested (serializeWire host beam)
  deserializeDirect host := do
    let recordLength ← read UInt8 host
    let numBeams ← read UInt8 host
    let _padding ← skip 2
    let emitterName ← read (Be UInt16) host
    let function ← read UInt8 host
    let emitterNumber ← read UInt8 host
    let emitterLocation ← deserializeDirect host
    if !recordLength.hasValue || !numBeams.hasValue || !emitterName.hasValue ||
        !function.hasValue || !emitterNumber.hasValue || !emitterLocation.hasValue then
      return unexpect
    match ← Parser.many (deserializeDirect host) (← deref numBeams).toNat with
    | none => return unexpect
    | some beams =>
      return .ok {
        emitterName := (← deref emitterName).native host
        function := ← deref function
        emitterNumber := ← deref emitterNumber
        emitterLocation := ← deref emitterLocation
        beams := beams }

/-- The system with its beams in canonical form. -/
def canonical (pdu : EmitterSystem) : EmitterSystem :=
  { pdu with beams := pdu.beams.map Beam.canonical }

/-- The bytes before the beams. -/
def head (pdu : EmitterSystem) : List UInt8 :=
  [[UInt8.ofNat ((160 + pdu.beamsSize) / 32)], [UInt8.ofNat pdu.beams.length],
    List.replicate 2 0, Word.beBytes pdu.emitterName, [pdu.function], [pdu.emitterNumber],
    pdu.emitterLocation.wire].flatten

def wire (pdu : EmitterSystem) : List UInt8 := pdu.head ++ pdu.beams.flatMap Beam.wire

theorem length_wire (pdu : EmitterSystem) :
    pdu.wire.length = 20 + (pdu.beams.map fun beam => 52 + 8 * beam.trackJamsSize).sum := by
  simp [wire, head, List.length_flatMap, Beam.length_wire]
  omega

theorem emits_wire (host : Endian) (pdu : EmitterSystem) :
    Emits (serializeWire host pdu) pdu.wire := by
  refine emits_record (.append ?_ ?_)
  · exact .cons (writes_byte host _) <| .cons (writes_byte host _) <| .cons (writes_pad 2) <|
      .cons (writes_be host _) <| .cons (writes_byte host _) <| .cons (writes_byte host _) <|
      .cons (writes_nested (Vec3.emits_wire host _)) .nil
  · exact .map fun beam _ => writes_nested (Beam.emits_wire host beam)

/-- The decoder finds out the number of beams and the number of track jams of each. -/
structure Recoverable (pdu : EmitterSystem) : Prop where
  count : pdu.beams.length ≤ 255
  beams : ∀ beam ∈ pdu.beams, beam.Recoverable

/-- The decoder behind the head of a system. -/
theorem run_wire (host : Endian) (pdu : EmitterSystem) (rest : List UInt8) :
    (deserializeDirect host : Get (Expected EmitterSystem)).run (pdu.wire ++ rest) =
      (do
        match ← Parser.many (deserializeDirect host) (UInt8.ofNat pdu.beams.length).toNat with
        | none => return unexpect
        | some beams => return .ok { pdu with beams := beams } :
          Get (Expected EmitterSystem)).run (pdu.beams.flatMap Beam.wire ++ rest) := by
  simp only [wire, head, List.flatten_cons, List.flatten_nil, List.append_assoc, List.nil_append]
  refine (Parser.run_bind_of_ok (runs_read_byte host _ _)).trans <|
    (Parser.run_bind_of_ok (runs_read_byte host _ _)).trans <|
    (Parser.run_bind_of_ok (runs_skip 2 _)).trans <|
    (Parser.run_bind_of_ok (runs_read_be host _ _)).trans <|
    (Parser.run_bind_of_ok (runs_read_byte host _ _)).trans <|
    (Parser.run_bind_of_ok (runs_read_byte host _ _)).trans <|
    (Parser.run_bind_of_ok (Vec3.runs_wire host _ _)).trans ?_
  simp only [hasValue_ok, deref_ok, Bool.not_true, Bool.or_self, Bool.false_eq_true, if_false,
    pure_bind, Be.native_fromNative]

theorem runs_wire (host : Endian) (pdu : EmitterSystem) (h : pdu.Recoverable) :
    Runs (deserializeDirect host) pdu.wire (.ok pdu.canonical) := by
  intro rest
  have hmany := Runs.many fun beam hbeam => Beam.runs_wire host beam (h.beams beam hbeam)
  rw [run_wire, toNat_ofNat_eq_iff.mpr h.count]
  exact Parser.run_bind_of_ok (hmany rest)

end EmitterSystem

/-! ## The PDU -/

structure ElectromagneticEmissionPDU where
  header : PDUHeader
  emitterId : EntityID
  eventId : EntityID
  stateUpdateIndicator : UInt8
  emitterSystems : List EmitterSystem
  deriving DecidableEq, Inhabited

namespace ElectromagneticEmissionPDU

/-- `pdu_size_calc(pdu)`. -/
def pduSizeCalc (pdu : ElectromagneticEmissionPDU) : Nat :=
  let beamBits (beam : Beam) :=
    416 + match beam.trackJams with
      | some trackJams => 64 * trackJams.length
      | none => 0
  (224 + (pdu.emitterSystems.map fun system => 160 + (system.beams.map beamBits).sum).sum) / 8

instance : Serde ElectromagneticEmissionPDU where
  serializeWire host pdu := record <|
    serializePduHeader host pdu.header pdu.pduSizeCalc ++ [
    nested (serializeWire host pdu.emitterId),
    nested (serializeWire host pdu.eventId),
    write host pdu.stateUpdateIndicator,
    write host (UInt8.ofNat pdu.emitterSystems.length),
    pad 2] ++
    pdu.emitterSystems.map fun emitterSystem => nested (serializeWire host emitterSystem)
  deserializeDirect host := do
    let header ← PDUHeader.deserializeDirect host
    let emitterId ← deserializeDirect host
    let eventId ← deserializeDirect host
    let stateUpdateIndicator ← read UInt8 host
    let numEmitterSystems ← read UInt8 host
    let _padding ← read UInt16 host
    if !header.hasValue || !emitterId.hasValue || !eventId.hasValue ||
        !stateUpdateIndicator.hasValue || !numEmitterSystems.hasValue then
      return unexpect
    match ← Parser.many (deserializeDirect host) (← deref numEmitterSystems).toNat with
    | none => return unexpect
    | some emitterSystems =>
      return .ok {
        header := ← deref header
        emitterId := ← deref emitterId
        eventId := ← deref eventId
        stateUpdateIndicator := ← deref stateUpdateIndicator
        emitterSystems := emitterSystems }

/-- The PDU with its beams in canonical form. -/
def canonical (pdu : ElectromagneticEmissionPDU) : ElectromagneticEmissionPDU :=
  { pdu with emitterSystems := pdu.emitterSystems.map EmitterSystem.canonical }

/-- The bytes before the emitter systems. -/
def head (pdu : ElectromagneticEmissionPDU) : List UInt8 :=
  pdu.header.wire pdu.pduSizeCalc ++ [pdu.emitterId.wire, pdu.eventId.wire,
    [pdu.stateUpdateIndicator], [UInt8.ofNat pdu.emitterSystems.length], List.replicate 2 0].flatten

def wire (pdu : ElectromagneticEmissionPDU) : List UInt8 :=
  pdu.head ++ pdu.emitterSystems.flatMap EmitterSystem.wire

theorem pduSizeCalc_eq (pdu : ElectromagneticEmissionPDU) :
    pdu.pduSizeCalc = 28 + (pdu.emitterSystems.map fun system => system.wire.length).sum := by
  have hsum {α : Type} {f g : α → Nat} (h : ∀ x, f x = 8 * g x) (xs : List α) :
      (xs.map f).sum = 8 * (xs.map g).sum := by
    induction xs with
    | nil => rfl
    | cons x xs ih => simp only [List.map_cons, List.sum_cons, h, ih]; omega
  have hbeam (beam : Beam) : (416 + match beam.trackJams with
      | some trackJams => 64 * trackJams.length
      | none => 0) = 8 * (52 + 8 * beam.trackJamsSize) := by
    rw [Beam.trackJamsSize]
    cases beam.trackJams with
    | none => rfl
    | some jams => simp only [Option.getD_some]; omega
  have hsystem (system : EmitterSystem) : 160 + (system.beams.map fun beam =>
      416 + match beam.trackJams with
        | some trackJams => 64 * trackJams.length
        | none => 0).sum = 8 * system.wire.length := by
    rw [hsum hbeam, system.length_wire]
    omega
  rw [pduSizeCalc, hsum hsystem]
  omega

/-- `pdu_size_calc` is the number of bytes on the wire. -/
theorem length_wire (pdu : ElectromagneticEmissionPDU) : pdu.wire.length = pdu.pduSizeCalc := by
  rw [pduSizeCalc_eq]
  simp [wire, head, List.length_flatMap]
  omega

theorem emits_wire (host : Endian) (pdu : ElectromagneticEmissionPDU) :
    Emits (serializeWire host pdu) pdu.wire := by
  refine emits_record (.append (.append ?_ ?_) ?_)
  · exact writes_serializePduHeader host _ _
  · exact .cons (writes_nested (EntityID.emits_wire host _)) <|
      .cons (writes_nested (EntityID.emits_wire host _)) <| .cons (writes_byte host _) <|
      .cons (writes_byte host _) <| .cons (writes_pad 2) .nil
  · exact .map fun system _ => writes_nested (EmitterSystem.emits_wire host system)

/-- The counts of systems, beams and track jams fit their fields. -/
structure Fits (pdu : ElectromagneticEmissionPDU) : Prop where
  systems : pdu.emitterSystems.length ≤ 255
  beams : ∀ system ∈ pdu.emitterSystems, system.beams.length ≤ 255
  trackJams : ∀ system ∈ pdu.emitterSystems, ∀ beam ∈ system.beams, beam.trackJamsSize ≤ 121

instance (pdu : ElectromagneticEmissionPDU) : Decidable pdu.Fits :=
  decidable_of_iff (pdu.emitterSystems.length ≤ 255 ∧
    (∀ system ∈ pdu.emitterSystems, system.beams.length ≤ 255) ∧
    ∀ system ∈ pdu.emitterSystems, ∀ beam ∈ system.beams, beam.trackJamsSize ≤ 121)
    ⟨fun ⟨h1, h2, h3⟩ => ⟨h1, h2, h3⟩, fun ⟨h1, h2, h3⟩ => ⟨h1, h2, h3⟩⟩

/-- The decoder finds out all the counts. -/
structure Recoverable (pdu : ElectromagneticEmissionPDU) : Prop where
  count : pdu.emitterSystems.length ≤ 255
  systems : ∀ system ∈ pdu.emitterSystems, system.Recoverable

theorem Fits.recoverable {pdu : ElectromagneticEmissionPDU} (h : pdu.Fits) : pdu.Recoverable :=
  ⟨h.systems, fun system hsystem => ⟨h.beams system hsystem, fun beam hbeam =>
    Or.inl (h.trackJams system hsystem beam hbeam)⟩⟩

/-- The decoder behind the head of the PDU. -/
theorem run_wire (host : Endian) (pdu : ElectromagneticEmissionPDU) (rest : List UInt8) :
    (deserializeDirect host : Get (Expected ElectromagneticEmissionPDU)).run (pdu.wire ++ rest) =
      (do
        match ← Parser.many (deserializeDirect host)
          (UInt8.ofNat pdu.emitterSystems.length).toNat with
        | none => return unexpect
        | some systems => return .ok { pdu with emitterSystems := systems } :
          Get (Expected ElectromagneticEmissionPDU)).run
        (pdu.emitterSystems.flatMap EmitterSystem.wire ++ rest) := by
  have hpad : Runs (Serialization.read UInt16 host) (List.replicate 2 0) _ := runs_read host rfl
  simp only [wire, head, List.flatten_cons, List.flatten_nil, List.append_assoc, List.nil_append]
  refine (Parser.run_bind_of_ok (PDUHeader.runs_wire host _ _ _)).trans <|
    (Parser.run_bind_of_ok (EntityID.runs_wire host _ _)).trans <|
    (Parser.run_bind_of_ok (EntityID.runs_wire host _ _)).trans <|
    (Parser.run_bind_of_ok (runs_read_byte host _ _)).trans <|
    (Parser.run_bind_of_ok (runs_read_byte host _ _)).trans <|
    (Parser.run_bind_of_ok (hpad _)).trans ?_
  simp only [hasValue_ok, deref_ok, Bool.not_true, Bool.or_self, Bool.false_eq_true, if_false,
    pure_bind]

theorem runs_wire (host : Endian) (pdu : ElectromagneticEmissionPDU) (h : pdu.Recoverable) :
    Runs (deserializeDirect host) pdu.wire (.ok pdu.canonical) := by
  intro rest
  have hmany := Runs.many fun system hsystem =>
    EmitterSystem.runs_wire host system (h.systems system hsystem)
  rw [run_wire, toNat_ofNat_eq_iff.mpr h.count]
  exact Parser.run_bind_of_ok (hmany rest)

end ElectromagneticEmissionPDU

end Csics.Dis
