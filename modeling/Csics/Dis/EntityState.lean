import Csics.Dis.Records

/-!
# Entity state

`EntityStatePDU` with its dead-reckoning parameters. The union of these is kept as its two
readings, `fixed` and `rotating`; `selected` forgets the ones that `params_type` does not
select.

For a `params_type` other than 1 and 2 the encoder pads the union to 14 bytes and the
decoder skips 8, so everything behind it is read six bytes early.
-/

namespace Csics.Dis

open Base Serialization

/-! ## Dead-reckoning parameters -/

structure DeadReckoningParameters where
  algorithm : UInt8
  paramsType : UInt8
  fixed : EulerAngles
  rotating : DISQuat
  linearAcceleration : Vec3
  angularVelocity : Vec3
  deriving DecidableEq, Inhabited

namespace DeadReckoningParameters

/-- The default constructor. -/
def init : DeadReckoningParameters := ⟨0, 0, ⟨0, 0, 0⟩, ⟨0, 0, 0, 0⟩, ⟨0, 0, 0⟩, ⟨0, 0, 0⟩⟩

/-- The branches of `serialize_wire` on `params_type`. -/
def serializeUnion (host : Endian) (pdu : DeadReckoningParameters) : List Stmt :=
  if pdu.paramsType = 1 then [pad 2, nested (serializeWire host pdu.fixed)]
  else if pdu.paramsType = 2 then [nested (serializeWire host pdu.rotating)]
  else [pad 14]

/-- The branches of `deserialize_direct` on `params_type`. -/
def deserializeUnion (host : Endian) (params : DeadReckoningParameters) :
    Get (Expected DeadReckoningParameters) :=
  if params.paramsType = 1 then do
    let _padding ← read UInt16 host
    let localAngles ← deserializeDirect host
    if !localAngles.hasValue then
      return unexpect
    return .ok { params with fixed := ← deref localAngles }
  else if params.paramsType = 2 then do
    let quat ← deserializeDirect host
    if !quat.hasValue then
      return unexpect
    return .ok { params with rotating := ← deref quat }
  else do
    let _padding ← read UInt64 host
    return .ok params

instance : Serde DeadReckoningParameters where
  serializeWire host pdu := record <|
    write host pdu.algorithm ::
    write host pdu.paramsType ::
    (pdu.serializeUnion host ++ [
      nested (serializeWire host pdu.linearAcceleration),
      nested (serializeWire host pdu.angularVelocity)])
  deserializeDirect host := do
    let algorithm ← read UInt8 host
    let paramsType ← read UInt8 host
    if !algorithm.hasValue || !paramsType.hasValue then
      return unexpect
    let params := { init with algorithm := ← deref algorithm, paramsType := ← deref paramsType }
    match ← deserializeUnion host params with
    | .error _ => return unexpect
    | .ok params =>
      let linearAcceleration ← deserializeDirect host
      let angularVelocity ← deserializeDirect host
      if !linearAcceleration.hasValue || !angularVelocity.hasValue then
        return unexpect
      return .ok { params with
        linearAcceleration := ← deref linearAcceleration
        angularVelocity := ← deref angularVelocity }

/-- The parameters with the readings of the union that `params_type` does not select set to
their defaults. -/
def selected (pdu : DeadReckoningParameters) : DeadReckoningParameters :=
  { pdu with
    fixed := if pdu.paramsType = 1 then pdu.fixed else init.fixed
    rotating := if pdu.paramsType = 2 then pdu.rotating else init.rotating }

/-- The bytes of the union. -/
def unionWire (pdu : DeadReckoningParameters) : List UInt8 :=
  if pdu.paramsType = 1 then List.replicate 2 0 ++ pdu.fixed.wire
  else if pdu.paramsType = 2 then pdu.rotating.wire
  else List.replicate 14 0

def wire (pdu : DeadReckoningParameters) : List UInt8 :=
  [[pdu.algorithm], [pdu.paramsType], pdu.unionWire, pdu.linearAcceleration.wire,
    pdu.angularVelocity.wire].flatten

@[simp] theorem length_unionWire (pdu : DeadReckoningParameters) : pdu.unionWire.length = 14 := by
  unfold unionWire
  split
  · simp
  · split <;> simp

@[simp] theorem length_wire (pdu : DeadReckoningParameters) : pdu.wire.length = 40 := by
  simp [wire]

theorem writes_union (host : Endian) (pdu : DeadReckoningParameters) :
    WritesAll (pdu.serializeUnion host) pdu.unionWire := by
  unfold serializeUnion unionWire
  split
  · rw [← List.append_nil (EulerAngles.wire _)]
    exact .cons (writes_pad 2) <| .cons (writes_nested (EulerAngles.emits_wire host _)) .nil
  · split
    · rw [← List.append_nil (DISQuat.wire _)]
      exact .cons (writes_nested (DISQuat.emits_wire host _)) .nil
    · rw [← List.append_nil (List.replicate _ _)]
      exact .cons (writes_pad 14) .nil

theorem emits_wire (host : Endian) (pdu : DeadReckoningParameters) :
    Emits (serializeWire host pdu) pdu.wire :=
  emits_record <| .cons (writes_byte host _) <| .cons (writes_byte host _) <|
    WritesAll.append (writes_union host pdu) <| .cons (writes_nested (Vec3.emits_wire host _)) <|
    .cons (writes_nested (Vec3.emits_wire host _)) .nil

/-- The bytes that the decoder takes for the union. -/
def ReadsUnion (pdu : DeadReckoningParameters) (bs : List UInt8) : Prop :=
  if pdu.paramsType = 1 ∨ pdu.paramsType = 2 then bs = pdu.unionWire else bs.length = 8

theorem runs_union (host : Endian) (pdu : DeadReckoningParameters) {bs : List UInt8}
    (h : pdu.ReadsUnion bs) :
    Runs (deserializeUnion host { init with
        algorithm := pdu.algorithm, paramsType := pdu.paramsType }) bs
      (.ok { pdu.selected with
        linearAcceleration := init.linearAcceleration
        angularVelocity := init.angularVelocity }) := by
  unfold ReadsUnion at h
  unfold deserializeUnion selected
  dsimp only
  by_cases h1 : pdu.paramsType = 1
  · have hpad : Runs (Serialization.read UInt16 host) (List.replicate 2 0) _ := runs_read host rfl
    rw [if_pos (Or.inl h1)] at h
    rw [h, if_pos h1, unionWire, if_pos h1, ← List.append_nil (EulerAngles.wire _)]
    refine hpad.bind <| (EulerAngles.runs_wire host _).bind ?_
    simpa [h1] using runs_return _
  · by_cases h2 : pdu.paramsType = 2
    · rw [if_pos (Or.inr h2)] at h
      rw [h, if_neg h1, if_pos h2, unionWire, if_neg h1, if_pos h2,
        ← List.append_nil (DISQuat.wire _)]
      apply (DISQuat.runs_wire host _).bind
      simpa [h2] using runs_return _
    · rw [if_neg (by simp [h1, h2])] at h
      rw [if_neg h1, if_neg h2, ← List.append_nil bs]
      apply (runs_read (α := UInt64) host h).bind
      simpa [h1, h2] using runs_return _

/-- The decoder reads the parameters from bytes whose union part it takes for the union. -/
theorem runs_of_readsUnion (host : Endian) (pdu : DeadReckoningParameters) {bs : List UInt8}
    (h : pdu.ReadsUnion bs) :
    Runs (deserializeDirect host)
      [[pdu.algorithm], [pdu.paramsType], bs, pdu.linearAcceleration.wire,
        pdu.angularVelocity.wire].flatten (.ok pdu.selected) := by
  simp only [List.flatten_cons, List.flatten_nil]
  refine (runs_read_byte host _).bind <| (runs_read_byte host _).bind ?_
  simp only [hasValue_ok, deref_ok, Bool.not_true, Bool.or_self, Bool.false_eq_true, if_false,
    pure_bind]
  refine (runs_union host pdu h).bind <| (Vec3.runs_wire host _).bind <|
    (Vec3.runs_wire host _).bind ?_
  simp only [hasValue_ok, deref_ok, Bool.not_true, Bool.or_self, Bool.false_eq_true, if_false,
    pure_bind]
  exact runs_return pdu.selected

end DeadReckoningParameters

/-! ## Byte arrays -/

/-- The array after a loop that stores the bytes `xs` at the indices from `0`. -/
def fillArray (n : Nat) (xs : List UInt8) : Vector UInt8 n := .ofFn fun i => xs.getD i 0

theorem fillArray_toList {n : Nat} (v : Vector UInt8 n) : fillArray n v.toList = v := by
  ext i hi
  simp [fillArray]

theorem runs_many_bytes (host : Endian) {n : Nat} (v : Vector UInt8 n) :
    Runs (Parser.many (Serialization.read UInt8 host) n) v.toList (some v.toList) := by
  have h := Runs.many (f := id) fun b (_ : b ∈ v.toList) => runs_read_byte host b
  rwa [Vector.length_toList, List.map_id, List.flatMap_singleton'] at h

structure EntityMarking where
  characterSet : UInt8
  marking : Vector UInt8 11
  deriving DecidableEq, Inhabited

def EntityMarking.wire (pdu : EntityMarking) : List UInt8 := pdu.characterSet :: pdu.marking.toList

structure VariableParameters where
  type : UInt8
  data : Vector UInt8 15
  deriving DecidableEq, Inhabited

namespace VariableParameters

/-- The body of the loop over the variable parameters. The type is not checked. -/
def deserialize (host : Endian) : Get (Expected VariableParameters) := do
  let type ← deref (← read UInt8 host)
  match ← Parser.many (read UInt8 host) 15 with
  | none => return unexpect
  | some data => return .ok ⟨type, fillArray 15 data⟩

def wire (pdu : VariableParameters) : List UInt8 := pdu.type :: pdu.data.toList

@[simp] theorem length_wire (pdu : VariableParameters) : pdu.wire.length = 16 := by simp [wire]

theorem runs_wire (host : Endian) (pdu : VariableParameters) :
    Runs (deserialize host) pdu.wire (.ok pdu) := by
  rw [wire, ← List.append_nil pdu.data.toList, ← List.singleton_append]
  apply (runs_read_byte host _).bind
  simp only [deref_ok, pure_bind]
  apply (runs_many_bytes host pdu.data).bind
  simp only [fillArray_toList]
  exact runs_return pdu

end VariableParameters

/-! ## The PDU -/

structure EntityStatePDU where
  header : PDUHeader
  entityId : EntityID
  forceId : UInt8
  entityType : EntityType
  alternativeEntityType : EntityType
  entityLinearVelocity : Vec3
  entityLocation : WorldCoordinates
  entityOrientation : EulerAngles
  entityAppearance : UInt32
  drParameters : DeadReckoningParameters
  entityMarking : EntityMarking
  capabilities : UInt32
  variableParameters : List VariableParameters
  deriving DecidableEq, Inhabited

namespace EntityStatePDU

/-- `pdu_size_calc(pdu)`. -/
def pduSizeCalc (pdu : EntityStatePDU) : Nat := (1152 + 128 * pdu.variableParameters.length) / 8

instance : Serde EntityStatePDU where
  serializeWire host pdu := record <|
    serializePduHeader host pdu.header pdu.pduSizeCalc ++ [
    nested (serializeWire host pdu.entityId),
    write host pdu.forceId,
    write host (UInt8.ofNat pdu.variableParameters.length),
    nested (serializeWire host pdu.entityType),
    nested (serializeWire host pdu.alternativeEntityType),
    nested (serializeWire host pdu.entityLinearVelocity),
    nested (serializeWire host pdu.entityLocation),
    nested (serializeWire host pdu.entityOrientation),
    write host pdu.entityAppearance,
    nested (serializeWire host pdu.drParameters),
    write host pdu.entityMarking.characterSet] ++
    pdu.entityMarking.marking.toList.map (fun byte => write host byte) ++ [
    write host pdu.capabilities] ++
    pdu.variableParameters.flatMap fun varParam =>
      write host varParam.type :: varParam.data.toList.map fun byte => write host byte
  deserializeDirect host := do
    let header ← PDUHeader.deserializeDirect host
    let entityId ← deserializeDirect host
    let forceId ← read UInt8 host
    let numVariableParameters ← read UInt8 host
    let entityType ← deserializeDirect host
    let alternativeEntityType ← deserializeDirect host
    let entityLinearVelocity ← deserializeDirect host
    let entityLocation ← deserializeDirect host
    let entityOrientation ← deserializeDirect host
    let entityAppearance ← read UInt32 host
    let drParameters ← deserializeDirect host
    let markingCharacterSet ← read UInt8 host
    if !markingCharacterSet.hasValue then
      return unexpect
    let characterSet ← deref markingCharacterSet
    match ← Parser.many (read UInt8 host) 11 with
    | none => return unexpect
    | some marking =>
      let capabilities ← read UInt32 host
      let count := (← deref numVariableParameters).toNat
      match ← Parser.many (VariableParameters.deserialize host) count with
      | none => return unexpect
      | some variableParameters =>
        if !header.hasValue || !entityId.hasValue || !forceId.hasValue ||
            !entityType.hasValue || !alternativeEntityType.hasValue ||
            !entityLinearVelocity.hasValue || !entityLocation.hasValue ||
            !entityOrientation.hasValue || !entityAppearance.hasValue ||
            !drParameters.hasValue || !markingCharacterSet.hasValue ||
            !capabilities.hasValue then
          return unexpect
        return .ok {
          header := ← deref header
          entityId := ← deref entityId
          forceId := ← deref forceId
          entityType := ← deref entityType
          alternativeEntityType := ← deref alternativeEntityType
          entityLinearVelocity := ← deref entityLinearVelocity
          entityLocation := ← deref entityLocation
          entityOrientation := ← deref entityOrientation
          entityAppearance := ← deref entityAppearance
          drParameters := ← deref drParameters
          entityMarking := ⟨characterSet, fillArray 11 marking⟩
          capabilities := ← deref capabilities
          variableParameters := variableParameters }

/-- The PDU with only the selected reading of the union. -/
def selected (pdu : EntityStatePDU) : EntityStatePDU :=
  { pdu with drParameters := pdu.drParameters.selected }

/-- The fields up to `entity_appearance`. -/
def headWire (host : Endian) (pdu : EntityStatePDU) : List UInt8 :=
  pdu.header.wire pdu.pduSizeCalc ++ [pdu.entityId.wire, [pdu.forceId],
    [UInt8.ofNat pdu.variableParameters.length], pdu.entityType.wire,
    pdu.alternativeEntityType.wire, pdu.entityLinearVelocity.wire, pdu.entityLocation.wire,
    pdu.entityOrientation.wire, Word.bytes host pdu.entityAppearance].flatten

/-- The fields behind the union of the dead-reckoning parameters. -/
def tailWire (host : Endian) (pdu : EntityStatePDU) : List UInt8 :=
  [pdu.drParameters.linearAcceleration.wire, pdu.drParameters.angularVelocity.wire,
    [pdu.entityMarking.characterSet], pdu.entityMarking.marking.toList,
    Word.bytes host pdu.capabilities,
    pdu.variableParameters.flatMap VariableParameters.wire].flatten

/-- The bytes of the PDU around the bytes `union` of the union. -/
def wireAround (host : Endian) (pdu : EntityStatePDU) (union : List UInt8) : List UInt8 :=
  [pdu.headWire host, [pdu.drParameters.algorithm], [pdu.drParameters.paramsType], union,
    pdu.tailWire host].flatten

def wire (host : Endian) (pdu : EntityStatePDU) : List UInt8 :=
  pdu.wireAround host pdu.drParameters.unionWire

@[simp] theorem length_headWire (host : Endian) (pdu : EntityStatePDU) :
    (pdu.headWire host).length = 88 := by
  simp [headWire, Word.length_bytes]

theorem length_tailWire (host : Endian) (pdu : EntityStatePDU) :
    (pdu.tailWire host).length = 40 + 16 * pdu.variableParameters.length := by
  simp [tailWire, List.length_flatMap, Word.length_bytes, Nat.mul_comm]
  omega

/-- `pdu_size_calc` is the number of bytes on the wire. -/
theorem length_wire (host : Endian) (pdu : EntityStatePDU) :
    (pdu.wire host).length = pdu.pduSizeCalc := by
  simp [wire, wireAround, length_tailWire, pduSizeCalc]
  omega

theorem emits_wire (host : Endian) (pdu : EntityStatePDU) :
    Emits (serializeWire host pdu) (pdu.wire host) := by
  have hparams : WritesAll
      (pdu.variableParameters.flatMap fun varParam =>
        write host varParam.type :: varParam.data.toList.map fun byte => write host byte)
      (pdu.variableParameters.flatMap VariableParameters.wire) :=
    .flatMap fun varParam _ => .cons (writes_byte host _) (.map_byte host _)
  have hhead := WritesAll.append (writes_serializePduHeader host pdu.header pdu.pduSizeCalc) <|
    .cons (writes_nested (EntityID.emits_wire host pdu.entityId)) <|
    .cons (writes_byte host pdu.forceId) <|
    .cons (writes_byte host (UInt8.ofNat pdu.variableParameters.length)) <|
    .cons (writes_nested (EntityType.emits_wire host pdu.entityType)) <|
    .cons (writes_nested (EntityType.emits_wire host pdu.alternativeEntityType)) <|
    .cons (writes_nested (Vec3.emits_wire host pdu.entityLinearVelocity)) <|
    .cons (writes_nested (WorldCoordinates.emits_wire host pdu.entityLocation)) <|
    .cons (writes_nested (EulerAngles.emits_wire host pdu.entityOrientation)) <|
    .cons (writes_write host pdu.entityAppearance) <|
    .cons (writes_nested (DeadReckoningParameters.emits_wire host pdu.drParameters)) <|
    .cons (writes_byte host pdu.entityMarking.characterSet) .nil
  have hmarking := WritesAll.map_byte host pdu.entityMarking.marking.toList
  have hcapabilities := WritesAll.cons (writes_write host pdu.capabilities) .nil
  have h : Emits (serializeWire host pdu) _ :=
    emits_record (((hhead.append hmarking).append hcapabilities).append hparams)
  convert h using 1
  simp [wire, wireAround, headWire, tailWire, DeadReckoningParameters.wire]

/-- The decoder reads the PDU from bytes whose union part it takes for the union. -/
theorem runs_wireAround (host : Endian) (pdu : EntityStatePDU) {union : List UInt8}
    (h : pdu.drParameters.ReadsUnion union) (hcount : pdu.variableParameters.length ≤ 255) :
    Runs (deserializeDirect host) (pdu.wireAround host union) (.ok pdu.selected) := by
  have hnum := toNat_ofNat_eq_iff.mpr hcount
  have hparams := Runs.many (f := id) fun varParam (_ : varParam ∈ pdu.variableParameters) =>
    VariableParameters.runs_wire host varParam
  rw [List.map_id] at hparams
  have hbytes : pdu.wireAround host union = pdu.header.wire pdu.pduSizeCalc ++
      (pdu.entityId.wire ++ ([pdu.forceId] ++ ([UInt8.ofNat pdu.variableParameters.length] ++
      (pdu.entityType.wire ++ (pdu.alternativeEntityType.wire ++
      (pdu.entityLinearVelocity.wire ++ (pdu.entityLocation.wire ++
      (pdu.entityOrientation.wire ++ (Word.bytes host pdu.entityAppearance ++
      ([[pdu.drParameters.algorithm], [pdu.drParameters.paramsType], union,
        pdu.drParameters.linearAcceleration.wire,
        pdu.drParameters.angularVelocity.wire].flatten ++
      ([pdu.entityMarking.characterSet] ++ (pdu.entityMarking.marking.toList ++
      (Word.bytes host pdu.capabilities ++
      (pdu.variableParameters.flatMap VariableParameters.wire ++ [])))))))))))))) := by
    simp [wireAround, headWire, tailWire]
  rw [hbytes]
  refine (PDUHeader.runs_wire host _ _).bind <| (EntityID.runs_wire host _).bind <|
    (runs_read_byte host _).bind <| (runs_read_byte host _).bind <|
    (EntityType.runs_wire host _).bind <| (EntityType.runs_wire host _).bind <|
    (Vec3.runs_wire host _).bind <| (WorldCoordinates.runs_wire host _).bind <|
    (EulerAngles.runs_wire host _).bind <| (runs_read_bytes host _).bind <|
    (DeadReckoningParameters.runs_of_readsUnion host _ h).bind <|
    (runs_read_byte host _).bind ?_
  simp only [hasValue_ok, deref_ok, Bool.not_true, Bool.false_eq_true, if_false, pure_bind]
  refine (runs_many_bytes host _).bind <| (runs_read_bytes host _).bind ?_
  simp only [hnum]
  apply hparams.bind
  simp only [hasValue_ok, deref_ok, Bool.not_true, Bool.or_self, Bool.false_eq_true, if_false,
    pure_bind, fillArray_toList]
  exact runs_return pdu.selected

end EntityStatePDU

end Csics.Dis
