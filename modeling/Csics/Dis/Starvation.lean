import Csics.Dis.Counting
import Csics.Dis.Faults

/-!
# Strings that end too early

Where the decoders of `Faults` look into a failed read after all. The decoder of entity states
takes the type of a variable parameter unchecked: it faults where the bytes end in front of
one (`EndsAtType`). The decoder of transmitters looks up the protocol version in the header
before it checks the header: it faults where there is none.
-/

namespace Csics.Dis

open Base Serialization

/-! ## Transmitter -/

variable {host : Endian} {bs : List UInt8}

/-- The header has a value from eleven bytes on: its padding is not checked. -/
theorem PDUHeader.run_of_le (host : Endian) (h : 11 ≤ bs.length) :
    ∃ x rest, (PDUHeader.deserializeDirect host).run bs = .ok (.ok x, rest) := by
  by_cases h12 : 12 ≤ bs.length
  · obtain ⟨x, hrun⟩ := PDUHeader.reads host bs h12
    exact ⟨x, _, hrun⟩
  · have hlen : bs.length = 11 := by omega
    match bs, hlen with
    | [_, _, _, _, _, _, _, _, _, _, _], _ => exact ⟨_, _, rfl⟩

theorem PDUHeader.run_of_lt (host : Endian) (h : bs.length < 11) :
    ∃ e rest, (PDUHeader.deserializeDirect host).run bs = .ok (.error e, rest) := by
  obtain ⟨r, rest, hrun, _⟩ := PDUHeader.drains host bs
  cases r with
  | error e => exact ⟨e, rest, hrun⟩
  | ok x =>
    have hle := (PDUHeader.of_run hrun).2.1
    omega

namespace TransmitterPDU

/-- With a header, the reads of the fixed part and the check of them. -/
theorem returns_deserializeHead_of_header {x : PDUHeader} {rest : List UInt8}
    (h : (PDUHeader.deserializeDirect host).run bs = .ok (.ok x, rest)) :
    ∃ r rest, (deserializeHead host).run bs = .ok (r, rest) ∧ Reported r := by
  unfold deserializeHead
  rw [Parser.run_bind_of_ok h]
  refine (?_ : Returns _ Reported) rest
  refine (EntityID.drains host).returns.bind fun radioReferenceId _ =>
    (returns_read (Be UInt16) host).bind fun radioNumber _ => ?_
  simp only [deref_ok, pure_bind]
  refine (RadioType.returns_deserialize host x.protocolVersion).bind fun radioType _ =>
    (returns_read UInt8 host).bind fun transmitState _ =>
    (returns_read UInt8 host).bind fun inputSource _ =>
    (returns_read (Be UInt16) host).bind fun variableParameterCount _ =>
    (WorldCoordinates.drains host).returns.bind fun antennaLocation _ =>
    (Vec3.drains host).returns.bind fun relativeAntennaLocation _ =>
    (returns_read (Be UInt16) host).bind fun antennaPatternType _ =>
    (returns_read (Be UInt16) host).bind fun numAntennaPatterns _ =>
    (returns_read (Be UInt64) host).bind fun centerFrequency _ =>
    (returns_read (Be FloatBits) host).bind fun transmitFrequencyBandwidth _ =>
    (returns_read (Be FloatBits) host).bind fun power _ =>
    (ModulationType.returns_deserializeDirect host).bind fun modulationType _ =>
    (returns_read (Be UInt16) host).bind fun cryptoSystem _ =>
    (returns_read (Be UInt16) host).bind fun cryptoKeyId _ =>
    (returns_read UInt8 host).bind fun numModulationParameters _ =>
    (returns_read UInt16 host).bind fun _ _ => (returns_read UInt8 host).bind fun _ _ =>
    returns_check fun h => ?_
  simp only [Bool.or_eq_false_iff, not_hasValue_eq_false] at h
  obtain ⟨⟨⟨⟨⟨⟨⟨⟨⟨⟨⟨⟨⟨⟨⟨⟨-, _, rfl⟩, _, rfl⟩, _, rfl⟩, _, rfl⟩, _, rfl⟩, _, rfl⟩, _, rfl⟩, _, rfl⟩,
    _, rfl⟩, _, rfl⟩, _, rfl⟩, _, rfl⟩, _, rfl⟩, _, rfl⟩, _, rfl⟩, _, rfl⟩ := h
  exact returns_pure (reported_ok _)

/-- With a header the decoder returns. -/
theorem reports_of_header {x : PDUHeader} {rest : List UInt8}
    (h : (PDUHeader.deserializeDirect host).run bs = .ok (.ok x, rest)) :
    ∃ r rest, (deserializeDirect host : Get (Expected TransmitterPDU)).run bs = .ok (r, rest) ∧
      Reported r := by
  obtain ⟨r, mid, hrun, _⟩ := returns_deserializeHead_of_header h
  show ∃ r rest, (deserializeHead host >>= _).run bs = _ ∧ _
  rw [Parser.run_bind_of_ok hrun]
  refine (?_ : Returns _ Reported) mid
  cases r with
  | error e => exact returns_pure reported_unexpect
  | ok head =>
    obtain ⟨pdu, numModulationParameters, numAntennaPatterns, variableParameterCount⟩ := head
    apply ((returns_read UInt8 host).many _).bind
    intro modulationParameters _
    cases modulationParameters with
    | none => exact returns_pure reported_unexpect
    | some modulationParameters =>
      apply ((BeamAntennaPattern.returns_deserializeDirect host).many _).bind
      intro antennaPatterns _
      cases antennaPatterns with
      | none => exact returns_pure reported_unexpect
      | some antennaPatterns =>
        apply ((VariableTransmitterParameters.returns_deserialize host).many _).bind
        intro variableParameters _
        cases variableParameters with
        | none => exact returns_pure reported_unexpect
        | some variableParameters => exact returns_pure (reported_ok _)

/-- Without one it looks for the protocol version in it. -/
theorem faults_of_no_header {e : DeserializationStatus} {rest : List UInt8}
    (h : (PDUHeader.deserializeDirect host).run bs = .ok (.error e, rest)) :
    (deserializeDirect host : Get (Expected TransmitterPDU)).run bs = .error .emptyExpected := by
  obtain ⟨id, mid, hid, _⟩ := EntityID.drains host rest
  obtain ⟨number, mid', hnumber, _⟩ := drains_read (Be UInt16) host (by decide) mid
  have hhead : (deserializeHead host).run bs = .error .emptyExpected := by
    unfold deserializeHead
    rw [Parser.run_bind_of_ok h, Parser.run_bind_of_ok hid, Parser.run_bind_of_ok hnumber]
    rfl
  exact Parser.run_bind_of_error hhead

end TransmitterPDU

/-! ## Entity state -/

theorem run_many_bytes_of_lt (host : Endian) {n : Nat} (h : bs.length < n) :
    ∃ rest, (Parser.many (read UInt8 host) n).run bs = .ok (none, rest) := by
  induction n generalizing bs with
  | zero => omega
  | succ n ih =>
    cases bs with
    | nil => exact ⟨[], rfl⟩
    | cons b bs =>
      obtain ⟨rest, hrun⟩ := ih (Nat.lt_of_succ_lt_succ h)
      refine ⟨rest, ?_⟩
      rw [Parser.many, Parser.run_bind_of_ok (run_read_cons host b bs)]
      show (Parser.many _ n >>= _).run bs = _
      rw [Parser.run_bind_of_ok hrun]
      rfl

theorem run_many_bytes_of_le (host : Endian) {n : Nat} (h : n ≤ bs.length) :
    (Parser.many (read UInt8 host) n).run bs = .ok (some (bs.take n), bs.drop n) := by
  have hlen : (bs.take n).length = n := List.length_take_of_le h
  have hrun := Runs.many (f := id) fun b (_ : b ∈ bs.take n) => runs_read_byte host b
  rw [List.map_id, hlen, List.flatMap_singleton'] at hrun
  simpa using hrun (bs.drop n)

namespace VariableParameters

theorem run_nil : (deserialize host).run [] = .error .emptyExpected := rfl

theorem run_of_lt (host : Endian) (b : UInt8) (h : bs.length < 15) :
    ∃ rest, (deserialize host).run (b :: bs) = .ok (unexpect, rest) := by
  obtain ⟨rest, hrun⟩ := run_many_bytes_of_lt host h
  refine ⟨rest, ?_⟩
  rw [deserialize, Parser.run_bind_of_ok (run_read_cons host b bs)]
  simp only [deref_ok, pure_bind]
  rw [Parser.run_bind_of_ok hrun]
  rfl

theorem run_of_le (host : Endian) (b : UInt8) (h : 15 ≤ bs.length) :
    ∃ x, (deserialize host).run (b :: bs) = .ok (.ok x, bs.drop 15) := by
  refine ⟨⟨b, fillArray 15 (bs.take 15)⟩, ?_⟩
  rw [deserialize, Parser.run_bind_of_ok (run_read_cons host b bs)]
  simp only [deref_ok, pure_bind]
  rw [Parser.run_bind_of_ok (run_many_bytes_of_le host h)]
  rfl

/-- The bytes end where the type of one of the `count` parameters should be. -/
def EndsAtType (count n : Nat) : Prop := n % 16 = 0 ∧ n / 16 < count

instance (count n : Nat) : Decidable (EndsAtType count n) := inferInstanceAs (Decidable (_ ∧ _))

theorem run_many_of_endsAtType (host : Endian) {count : Nat} (h : EndsAtType count bs.length) :
    (Parser.many (deserialize host) count).run bs = .error .emptyExpected := by
  obtain ⟨hmod, hlt⟩ := h
  induction count generalizing bs with
  | zero => omega
  | succ count ih =>
    cases bs with
    | nil => exact Parser.run_bind_of_error run_nil
    | cons b bs =>
      simp only [List.length_cons] at hmod hlt
      obtain ⟨x, hrun⟩ := run_of_le host b (show 15 ≤ bs.length by omega)
      have hlen : (bs.drop 15).length = bs.length - 15 := List.length_drop
      have hrest := ih (by rw [hlen]; omega) (by rw [hlen]; omega)
      rw [Parser.many, Parser.run_bind_of_ok hrun]
      exact Parser.run_bind_of_error hrest

theorem run_many_of_not_endsAtType (host : Endian) {count : Nat}
    (h : ¬ EndsAtType count bs.length) :
    ∃ r rest, (Parser.many (deserialize host) count).run bs = .ok (r, rest) := by
  unfold EndsAtType at h
  induction count generalizing bs with
  | zero => exact ⟨_, _, rfl⟩
  | succ count ih =>
    cases bs with
    | nil => exact absurd ⟨rfl, Nat.succ_pos count⟩ h
    | cons b bs =>
      simp only [List.length_cons] at h
      by_cases hlen : 15 ≤ bs.length
      · obtain ⟨x, hrun⟩ := run_of_le host b hlen
        have hdrop : (bs.drop 15).length = bs.length - 15 := List.length_drop
        obtain ⟨r, rest, hrest⟩ := ih (show ¬ ((bs.drop 15).length % 16 = 0 ∧ _) by
          rw [hdrop]
          omega)
        rw [Parser.many, Parser.run_bind_of_ok hrun]
        show ∃ r rest, (Parser.many _ count >>= _).run _ = _
        rw [Parser.run_bind_of_ok hrest]
        cases r with
        | none => exact ⟨_, _, rfl⟩
        | some xs => exact ⟨_, _, rfl⟩
      · obtain ⟨rest, hrun⟩ := run_of_lt host b (Nat.not_le.mp hlen)
        rw [Parser.many, Parser.run_bind_of_ok hrun]
        exact ⟨_, _, rfl⟩

end VariableParameters

namespace EntityStatePDU

/-- The bytes in front of the capabilities, by the `params_type` in byte 89. -/
def fixedSize (bs : List UInt8) : Nat :=
  126 + DeadReckoningParameters.unionSize (bs.getD 89 0)

/-- How many of `n` bytes the read of the capabilities leaves. -/
def behindCapabilities (n : Nat) : Nat := if 4 ≤ n then n - 4 else n

/-- The decoder is behind the fixed part when the bytes end where it takes the type of a
variable parameter. -/
def EndsAtType (bs : List UInt8) : Prop :=
  fixedSize bs ≤ bs.length ∧
    VariableParameters.EndsAtType (bs.getD 19 0).toNat
      (behindCapabilities (bs.length - fixedSize bs))

/-- The results of the reads in front of the dead-reckoning parameters, without the count. -/
structure Head where
  header : Expected PDUHeader
  entityId : Expected EntityID
  forceId : Expected UInt8
  entityType : Expected EntityType
  alternativeEntityType : Expected EntityType
  entityLinearVelocity : Expected Vec3
  entityLocation : Expected WorldCoordinates
  entityOrientation : Expected EulerAngles
  entityAppearance : Expected UInt32

instance (bs : List UInt8) : Decidable (EndsAtType bs) := inferInstanceAs (Decidable (_ ∧ _))

/-- All of them have values. -/
def Head.Full (head : Head) : Prop :=
  (∃ x, head.header = .ok x) ∧ (∃ x, head.entityId = .ok x) ∧ (∃ x, head.forceId = .ok x) ∧
    (∃ x, head.entityType = .ok x) ∧ (∃ x, head.alternativeEntityType = .ok x) ∧
    (∃ x, head.entityLinearVelocity = .ok x) ∧ (∃ x, head.entityLocation = .ok x) ∧
    (∃ x, head.entityOrientation = .ok x) ∧ ∃ x, head.entityAppearance = .ok x

/-- The decoder behind the dead-reckoning parameters. -/
def deserializeTail (host : Endian) (head : Head) (numVariableParameters : Expected UInt8)
    (drParameters : Expected DeadReckoningParameters) : Get (Expected EntityStatePDU) := do
  let markingCharacterSet ← read UInt8 host
  if !markingCharacterSet.hasValue then
    return unexpect
  let characterSet ← deref markingCharacterSet
  match ← Parser.many (read UInt8 host) 11 with
  | none => return unexpect
  | some marking =>
    let capabilities ← read UInt32 host
    let count := (← deref numVariableParameters).toNat
    match ← Parser.many (VariableParameters.deserialize host) count with
    | none => return unexpect
    | some variableParameters =>
      if !head.header.hasValue || !head.entityId.hasValue || !head.forceId.hasValue ||
          !head.entityType.hasValue || !head.alternativeEntityType.hasValue ||
          !head.entityLinearVelocity.hasValue || !head.entityLocation.hasValue ||
          !head.entityOrientation.hasValue || !head.entityAppearance.hasValue ||
          !drParameters.hasValue || !markingCharacterSet.hasValue ||
          !capabilities.hasValue then
        return unexpect
      return .ok {
        header := ← deref head.header
        entityId := ← deref head.entityId
        forceId := ← deref head.forceId
        entityType := ← deref head.entityType
        alternativeEntityType := ← deref head.alternativeEntityType
        entityLinearVelocity := ← deref head.entityLinearVelocity
        entityLocation := ← deref head.entityLocation
        entityOrientation := ← deref head.entityOrientation
        entityAppearance := ← deref head.entityAppearance
        drParameters := ← deref drParameters
        entityMarking := ⟨characterSet, fillArray 11 marking⟩
        capabilities := ← deref capabilities
        variableParameters := variableParameters }

section

variable (head : Head) {numVariableParameters : Expected UInt8}
  {drParameters : Expected DeadReckoningParameters}

/-- The marking is read by single bytes, and none of them may be missing. -/
theorem starved_deserializeTail :
    Starved (deserializeTail host head numVariableParameters drParameters) 12 := by
  intro bs h
  cases bs with
  | nil => exact ⟨[], rfl⟩
  | cons b bs =>
    obtain ⟨rest, hrun⟩ := run_many_bytes_of_lt host
      (show bs.length < 11 by simp only [List.length_cons] at h; omega)
    refine ⟨rest, ?_⟩
    rw [deserializeTail, Parser.run_bind_of_ok (run_read_cons host b bs)]
    simp only [hasValue_ok, Bool.not_true, Bool.false_eq_true, if_false, deref_ok, pure_bind]
    rw [Parser.run_bind_of_ok hrun]
    rfl

theorem run_read_capabilities (host : Endian) (bs : List UInt8) :
    ∃ r rest, (read UInt32 host).run bs = .ok (r, rest) ∧
      rest.length = behindCapabilities bs.length := by
  obtain ⟨r, rest, hrun, -⟩ := returns_read UInt32 host bs
  refine ⟨r, rest, hrun, ?_⟩
  unfold behindCapabilities
  have hwidth : Word.width UInt32 = 4 := rfl
  obtain ⟨-, hlen⟩ | ⟨rfl, hlt⟩ := length_of_read hrun
  · rw [if_pos (by omega)]
    omega
  · rw [if_neg (by omega)]

/-- Behind the marking and the capabilities only the types are looked at unchecked. -/
theorem run_deserializeTail {count : UInt8} (h : 12 ≤ bs.length) :
    (VariableParameters.EndsAtType count.toNat (behindCapabilities (bs.length - 12)) →
      (deserializeTail host head (.ok count) drParameters).run bs = .error .emptyExpected) ∧
    (¬ VariableParameters.EndsAtType count.toNat (behindCapabilities (bs.length - 12)) →
      ∃ r rest, (deserializeTail host head (.ok count) drParameters).run bs = .ok (r, rest) ∧
        Reported r) := by
  obtain ⟨characterSet, bs, rfl⟩ : ∃ c cs, bs = c :: cs :=
    List.exists_cons_of_length_pos (by omega)
  simp only [List.length_cons] at h ⊢
  have hmarking := run_many_bytes_of_le host (show 11 ≤ bs.length by omega)
  obtain ⟨capabilities, rest, hcapabilities, hlen⟩ := run_read_capabilities host (bs.drop 11)
  have hsize : bs.length + 1 - 12 = (bs.drop 11).length := by
    rw [List.length_drop]
    omega
  rw [hsize, ← hlen, deserializeTail,
    Parser.run_bind_of_ok (run_read_cons host characterSet bs)]
  simp only [hasValue_ok, Bool.not_true, Bool.false_eq_true, if_false, deref_ok, pure_bind]
  rw [Parser.run_bind_of_ok hmarking]
  dsimp only
  rw [Parser.run_bind_of_ok hcapabilities]
  constructor
  · intro hends
    exact Parser.run_bind_of_error (VariableParameters.run_many_of_endsAtType host hends)
  · intro hends
    obtain ⟨r, rest', hrun⟩ := VariableParameters.run_many_of_not_endsAtType host hends
    rw [Parser.run_bind_of_ok hrun]
    refine (?_ : Returns _ Reported) rest'
    cases r with
    | none => exact returns_pure reported_unexpect
    | some variableParameters =>
      -- the results of the head, whether they have values or not, are all in the check
      obtain ⟨header, entityId, forceId, entityType, alternativeEntityType,
        entityLinearVelocity, entityLocation, entityOrientation, entityAppearance⟩ := head
      apply returns_check
      intro h
      simp only [Bool.or_eq_false_iff, not_hasValue_eq_false] at h
      obtain ⟨⟨⟨⟨⟨⟨⟨⟨⟨⟨⟨⟨_, rfl⟩, _, rfl⟩, _, rfl⟩, _, rfl⟩, _, rfl⟩, _, rfl⟩, _, rfl⟩, _, rfl⟩,
        _, rfl⟩, _, rfl⟩, -⟩, _, rfl⟩ := h
      exact returns_pure (reported_ok _)

end

theorem starved : Starved (deserializeDirect host : Get (Expected EntityStatePDU)) 134 :=
  .bind (by decide) (PDUHeader.drains host) fun header =>
  .bind (by decide) (EntityID.drains host) fun entityId =>
  .bind (by decide) (drains_read UInt8 host (by decide)) fun forceId =>
  .bind (by decide) (drains_read UInt8 host (by decide)) fun numVariableParameters =>
  .bind (by decide) (EntityType.drains host) fun entityType =>
  .bind (by decide) (EntityType.drains host) fun alternativeEntityType =>
  .bind (by decide) (Vec3.drains host) fun entityLinearVelocity =>
  .bind (by decide) (WorldCoordinates.drains host) fun entityLocation =>
  .bind (by decide) (EulerAngles.drains host) fun entityOrientation =>
  .bind (by decide) (drains_read UInt32 host (by decide)) fun entityAppearance =>
  .bind (by decide) (DeadReckoningParameters.drains host) fun drParameters =>
  starved_deserializeTail ⟨header, entityId, forceId, entityType, alternativeEntityType,
    entityLinearVelocity, entityLocation, entityOrientation, entityAppearance⟩

/-- The reads up to `params_type` take 90 bytes. -/
theorem run_of_le (host : Endian) (h : 90 ≤ bs.length) :
    ∃ head params, head.Full ∧ params.paramsType = bs.getD 89 0 ∧
      (deserializeDirect host : Get (Expected EntityStatePDU)).run bs =
        (DeadReckoningParameters.deserializeRest host params >>=
          deserializeTail host head (.ok (bs.getD 19 0))).run (bs.drop 90) := by
  obtain ⟨header, h0⟩ := (PDUHeader.reads host).run_drop (show 0 + 12 ≤ bs.length by omega)
  obtain ⟨entityId, h1⟩ := (EntityID.reads host).run_drop (show 12 + 6 ≤ bs.length by omega)
  obtain ⟨forceId, h2⟩ := (reads_read UInt8 host).run_drop (show 18 + 1 ≤ bs.length by omega)
  have h3 := run_read_byte_at host (show 19 < bs.length by omega)
  obtain ⟨entityType, h4⟩ := (EntityType.reads host).run_drop (show 20 + 8 ≤ bs.length by omega)
  obtain ⟨alternativeEntityType, h5⟩ :=
    (EntityType.reads host).run_drop (show 28 + 8 ≤ bs.length by omega)
  obtain ⟨entityLinearVelocity, h6⟩ :=
    (Vec3.reads host).run_drop (show 36 + 12 ≤ bs.length by omega)
  obtain ⟨entityLocation, h7⟩ :=
    (WorldCoordinates.reads host).run_drop (show 48 + 24 ≤ bs.length by omega)
  obtain ⟨entityOrientation, h8⟩ :=
    (EulerAngles.reads host).run_drop (show 72 + 12 ≤ bs.length by omega)
  obtain ⟨entityAppearance, h9⟩ :=
    (reads_read UInt32 host).run_drop (show 84 + 4 ≤ bs.length by omega)
  have hparams := DeadReckoningParameters.run_cons_cons host (bs.getD 88 0) (bs.getD 89 0)
    (bs.drop 90)
  rw [← drop_eq_getD_cons (show 89 < bs.length by omega),
    ← drop_eq_getD_cons (show 88 < bs.length by omega)] at hparams
  refine ⟨⟨.ok header, .ok entityId, .ok forceId, .ok entityType, .ok alternativeEntityType,
    .ok entityLinearVelocity, .ok entityLocation, .ok entityOrientation, .ok entityAppearance⟩,
    { DeadReckoningParameters.init with
      algorithm := bs.getD 88 0, paramsType := bs.getD 89 0 },
    ⟨⟨_, rfl⟩, ⟨_, rfl⟩, ⟨_, rfl⟩, ⟨_, rfl⟩, ⟨_, rfl⟩, ⟨_, rfl⟩, ⟨_, rfl⟩, ⟨_, rfl⟩, _, rfl⟩,
    rfl, ?_⟩
  refine (Parser.run_bind_of_ok h0).trans <| (Parser.run_bind_of_ok h1).trans <|
    (Parser.run_bind_of_ok h2).trans <| (Parser.run_bind_of_ok h3).trans <|
    (Parser.run_bind_of_ok h4).trans <| (Parser.run_bind_of_ok h5).trans <|
    (Parser.run_bind_of_ok h6).trans <| (Parser.run_bind_of_ok h7).trans <|
    (Parser.run_bind_of_ok h8).trans <| (Parser.run_bind_of_ok h9).trans ?_
  exact Parser.run_bind_congr hparams

/-- With the whole fixed part the decoder gets behind the dead-reckoning parameters. -/
theorem run_of_fixedSize_le (host : Endian) (h : fixedSize bs ≤ bs.length) :
    ∃ head drParameters, head.Full ∧
      (deserializeDirect host : Get (Expected EntityStatePDU)).run bs =
        (deserializeTail host head (.ok (bs.getD 19 0)) (.ok drParameters)).run
          (bs.drop (fixedSize bs - 12)) := by
  unfold fixedSize at h ⊢
  obtain ⟨head, params, hfull, hparams, hrun⟩ :=
    run_of_le host (show 90 ≤ bs.length by omega)
  rw [← hparams] at h ⊢
  have hdrop := (DeadReckoningParameters.reads_deserializeRest host params).run_drop
    (show 90 + (DeadReckoningParameters.unionSize params.paramsType + 24) ≤ bs.length by omega)
  obtain ⟨drParameters, hrest⟩ := hdrop
  refine ⟨head, drParameters, hfull, ?_⟩
  rw [hrun, Parser.run_bind_of_ok hrest]
  congr 2
  omega

theorem length_behind (h : fixedSize bs ≤ bs.length) :
    (bs.drop (fixedSize bs - 12)).length - 12 = bs.length - fixedSize bs ∧
      12 ≤ (bs.drop (fixedSize bs - 12)).length := by
  have hsize : 12 ≤ fixedSize bs := by
    unfold fixedSize
    omega
  rw [List.length_drop]
  omega

/-- Without it the marking is missing. -/
theorem run_of_lt_fixedSize (host : Endian) (h : bs.length < fixedSize bs) :
    ∃ rest, (deserializeDirect host : Get (Expected EntityStatePDU)).run bs =
      .ok (unexpect, rest) := by
  by_cases hlen : bs.length < 134
  · exact starved bs hlen
  · obtain ⟨head, params, -, hparams, hrun⟩ := run_of_le host (show 90 ≤ bs.length by omega)
    unfold fixedSize at h
    rw [← hparams] at h
    obtain ⟨drParameters, mid, hrest, hmid, htaken⟩ :=
      DeadReckoningParameters.drains_deserializeRest host params (bs.drop 90)
    rw [List.length_drop] at hmid htaken
    rw [hrun, Parser.run_bind_of_ok hrest]
    exact starved_deserializeTail head mid (by omega)

/-- The type is looked at where there is no byte. -/
theorem run_of_endsAtType (host : Endian) (h : EndsAtType bs) :
    (deserializeDirect host : Get (Expected EntityStatePDU)).run bs = .error .emptyExpected := by
  obtain ⟨hsize, hends⟩ := h
  have hlen := length_behind hsize
  obtain ⟨head, drParameters, -, hrun⟩ := run_of_fixedSize_le host hsize
  rw [hrun]
  exact (run_deserializeTail head hlen.2).1 (by rwa [hlen.1])

end EntityStatePDU

/-! ## The three decoders -/

/-- The decoder returns a value or `unexpect`, and has looked at no value that is missing. -/
def Reports (α : Type) [Serde α] (host : Endian) (bs : List UInt8) : Prop :=
  ∃ r rest, (deserializeDirect host : Get (Expected α)).run bs = .ok (r, rest) ∧ Reported r

theorem EntityStatePDU.reports_iff : Reports EntityStatePDU host bs ↔ ¬ EndsAtType bs := by
  constructor
  · intro ⟨r, rest, hrun, _⟩ hends
    rw [run_of_endsAtType host hends] at hrun
    cases hrun
  · intro hends
    by_cases hsize : fixedSize bs ≤ bs.length
    · obtain ⟨head, drParameters, -, hrun⟩ := run_of_fixedSize_le host hsize
      have hlen := length_behind hsize
      unfold Reports
      rw [hrun]
      exact (run_deserializeTail head hlen.2).2 fun h => hends ⟨hsize, by rwa [hlen.1] at h⟩
    · obtain ⟨rest, hrun⟩ := run_of_lt_fixedSize host (Nat.not_le.mp hsize)
      exact ⟨_, rest, hrun, reported_unexpect⟩

theorem TransmitterPDU.reports_iff : Reports TransmitterPDU host bs ↔ 11 ≤ bs.length := by
  constructor
  · intro ⟨r, rest, hrun, _⟩
    by_contra hlen
    obtain ⟨e, mid, hheader⟩ := PDUHeader.run_of_lt host (Nat.not_le.mp hlen)
    rw [faults_of_no_header hheader] at hrun
    cases hrun
  · intro hlen
    obtain ⟨x, mid, hheader⟩ := PDUHeader.run_of_le host hlen
    exact reports_of_header hheader

/-- Emissions are decoded without a fault. An entity state is not where the bytes end in front
of the type of a variable parameter, and a transmitter not where the header is missing. -/
theorem reports_all_iff (host : Endian) (bs : List UInt8) :
    (Reports EntityStatePDU host bs ↔ ¬ EntityStatePDU.EndsAtType bs) ∧
      Reports ElectromagneticEmissionPDU host bs ∧
      (Reports TransmitterPDU host bs ↔ 11 ≤ bs.length) :=
  ⟨EntityStatePDU.reports_iff, ElectromagneticEmissionPDU.returns_deserializeDirect host bs,
    TransmitterPDU.reports_iff⟩

/-- An entity state that is cut off in front of its only variable parameter, and no bytes. -/
theorem not_reports_cut :
    ¬ Reports EntityStatePDU .little (List.replicate 19 0 ++ 1 :: List.replicate 118 0) ∧
      ¬ Reports TransmitterPDU .little [] := by
  constructor
  · intro h
    exact EntityStatePDU.reports_iff.mp h (by decide +kernel)
  · intro h
    exact absurd (TransmitterPDU.reports_iff.mp h) (by decide)

end Csics.Dis
