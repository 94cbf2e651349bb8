import Csics.Dis.Emission
import Csics.Dis.Reach
import Csics.Dis.Transmitter

/-!
# Looking into a failed read

A decoder may look at the value of a result only where it has one. Most decoders collect the
results of their reads and look at them behind one check; on every string they return a value
or `unexpect` (`Returns _ Reported`).
-/

namespace Csics.Dis

open Base Serialization

/-! ## Emission -/

theorem EEFundamentalParameterData.returns_deserializeDirect (host : Endian) :
    Returns (deserializeDirect host : Get (Expected EEFundamentalParameterData)) Reported := by
  apply (drains_readWords FloatBits host (by decide)).returns.bind
  intro r _
  split
  · exact returns_pure (reported_ok _)
  · exact returns_pure reported_unexpect

theorem BeamData.returns_deserializeDirect (host : Endian) :
    Returns (deserializeDirect host : Get (Expected BeamData)) Reported := by
  apply (drains_readWords FloatBits host (by decide)).returns.bind
  intro r _
  split
  · exact returns_pure (reported_ok _)
  · exact returns_pure reported_unexpect

theorem JammingTechnique.returns_deserializeDirect (host : Endian) :
    Returns (deserializeDirect host : Get (Expected JammingTechnique)) Reported := by
  refine (returns_read UInt8 host).bind fun kind _ =>
    (returns_read UInt8 host).bind fun category _ =>
    (returns_read UInt8 host).bind fun subcategory _ =>
    (returns_read UInt8 host).bind fun specific _ => returns_check fun h => ?_
  simp only [Bool.or_eq_false_iff, not_hasValue_eq_false] at h
  obtain ⟨⟨⟨⟨_, rfl⟩, _, rfl⟩, _, rfl⟩, _, rfl⟩ := h
  exact returns_pure (reported_ok _)

theorem TrackJam.returns_deserializeDirect (host : Endian) :
    Returns (deserializeDirect host : Get (Expected TrackJam)) Reported := by
  refine (EntityID.drains host).returns.bind fun trackJamTarget _ =>
    (returns_read UInt8 host).bind fun emitterNumber _ =>
    (returns_read UInt8 host).bind fun beamNumber _ => returns_check fun h => ?_
  simp only [Bool.or_eq_false_iff, not_hasValue_eq_false] at h
  obtain ⟨⟨⟨_, rfl⟩, _, rfl⟩, _, rfl⟩ := h
  exact returns_pure (reported_ok _)

theorem Beam.returns_deserializeDirect (host : Endian) :
    Returns (deserializeDirect host : Get (Expected Beam)) Reported := by
  refine (returns_read UInt8 host).bind fun recordLength _ =>
    (returns_read UInt8 host).bind fun beamNumber _ =>
    (returns_read (Be UInt16) host).bind fun beamParameterIndex _ =>
    (EEFundamentalParameterData.returns_deserializeDirect host).bind
      fun fundamentalParameters _ =>
    (BeamData.returns_deserializeDirect host).bind fun beamData _ =>
    (returns_read UInt8 host).bind fun beamFunction _ =>
    (returns_read UInt8 host).bind fun numberOfTargets _ =>
    (returns_read UInt8 host).bind fun highDensityTrackJam _ =>
    (returns_read UInt8 host).bind fun beamStatus _ =>
    (JammingTechnique.returns_deserializeDirect host).bind fun jammingTechnique _ =>
    returns_check fun h => ?_
  simp only [Bool.or_eq_false_iff, not_hasValue_eq_false] at h
  obtain ⟨⟨⟨⟨⟨⟨⟨⟨⟨⟨recordLength, rfl⟩, _, rfl⟩, _, rfl⟩, _, rfl⟩, _, rfl⟩, _, rfl⟩, _, rfl⟩,
    _, rfl⟩, _, rfl⟩, _, rfl⟩ := h
  simp only [deref_ok, pure_bind]
  split
  · apply ((TrackJam.returns_deserializeDirect host).many _).bind
    intro jams _
    cases jams with
    | none => exact returns_pure reported_unexpect
    | some jams => exact returns_pure (reported_ok _)
  · exact returns_pure (reported_ok _)

theorem EmitterSystem.returns_deserializeDirect (host : Endian) :
    Returns (deserializeDirect host : Get (Expected EmitterSystem)) Reported := by
  refine (returns_read UInt8 host).bind fun recordLength _ =>
    (returns_read UInt8 host).bind fun numBeams _ => (returns_skip 2).bind fun _ _ =>
    (returns_read (Be UInt16) host).bind fun emitterName _ =>
    (returns_read UInt8 host).bind fun function _ =>
    (returns_read UInt8 host).bind fun emitterNumber _ =>
    (Vec3.drains host).returns.bind fun emitterLocation _ =>
    returns_check fun h => ?_
  simp only [Bool.or_eq_false_iff, not_hasValue_eq_false] at h
  obtain ⟨⟨⟨⟨⟨⟨_, rfl⟩, _, rfl⟩, _, rfl⟩, _, rfl⟩, _, rfl⟩, _, rfl⟩ := h
  simp only [deref_ok, pure_bind]
  apply ((Beam.returns_deserializeDirect host).many _).bind
  intro beams _
  cases beams with
  | none => exact returns_pure reported_unexpect
  | some beams => exact returns_pure (reported_ok _)

/-- The decoder of emissions looks at a value only behind the check of it. -/
theorem ElectromagneticEmissionPDU.returns_deserializeDirect (host : Endian) :
    Returns (deserializeDirect host : Get (Expected ElectromagneticEmissionPDU)) Reported := by
  refine (PDUHeader.drains host).returns.bind fun header _ =>
    (EntityID.drains host).returns.bind fun emitterId _ =>
    (EntityID.drains host).returns.bind fun eventId _ =>
    (returns_read UInt8 host).bind fun stateUpdateIndicator _ =>
    (returns_read UInt8 host).bind fun numEmitterSystems _ =>
    (returns_read UInt16 host).bind fun _ _ => returns_check fun h => ?_
  simp only [Bool.or_eq_false_iff, not_hasValue_eq_false] at h
  obtain ⟨⟨⟨⟨⟨_, rfl⟩, _, rfl⟩, _, rfl⟩, _, rfl⟩, _, rfl⟩ := h
  simp only [deref_ok, pure_bind]
  apply ((EmitterSystem.returns_deserializeDirect host).many _).bind
  intro systems _
  cases systems with
  | none => exact returns_pure reported_unexpect
  | some systems => exact returns_pure (reported_ok _)

/-! ## Transmitter -/

theorem RadioType.returns_deserialize (host : Endian) (protocolVersion : ProtocolVersion) :
    Returns (RadioType.deserialize host protocolVersion) Reported := by
  unfold RadioType.deserialize
  split
  · refine (returns_read UInt8 host).bind fun entityKind _ =>
      (returns_read UInt8 host).bind fun domain _ =>
      (returns_read (Be UInt16) host).bind fun countryCode _ =>
      (returns_read UInt8 host).bind fun nomenclatureVersion _ =>
      (returns_read (Be UInt16) host).bind fun nomenclature _ => returns_check fun h => ?_
    simp only [Bool.or_eq_false_iff, not_hasValue_eq_false] at h
    obtain ⟨⟨⟨⟨⟨_, rfl⟩, _, rfl⟩, _, rfl⟩, _, rfl⟩, _, rfl⟩ := h
    exact returns_pure (reported_ok _)
  · split
    · refine (returns_read UInt8 host).bind fun entityKind _ =>
        (returns_read UInt8 host).bind fun domain _ =>
        (returns_read (Be UInt16) host).bind fun countryCode _ =>
        (returns_read UInt8 host).bind fun category _ =>
        (returns_read UInt8 host).bind fun subcategory _ =>
        (returns_read UInt8 host).bind fun specific _ =>
        (returns_read UInt8 host).bind fun extra _ => returns_check fun h => ?_
      simp only [Bool.or_eq_false_iff, not_hasValue_eq_false] at h
      obtain ⟨⟨⟨⟨⟨⟨⟨_, rfl⟩, _, rfl⟩, _, rfl⟩, _, rfl⟩, _, rfl⟩, _, rfl⟩, _, rfl⟩ := h
      exact returns_pure (reported_ok _)
    · exact returns_pure reported_unexpect

theorem ModulationType.returns_deserializeDirect (host : Endian) :
    Returns (deserializeDirect host : Get (Expected ModulationType)) Reported := by
  apply (drains_readWords UInt16 host (by decide)).returns.bind
  intro r _
  split
  · exact returns_pure (reported_ok _)
  · exact returns_pure reported_unexpect

theorem BeamAntennaPattern.returns_deserializeDirect (host : Endian) :
    Returns (deserializeDirect host : Get (Expected BeamAntennaPattern)) Reported := by
  show Returns (BeamAntennaPattern.deserialize host) Reported
  unfold BeamAntennaPattern.deserialize
  refine (EulerAngles.drains host).returns.bind fun beamDirection _ =>
    (returns_read (Be FloatBits) host).bind fun azimuthBeamwidth _ =>
    (returns_read (Be FloatBits) host).bind fun elevationBeamwidth _ =>
    (returns_read UInt8 host).bind fun referenceSystem _ => (returns_skip 3).bind fun _ _ =>
    (returns_read (Be FloatBits) host).bind fun eZ _ =>
    (returns_read (Be FloatBits) host).bind fun eX _ =>
    (returns_read (Be FloatBits) host).bind fun phase _ => (returns_skip 4).bind fun _ _ =>
    returns_check fun h => ?_
  simp only [Bool.or_eq_false_iff, not_hasValue_eq_false] at h
  obtain ⟨⟨⟨⟨⟨⟨⟨_, rfl⟩, _, rfl⟩, _, rfl⟩, _, rfl⟩, _, rfl⟩, _, rfl⟩, _, rfl⟩ := h
  exact returns_pure (reported_ok _)

theorem VariableTransmitterParameters.returns_deserialize (host : Endian) :
    Returns (VariableTransmitterParameters.deserialize host) Reported := by
  refine (returns_read (Be UInt32) host).bind fun type _ =>
    (returns_read (Be UInt16) host).bind fun length _ =>
    (returns_read UInt16 host).bind fun _ _ => returns_check fun h => ?_
  simp only [Bool.or_eq_false_iff, not_hasValue_eq_false] at h
  obtain ⟨⟨_, rfl⟩, _, rfl⟩ := h
  simp only [deref_ok, pure_bind]
  apply ((returns_read UInt8 host).many _).bind
  intro data _
  cases data with
  | none => exact returns_pure reported_unexpect
  | some data =>
    dsimp only
    split
    · exact (returns_skip _).bind fun _ _ => returns_pure (reported_ok _)
    · exact returns_pure (reported_ok _)

end Csics.Dis
