import Csics.Dis.Transmitter

/-!
# How much the decoder of a Transmitter PDU takes

The decoder drops the results of reading padding, so a run that finds too few bytes for it
goes on; the next read that counts fails. `TakesUnless` is what remains of the exact count,
and from it `length_of_run` bounds the length of every string that is decoded.
-/

namespace Csics.Dis

open Base Serialization

section

variable {host : Endian} {bs rest : List UInt8}

/-! ## Records of words -/

theorem EntityID.takes : Takes (deserializeDirect host : Get (Expected EntityID)) 6 :=
  (takes_readWords (α := UInt16) (n := 3)).map fun r bs rest x h => by
    split at h
    · exact ⟨⟨_, rfl⟩, (Parser.run_pure_eq_ok.mp h).2⟩
    · exact absurd h run_unexpect_ne_ok

theorem Vec3.takes : Takes (deserializeDirect host : Get (Expected Vec3)) 12 :=
  (takes_readWords (α := FloatBits) (n := 3)).map fun r bs rest x h => by
    split at h
    · exact ⟨⟨_, rfl⟩, (Parser.run_pure_eq_ok.mp h).2⟩
    · exact absurd h run_unexpect_ne_ok

theorem EulerAngles.takes : Takes (deserializeDirect host : Get (Expected EulerAngles)) 12 :=
  (takes_readWords (α := FloatBits) (n := 3)).map fun r bs rest x h => by
    split at h
    · exact ⟨⟨_, rfl⟩, (Parser.run_pure_eq_ok.mp h).2⟩
    · exact absurd h run_unexpect_ne_ok

theorem WorldCoordinates.takes :
    Takes (deserializeDirect host : Get (Expected WorldCoordinates)) 24 :=
  (takes_readWords (α := DoubleBits) (n := 3)).map fun r bs rest x h => by
    split at h
    · exact ⟨⟨_, rfl⟩, (Parser.run_pure_eq_ok.mp h).2⟩
    · exact absurd h run_unexpect_ne_ok

theorem ModulationType.takes : Takes (deserializeDirect host : Get (Expected ModulationType)) 8 :=
  (takes_readWords (α := UInt16) (n := 4)).map fun r bs rest x h => by
    split at h
    · exact ⟨⟨_, rfl⟩, (Parser.run_pure_eq_ok.mp h).2⟩
    · exact absurd h run_unexpect_ne_ok

/-! ## Records with padding -/

/-- The header needs eleven bytes, and its version is the first one. -/
theorem PDUHeader.of_run {pdu : PDUHeader}
    (h : (PDUHeader.deserializeDirect host).run bs = .ok (.ok pdu, rest)) :
    bs.head? = some pdu.protocolVersion ∧ 11 ≤ bs.length ∧
      (rest.length < 1 ∨ bs.length = 12 + rest.length) := by
  simp only [PDUHeader.deserializeDirect, Parser.run_bind_eq_ok, run_check_eq_ok,
    Bool.or_eq_false_iff, not_hasValue_eq_false] at h
  obtain ⟨_, _, h1, _, _, h2, _, _, h3, _, _, h4, _, _, h5, _, _, h6, _, _, h7, _, _, h8,
    ⟨⟨⟨⟨⟨⟨⟨_, rfl⟩, _, rfl⟩, _, rfl⟩, _, rfl⟩, _, rfl⟩, _, rfl⟩, _, rfl⟩, h⟩ := h
  simp only [deref_ok, Parser.run_pure_eq_ok, and_assoc, exists_and_left, exists_eq_left'] at h
  obtain ⟨hpdu, rfl⟩ := h
  cases hpdu
  refine ⟨by rw [run_read_byte h1, List.head?_cons], ?_⟩
  have h1 := takes_read h1
  have h2 := takes_read h2
  have h3 := takes_read h3
  have h4 := takes_read h4
  have h5 := takes_read h5
  have h6 := takes_read h6
  have h7 := takes_read h7
  have h8 := length_of_read h8
  simp only [Be.width_be, Word.width_uint8, Word.width_uint16, Word.width_uint32] at *
  rcases h8 with ⟨-, h8⟩ | ⟨rfl, h8⟩
  · exact ⟨by omega, by omega⟩
  · exact ⟨by omega, by omega⟩

theorem BeamAntennaPattern.takes : TakesUnless (BeamAntennaPattern.deserialize host) 40 4 := by
  intro bs rest x h
  simp only [BeamAntennaPattern.deserialize, Parser.run_bind_eq_ok, run_check_eq_ok,
    Bool.or_eq_false_iff, not_hasValue_eq_false] at h
  obtain ⟨_, _, h1, _, _, h2, _, _, h3, _, _, h4, _, _, h5, _, _, h6, _, _, h7, _, _, h8, _, _, h9,
    ⟨⟨⟨⟨⟨⟨⟨_, rfl⟩, _, rfl⟩, _, rfl⟩, _, rfl⟩, _, rfl⟩, _, rfl⟩, _, rfl⟩, h⟩ := h
  simp only [deref_ok, Parser.run_pure_eq_ok, and_assoc, exists_and_left, exists_eq_left'] at h
  obtain ⟨-, rfl⟩ := h
  have h1 := EulerAngles.takes h1
  have h2 := takes_read h2
  have h3 := takes_read h3
  have h4 := takes_read h4
  have h5 := length_of_skip h5
  have h6 := takes_read h6
  have h7 := takes_read h7
  have h8 := takes_read h8
  have h9 := length_of_skip h9
  simp only [Be.width_be, Word.width_uint8, Word.width_uint32] at *
  rcases h5 with h5 | ⟨rfl, h5⟩ <;> rcases h9 with h9 | ⟨rfl, h9⟩ <;> omega

theorem takes_readByte : TakesUnless (Serialization.read UInt8 host) 1 0 := by
  intro bs rest x h
  have h := takes_read h
  rw [Word.width_uint8] at h
  omega

theorem RadioType.takes {version : ProtocolVersion} :
    Takes (RadioType.deserialize host version) (RadioType.wireSize version) := by
  intro bs rest x h
  unfold RadioType.wireSize
  rw [RadioType.deserialize] at h
  by_cases h6 : version = .ieee1278_1998
  · rw [if_pos h6] at h
    simp only [Parser.run_bind_eq_ok, run_check_eq_ok, Bool.or_eq_false_iff,
      not_hasValue_eq_false] at h
    obtain ⟨_, _, h1, _, _, h2, _, _, h3, _, _, h4, _, _, h5,
      ⟨⟨⟨⟨⟨_, rfl⟩, _, rfl⟩, _, rfl⟩, _, rfl⟩, _, rfl⟩, h⟩ := h
    simp only [deref_ok, Parser.run_pure_eq_ok, and_assoc, exists_and_left, exists_eq_left'] at h
    obtain ⟨-, rfl⟩ := h
    have h1 := takes_read h1
    have h2 := takes_read h2
    have h3 := takes_read h3
    have h4 := takes_read h4
    have h5 := takes_read h5
    rw [if_pos h6]
    simp only [Be.width_be, Word.width_uint8, Word.width_uint16] at *
    omega
  · rw [if_neg h6] at h
    split at h
    · simp only [Parser.run_bind_eq_ok, run_check_eq_ok, Bool.or_eq_false_iff,
        not_hasValue_eq_false] at h
      obtain ⟨_, _, h1, _, _, h2, _, _, h3, _, _, h4, _, _, h5, _, _, h6', _, _, h7,
        ⟨⟨⟨⟨⟨⟨⟨_, rfl⟩, _, rfl⟩, _, rfl⟩, _, rfl⟩, _, rfl⟩, _, rfl⟩, _, rfl⟩, h⟩ := h
      simp only [deref_ok, Parser.run_pure_eq_ok, and_assoc, exists_and_left, exists_eq_left'] at h
      obtain ⟨-, rfl⟩ := h
      have h1 := takes_read h1
      have h2 := takes_read h2
      have h3 := takes_read h3
      have h4 := takes_read h4
      have h5 := takes_read h5
      have h6' := takes_read h6'
      have h7 := takes_read h7
      rw [if_neg h6]
      simp only [Be.width_be, Word.width_uint8, Word.width_uint16] at *
      omega
    · exact absurd h run_unexpect_ne_ok

theorem RadioType.version_of_run {version : ProtocolVersion} {x : RadioType}
    (h : (RadioType.deserialize host version).run bs = .ok (.ok x, rest)) :
    version = .ieee1278_1998 ∨ version = .ieee1278_2012 := by
  rw [RadioType.deserialize] at h
  by_cases h6 : version = .ieee1278_1998
  · exact Or.inl h6
  · rw [if_neg h6] at h
    split at h
    · exact Or.inr (by assumption)
    · exact absurd h run_unexpect_ne_ok

/-! ## The parts of the PDU -/

/-- A record of the variable parameters is not shorter than its data and six bytes. -/
theorem VariableTransmitterParameters.length_of_run {x : VariableTransmitterParameters}
    (h : (VariableTransmitterParameters.deserialize host).run bs = .ok (.ok x, rest)) :
    6 + x.data.length ≤ bs.length := by
  simp only [VariableTransmitterParameters.deserialize, Parser.run_bind_eq_ok, run_check_eq_ok,
    Bool.or_eq_false_iff, not_hasValue_eq_false] at h
  obtain ⟨_, _, h1, _, _, h2, _, _, h3, ⟨⟨_, rfl⟩, _, rfl⟩, h⟩ := h
  simp only [deref_ok, Parser.run_pure_eq_ok, and_assoc, exists_and_left, exists_eq_left',
    pure_bind] at h
  obtain ⟨data, mid, h4, h⟩ := h
  have h1 := takes_read h1
  have h2 := takes_read h2
  have h3 := length_of_read h3
  simp only [Be.width_be, Word.width_uint16, Word.width_uint32] at *
  cases data with
  | none => exact absurd h run_unexpect_ne_ok
  | some data =>
    have hcount := Parser.length_of_run_many h4
    obtain ⟨hle, hleft⟩ := takes_readByte.many h4
    have hx : x.data = data := by
      dsimp only at h
      split at h
      · obtain ⟨_, _, _, h⟩ := Parser.run_bind_eq_ok.mp h
        exact (Except.ok.inj (Parser.run_pure_eq_ok.mp h).1) ▸ rfl
      · exact (Except.ok.inj (Parser.run_pure_eq_ok.mp h).1) ▸ rfl
    rw [hx, hcount]
    rcases h3 with ⟨-, h3⟩ | ⟨rfl, h3⟩ <;> omega

theorem TransmitterPDU.length_of_deserializeHead {pdu : TransmitterPDU} {mods ants params : Nat}
    (h : (TransmitterPDU.deserializeHead host).run bs = .ok (.ok (pdu, mods, ants, params), rest)) :
    bs.head? = some pdu.header.protocolVersion ∧ params = 1 ∧
      (pdu.header.protocolVersion = .ieee1278_1998 ∨
        pdu.header.protocolVersion = .ieee1278_2012) ∧
      TransmitterPDU.headSize pdu.header.protocolVersion ≤ bs.length ∧
      (rest.length < 3 ∨
        bs.length = TransmitterPDU.headSize pdu.header.protocolVersion + 3 + rest.length) := by
  rw [TransmitterPDU.deserializeHead] at h
  obtain ⟨header, bs1, h1, h⟩ := Parser.run_bind_eq_ok.mp h
  obtain ⟨radioReferenceId, bs2, h2, h⟩ := Parser.run_bind_eq_ok.mp h
  obtain ⟨radioNumber, bs3, h3, h⟩ := Parser.run_bind_eq_ok.mp h
  obtain ⟨version, bs4, hversion, h⟩ := Parser.run_bind_eq_ok.mp h
  obtain ⟨radioType, bs5, h4, h⟩ := Parser.run_bind_eq_ok.mp h
  obtain ⟨transmitState, bs6, h5, h⟩ := Parser.run_bind_eq_ok.mp h
  obtain ⟨inputSource, bs7, h6, h⟩ := Parser.run_bind_eq_ok.mp h
  obtain ⟨count, bs8, h7, h⟩ := Parser.run_bind_eq_ok.mp h
  obtain ⟨antennaLocation, bs9, h8, h⟩ := Parser.run_bind_eq_ok.mp h
  obtain ⟨relativeAntennaLocation, bs10, h9, h⟩ := Parser.run_bind_eq_ok.mp h
  obtain ⟨antennaPatternType, bs11, h10, h⟩ := Parser.run_bind_eq_ok.mp h
  obtain ⟨numAntennaPatterns, bs12, h11, h⟩ := Parser.run_bind_eq_ok.mp h
  obtain ⟨centerFrequency, bs13, h12, h⟩ := Parser.run_bind_eq_ok.mp h
  obtain ⟨transmitFrequencyBandwidth, bs14, h13, h⟩ := Parser.run_bind_eq_ok.mp h
  obtain ⟨power, bs15, h14, h⟩ := Parser.run_bind_eq_ok.mp h
  obtain ⟨modulationType, bs16, h15, h⟩ := Parser.run_bind_eq_ok.mp h
  obtain ⟨cryptoSystem, bs17, h16, h⟩ := Parser.run_bind_eq_ok.mp h
  obtain ⟨cryptoKeyId, bs18, h17, h⟩ := Parser.run_bind_eq_ok.mp h
  obtain ⟨numModulationParameters, bs19, h18, h⟩ := Parser.run_bind_eq_ok.mp h
  obtain ⟨_, bs20, h19, h⟩ := Parser.run_bind_eq_ok.mp h
  obtain ⟨_, bs21, h20, h⟩ := Parser.run_bind_eq_ok.mp h
  obtain ⟨hcheck, h⟩ := run_check_eq_ok.mp h
  simp only [Bool.or_eq_false_iff, not_hasValue_eq_false] at hcheck
  obtain ⟨⟨⟨⟨⟨⟨⟨⟨⟨⟨⟨⟨⟨⟨⟨⟨⟨header, rfl⟩, _, rfl⟩, _, rfl⟩, _, rfl⟩, _, rfl⟩, _, rfl⟩, _, rfl⟩, _,
    rfl⟩, _, rfl⟩, _, rfl⟩, _, rfl⟩, _, rfl⟩, _, rfl⟩, _, rfl⟩, _, rfl⟩, _, rfl⟩, _, rfl⟩ := hcheck
  simp only [deref_ok, pure_bind] at h
  obtain ⟨hpdu, rfl⟩ := Parser.run_pure_eq_ok.mp h
  obtain ⟨rfl, rfl⟩ := Parser.run_pure_eq_ok.mp hversion
  cases hpdu
  obtain ⟨hhead, -, h1⟩ := PDUHeader.of_run h1
  have h2 := EntityID.takes h2
  have h3 := takes_read h3
  have hknown := RadioType.version_of_run h4
  have h4 := RadioType.takes h4
  have h5 := takes_read h5
  have h6 := takes_read h6
  have h8 := WorldCoordinates.takes h8
  have h9 := Vec3.takes h9
  have h10 := takes_read h10
  have h11 := takes_read h11
  have h12 := takes_read h12
  have h13 := takes_read h13
  have h14 := takes_read h14
  have h15 := ModulationType.takes h15
  have h16 := takes_read h16
  have h17 := takes_read h17
  have h18 := takes_read h18
  have h19 := length_of_read h19
  have h20 := length_of_read h20
  simp only [Be.width_be, Word.width_uint8, Word.width_uint16, Word.width_uint32,
    Word.width_uint64] at *
  have h7 := length_of_read h7
  rw [Be.width_be, Word.width_uint16] at h7
  rcases h7 with ⟨hcount, h7⟩ | ⟨rfl, h7⟩
  · refine ⟨hhead, by rw [hcount]; rfl, hknown, by dsimp only [TransmitterPDU.headSize]; omega, ?_⟩
    dsimp only [TransmitterPDU.headSize]
    rcases h19 with ⟨-, h19⟩ | ⟨rfl, h19⟩ <;> rcases h20 with ⟨-, h20⟩ | ⟨rfl, h20⟩ <;> omega
  · omega

/-- A decoded PDU has exactly one variable parameter, and the string was long enough for it. -/
theorem TransmitterPDU.length_of_run {pdu : TransmitterPDU}
    (h : (deserializeDirect host : Get (Expected TransmitterPDU)).run bs = .ok (.ok pdu, rest)) :
    bs.head? = some pdu.header.protocolVersion ∧ ∃ varParam, pdu.variableParameters = [varParam] ∧
      TransmitterPDU.headSize pdu.header.protocolVersion + 9 + pdu.modulationParameters.length +
        40 * pdu.antennaPatterns.length + varParam.data.length ≤ bs.length := by
  obtain ⟨head, bs1, hhead, h⟩ := Parser.run_bind_eq_ok.mp h
  cases head with
  | error e => exact absurd h run_unexpect_ne_ok
  | ok head =>
    obtain ⟨fixed, mods, ants, params⟩ := head
    obtain ⟨modulationParameters, bs2, hmods, h⟩ := Parser.run_bind_eq_ok.mp h
    cases modulationParameters with
    | none => exact absurd h run_unexpect_ne_ok
    | some modulationParameters =>
      obtain ⟨antennaPatterns, bs3, hants, h⟩ := Parser.run_bind_eq_ok.mp h
      cases antennaPatterns with
      | none => exact absurd h run_unexpect_ne_ok
      | some antennaPatterns =>
        obtain ⟨variableParameters, bs4, hparams, h⟩ := Parser.run_bind_eq_ok.mp h
        cases variableParameters with
        | none => exact absurd h run_unexpect_ne_ok
        | some variableParameters =>
          obtain ⟨hpdu, rfl⟩ := Parser.run_pure_eq_ok.mp h
          cases hpdu
          obtain ⟨hversion, rfl, -, -, hsize⟩ := length_of_deserializeHead hhead
          have hleft := (takes_readByte.many hmods).2
          have hleft' := (BeamAntennaPattern.takes.many hants).2
          have hmods := Parser.length_of_run_many hmods
          have hants := Parser.length_of_run_many hants
          obtain ⟨varParam, _, mid, rfl, hparam, hnil⟩ := Parser.run_many_succ_eq_ok.mp hparams
          obtain ⟨rfl, -⟩ := Parser.run_many_zero_eq_ok.mp hnil
          have hlen := VariableTransmitterParameters.length_of_run hparam
          refine ⟨hversion, varParam, rfl, ?_⟩
          dsimp only
          omega

end

end Csics.Dis
