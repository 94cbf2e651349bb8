import Csics.Dis.Starvation

/-!
# Complete datagrams

On which strings the decoders have a value. For a record of no fixed size, `cut` gives what its
decoder leaves and is `none` where that has no value (`leaves`). A count in the record says how
often the record behind it is cut off.
-/

namespace Csics.Dis

open Base Serialization

variable {host : Endian} {bs rest : List UInt8}

/-! ## Emission -/

theorem EEFundamentalParameterData.takes :
    Takes (deserializeDirect host : Get (Expected EEFundamentalParameterData)) 20 :=
  (takes_readWords (α := FloatBits) (n := 5)).map fun r bs rest x h => by
    split at h
    · exact ⟨⟨_, rfl⟩, (Parser.run_pure_eq_ok.mp h).2⟩
    · exact absurd h run_unexpect_ne_ok

theorem EEFundamentalParameterData.reads (host : Endian) :
    Reads (deserializeDirect host : Get (Expected EEFundamentalParameterData)) 20 := by
  intro bs h
  obtain ⟨xs, hlen, hrun⟩ := run_readWords (α := FloatBits) (n := 5) host h
  match xs, hlen with
  | [a, b, c, d, e], _ => exact ⟨⟨a, b, c, d, e⟩, Parser.run_bind_of_ok hrun⟩

theorem BeamData.takes : Takes (deserializeDirect host : Get (Expected BeamData)) 20 :=
  (takes_readWords (α := FloatBits) (n := 5)).map fun r bs rest x h => by
    split at h
    · exact ⟨⟨_, rfl⟩, (Parser.run_pure_eq_ok.mp h).2⟩
    · exact absurd h run_unexpect_ne_ok

theorem BeamData.reads (host : Endian) :
    Reads (deserializeDirect host : Get (Expected BeamData)) 20 := by
  intro bs h
  obtain ⟨xs, hlen, hrun⟩ := run_readWords (α := FloatBits) (n := 5) host h
  match xs, hlen with
  | [a, b, c, d, e], _ => exact ⟨⟨a, b, c, d, e⟩, Parser.run_bind_of_ok hrun⟩

theorem JammingTechnique.takes :
    Takes (deserializeDirect host : Get (Expected JammingTechnique)) 4 := by
  intro bs rest x h
  obtain ⟨_, _, h1, h⟩ := Parser.run_bind_eq_ok.mp h
  obtain ⟨_, _, h2, h⟩ := Parser.run_bind_eq_ok.mp h
  obtain ⟨_, _, h3, h⟩ := Parser.run_bind_eq_ok.mp h
  obtain ⟨_, _, h4, h⟩ := Parser.run_bind_eq_ok.mp h
  obtain ⟨hcheck, h⟩ := run_check_eq_ok.mp h
  simp only [Bool.or_eq_false_iff, not_hasValue_eq_false] at hcheck
  obtain ⟨⟨⟨⟨_, rfl⟩, _, rfl⟩, _, rfl⟩, _, rfl⟩ := hcheck
  obtain ⟨-, rfl⟩ := Parser.run_pure_eq_ok.mp h
  have h1 := takes_read h1
  have h2 := takes_read h2
  have h3 := takes_read h3
  have h4 := takes_read h4
  simp only [Word.width_uint8] at *
  omega

theorem JammingTechnique.reads (host : Endian) :
    Reads (deserializeDirect host : Get (Expected JammingTechnique)) 4 :=
  (reads_read UInt8 host).bind (by decide) fun kind =>
  (reads_read UInt8 host).bind (by decide) fun category =>
  (reads_read UInt8 host).bind (by decide) fun subcategory =>
  (reads_read UInt8 host).bind (by decide) fun specific => reads_return _

theorem TrackJam.takes : Takes (deserializeDirect host : Get (Expected TrackJam)) 8 := by
  intro bs rest x h
  obtain ⟨_, _, h1, h⟩ := Parser.run_bind_eq_ok.mp h
  obtain ⟨_, _, h2, h⟩ := Parser.run_bind_eq_ok.mp h
  obtain ⟨_, _, h3, h⟩ := Parser.run_bind_eq_ok.mp h
  obtain ⟨hcheck, h⟩ := run_check_eq_ok.mp h
  simp only [Bool.or_eq_false_iff, not_hasValue_eq_false] at hcheck
  obtain ⟨⟨⟨_, rfl⟩, _, rfl⟩, _, rfl⟩ := hcheck
  obtain ⟨-, rfl⟩ := Parser.run_pure_eq_ok.mp h
  have h1 := EntityID.takes h1
  have h2 := takes_read h2
  have h3 := takes_read h3
  simp only [Word.width_uint8] at *
  omega

theorem TrackJam.reads (host : Endian) :
    Reads (deserializeDirect host : Get (Expected TrackJam)) 8 :=
  (EntityID.reads host).bind (by decide) fun trackJamTarget =>
  (reads_read UInt8 host).bind (by decide) fun emitterNumber =>
  (reads_read UInt8 host).bind (by decide) fun beamNumber => reads_return _

namespace Beam

/-- What is left behind a beam: 52 bytes, the first of which is the record length, and the
track jams. -/
def cut (bs : List UInt8) : Option (List UInt8) :=
  (leave 52 bs).bind (leaveMany (leave 8) (trackJamsOfLength (bs.getD 0 0)))

theorem length_of_run {x : Beam}
    (h : (deserializeDirect host : Get (Expected Beam)).run bs = .ok (.ok x, rest)) :
    52 ≤ bs.length := by
  obtain ⟨_, _, h1, h⟩ := Parser.run_bind_eq_ok.mp h
  obtain ⟨_, _, h2, h⟩ := Parser.run_bind_eq_ok.mp h
  obtain ⟨_, _, h3, h⟩ := Parser.run_bind_eq_ok.mp h
  obtain ⟨_, _, h4, h⟩ := Parser.run_bind_eq_ok.mp h
  obtain ⟨_, _, h5, h⟩ := Parser.run_bind_eq_ok.mp h
  obtain ⟨_, _, h6, h⟩ := Parser.run_bind_eq_ok.mp h
  obtain ⟨_, _, h7, h⟩ := Parser.run_bind_eq_ok.mp h
  obtain ⟨_, _, h8, h⟩ := Parser.run_bind_eq_ok.mp h
  obtain ⟨_, _, h9, h⟩ := Parser.run_bind_eq_ok.mp h
  obtain ⟨_, _, h10, h⟩ := Parser.run_bind_eq_ok.mp h
  obtain ⟨hcheck, -⟩ := run_check_eq_ok.mp h
  simp only [Bool.or_eq_false_iff, not_hasValue_eq_false] at hcheck
  obtain ⟨⟨⟨⟨⟨⟨⟨⟨⟨⟨_, rfl⟩, _, rfl⟩, _, rfl⟩, _, rfl⟩, _, rfl⟩, _, rfl⟩, _, rfl⟩, _, rfl⟩,
    _, rfl⟩, _, rfl⟩ := hcheck
  have h1 := takes_read h1
  have h2 := takes_read h2
  have h3 := takes_read h3
  have h4 := EEFundamentalParameterData.takes h4
  have h5 := BeamData.takes h5
  have h6 := takes_read h6
  have h7 := takes_read h7
  have h8 := takes_read h8
  have h9 := takes_read h9
  have h10 := JammingTechnique.takes h10
  simp only [Be.width_be, Word.width_uint8, Word.width_uint16] at *
  omega

/-- The decoder behind the 52 bytes. -/
theorem run_of_le (host : Endian) (h : 52 ≤ bs.length) :
    ∃ pdu : Beam, pdu.trackJams = none ∧ (deserializeDirect host : Get (Expected Beam)).run bs =
      (if trackJamsOfLength (bs.getD 0 0) > 0 then do
        match ← Parser.many (deserializeDirect host) (trackJamsOfLength (bs.getD 0 0)) with
        | none => return unexpect
        | some jams => return .ok { pdu with trackJams := some jams }
      else
        return .ok pdu : Get (Expected Beam)).run (bs.drop 52) := by
  have h0 := run_read_byte_at host (show 0 < bs.length by omega)
  obtain ⟨beamNumber, h1⟩ := (reads_read UInt8 host).run_drop (show 1 + 1 ≤ bs.length by omega)
  obtain ⟨beamParameterIndex, h2⟩ :=
    (reads_read (Be UInt16) host).run_drop (show 2 + 2 ≤ bs.length by omega)
  obtain ⟨fundamentalParameters, h3⟩ :=
    (EEFundamentalParameterData.reads host).run_drop (show 4 + 20 ≤ bs.length by omega)
  obtain ⟨beamData, h4⟩ := (BeamData.reads host).run_drop (show 24 + 20 ≤ bs.length by omega)
  obtain ⟨beamFunction, h5⟩ := (reads_read UInt8 host).run_drop (show 44 + 1 ≤ bs.length by omega)
  obtain ⟨numberOfTargets, h6⟩ :=
    (reads_read UInt8 host).run_drop (show 45 + 1 ≤ bs.length by omega)
  obtain ⟨highDensityTrackJam, h7⟩ :=
    (reads_read UInt8 host).run_drop (show 46 + 1 ≤ bs.length by omega)
  obtain ⟨beamStatus, h8⟩ := (reads_read UInt8 host).run_drop (show 47 + 1 ≤ bs.length by omega)
  obtain ⟨jammingTechnique, h9⟩ :=
    (JammingTechnique.reads host).run_drop (show 48 + 4 ≤ bs.length by omega)
  refine ⟨⟨beamParameterIndex.native host, beamNumber, numberOfTargets, beamFunction,
    highDensityTrackJam, beamStatus, jammingTechnique, fundamentalParameters, beamData, none⟩, rfl,
    ?_⟩
  exact (Parser.run_bind_of_ok h0).trans <| (Parser.run_bind_of_ok h1).trans <|
    (Parser.run_bind_of_ok h2).trans <| (Parser.run_bind_of_ok h3).trans <|
    (Parser.run_bind_of_ok h4).trans <| (Parser.run_bind_of_ok h5).trans <|
    (Parser.run_bind_of_ok h6).trans <| (Parser.run_bind_of_ok h7).trans <|
    (Parser.run_bind_of_ok h8).trans <| Parser.run_bind_of_ok h9

theorem leaves (host : Endian) : Leaves (deserializeDirect host : Get (Expected Beam)) cut := by
  intro bs rest
  rw [cut, leave_bind_eq_some]
  refine (and_iff_right_of_imp ?_).symm.trans (and_congr_right ?_)
  · rintro ⟨x, h⟩
    exact length_of_run h
  · intro hlen
    obtain ⟨pdu, -, hrun⟩ := run_of_le host hlen
    rw [hrun]
    split
    · exact run_many_iff ((TrackJam.reads host).leaves TrackJam.takes) rfl fun jams => ⟨_, rfl⟩
    · rename_i hzero
      rw [Nat.eq_zero_of_not_pos hzero, leaveMany, Option.some.injEq]
      constructor
      · rintro ⟨x, h⟩
        exact (Parser.run_pure_eq_ok.mp h).2
      · intro h
        exact ⟨pdu, Parser.run_pure_eq_ok.mpr ⟨rfl, h⟩⟩

end Beam

namespace EmitterSystem

/-- What is left behind an emitter system: 20 bytes, the second of which counts the beams, and
the beams. -/
def cut (bs : List UInt8) : Option (List UInt8) :=
  (leave 20 bs).bind (leaveMany Beam.cut (bs.getD 1 0).toNat)

theorem length_of_run {x : EmitterSystem}
    (h : (deserializeDirect host : Get (Expected EmitterSystem)).run bs = .ok (.ok x, rest)) :
    20 ≤ bs.length := by
  obtain ⟨_, _, h1, h⟩ := Parser.run_bind_eq_ok.mp h
  obtain ⟨_, _, h2, h⟩ := Parser.run_bind_eq_ok.mp h
  obtain ⟨_, _, h3, h⟩ := Parser.run_bind_eq_ok.mp h
  obtain ⟨_, _, h4, h⟩ := Parser.run_bind_eq_ok.mp h
  obtain ⟨_, _, h5, h⟩ := Parser.run_bind_eq_ok.mp h
  obtain ⟨_, _, h6, h⟩ := Parser.run_bind_eq_ok.mp h
  obtain ⟨_, _, h7, h⟩ := Parser.run_bind_eq_ok.mp h
  obtain ⟨hcheck, -⟩ := run_check_eq_ok.mp h
  simp only [Bool.or_eq_false_iff, not_hasValue_eq_false] at hcheck
  obtain ⟨⟨⟨⟨⟨⟨_, rfl⟩, _, rfl⟩, _, rfl⟩, _, rfl⟩, _, rfl⟩, _, rfl⟩ := hcheck
  have h1 := takes_read h1
  have h2 := takes_read h2
  have h3 := length_of_skip h3
  have h4 := takes_read h4
  have h5 := takes_read h5
  have h6 := takes_read h6
  have h7 := Vec3.takes h7
  simp only [Be.width_be, Word.width_uint8, Word.width_uint16] at *
  rcases h3 with h3 | ⟨rfl, h3⟩
  · omega
  · omega

/-- The decoder behind the 20 bytes. -/
theorem run_of_le (host : Endian) (h : 20 ≤ bs.length) :
    ∃ pdu : EmitterSystem, (deserializeDirect host : Get (Expected EmitterSystem)).run bs =
      (do
        match ← Parser.many (deserializeDirect host) (bs.getD 1 0).toNat with
        | none => return unexpect
        | some beams => return .ok { pdu with beams := beams } :
          Get (Expected EmitterSystem)).run (bs.drop 20) := by
  obtain ⟨recordLength, h0⟩ := (reads_read UInt8 host).run_drop (show 0 + 1 ≤ bs.length by omega)
  have h1 := run_read_byte_at host (show 1 < bs.length by omega)
  have h2 : (skip 2).run (bs.drop 2) = .ok (.ok (), bs.drop 4) := run_skip_drop (by omega)
  obtain ⟨emitterName, h3⟩ :=
    (reads_read (Be UInt16) host).run_drop (show 4 + 2 ≤ bs.length by omega)
  obtain ⟨function, h4⟩ := (reads_read UInt8 host).run_drop (show 6 + 1 ≤ bs.length by omega)
  obtain ⟨emitterNumber, h5⟩ := (reads_read UInt8 host).run_drop (show 7 + 1 ≤ bs.length by omega)
  obtain ⟨emitterLocation, h6⟩ := (Vec3.reads host).run_drop (show 8 + 12 ≤ bs.length by omega)
  refine ⟨⟨emitterName.native host, function, emitterNumber, emitterLocation, []⟩, ?_⟩
  exact (Parser.run_bind_of_ok h0).trans <| (Parser.run_bind_of_ok h1).trans <|
    (Parser.run_bind_of_ok h2).trans <| (Parser.run_bind_of_ok h3).trans <|
    (Parser.run_bind_of_ok h4).trans <| (Parser.run_bind_of_ok h5).trans <|
    Parser.run_bind_of_ok h6

theorem leaves (host : Endian) :
    Leaves (deserializeDirect host : Get (Expected EmitterSystem)) cut := by
  intro bs rest
  rw [cut, leave_bind_eq_some]
  refine (and_iff_right_of_imp ?_).symm.trans (and_congr_right ?_)
  · rintro ⟨x, h⟩
    exact length_of_run h
  · intro hlen
    obtain ⟨pdu, hrun⟩ := run_of_le host hlen
    rw [hrun]
    exact run_many_iff (Beam.leaves host) rfl fun beams => ⟨_, rfl⟩

end EmitterSystem

/-- The decoder has a value. -/
def Decodes (α : Type) [Serde α] (host : Endian) (bs : List UInt8) : Prop :=
  ∃ x rest, (deserializeDirect host : Get (Expected α)).run bs = .ok (.ok x, rest)

namespace ElectromagneticEmissionPDU

/-- What is left behind the fixed part, whose two bytes of padding are not checked, and the
systems that byte 25 counts. -/
def cut (bs : List UInt8) : Option (List UInt8) :=
  (leave 26 bs).bind fun rest =>
    leaveMany EmitterSystem.cut (bs.getD 25 0).toNat (skipped 2 rest)

/-- The bytes hold the fixed part, whose two bytes of padding are not checked, and the systems
that byte 25 counts. -/
def Complete (bs : List UInt8) : Prop :=
  ((leave 26 bs).bind fun rest =>
    leaveMany EmitterSystem.cut (bs.getD 25 0).toNat (skipped 2 rest)).isSome

theorem length_of_run {x : ElectromagneticEmissionPDU}
    (h : (deserializeDirect host : Get (Expected ElectromagneticEmissionPDU)).run bs =
      .ok (.ok x, rest)) : 26 ≤ bs.length := by
  obtain ⟨_, _, h1, h⟩ := Parser.run_bind_eq_ok.mp h
  obtain ⟨_, _, h2, h⟩ := Parser.run_bind_eq_ok.mp h
  obtain ⟨_, _, h3, h⟩ := Parser.run_bind_eq_ok.mp h
  obtain ⟨_, _, h4, h⟩ := Parser.run_bind_eq_ok.mp h
  obtain ⟨_, _, h5, h⟩ := Parser.run_bind_eq_ok.mp h
  obtain ⟨_, _, h6, h⟩ := Parser.run_bind_eq_ok.mp h
  obtain ⟨hcheck, -⟩ := run_check_eq_ok.mp h
  simp only [Bool.or_eq_false_iff, not_hasValue_eq_false] at hcheck
  obtain ⟨⟨⟨⟨⟨_, rfl⟩, _, rfl⟩, _, rfl⟩, _, rfl⟩, _, rfl⟩ := hcheck
  obtain ⟨-, -, h1⟩ := PDUHeader.of_run h1
  have h2 := EntityID.takes h2
  have h3 := EntityID.takes h3
  have h4 := takes_read h4
  have h5 := takes_read h5
  rw [Word.width_uint8] at h4 h5
  omega

/-- The decoder behind the fixed part; the result of reading its padding is dropped. -/
theorem run_of_le (host : Endian) (h : 26 ≤ bs.length) :
    ∃ pdu : ElectromagneticEmissionPDU,
      (deserializeDirect host : Get (Expected ElectromagneticEmissionPDU)).run bs =
        (do
          let _padding ← read UInt16 host
          match ← Parser.many (deserializeDirect host) (bs.getD 25 0).toNat with
          | none => return unexpect
          | some systems => return .ok { pdu with emitterSystems := systems } :
            Get (Expected ElectromagneticEmissionPDU)).run (bs.drop 26) := by
  obtain ⟨header, h0⟩ := (PDUHeader.reads host).run_drop (show 0 + 12 ≤ bs.length by omega)
  obtain ⟨emitterId, h1⟩ := (EntityID.reads host).run_drop (show 12 + 6 ≤ bs.length by omega)
  obtain ⟨eventId, h2⟩ := (EntityID.reads host).run_drop (show 18 + 6 ≤ bs.length by omega)
  obtain ⟨stateUpdateIndicator, h3⟩ :=
    (reads_read UInt8 host).run_drop (show 24 + 1 ≤ bs.length by omega)
  have h4 := run_read_byte_at host (show 25 < bs.length by omega)
  refine ⟨⟨header, emitterId, eventId, stateUpdateIndicator, []⟩, ?_⟩
  exact (Parser.run_bind_of_ok h0).trans <| (Parser.run_bind_of_ok h1).trans <|
    (Parser.run_bind_of_ok h2).trans <| (Parser.run_bind_of_ok h3).trans <|
    Parser.run_bind_of_ok h4

theorem leaves (host : Endian) :
    Leaves (deserializeDirect host : Get (Expected ElectromagneticEmissionPDU)) cut := by
  intro bs rest
  rw [cut, leave_bind_eq_some]
  refine (and_iff_right_of_imp ?_).symm.trans (and_congr_right ?_)
  · rintro ⟨x, h⟩
    exact length_of_run h
  · intro hlen
    obtain ⟨pdu, hrun⟩ := run_of_le host hlen
    obtain ⟨padding, hpadding⟩ := run_read_skipped UInt16 host (bs.drop 26)
    rw [hrun, Parser.run_bind_of_ok hpadding]
    exact run_many_iff (EmitterSystem.leaves host) rfl fun systems => ⟨_, rfl⟩

theorem decodes_iff (host : Endian) (bs : List UInt8) :
    Decodes ElectromagneticEmissionPDU host bs ↔ Complete bs := by
  show _ ↔ (cut bs).isSome
  rw [Decodes, Option.isSome_iff_exists, exists_comm]
  exact exists_congr fun rest => leaves host bs rest

end ElectromagneticEmissionPDU

/-! ## Entity state -/

theorem VariableParameters.leaves (host : Endian) :
    Leaves (VariableParameters.deserialize host) (leave 16) := by
  intro bs rest
  rw [leave_eq_some]
  cases bs with
  | nil =>
    rw [run_nil]
    constructor
    · rintro ⟨x, h⟩
      cases h
    · rintro ⟨h, -⟩
      cases h
  | cons b bs =>
    by_cases hlen : 15 ≤ bs.length
    · obtain ⟨x, hrun⟩ := run_of_le host b hlen
      rw [hrun, List.length_cons, and_iff_right (by omega)]
      constructor
      · rintro ⟨y, h⟩
        cases h
        rfl
      · rintro rfl
        exact ⟨x, rfl⟩
    · obtain ⟨mid, hrun⟩ := run_of_lt host b (Nat.not_le.mp hlen)
      rw [hrun, List.length_cons]
      constructor
      · rintro ⟨y, h⟩
        cases h
      · intro h
        omega

namespace EntityStatePDU

/-- The bytes hold the fixed part, the capabilities and the variable parameters that byte 19
counts. -/
def Complete (bs : List UInt8) : Prop :=
  fixedSize bs + 4 + 16 * (bs.getD 19 0).toNat ≤ bs.length

instance (bs : List UInt8) : Decidable (Complete bs) := inferInstanceAs (Decidable (_ ≤ _))

/-- The decoder has a value when the capabilities and the variable parameters are there. -/
theorem run_deserializeTail_iff {head : Head} (hhead : head.Full) (count : UInt8)
    (drParameters : DeadReckoningParameters) (h : 12 ≤ bs.length) :
    (∃ x rest, (deserializeTail host head (.ok count) (.ok drParameters)).run bs =
      .ok (.ok x, rest)) ↔ 16 + 16 * count.toNat ≤ bs.length := by
  obtain ⟨characterSet, bs, rfl⟩ : ∃ c cs, bs = c :: cs :=
    List.exists_cons_of_length_pos (by omega)
  rw [List.length_cons] at h ⊢
  have hmarking := run_many_bytes_of_le host (show 11 ≤ bs.length by omega)
  have hlen : (bs.drop 11).length = bs.length - 11 := List.length_drop
  obtain ⟨header, entityId, forceId, entityType, alternativeEntityType,
    entityLinearVelocity, entityLocation, entityOrientation, entityAppearance⟩ := head
  obtain ⟨⟨_, rfl⟩, ⟨_, rfl⟩, ⟨_, rfl⟩, ⟨_, rfl⟩, ⟨_, rfl⟩, ⟨_, rfl⟩, ⟨_, rfl⟩, ⟨_, rfl⟩, _, rfl⟩ :=
    hhead
  rw [deserializeTail, Parser.run_bind_of_ok (run_read_cons host characterSet bs)]
  simp only [hasValue_ok, Bool.not_true, Bool.false_eq_true, if_false, deref_ok, pure_bind]
  rw [Parser.run_bind_of_ok hmarking]
  dsimp only
  by_cases hcapabilities : 11 + 4 ≤ bs.length
  · obtain ⟨capabilities, hrun⟩ := (reads_read UInt32 host).run_drop hcapabilities
    rw [Parser.run_bind_of_ok hrun, run_many_isSome_iff (VariableParameters.leaves host) rfl
      fun variableParameters => ⟨_, rfl⟩, leaveMany_leave, leave]
    have hdrop : (bs.drop (11 + Word.width UInt32)).length = bs.length - 15 := List.length_drop
    split
    · exact ⟨fun _ => by omega, fun _ => rfl⟩
    · constructor
      · intro h
        cases h
      · intro h
        omega
  · have hrun := run_read_of_lt (α := UInt32) host (show (bs.drop 11).length < 4 by omega)
    rw [Parser.run_bind_of_ok hrun]
    constructor
    · rintro ⟨x, rest, h⟩
      obtain ⟨variableParameters, mid, -, h⟩ := Parser.run_bind_eq_ok.mp h
      cases variableParameters with
      | none => exact absurd h run_unexpect_ne_ok
      | some variableParameters => exact absurd h run_unexpect_ne_ok
    · intro h
      omega

/-- On the strings without the whole fixed part the marking is missing. -/
theorem decodes_iff (host : Endian) (bs : List UInt8) :
    Decodes EntityStatePDU host bs ↔ Complete bs := by
  unfold Decodes Complete
  by_cases hsize : fixedSize bs ≤ bs.length
  · obtain ⟨head, drParameters, hhead, hrun⟩ := run_of_fixedSize_le host hsize
    obtain ⟨hlen, hle⟩ := length_behind hsize
    rw [hrun, run_deserializeTail_iff hhead _ _ hle]
    omega
  · obtain ⟨mid, hrun⟩ := run_of_lt_fixedSize host (Nat.not_le.mp hsize)
    rw [hrun]
    constructor
    · rintro ⟨x, rest, h⟩
      cases h
    · intro h
      omega

end EntityStatePDU

/-! ## Transmitter -/

theorem ModulationType.reads (host : Endian) :
    Reads (deserializeDirect host : Get (Expected ModulationType)) 8 := by
  intro bs h
  obtain ⟨xs, hlen, hrun⟩ := run_readWords (α := UInt16) (n := 4) host h
  match xs, hlen with
  | [a, b, c, d], _ => exact ⟨⟨a, b, c, d⟩, Parser.run_bind_of_ok hrun⟩

theorem RadioType.reads (host : Endian) {version : ProtocolVersion}
    (h : version = .ieee1278_1998 ∨ version = .ieee1278_2012) :
    Reads (RadioType.deserialize host version) (RadioType.wireSize version) := by
  unfold RadioType.deserialize RadioType.wireSize
  by_cases h6 : version = .ieee1278_1998
  · rw [if_pos h6, if_pos h6]
    exact (reads_read UInt8 host).bind (by decide) fun entityKind =>
      (reads_read UInt8 host).bind (by decide) fun domain =>
      (reads_read (Be UInt16) host).bind (by decide) fun countryCode =>
      (reads_read UInt8 host).bind (by decide) fun nomenclatureVersion =>
      (reads_read (Be UInt16) host).bind (by decide) fun nomenclature => reads_return _
  · rw [if_neg h6, if_neg h6, if_pos (h.resolve_left h6)]
    exact (reads_read UInt8 host).bind (by decide) fun entityKind =>
      (reads_read UInt8 host).bind (by decide) fun domain =>
      (reads_read (Be UInt16) host).bind (by decide) fun countryCode =>
      (reads_read UInt8 host).bind (by decide) fun category =>
      (reads_read UInt8 host).bind (by decide) fun subcategory =>
      (reads_read UInt8 host).bind (by decide) fun specific =>
      (reads_read UInt8 host).bind (by decide) fun extra => reads_return _

namespace BeamAntennaPattern

/-- The four bytes of padding at the end of a pattern are not checked. -/
def cut (bs : List UInt8) : Option (List UInt8) := (leave 36 bs).map (skipped 4)

theorem length_of_run {x : BeamAntennaPattern}
    (h : (BeamAntennaPattern.deserialize host).run bs = .ok (.ok x, rest)) : 36 ≤ bs.length := by
  obtain ⟨_, _, h1, h⟩ := Parser.run_bind_eq_ok.mp h
  obtain ⟨_, _, h2, h⟩ := Parser.run_bind_eq_ok.mp h
  obtain ⟨_, _, h3, h⟩ := Parser.run_bind_eq_ok.mp h
  obtain ⟨_, _, h4, h⟩ := Parser.run_bind_eq_ok.mp h
  obtain ⟨_, _, h5, h⟩ := Parser.run_bind_eq_ok.mp h
  obtain ⟨_, _, h6, h⟩ := Parser.run_bind_eq_ok.mp h
  obtain ⟨_, _, h7, h⟩ := Parser.run_bind_eq_ok.mp h
  obtain ⟨_, _, h8, h⟩ := Parser.run_bind_eq_ok.mp h
  obtain ⟨_, _, h9, h⟩ := Parser.run_bind_eq_ok.mp h
  obtain ⟨hcheck, -⟩ := run_check_eq_ok.mp h
  simp only [Bool.or_eq_false_iff, not_hasValue_eq_false] at hcheck
  obtain ⟨⟨⟨⟨⟨⟨⟨_, rfl⟩, _, rfl⟩, _, rfl⟩, _, rfl⟩, _, rfl⟩, _, rfl⟩, _, rfl⟩ := hcheck
  have h1 := EulerAngles.takes h1
  have h2 := takes_read h2
  have h3 := takes_read h3
  have h4 := takes_read h4
  have h5 := length_of_skip h5
  have h6 := takes_read h6
  have h7 := takes_read h7
  have h8 := takes_read h8
  simp only [Be.width_be, Word.width_uint8, Word.width_uint32] at *
  rcases h5 with h5 | ⟨rfl, h5⟩
  · omega
  · omega

theorem run_of_le (host : Endian) (h : 36 ≤ bs.length) :
    ∃ pdu, (BeamAntennaPattern.deserialize host).run bs =
      .ok (.ok pdu, skipped 4 (bs.drop 36)) := by
  obtain ⟨beamDirection, h0⟩ := (EulerAngles.reads host).run_drop (show 0 + 12 ≤ bs.length by omega)
  obtain ⟨azimuthBeamwidth, h1⟩ :=
    (reads_read (Be FloatBits) host).run_drop (show 12 + 4 ≤ bs.length by omega)
  obtain ⟨elevationBeamwidth, h2⟩ :=
    (reads_read (Be FloatBits) host).run_drop (show 16 + 4 ≤ bs.length by omega)
  obtain ⟨referenceSystem, h3⟩ :=
    (reads_read UInt8 host).run_drop (show 20 + 1 ≤ bs.length by omega)
  have h4 : (skip 3).run (bs.drop 21) = .ok (.ok (), bs.drop 24) := run_skip_drop (by omega)
  obtain ⟨eZ, h5⟩ := (reads_read (Be FloatBits) host).run_drop (show 24 + 4 ≤ bs.length by omega)
  obtain ⟨eX, h6⟩ := (reads_read (Be FloatBits) host).run_drop (show 28 + 4 ≤ bs.length by omega)
  obtain ⟨phase, h7⟩ :=
    (reads_read (Be FloatBits) host).run_drop (show 32 + 4 ≤ bs.length by omega)
  obtain ⟨padding, h8⟩ := run_skip_skipped 4 (bs.drop 36)
  refine ⟨⟨beamDirection, azimuthBeamwidth.native host, elevationBeamwidth.native host,
    referenceSystem, eZ.native host, eX.native host, phase.native host⟩, ?_⟩
  exact (Parser.run_bind_of_ok h0).trans <| (Parser.run_bind_of_ok h1).trans <|
    (Parser.run_bind_of_ok h2).trans <| (Parser.run_bind_of_ok h3).trans <|
    (Parser.run_bind_of_ok h4).trans <| (Parser.run_bind_of_ok h5).trans <|
    (Parser.run_bind_of_ok h6).trans <| (Parser.run_bind_of_ok h7).trans <|
    Parser.run_bind_of_ok h8

theorem leaves (host : Endian) : Leaves (BeamAntennaPattern.deserialize host) cut := by
  intro bs rest
  rw [cut, Option.map_eq_bind, leave_bind_eq_some]
  refine (and_iff_right_of_imp ?_).symm.trans (and_congr_right ?_)
  · rintro ⟨x, h⟩
    exact length_of_run h
  · intro hlen
    obtain ⟨pdu, hrun⟩ := run_of_le host hlen
    rw [hrun, Function.comp_apply, Option.some.injEq]
    constructor
    · rintro ⟨x, h⟩
      cases h
      rfl
    · rintro rfl
      exact ⟨pdu, rfl⟩

theorem reads (host : Endian) : Reads (BeamAntennaPattern.deserialize host) 40 := by
  intro bs h
  obtain ⟨pdu, hrun⟩ := run_of_le host (show 36 ≤ bs.length by omega)
  have hpad : 4 ≤ (bs.drop 36).length := by
    rw [List.length_drop]
    omega
  refine ⟨pdu, ?_⟩
  rw [hrun, skipped, leave, if_pos hpad, List.drop_drop]
  rfl

end BeamAntennaPattern

namespace VariableTransmitterParameters

/-- What is left behind a record: type and length, two bytes of padding that are not checked,
the data, and the padding behind it, which is not checked either. -/
def cut (bs : List UInt8) : Option (List UInt8) :=
  let dataLength := dataLength (Word.beAt UInt16 bs 4)
  (leave 6 bs).bind fun rest =>
    (leave dataLength (skipped 2 rest)).map (skipped (paddingOf ((6 + dataLength) % 2 ^ 64)))

theorem length_of_run_ok {x : VariableTransmitterParameters}
    (h : (VariableTransmitterParameters.deserialize host).run bs = .ok (.ok x, rest)) :
    6 ≤ bs.length := by
  have hlen := length_of_run h
  omega

/-- The decoder on a record whose data are there. -/
theorem run_of_le (host : Endian) (h : 6 ≤ bs.length)
    (hdata : dataLength (Word.beAt UInt16 bs 4) ≤ (skipped 2 (bs.drop 6)).length) :
    (deserialize host).run bs =
      .ok (.ok ⟨Word.beAt UInt32 bs 0,
          (skipped 2 (bs.drop 6)).take (dataLength (Word.beAt UInt16 bs 4))⟩,
        skipped (paddingOf ((6 + dataLength (Word.beAt UInt16 bs 4)) % 2 ^ 64))
          ((skipped 2 (bs.drop 6)).drop (dataLength (Word.beAt UInt16 bs 4)))) := by
  have h0 := run_read_be_at UInt32 host (show 0 + 4 ≤ bs.length by omega)
  have h1 := run_read_be_at UInt16 host (show 4 + 2 ≤ bs.length by omega)
  obtain ⟨padding, h2⟩ := run_read_skipped UInt16 host (bs.drop 6)
  have h3 := run_many_bytes_of_le host hdata
  refine (Parser.run_bind_of_ok h0).trans <| (Parser.run_bind_of_ok h1).trans <|
    (Parser.run_bind_of_ok h2).trans ?_
  simp only [hasValue_ok, deref_ok, Bool.not_true, Bool.or_self, Bool.false_eq_true, if_false,
    pure_bind, Be.native_fromNative]
  refine (Parser.run_bind_of_ok h3).trans ?_
  dsimp only
  split
  · obtain ⟨r, h4⟩ := run_skip_skipped
      (paddingOf ((6 + dataLength (Word.beAt UInt16 bs 4)) % 2 ^ 64))
      ((skipped 2 (bs.drop 6)).drop (dataLength (Word.beAt UInt16 bs 4)))
    exact Parser.run_bind_of_ok h4
  · rename_i hzero
    rw [Nat.eq_zero_of_not_pos hzero, skipped_zero]
    rfl

theorem run_of_lt (host : Endian) (h : 6 ≤ bs.length)
    (hdata : (skipped 2 (bs.drop 6)).length < dataLength (Word.beAt UInt16 bs 4)) :
    ∃ rest, (deserialize host).run bs = .ok (unexpect, rest) := by
  have h0 := run_read_be_at UInt32 host (show 0 + 4 ≤ bs.length by omega)
  have h1 := run_read_be_at UInt16 host (show 4 + 2 ≤ bs.length by omega)
  obtain ⟨padding, h2⟩ := run_read_skipped UInt16 host (bs.drop 6)
  obtain ⟨rest, h3⟩ := run_many_bytes_of_lt host hdata
  refine ⟨rest, (Parser.run_bind_of_ok h0).trans <| (Parser.run_bind_of_ok h1).trans <|
    (Parser.run_bind_of_ok h2).trans ?_⟩
  simp only [hasValue_ok, deref_ok, Bool.not_true, Bool.or_self, Bool.false_eq_true, if_false,
    pure_bind, Be.native_fromNative]
  exact Parser.run_bind_of_ok h3

theorem leaves (host : Endian) : Leaves (VariableTransmitterParameters.deserialize host) cut := by
  intro bs rest
  rw [cut, leave_bind_eq_some]
  refine (and_iff_right_of_imp ?_).symm.trans (and_congr_right ?_)
  · rintro ⟨x, h⟩
    exact length_of_run_ok h
  · intro hlen
    rw [Option.map_eq_bind, leave_bind_eq_some]
    by_cases hdata : dataLength (Word.beAt UInt16 bs 4) ≤ (skipped 2 (bs.drop 6)).length
    · rw [run_of_le host hlen hdata, and_iff_right hdata, Function.comp_apply, Option.some.injEq]
      constructor
      · rintro ⟨x, h⟩
        cases h
        rfl
      · rintro rfl
        exact ⟨_, rfl⟩
    · obtain ⟨mid, hrun⟩ := run_of_lt host hlen (Nat.not_le.mp hdata)
      rw [hrun]
      constructor
      · rintro ⟨x, h⟩
        cases h
      · rintro ⟨h, -⟩
        exact absurd h hdata

end VariableTransmitterParameters

namespace TransmitterPDU

/-- The version is 6 or 7. -/
def Known (version : ProtocolVersion) : Prop :=
  version = .ieee1278_1998 ∨ version = .ieee1278_2012

/-- The number of modulation parameters, the last byte of the fixed part. -/
def modulationCount (bs : List UInt8) : Nat := (bs.getD (headSize (bs.getD 0 0) - 1) 0).toNat

/-- The number of antenna patterns. -/
def antennaCount (bs : List UInt8) : Nat :=
  (Word.beAt UInt16 bs (headSize (bs.getD 0 0) - 31)).toNat

/-- The padding behind the fixed part, which is not checked. -/
theorem run_padding (host : Endian) (bs : List UInt8) :
    ∃ r r' mid, (read UInt16 host).run bs = .ok (r, mid) ∧
      (read UInt8 host).run mid = .ok (r', bs.drop 3) := by
  match bs with
  | [] => exact ⟨_, _, _, rfl, rfl⟩
  | [_] => exact ⟨_, _, _, rfl, rfl⟩
  | [_, _] => exact ⟨_, _, _, rfl, rfl⟩
  | a :: b :: c :: bs =>
    obtain ⟨x, h⟩ := reads_read UInt16 host (a :: b :: c :: bs)
      (show 2 ≤ bs.length + 1 + 1 + 1 by omega)
    exact ⟨_, _, _, h, run_read_cons host c bs⟩

/-- The decoder of the fixed part where it is there. -/
theorem run_deserializeHead (host : Endian) (hversion : Known (bs.getD 0 0))
    (h : headSize (bs.getD 0 0) ≤ bs.length) :
    ∃ pdu : TransmitterPDU, (deserializeHead host).run bs =
      .ok (.ok (pdu, modulationCount bs, antennaCount bs, 1),
        bs.drop (headSize (bs.getD 0 0) + 3)) := by
  unfold modulationCount antennaCount
  have hsize : headSize (bs.getD 0 0) = 93 + RadioType.wireSize (bs.getD 0 0) := rfl
  rw [hsize] at h ⊢
  have hradio := RadioType.reads host hversion
  obtain ⟨header, h0⟩ := (PDUHeader.reads host).run_drop (show 0 + 12 ≤ bs.length by omega)
  have hhead : bs.getD 0 0 = header.protocolVersion := by
    have hfirst := (PDUHeader.of_run h0).1
    rw [List.drop_zero, List.head?_eq_getElem?] at hfirst
    rw [List.getD_eq_getElem?_getD, hfirst]
    rfl
  rw [hhead] at h hradio ⊢
  generalize hm : 20 + RadioType.wireSize header.protocolVersion = m at *
  obtain ⟨radioReferenceId, h1⟩ :=
    (EntityID.reads host).run_drop (show 12 + 6 ≤ bs.length by omega)
  obtain ⟨radioNumber, h2⟩ :=
    (reads_read (Be UInt16) host).run_drop (show 18 + 2 ≤ bs.length by omega)
  obtain ⟨radioType, h3⟩ := hradio.run_drop
    (show 20 + RadioType.wireSize header.protocolVersion ≤ bs.length by omega)
  rw [hm] at h3
  obtain ⟨transmitState, h4⟩ := (reads_read UInt8 host).run_drop (show m + 1 ≤ bs.length by omega)
  obtain ⟨inputSource, h5⟩ :=
    (reads_read UInt8 host).run_drop (show m + 1 + 1 ≤ bs.length by omega)
  obtain ⟨variableParameterCount, h6⟩ :=
    (reads_read (Be UInt16) host).run_drop (show m + 2 + 2 ≤ bs.length by omega)
  obtain ⟨antennaLocation, h7⟩ :=
    (WorldCoordinates.reads host).run_drop (show m + 4 + 24 ≤ bs.length by omega)
  obtain ⟨relativeAntennaLocation, h8⟩ :=
    (Vec3.reads host).run_drop (show m + 28 + 12 ≤ bs.length by omega)
  obtain ⟨antennaPatternType, h9⟩ :=
    (reads_read (Be UInt16) host).run_drop (show m + 40 + 2 ≤ bs.length by omega)
  have h10 := run_read_be_at UInt16 host (show m + 42 + 2 ≤ bs.length by omega)
  obtain ⟨centerFrequency, h11⟩ :=
    (reads_read (Be UInt64) host).run_drop (show m + 44 + 8 ≤ bs.length by omega)
  obtain ⟨transmitFrequencyBandwidth, h12⟩ :=
    (reads_read (Be FloatBits) host).run_drop (show m + 52 + 4 ≤ bs.length by omega)
  obtain ⟨power, h13⟩ :=
    (reads_read (Be FloatBits) host).run_drop (show m + 56 + 4 ≤ bs.length by omega)
  obtain ⟨modulationType, h14⟩ :=
    (ModulationType.reads host).run_drop (show m + 60 + 8 ≤ bs.length by omega)
  obtain ⟨cryptoSystem, h15⟩ :=
    (reads_read (Be UInt16) host).run_drop (show m + 68 + 2 ≤ bs.length by omega)
  obtain ⟨cryptoKeyId, h16⟩ :=
    (reads_read (Be UInt16) host).run_drop (show m + 70 + 2 ≤ bs.length by omega)
  have h17 := run_read_byte_at host (show m + 72 < bs.length by omega)
  obtain ⟨_, _, mid, h18, h19⟩ := run_padding host (bs.drop (m + 73))
  have hants : 93 + RadioType.wireSize header.protocolVersion - 31 = m + 42 := by omega
  have hmods : 93 + RadioType.wireSize header.protocolVersion - 1 = m + 72 := by omega
  have hrest : 93 + RadioType.wireSize header.protocolVersion + 3 = m + 73 + 3 := by omega
  rw [hants, hmods, hrest]
  refine ⟨⟨header, radioReferenceId, radioNumber.native host, radioType, transmitState,
    inputSource, antennaLocation, relativeAntennaLocation, antennaPatternType.native host,
    centerFrequency.native host, transmitFrequencyBandwidth.native host, power.native host,
    modulationType, cryptoSystem.native host, cryptoKeyId.native host, [], [], []⟩, ?_⟩
  unfold deserializeHead
  refine (Parser.run_bind_of_ok h0).trans <| (Parser.run_bind_of_ok h1).trans <|
    (Parser.run_bind_of_ok h2).trans ?_
  rw [deref_ok, pure_bind]
  refine (Parser.run_bind_of_ok h3).trans <| (Parser.run_bind_of_ok h4).trans <|
    (Parser.run_bind_of_ok h5).trans <| (Parser.run_bind_of_ok h6).trans <|
    (Parser.run_bind_of_ok h7).trans <| (Parser.run_bind_of_ok h8).trans <|
    (Parser.run_bind_of_ok h9).trans <| (Parser.run_bind_of_ok h10).trans <|
    (Parser.run_bind_of_ok h11).trans <| (Parser.run_bind_of_ok h12).trans <|
    (Parser.run_bind_of_ok h13).trans <| (Parser.run_bind_of_ok h14).trans <|
    (Parser.run_bind_of_ok h15).trans <| (Parser.run_bind_of_ok h16).trans <|
    (Parser.run_bind_of_ok h17).trans <| (Parser.run_bind_of_ok h18).trans <|
    (Parser.run_bind_of_ok h19).trans ?_
  rw [List.drop_drop]
  simp only [hasValue_ok, deref_ok, Bool.not_true, Bool.or_self, Bool.false_eq_true, if_false,
    pure_bind, Be.native_fromNative, Bool.toNat_true]
  rfl

/-- The decoder behind the fixed part. -/
def deserializeLists (host : Endian) (pdu : TransmitterPDU)
    (numModulationParameters numAntennaPatterns variableParameterCount : Nat) :
    Get (Expected TransmitterPDU) := do
  match ← Parser.many (read UInt8 host) numModulationParameters with
  | none => return unexpect
  | some modulationParameters =>
    match ← Parser.many (deserializeDirect host) numAntennaPatterns with
    | none => return unexpect
    | some antennaPatterns =>
      match ← Parser.many (VariableTransmitterParameters.deserialize host)
        variableParameterCount with
      | none => return unexpect
      | some variableParameters =>
        return .ok { pdu with
          modulationParameters := modulationParameters
          antennaPatterns := antennaPatterns
          variableParameters := variableParameters }

theorem run_of_known (host : Endian) (hversion : Known (bs.getD 0 0))
    (h : headSize (bs.getD 0 0) ≤ bs.length) :
    ∃ pdu, (deserializeDirect host : Get (Expected TransmitterPDU)).run bs =
      (deserializeLists host pdu (modulationCount bs) (antennaCount bs) 1).run
        (bs.drop (headSize (bs.getD 0 0) + 3)) := by
  obtain ⟨pdu, hrun⟩ := run_deserializeHead host hversion h
  exact ⟨pdu, Parser.run_bind_of_ok hrun⟩

theorem decodes_deserializeLists_iff (host : Endian) (pdu : TransmitterPDU)
    (numModulationParameters numAntennaPatterns : Nat) (bs : List UInt8) :
    (∃ x rest, (deserializeLists host pdu numModulationParameters numAntennaPatterns 1).run bs =
      .ok (.ok x, rest)) ↔
      ((leave numModulationParameters bs).bind fun rest =>
        (leaveMany BeamAntennaPattern.cut numAntennaPatterns rest).bind
          VariableTransmitterParameters.cut).isSome := by
  have hbyte := (reads_read UInt8 host).leaves takes_read
  have hparams (cut : List UInt8 → Option (List UInt8)) (bs : List UInt8) :
      leaveMany cut 1 bs = cut bs := by
    cases h : cut bs with
    | none => simp [leaveMany, h]
    | some rest => simp [leaveMany, h]
  simp only [Option.isSome_iff_exists, Option.bind_eq_some_iff]
  rw [deserializeLists, run_many_bind_iff hbyte rfl fun mods mid => run_many_bind_iff
    (BeamAntennaPattern.leaves host) rfl fun ants mid =>
      run_many_isSome_iff (VariableTransmitterParameters.leaves host) rfl fun params => ⟨_, rfl⟩]
  simp only [leaveMany_leave, hparams, Option.isSome_iff_exists, Word.width_uint8, Nat.mul_one]
  constructor
  · rintro ⟨mid, hmods, mid', hants, rest, hparam⟩
    exact ⟨rest, mid, hmods, mid', hants, hparam⟩
  · rintro ⟨rest, mid, hmods, mid', hants, hparam⟩
    exact ⟨mid, hmods, mid', hants, rest, hparam⟩

/-- The bytes hold a fixed part of version 6 or 7, the lists that it counts, and one variable
parameter. -/
def Complete (bs : List UInt8) : Prop :=
  Known (bs.getD 0 0) ∧
    ((leave (headSize (bs.getD 0 0)) bs).bind fun rest =>
      (leave (modulationCount bs) (rest.drop 3)).bind fun rest =>
        (leaveMany BeamAntennaPattern.cut (antennaCount bs) rest).bind
          VariableTransmitterParameters.cut).isSome

theorem decodes_iff (host : Endian) (bs : List UInt8) :
    Decodes TransmitterPDU host bs ↔ Complete bs := by
  rw [Decodes, Complete]
  by_cases hhead : Known (bs.getD 0 0) ∧ headSize (bs.getD 0 0) ≤ bs.length
  · obtain ⟨hversion, hsize⟩ := hhead
    obtain ⟨pdu, hrun⟩ := run_of_known host hversion hsize
    rw [and_iff_right hversion, leave, if_pos hsize, Option.bind_some, List.drop_drop, hrun]
    exact decodes_deserializeLists_iff host pdu _ _ _
  · constructor
    · rintro ⟨x, rest, h⟩
      obtain ⟨head, mid, hrun, h⟩ := Parser.run_bind_eq_ok.mp h
      cases head with
      | error e => exact absurd h run_unexpect_ne_ok
      | ok head =>
        obtain ⟨hfirst, -, hversion, hsize, -⟩ := length_of_deserializeHead hrun
        rw [List.head?_eq_getElem?] at hfirst
        rw [List.getD_eq_getElem?_getD, hfirst] at hhead
        exact absurd ⟨hversion, hsize⟩ hhead
    · rintro ⟨hversion, h⟩
      have hsize : ¬ headSize (bs.getD 0 0) ≤ bs.length := fun h => hhead ⟨hversion, h⟩
      rw [leave, if_neg hsize] at h
      cases h

end TransmitterPDU

end Csics.Dis
