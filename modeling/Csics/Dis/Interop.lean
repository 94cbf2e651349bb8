import Csics.Dis.Lengths
import Csics.Dis.RoundTrip
import Csics.Dis.Starvation

/-!
# Hosts of both byte orders

What a host writes and the other one reads. A field that is written as a big-endian word has
the same bytes on both hosts; a field that is written as it lies in memory has them only if
it is a palindrome. An emission has no field of the second kind. An entity state has two of
them, `entity_appearance` and `capabilities`.
-/

namespace Csics.Dis

open Base Serialization

/-! ## Encoders -/

section

variable (host host' : Endian)

theorem serializePduHeader_host (pdu : PDUHeader) (pduSize : Nat) :
    serializePduHeader host pdu pduSize = serializePduHeader host' pdu pduSize := by
  simp only [serializePduHeader, write_be_host host host', write_byte_host host host']

theorem ElectromagneticEmissionPDU.serializeWire_host (pdu : ElectromagneticEmissionPDU) :
    serializeWire host pdu = serializeWire host' pdu := by
  simp only [serializeWire, serializePduHeader_host host host', writeWords_host host host',
    write_be_host host host', write_byte_host host host']

theorem EntityStatePDU.serializeWire_host {pdu : EntityStatePDU}
    (happearance : Word.byteswap pdu.entityAppearance = pdu.entityAppearance)
    (hcapabilities : Word.byteswap pdu.capabilities = pdu.capabilities) :
    serializeWire host pdu = serializeWire host' pdu := by
  simp only [serializeWire, DeadReckoningParameters.serializeUnion,
    serializePduHeader_host host host', writeWords_host host host', write_be_host host host',
    write_byte_host host host', write_of_byteswap host host' happearance,
    write_of_byteswap host host' hcapabilities]

end

/-! ## Interoperation -/

/-- What `serialize_wire` writes does not depend on the host, and what one host has written the
other one decodes to the same PDU, up to `κ`. -/
structure Interoperates {α : Type} [Serde α] (pduSizeCalc : α → Nat) (κ : α → α) (pdu : α) :
    Prop where
  written : ∀ host host' mem bv,
    writtenBytes (serializeWire host pdu mem bv) = writtenBytes (serializeWire host' pdu mem bv)
  decoded : ∀ host host' mem bv extra, host ≠ host' → pduSizeCalc pdu ≤ bv.size →
    ∃ pdu' rest, (deserializeDirect host' : Get (Expected α)).run
      (writtenBytes (serializeWire host pdu mem bv) ++ extra) = .ok (.ok pdu', rest) ∧
        κ pdu' = κ pdu

/-! ## Emission -/

theorem Beam.canonical_canonical (pdu : Beam) : pdu.canonical.canonical = pdu.canonical := by
  simp only [canonical]
  congr 1
  cases pdu.trackJams with
  | none => rfl
  | some jams => cases jams <;> rfl

theorem EmitterSystem.canonical_canonical (pdu : EmitterSystem) :
    pdu.canonical.canonical = pdu.canonical := by
  simp [canonical, Beam.canonical_canonical]

theorem ElectromagneticEmissionPDU.canonical_canonical (pdu : ElectromagneticEmissionPDU) :
    pdu.canonical.canonical = pdu.canonical := by
  simp [canonical, EmitterSystem.canonical_canonical]

/-- A list behind its count in a byte that comes back up to `κ`. -/
theorem counted_of_run {α γ : Type} {g : Get (Expected α)} {enc : α → List UInt8} {f : α → α}
    {κ : α → γ} {P : α → Prop} (hruns : ∀ x, P x → Runs g (enc x) (.ok (f x)))
    (hP : ∀ x y rest mid, g.run (enc x ++ rest) = .ok (.ok y, mid) → κ y = κ x → P x)
    {xs ys : List α} {rest mid : List UInt8}
    (h : (Parser.many g (UInt8.ofNat xs.length).toNat).run (xs.flatMap enc ++ rest) =
      .ok (some ys, mid))
    (hsame : ys.map κ = xs.map κ) : xs.length ≤ 255 ∧ ∀ x ∈ xs, P x := by
  have hlen : ys.length = xs.length := by
    rw [← List.length_map κ, hsame, List.length_map]
  have hcount := (Parser.length_of_run_many h).symm.trans hlen
  rw [hcount] at h
  exact ⟨toNat_ofNat_eq_iff.mp hcount, all_of_many hruns hP h hsame⟩

theorem Beam.trackJamsSize_canonical (pdu : Beam) :
    pdu.canonical.trackJamsSize = pdu.trackJamsSize := by
  simp only [canonical, trackJamsSize]
  cases pdu.trackJams with
  | none => rfl
  | some jams => cases jams <;> rfl

/-- A beam that comes back has its track jams counted. -/
theorem Beam.recoverable_of_run (host : Endian) (x y : Beam) (rest mid : List UInt8)
    (h : (deserializeDirect host : Get (Expected Beam)).run (x.wire ++ rest) = .ok (.ok y, mid))
    (hsame : y.canonical = x.canonical) : x.Recoverable := by
  have hsize : y.trackJamsSize = x.trackJamsSize := by
    rw [← trackJamsSize_canonical, hsame, trackJamsSize_canonical]
  rw [run_wire] at h
  apply trackJamsOfLength_eq_iff.mp
  split at h
  · obtain ⟨jams, mid', hjams, h⟩ := (run_many_bind_eq_ok rfl).mp h
    cases (Parser.run_pure_eq_ok.mp h).1
    rw [← Parser.length_of_run_many hjams, ← hsize]
    rfl
  · rename_i hzero
    cases (Parser.run_pure_eq_ok.mp h).1
    exact (Nat.eq_zero_of_not_pos hzero).trans hsize

theorem EmitterSystem.recoverable_of_run (host : Endian) (x y : EmitterSystem)
    (rest mid : List UInt8)
    (h : (deserializeDirect host : Get (Expected EmitterSystem)).run (x.wire ++ rest) =
      .ok (.ok y, mid))
    (hsame : y.canonical = x.canonical) : x.Recoverable := by
  rw [run_wire] at h
  obtain ⟨beams, mid', hbeams, h⟩ := (run_many_bind_eq_ok rfl).mp h
  cases (Parser.run_pure_eq_ok.mp h).1
  obtain ⟨hcount, hall⟩ := counted_of_run (Beam.runs_wire host) (Beam.recoverable_of_run host)
    hbeams (congrArg EmitterSystem.beams hsame)
  exact ⟨hcount, hall⟩

namespace ElectromagneticEmissionPDU

theorem recoverable_of_run (host : Endian) (x y : ElectromagneticEmissionPDU)
    (rest mid : List UInt8)
    (h : (deserializeDirect host : Get (Expected ElectromagneticEmissionPDU)).run
      (x.wire ++ rest) = .ok (.ok y, mid))
    (hsame : y.canonical = x.canonical) : x.Recoverable := by
  rw [run_wire] at h
  obtain ⟨systems, mid', hsystems, h⟩ := (run_many_bind_eq_ok rfl).mp h
  cases (Parser.run_pure_eq_ok.mp h).1
  obtain ⟨hcount, hall⟩ := counted_of_run (EmitterSystem.runs_wire host)
    (EmitterSystem.recoverable_of_run host) hsystems
    (congrArg ElectromagneticEmissionPDU.emitterSystems hsame)
  exact ⟨hcount, hall⟩

theorem interoperates_iff (pdu : ElectromagneticEmissionPDU) :
    Interoperates pduSizeCalc canonical pdu ↔ pdu.Recoverable := by
  constructor
  · intro h
    obtain ⟨pdu', rest, hrun, hsame⟩ := h.decoded .little .big (fun _ => 0) ⟨0, pdu.pduSizeCalc⟩ []
      (by decide) (Nat.le_refl _)
    rw [writtenBytes_eq .little pdu _ (Nat.le_refl _)] at hrun
    exact recoverable_of_run .big pdu pdu' [] rest hrun hsame
  · intro h
    constructor
    · intro host host' mem bv
      rw [pdu.serializeWire_host host host']
    · intro host host' mem bv extra _ hsize
      rw [writtenBytes_eq host pdu mem hsize]
      exact ⟨_, _, pdu.runs_wire host' h extra, canonical_canonical pdu⟩

end ElectromagneticEmissionPDU

/-! ## Entity state -/

namespace EntityStatePDU

/-- The bytes around the two fields that are written as they lie in memory. -/
theorem wire_split (pdu : EntityStatePDU) :
    ∃ before between behind, ∀ host, pdu.wire host =
      before ++ (Word.bytes host pdu.entityAppearance ++
        (between ++ (Word.bytes host pdu.capabilities ++ behind))) := by
  refine ⟨pdu.header.wire pdu.pduSizeCalc ++ [pdu.entityId.wire, [pdu.forceId],
      [UInt8.ofNat pdu.variableParameters.length], pdu.entityType.wire,
      pdu.alternativeEntityType.wire, pdu.entityLinearVelocity.wire, pdu.entityLocation.wire,
      pdu.entityOrientation.wire].flatten,
    pdu.drParameters.wire ++ [[pdu.entityMarking.characterSet],
      pdu.entityMarking.marking.toList].flatten,
    pdu.variableParameters.flatMap VariableParameters.wire, ?_⟩
  intro host
  simp [wire, wireAround, headWire, tailWire, DeadReckoningParameters.wire]

theorem wire_eq_iff (pdu : EntityStatePDU) :
    pdu.wire .little = pdu.wire .big ↔
      Word.byteswap pdu.entityAppearance = pdu.entityAppearance ∧
        Word.byteswap pdu.capabilities = pdu.capabilities := by
  obtain ⟨before, between, behind, hwire⟩ := pdu.wire_split
  rw [hwire, hwire, ← Word.bytes_eq_iff, ← Word.bytes_eq_iff, List.append_right_inj]
  constructor
  · intro h
    obtain ⟨happearance, h⟩ := List.append_inj h (by simp)
    obtain ⟨hcapabilities, -⟩ := List.append_inj (List.append_cancel_left h) (by simp)
    exact ⟨happearance, hcapabilities⟩
  · rintro ⟨happearance, hcapabilities⟩
    rw [happearance, hcapabilities]

/-- The decoder gives as many variable parameters as byte 19 says. -/
theorem length_of_run {host : Endian} {bs rest : List UInt8} {pdu : EntityStatePDU}
    (h : fixedSize bs ≤ bs.length)
    (hrun : (deserializeDirect host : Get (Expected EntityStatePDU)).run bs = .ok (.ok pdu, rest)) :
    pdu.variableParameters.length = (bs.getD 19 0).toNat := by
  obtain ⟨head, drParameters, hhead, htail⟩ := run_of_fixedSize_le host h
  obtain ⟨header, entityId, forceId, entityType, alternativeEntityType,
    entityLinearVelocity, entityLocation, entityOrientation, entityAppearance⟩ := head
  obtain ⟨⟨_, rfl⟩, ⟨_, rfl⟩, ⟨_, rfl⟩, ⟨_, rfl⟩, ⟨_, rfl⟩, ⟨_, rfl⟩, ⟨_, rfl⟩, ⟨_, rfl⟩, _, rfl⟩ :=
    hhead
  rw [htail] at hrun
  obtain ⟨markingCharacterSet, _, -, hrun⟩ := Parser.run_bind_eq_ok.mp hrun
  obtain ⟨-, hrun⟩ := run_check_eq_ok.mp hrun
  obtain ⟨characterSet, _, -, hrun⟩ := Parser.run_bind_eq_ok.mp hrun
  obtain ⟨marking, _, -, hrun⟩ := (run_many_bind_eq_ok rfl).mp hrun
  obtain ⟨capabilities, _, -, hrun⟩ := Parser.run_bind_eq_ok.mp hrun
  rw [deref_ok, pure_bind] at hrun
  obtain ⟨variableParameters, _, hparams, hrun⟩ := (run_many_bind_eq_ok rfl).mp hrun
  obtain ⟨hcheck, hrun⟩ := run_check_eq_ok.mp hrun
  simp only [Bool.or_eq_false_iff, not_hasValue_eq_false] at hcheck
  obtain ⟨-, capabilities, rfl⟩ := hcheck
  simp only [deref_ok, pure_bind] at hrun
  cases (Parser.run_pure_eq_ok.mp hrun).1
  exact Parser.length_of_run_many hparams

/-- A PDU that comes back has its variable parameters counted. -/
theorem count_of_roundTrips {host : Endian} {pdu : EntityStatePDU} {mem : Mem}
    (h : pdu.RoundTrips host mem ⟨0, pdu.pduSizeCalc⟩ []) :
    pdu.variableParameters.length ≤ 255 := by
  obtain ⟨pdu', rest, hrun, hsame⟩ := h
  rw [decodeWritten, writtenBytes_eq host pdu mem (Nat.le_refl _), List.append_nil] at hrun
  have hsize : fixedSize (pdu.wire host) ≤ (pdu.wire host).length := by
    have hunion := DeadReckoningParameters.unionSize_le ((pdu.wire host).getD 89 0)
    rw [length_wire, pduSizeCalc, fixedSize]
    omega
  have hparams : pdu'.selected.variableParameters = pdu.selected.variableParameters := by
    rw [hsame]
  have hlen := length_of_run hsize hrun
  rw [show pdu'.variableParameters = pdu.variableParameters from hparams, getD_wire_count] at hlen
  exact toNat_ofNat_eq_iff.mp hlen.symm

theorem interoperates_iff (pdu : EntityStatePDU) :
    Interoperates pduSizeCalc selected pdu ↔
      Word.byteswap pdu.entityAppearance = pdu.entityAppearance ∧
        Word.byteswap pdu.capabilities = pdu.capabilities ∧
        pdu.variableParameters.length ≤ 255 ∧
        (pdu.drParameters.paramsType = 1 ∨ pdu.drParameters.paramsType = 2 ∨
          pdu.clearTail = pdu) := by
  constructor
  · intro h
    have hwire := h.written .little .big (fun _ => 0) ⟨0, pdu.pduSizeCalc⟩
    have hrun := h.decoded .little .big (fun _ => 0) ⟨0, pdu.pduSizeCalc⟩ [] (by decide)
      (Nat.le_refl _)
    rw [hwire] at hrun
    rw [writtenBytes_eq _ _ _ (Nat.le_refl _), writtenBytes_eq _ _ _ (Nat.le_refl _),
      wire_eq_iff] at hwire
    have hcount := count_of_roundTrips hrun
    refine ⟨hwire.1, hwire.2, hcount, ?_⟩
    rw [← or_assoc, or_iff_not_imp_left, not_or]
    intro ⟨h1, h2⟩
    exact (roundTrips_iff_clearTail .big hcount (Nat.le_refl _) h1 h2).mp hrun
  · intro ⟨happearance, hcapabilities, hcount, hparams⟩
    have hwire (host host' : Endian) : serializeWire host pdu = serializeWire host' pdu :=
      serializeWire_host host host' happearance hcapabilities
    constructor
    · intro host host' mem bv
      rw [hwire host host']
    · intro host host' mem bv extra _ hsize
      rw [hwire host host']
      show pdu.RoundTrips host' mem bv extra
      by_cases hselected : pdu.drParameters.paramsType = 1 ∨ pdu.drParameters.paramsType = 2
      · exact roundTrips_of_selected host' hcount hsize hselected
      · obtain ⟨h1, h2⟩ := not_or.mp hselected
        rw [roundTrips_iff_clearTail host' hcount hsize h1 h2]
        rwa [or_iff_right h1, or_iff_right h2] at hparams

end EntityStatePDU

/-! ## Both PDUs -/

/-- An emission needs counts that fit their fields. An entity state needs, besides what it
needs to come back on one host, palindromes in the two fields that are written as they lie in
memory. -/
theorem interoperates_all_iff (entityState : EntityStatePDU)
    (emission : ElectromagneticEmissionPDU) :
    (Interoperates EntityStatePDU.pduSizeCalc EntityStatePDU.selected entityState ↔
      Word.byteswap entityState.entityAppearance = entityState.entityAppearance ∧
        Word.byteswap entityState.capabilities = entityState.capabilities ∧
        entityState.variableParameters.length ≤ 255 ∧
        (entityState.drParameters.paramsType = 1 ∨ entityState.drParameters.paramsType = 2 ∨
          entityState.clearTail = entityState)) ∧
    (Interoperates ElectromagneticEmissionPDU.pduSizeCalc ElectromagneticEmissionPDU.canonical
      emission ↔ emission.Recoverable) :=
  ⟨entityState.interoperates_iff, emission.interoperates_iff⟩

/-- An appearance of 1, with the dead-reckoning parameters that come back on one host. -/
def EntityStatePDU.appearing : EntityStatePDU :=
  { (default : EntityStatePDU) with
    entityAppearance := 1
    drParameters := { (default : DeadReckoningParameters) with paramsType := 1 } }

/-- On the two hosts 1 has different bytes. -/
theorem not_interoperates_appearing :
    ¬ Interoperates EntityStatePDU.pduSizeCalc EntityStatePDU.selected
      EntityStatePDU.appearing := by
  rw [EntityStatePDU.interoperates_iff]
  intro ⟨happearance, _⟩
  exact absurd happearance (by decide)

end Csics.Dis
