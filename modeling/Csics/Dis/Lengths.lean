import Csics.Dis.Emission
import Csics.Dis.EntityState
import Mathlib.Algebra.BigOperators.Ring.List
import Mathlib.Algebra.Order.BigOperators.Group.List

/-!
# Counts and lengths on the wire

The encoders write how long a PDU, an emitter system and a beam is, and how many records
follow. The formulas for the lengths agree with what is written. The fields are narrower than
the numbers: they are cut to 16 bits for a PDU, and to 8 bits for a record and for a count.
-/

namespace Csics.Dis

open Base Serialization

/-! ## Bytes at an offset -/

theorem getD_append_of_length {pre rest : List UInt8} {b : UInt8} {n : Nat}
    (h : pre.length = n) : (pre ++ b :: rest).getD n 0 = b := by
  rw [List.getD_eq_getElem?_getD, ← h, List.getElem?_append_right (Nat.le_refl _), Nat.sub_self]
  rfl

theorem getD_append_add {pre record : List UInt8} {n k : Nat} (rest : List UInt8)
    (h : pre.length = n) (hk : k < record.length) :
    (pre ++ (record ++ rest)).getD (n + k) 0 = record.getD k 0 := by
  rw [List.getD_eq_getElem?_getD, List.getD_eq_getElem?_getD, ← h,
    List.getElem?_append_right (Nat.le_add_right _ _), Nat.add_sub_cancel_left,
    List.getElem?_append_left hk]

theorem beAt_append_of_length {α : Type} [Word α] {pre rest : List UInt8} {x : α} {n : Nat}
    (h : pre.length = n) : Word.beAt α (pre ++ (Word.beBytes x ++ rest)) n = x := by
  have hlen : (Word.beBytes x).length = Word.width α := Word.length_beBytes x
  rw [Word.beAt, ← h, List.drop_left, ← hlen, List.take_left]
  exact Word.ofBytes_bytes .big x

/-- The length in the header. -/
theorem PDUHeader.beAt_wire (pdu : PDUHeader) (pduSize : Nat) (rest : List UInt8) :
    Word.beAt UInt16 (pdu.wire pduSize ++ rest) 8 = UInt16.ofNat pduSize := by
  have hwire : pdu.wire pduSize ++ rest =
      ([[pdu.protocolVersion], [pdu.exerciseId], [pdu.pduType], [pdu.protocolFamily],
        Word.beBytes pdu.timestamp].flatten) ++
      (Word.beBytes (UInt16.ofNat pduSize) ++ (pdu.status :: 0 :: rest)) := by
    simp [wire]
  rw [hwire]
  exact beAt_append_of_length (by simp)

/-! ## Entity state -/

namespace EntityStatePDU

theorem beAt_wire (host : Endian) (pdu : EntityStatePDU) :
    Word.beAt UInt16 (pdu.wire host) 8 = UInt16.ofNat pdu.pduSizeCalc := by
  rw [wire, wireAround, List.flatten_cons, headWire, List.append_assoc]
  exact pdu.header.beAt_wire _ _

theorem getD_wire_count (host : Endian) (pdu : EntityStatePDU) :
    (pdu.wire host).getD 19 0 = UInt8.ofNat pdu.variableParameters.length := by
  have hwire : pdu.wire host =
      (pdu.header.wire pdu.pduSizeCalc ++ (pdu.entityId.wire ++ [pdu.forceId])) ++
      UInt8.ofNat pdu.variableParameters.length :: ([pdu.entityType.wire,
        pdu.alternativeEntityType.wire, pdu.entityLinearVelocity.wire, pdu.entityLocation.wire,
        pdu.entityOrientation.wire, Word.bytes host pdu.entityAppearance,
        [pdu.drParameters.algorithm], [pdu.drParameters.paramsType],
        pdu.drParameters.unionWire, pdu.tailWire host].flatten) := by
    simp [wire, wireAround, headWire]
  rw [hwire]
  exact getD_append_of_length (by simp)

/-- The bytes of the PDU say how long it is and how many variable parameters it has. -/
structure Truthful (pdu : EntityStatePDU) (out : List UInt8) : Prop where
  length : (Word.beAt UInt16 out 8).toNat = out.length
  count : (out.getD 19 0).toNat = pdu.variableParameters.length

theorem truthful_wire_iff (host : Endian) (pdu : EntityStatePDU) :
    pdu.Truthful (pdu.wire host) ↔ pdu.variableParameters.length ≤ 255 := by
  have hlen := pdu.length_wire host
  have hsize : pdu.pduSizeCalc = 144 + 16 * pdu.variableParameters.length := by
    rw [pduSizeCalc]
    omega
  constructor
  · rintro ⟨-, hcount⟩
    rw [getD_wire_count, toNat_ofNat_eq_iff] at hcount
    exact hcount
  · intro h
    constructor
    · rw [beAt_wire, UInt16.toNat_ofNat', hlen, hsize]
      omega
    · rw [getD_wire_count, toNat_ofNat_eq_iff]
      exact h

end EntityStatePDU

/-! ## Emission -/

/-- The record length of a beam. -/
theorem Beam.getD_wire (pdu : Beam) :
    pdu.wire.getD 0 0 = UInt8.ofNat ((416 + 64 * pdu.trackJamsSize) / 32) := rfl

theorem EmitterSystem.getD_wire (pdu : EmitterSystem) :
    pdu.wire.getD 0 0 = UInt8.ofNat ((160 + pdu.beamsSize) / 32) ∧
      pdu.wire.getD 1 0 = UInt8.ofNat pdu.beams.length := ⟨rfl, rfl⟩

/-- The record length is in words of four bytes. -/
theorem Beam.recordLength_iff (pdu : Beam) :
    (pdu.wire.getD 0 0).toNat * 4 = pdu.wire.length ↔ pdu.wire.length / 4 < 256 := by
  rw [getD_wire, UInt8.toNat_ofNat', length_wire]
  omega

/-- The length of a system in words. -/
theorem EmitterSystem.words_eq (pdu : EmitterSystem) :
    ∃ words, 13 * pdu.beams.length ≤ words ∧ pdu.beamsSize = 32 * words ∧
      pdu.wire.length = 20 + 4 * words := by
  refine ⟨(pdu.beams.map fun beam => 13 + 2 * beam.trackJamsSize).sum, ?_, ?_, ?_⟩
  · have hsum := List.card_nsmul_le_sum (pdu.beams.map fun beam => 13 + 2 * beam.trackJamsSize) 13
    rw [List.length_map] at hsum
    rw [Nat.mul_comm]
    apply hsum
    intro n hn
    obtain ⟨beam, -, rfl⟩ := List.mem_map.mp hn
    exact Nat.le_add_right _ _
  · rw [beamsSize, ← List.sum_map_mul_left]
    congr 2
    ext beam
    omega
  · rw [length_wire, ← List.sum_map_mul_left]
    congr 3
    ext beam
    omega

theorem EmitterSystem.recordLength_iff (pdu : EmitterSystem) :
    (pdu.wire.getD 0 0).toNat * 4 = pdu.wire.length ↔ pdu.wire.length / 4 < 256 := by
  obtain ⟨words, -, hbeams, hlen⟩ := pdu.words_eq
  rw [(getD_wire pdu).1, UInt8.toNat_ofNat', hbeams, hlen]
  omega

namespace EmitterSystem

/-- Where the beam behind the beams `before` starts in its system. -/
def beamStart (before : List Beam) : Nat := 20 + (before.map fun beam => beam.wire.length).sum

theorem wire_split {pdu : EmitterSystem} {before after : List Beam} {beam : Beam}
    (h : pdu.beams = before ++ beam :: after) :
    ∃ pre rest, pdu.wire = pre ++ (beam.wire ++ rest) ∧ pre.length = beamStart before := by
  refine ⟨pdu.head ++ before.flatMap Beam.wire, after.flatMap Beam.wire, ?_, ?_⟩
  · rw [wire, h, List.flatMap_append, List.flatMap_cons, List.append_assoc]
  · rw [List.length_append, List.length_flatMap, beamStart]
    simp [head]

/-- From `off` on, the bytes say how long the system and its beams are, and how many beams it
has. -/
structure Truthful (pdu : EmitterSystem) (out : List UInt8) (off : Nat) : Prop where
  recordLength : (out.getD off 0).toNat * 4 = pdu.wire.length
  beamCount : (out.getD (off + 1) 0).toNat = pdu.beams.length
  beams : ∀ before beam after, pdu.beams = before ++ beam :: after →
    (out.getD (off + beamStart before) 0).toNat * 4 = beam.wire.length

theorem truthful_iff {pdu : EmitterSystem} {pre rest : List UInt8} {off : Nat}
    (h : pre.length = off) :
    pdu.Truthful (pre ++ (pdu.wire ++ rest)) off ↔ pdu.wire.length / 4 < 256 := by
  have hpos : 20 ≤ pdu.wire.length := by
    rw [length_wire]
    omega
  have hfirst := getD_append_add rest h (show 0 < pdu.wire.length by omega)
  have hsecond := getD_append_add rest h (show 1 < pdu.wire.length by omega)
  rw [Nat.add_zero] at hfirst
  constructor
  · intro htrue
    have hlength := htrue.recordLength
    rwa [hfirst, recordLength_iff] at hlength
  · intro hwords
    refine ⟨?_, ?_, ?_⟩
    · rwa [hfirst, recordLength_iff]
    · obtain ⟨words, hcount, -, hlen⟩ := pdu.words_eq
      rw [hsecond, (getD_wire pdu).2, UInt8.toNat_ofNat']
      omega
    · intro before beam after hbeams
      obtain ⟨head, tail, hwire, hhead⟩ := wire_split hbeams
      have hlen := congrArg List.length hwire
      have hbeam := beam.length_wire
      rw [List.length_append, List.length_append] at hlen
      have hbyte := getD_append_add tail hhead
        (show 0 < beam.wire.length by omega)
      rw [getD_append_add _ h (by omega), hwire]
      rw [Nat.add_zero] at hbyte
      rw [hbyte, Beam.recordLength_iff]
      omega

end EmitterSystem

namespace ElectromagneticEmissionPDU

/-- Where the system behind the systems `before` starts. -/
def systemStart (before : List EmitterSystem) : Nat :=
  28 + (before.map fun system => system.wire.length).sum

theorem wire_split {pdu : ElectromagneticEmissionPDU} {before after : List EmitterSystem}
    {system : EmitterSystem} (h : pdu.emitterSystems = before ++ system :: after) :
    ∃ pre rest, pdu.wire = pre ++ (system.wire ++ rest) ∧ pre.length = systemStart before := by
  refine ⟨pdu.head ++ before.flatMap EmitterSystem.wire, after.flatMap EmitterSystem.wire, ?_, ?_⟩
  · rw [wire, h, List.flatMap_append, List.flatMap_cons, List.append_assoc]
  · rw [List.length_append, List.length_flatMap, systemStart]
    simp [head]

theorem beAt_wire (pdu : ElectromagneticEmissionPDU) :
    Word.beAt UInt16 pdu.wire 8 = UInt16.ofNat pdu.pduSizeCalc := by
  rw [wire, head, List.append_assoc]
  exact pdu.header.beAt_wire _ _

theorem getD_wire_count (pdu : ElectromagneticEmissionPDU) :
    pdu.wire.getD 25 0 = UInt8.ofNat pdu.emitterSystems.length := by
  have hwire : pdu.wire = (pdu.header.wire pdu.pduSizeCalc ++
      (pdu.emitterId.wire ++ (pdu.eventId.wire ++ [pdu.stateUpdateIndicator]))) ++
      UInt8.ofNat pdu.emitterSystems.length ::
        (List.replicate 2 0 ++ pdu.emitterSystems.flatMap EmitterSystem.wire) := by
    simp [wire, head]
  rw [hwire]
  exact getD_append_of_length (by simp)

/-- The bytes of the PDU say how long it and its records are, and how many of them it has. -/
structure Truthful (pdu : ElectromagneticEmissionPDU) (out : List UInt8) : Prop where
  length : (Word.beAt UInt16 out 8).toNat = out.length
  systemCount : (out.getD 25 0).toNat = pdu.emitterSystems.length
  systems : ∀ before system after, pdu.emitterSystems = before ++ system :: after →
    system.Truthful out (systemStart before)

/-- The lengths and counts fit their fields. The record length of a system bounds the number of
its beams and their record lengths. -/
structure Expressible (pdu : ElectromagneticEmissionPDU) : Prop where
  length : pdu.pduSizeCalc < 2 ^ 16
  systemCount : pdu.emitterSystems.length ≤ 255
  systems : ∀ system ∈ pdu.emitterSystems,
    20 + (system.beams.map fun beam => 52 + 8 * beam.trackJamsSize).sum < 4 * 256

theorem truthful_wire_iff (pdu : ElectromagneticEmissionPDU) :
    pdu.Truthful pdu.wire ↔ pdu.Expressible := by
  have hsystem (before : List EmitterSystem) (system : EmitterSystem)
      (after : List EmitterSystem) (h : pdu.emitterSystems = before ++ system :: after) :
      system.Truthful pdu.wire (systemStart before) ↔
        20 + (system.beams.map fun beam => 52 + 8 * beam.trackJamsSize).sum < 4 * 256 := by
    obtain ⟨pre, rest, hwire, hpre⟩ := wire_split h
    rw [hwire, EmitterSystem.truthful_iff hpre, ← EmitterSystem.length_wire]
    omega
  constructor
  · intro htrue
    refine ⟨?_, ?_, ?_⟩
    · have hlength := htrue.length
      rw [beAt_wire, UInt16.toNat_ofNat', length_wire] at hlength
      omega
    · have hcount := htrue.systemCount
      rw [getD_wire_count, UInt8.toNat_ofNat'] at hcount
      omega
    · intro system hmem
      obtain ⟨before, after, hsplit⟩ := List.append_of_mem hmem
      exact (hsystem before system after hsplit).mp (htrue.systems before system after hsplit)
  · intro hfits
    refine ⟨?_, ?_, ?_⟩
    · have hlength := hfits.length
      rw [beAt_wire, UInt16.toNat_ofNat', length_wire]
      omega
    · have hcount := hfits.systemCount
      rw [getD_wire_count, UInt8.toNat_ofNat']
      omega
    · intro before system after hsplit
      apply (hsystem before system after hsplit).mpr
      apply hfits.systems
      rw [hsplit]
      exact List.mem_append_right before List.mem_cons_self

end ElectromagneticEmissionPDU

/-! ## Truncated counts and lengths -/

theorem EntityStatePDU.writtenBytes_eq (host : Endian) (pdu : EntityStatePDU) (mem : Mem)
    {bv : View} (h : pdu.pduSizeCalc ≤ bv.size) :
    writtenBytes (serializeWire host pdu mem bv) = pdu.wire host := by
  have hlen := pdu.length_wire host
  refine (pdu.emits_wire host).writtenBytes_eq mem (hlen ▸ h) ?_
  rw [hlen, pduSizeCalc]
  omega

theorem ElectromagneticEmissionPDU.writtenBytes_eq (host : Endian)
    (pdu : ElectromagneticEmissionPDU) (mem : Mem) {bv : View} (h : pdu.pduSizeCalc ≤ bv.size) :
    writtenBytes (serializeWire host pdu mem bv) = pdu.wire := by
  have hlen := pdu.length_wire
  refine (pdu.emits_wire host).writtenBytes_eq mem (hlen ▸ h) ?_
  rw [hlen, pduSizeCalc_eq]
  omega

/-- `Ok` is returned with true counts and lengths when they fit their fields. -/
theorem truthful_of_ok_iff (host : Endian) (mem : Mem) (bv : View) :
    (∀ pdu : EntityStatePDU, pdu.pduSizeCalc ≤ bv.size →
      (((serializeWire host pdu mem bv).1.status = .ok →
          pdu.Truthful (writtenBytes (serializeWire host pdu mem bv))) ↔
        pdu.variableParameters.length ≤ 255)) ∧
    ∀ pdu : ElectromagneticEmissionPDU, pdu.pduSizeCalc ≤ bv.size →
      (((serializeWire host pdu mem bv).1.status = .ok →
          pdu.Truthful (writtenBytes (serializeWire host pdu mem bv))) ↔
        pdu.Expressible) := by
  constructor
  · intro pdu hroom
    have hstatus : (serializeWire host pdu mem bv).1.status = .ok := record_status
    rw [pdu.writtenBytes_eq host mem hroom, ← pdu.truthful_wire_iff host]
    exact ⟨fun h => h hstatus, fun h _ => h⟩
  · intro pdu hroom
    have hstatus : (serializeWire host pdu mem bv).1.status = .ok := record_status
    rw [pdu.writtenBytes_eq host mem hroom, ← pdu.truthful_wire_iff]
    exact ⟨fun h => h hstatus, fun h _ => h⟩

/-- An emission with one system of twenty beams: its record length is 265 words, and the byte
for it says 9. -/
def twentyBeams : ElectromagneticEmissionPDU :=
  { (default : ElectromagneticEmissionPDU) with
    emitterSystems := [{ (default : EmitterSystem) with beams := List.replicate 20 default }] }

theorem truthful_of_ok_iff_default :
    ((default : EntityStatePDU).Truthful (writtenBytes
        (serializeWire .little (default : EntityStatePDU) (fun _ => 0) ⟨4096, 1500⟩))) ∧
      ¬ ((serializeWire .little twentyBeams (fun _ => 0) ⟨4096, 1500⟩).1.status = .ok →
        twentyBeams.Truthful (writtenBytes
          (serializeWire .little twentyBeams (fun _ => 0) ⟨4096, 1500⟩))) := by
  have h := truthful_of_ok_iff .little (fun _ => 0) ⟨4096, 1500⟩
  constructor
  · exact (h.1 default (by decide)).mpr (by decide) record_status
  · rw [h.2 twentyBeams (by decide)]
    intro hfits
    exact absurd (hfits.systems _ List.mem_cons_self) (by decide)

theorem not_truthful_twentyBeams :
    (serializeWire .little twentyBeams (fun _ => 0) ⟨4096, 1500⟩).1.status = .ok ∧
      ¬ twentyBeams.Truthful (writtenBytes
        (serializeWire .little twentyBeams (fun _ => 0) ⟨4096, 1500⟩)) := by
  refine ⟨record_status, ?_⟩
  rw [ElectromagneticEmissionPDU.writtenBytes_eq _ _ _ (by decide),
    ElectromagneticEmissionPDU.truthful_wire_iff]
  intro hfits
  exact absurd (hfits.systems _ List.mem_cons_self) (by decide)

/-! ## Declared lengths -/

/-- All that the call changes are the `n` bytes of the view it returns. -/
def WritesExactly (r : SerializationResult × Mem) (mem : Mem) (bv : View) (n : Nat) : Prop :=
  (writtenBytes r).length = n ∧ r.2 = mem.store bv.data (writtenBytes r)

/-- From `off` on, `out` has the bytes that the encoder of `x` writes wherever it has room. -/
def RecordAt {α : Type} [Serde α] (host : Endian) (x : α) (out : List UInt8) (off : Nat)
    (bytes : List UInt8) : Prop :=
  Emits (serializeWire host x) bytes ∧ ∃ rest, out.drop off = bytes ++ rest

/-- The first byte of the record is its length in words, if it has fewer than 256. -/
def DeclaresLength (bytes : List UInt8) : Prop :=
  bytes.length / 4 < 256 → (bytes.getD 0 0).toNat * 4 = bytes.length

theorem writesExactly_of_emits {f : Wire} {bs : List UInt8} (h : Emits f bs) (mem : Mem)
    {bv : View} (hsize : bs.length ≤ bv.size) (hpos : 0 < bs.length) :
    WritesExactly (f mem bv) mem bv bs.length := by
  rw [WritesExactly, h.writtenBytes_eq mem hsize hpos, h mem bv hsize]
  exact ⟨rfl, rfl⟩

/-- The formulas for the lengths agree with what is written. -/
theorem declared_eq_written (host : Endian) (mem : Mem) (bv : View) :
    (∀ pdu : EntityStatePDU, pdu.pduSizeCalc ≤ bv.size →
      WritesExactly (serializeWire host pdu mem bv) mem bv pdu.pduSizeCalc ∧
      (pdu.pduSizeCalc < 2 ^ 16 →
        (Word.beAt UInt16 (writtenBytes (serializeWire host pdu mem bv)) 8).toNat =
          pdu.pduSizeCalc)) ∧
    ∀ pdu : ElectromagneticEmissionPDU, pdu.pduSizeCalc ≤ bv.size →
      WritesExactly (serializeWire host pdu mem bv) mem bv pdu.pduSizeCalc ∧
      (pdu.pduSizeCalc < 2 ^ 16 →
        (Word.beAt UInt16 (writtenBytes (serializeWire host pdu mem bv)) 8).toNat =
          pdu.pduSizeCalc) ∧
      ∀ before system after, pdu.emitterSystems = before ++ system :: after →
        ∃ bytes, RecordAt host system (writtenBytes (serializeWire host pdu mem bv))
            (ElectromagneticEmissionPDU.systemStart before) bytes ∧ DeclaresLength bytes ∧
          ∀ before beam after, system.beams = before ++ beam :: after →
            ∃ beamBytes, RecordAt host beam bytes (EmitterSystem.beamStart before) beamBytes ∧
              DeclaresLength beamBytes := by
  constructor
  · intro pdu hroom
    have hlen := pdu.length_wire host
    have hpos : 0 < (pdu.wire host).length := by
      rw [hlen, EntityStatePDU.pduSizeCalc]
      omega
    rw [pdu.writtenBytes_eq host mem hroom, pdu.beAt_wire host, UInt16.toNat_ofNat', ← hlen]
    exact ⟨writesExactly_of_emits (pdu.emits_wire host) mem (hlen ▸ hroom) hpos,
      fun h => Nat.mod_eq_of_lt h⟩
  · intro pdu hroom
    have hlen := pdu.length_wire
    have hpos : 0 < pdu.wire.length := by
      rw [hlen, ElectromagneticEmissionPDU.pduSizeCalc_eq]
      omega
    rw [pdu.writtenBytes_eq host mem hroom, pdu.beAt_wire, UInt16.toNat_ofNat', ← hlen]
    refine ⟨writesExactly_of_emits (pdu.emits_wire host) mem (hlen ▸ hroom) hpos,
      fun h => Nat.mod_eq_of_lt h, ?_⟩
    intro before system after hsplit
    obtain ⟨pre, rest, hwire, hpre⟩ := ElectromagneticEmissionPDU.wire_split hsplit
    refine ⟨system.wire, ⟨system.emits_wire host, rest, ?_⟩, system.recordLength_iff.mpr, ?_⟩
    · rw [hwire, ← hpre, List.drop_left]
    · intro before beam after hsplit
      obtain ⟨pre, rest, hwire, hpre⟩ := EmitterSystem.wire_split hsplit
      refine ⟨beam.wire, ⟨beam.emits_wire host, rest, ?_⟩, beam.recordLength_iff.mpr⟩
      rw [hwire, ← hpre, List.drop_left]

theorem declared_eq_written_default :
    WritesExactly (serializeWire .big twentyBeams (fun _ => 0) ⟨4096, 1500⟩) (fun _ => 0)
        ⟨4096, 1500⟩ 1088 ∧
      WritesExactly (serializeWire .big (default : EntityStatePDU) (fun _ => 0) ⟨4096, 1500⟩)
        (fun _ => 0) ⟨4096, 1500⟩ 144 :=
  ⟨((declared_eq_written .big (fun _ => 0) ⟨4096, 1500⟩).2 twentyBeams (by decide)).1,
    ((declared_eq_written .big (fun _ => 0) ⟨4096, 1500⟩).1 default (by decide)).1⟩

end Csics.Dis
