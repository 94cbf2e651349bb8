import Csics.Dis.Complete
import Csics.Dis.Faults

/-!
# The length of a beam record

The first byte of a beam record counts its words: 13, and two for every track jam. The decoder
divides `record_length * 32 - 416` by 64, and the division of `int` drops the remainder. A
record length of 12, or one behind it that is even, gives the track jams of a shorter record,
and one below 12 gives a negative quotient, which is a huge number as a `size_t`.

`decodes_iff_needed` says how many bytes a record length asks for, and `selfDelimiting_iff` that
the decoder is right exactly where the record length is one of a record, or where these bytes
are not there.
-/

namespace Csics.Dis.Beam

open Base Serialization

variable {bs rest : List UInt8} {pdu : Beam}

/-- The byte counts the words of a record: 13, and two for every track jam. -/
def IsRecordLength (recordLength : UInt8) : Prop :=
  13 ≤ recordLength.toNat ∧ (recordLength.toNat - 13) % 2 = 0

/-- A decoded beam has the track jams and the bytes that its first byte announces, and every
first byte that is not the length of a record gives an error. -/
structure SelfDelimiting (host : Endian) (bs : List UInt8) : Prop where
  decoded : ∀ pdu rest, (deserializeDirect host : Get (Expected Beam)).run bs =
      .ok (.ok pdu, rest) →
    IsRecordLength (bs.getD 0 0) ∧ pdu.trackJamsSize = ((bs.getD 0 0).toNat - 13) / 2 ∧
      4 * (bs.getD 0 0).toNat ≤ bs.length ∧ rest = bs.drop (4 * (bs.getD 0 0).toNat)
  rejected : ¬ IsRecordLength (bs.getD 0 0) →
    ∃ rest, (deserializeDirect host : Get (Expected Beam)).run bs = .ok (unexpect, rest)

/-- The bytes that the decoder takes for a record length. -/
def needed (recordLength : UInt8) : Nat :=
  if 12 ≤ recordLength.toNat then 52 + 8 * ((recordLength.toNat - 13) / 2)
  else 52 + 8 * (2 ^ 64 - (13 - recordLength.toNat) / 2)

/-! ## The number of track jams -/

theorem trackJamsOfLength_of_le {recordLength : UInt8} (h : 12 ≤ recordLength.toNat) :
    trackJamsOfLength recordLength = (recordLength.toNat - 13) / 2 := by
  have hlt := recordLength.toNat_lt
  unfold trackJamsOfLength
  generalize recordLength.toNat = n at h hlt ⊢
  by_cases h13 : 13 ≤ n
  · rw [Int.tdiv_eq_ediv_of_nonneg (by omega)]
    omega
  · -- `-32 / 64` is `0`
    obtain rfl : n = 12 := by omega
    rfl

/-- The quotient is negative. -/
theorem trackJamsOfLength_of_lt {recordLength : UInt8} (h : recordLength.toNat < 12) :
    trackJamsOfLength recordLength = 2 ^ 64 - (13 - recordLength.toNat) / 2 := by
  unfold trackJamsOfLength
  generalize recordLength.toNat = n at h ⊢
  have hneg : (n : Int) * 32 - 416 = -(416 - (n : Int) * 32) := by omega
  rw [hneg, Int.neg_tdiv, Int.tdiv_eq_ediv_of_nonneg (by omega)]
  omega

theorem needed_eq (recordLength : UInt8) :
    needed recordLength = 52 + 8 * trackJamsOfLength recordLength := by
  unfold needed
  split
  · rename_i h
    rw [trackJamsOfLength_of_le h]
  · rename_i h
    rw [trackJamsOfLength_of_lt (Nat.not_le.mp h)]

theorem needed_of_isRecordLength {recordLength : UInt8} (h : IsRecordLength recordLength) :
    needed recordLength = 4 * recordLength.toNat := by
  obtain ⟨hle, heven⟩ := h
  rw [needed, if_pos (by omega)]
  omega

/-! ## What the decoder takes -/

theorem cut_eq (bs : List UInt8) : cut bs = leave (needed (bs.getD 0 0)) bs := by
  rw [cut, needed_eq]
  simp only [leaveMany_leave]
  apply Option.ext
  intro rest
  rw [leave_bind_eq_some, leave_eq_some, leave_eq_some, List.length_drop, List.drop_drop]
  constructor
  · rintro ⟨h52, hjams, rfl⟩
    exact ⟨by omega, by rw [Nat.mul_comm 8]⟩
  · rintro ⟨hle, rfl⟩
    exact ⟨by omega, by omega, by rw [Nat.mul_comm 8]⟩

theorem decodes_iff_needed (host : Endian) (bs rest : List UInt8) :
    (∃ pdu, (deserializeDirect host : Get (Expected Beam)).run bs = .ok (.ok pdu, rest)) ↔
      needed (bs.getD 0 0) ≤ bs.length ∧ bs.drop (needed (bs.getD 0 0)) = rest := by
  rw [leaves host bs rest, cut_eq, leave_eq_some]

theorem trackJamsSize_of_run {host : Endian}
    (h : (deserializeDirect host : Get (Expected Beam)).run bs = .ok (.ok pdu, rest)) :
    pdu.trackJamsSize = trackJamsOfLength (bs.getD 0 0) := by
  obtain ⟨pdu', hnone, hrun⟩ := run_of_le host (length_of_run h)
  rw [hrun] at h
  split at h
  · obtain ⟨jams, mid, hmany, hbeam⟩ := (run_many_bind_eq_ok rfl).mp h
    obtain ⟨hpdu, -⟩ := Parser.run_pure_eq_ok.mp hbeam
    cases hpdu
    exact Parser.length_of_run_many hmany
  · rename_i hzero
    obtain ⟨hpdu, -⟩ := Parser.run_pure_eq_ok.mp h
    cases hpdu
    rw [Nat.eq_zero_of_not_pos hzero, trackJamsSize, hnone]
    rfl

/-- Without a value the decoder returns an error. -/
theorem run_eq_unexpect_of_lt (host : Endian) (h : bs.length < needed (bs.getD 0 0)) :
    ∃ rest, (deserializeDirect host : Get (Expected Beam)).run bs = .ok (unexpect, rest) := by
  obtain ⟨r, rest, hrun, hr⟩ := returns_deserializeDirect host bs
  rcases hr with rfl | ⟨pdu, rfl⟩
  · exact ⟨rest, hrun⟩
  · have hneeded := ((decodes_iff_needed host bs rest).mp ⟨pdu, hrun⟩).1
    omega

/-! ## Self-delimiting records -/

theorem selfDelimiting_iff (host : Endian) (bs : List UInt8) :
    SelfDelimiting host bs ↔
      IsRecordLength (bs.getD 0 0) ∨ bs.length < needed (bs.getD 0 0) := by
  constructor
  · intro h
    by_contra hnot
    rw [not_or, Nat.not_lt] at hnot
    obtain ⟨hlength, hle⟩ := hnot
    obtain ⟨pdu, hrun⟩ := (decodes_iff_needed host bs _).mpr ⟨hle, rfl⟩
    exact hlength (h.decoded pdu _ hrun).1
  · rintro (hlength | hlt)
    · refine ⟨?_, fun h => absurd hlength h⟩
      intro pdu rest hrun
      obtain ⟨hle, hrest⟩ := (decodes_iff_needed host bs rest).mp ⟨pdu, hrun⟩
      rw [needed_of_isRecordLength hlength] at hle hrest
      refine ⟨hlength, ?_, hle, hrest.symm⟩
      have h13 := hlength.1
      rw [trackJamsSize_of_run hrun, trackJamsOfLength_of_le (by omega)]
    · refine ⟨?_, fun _ => run_eq_unexpect_of_lt host hlt⟩
      intro pdu rest hrun
      have hle := ((decodes_iff_needed host bs rest).mp ⟨pdu, hrun⟩).1
      omega

/-- A record length of 12 words is accepted, and 52 bytes are taken. -/
theorem not_selfDelimiting_twelve :
    ¬ SelfDelimiting .little (12 :: List.replicate 51 0) := by
  intro h
  obtain ⟨pdu, hrun⟩ := (decodes_iff_needed .little (12 :: List.replicate 51 0) []).mpr
    ⟨by decide, by decide⟩
  have h13 := (h.decoded pdu [] hrun).1.1
  exact absurd h13 (by decide)

end Csics.Dis.Beam
