import Csics.Dis.Emission
import Csics.Dis.EntityState

/-!
# Truncation

A `serialize_wire` function returns `Ok` whatever its statements return, so the only buffers
for which it reports truly how much it has written are the ones that hold the whole PDU.
-/

namespace Csics.Dis

open Base Serialization

/-- `Ok` means that all `n` bytes are written, as they are to any buffer that holds them, and
is not returned if they do not fit. -/
def ReportsTruncation (f : Wire) (n : Nat) (mem : Mem) (bv : View) : Prop :=
  ((f mem bv).1.status = .ok →
    (f mem bv).1.writtenView.size = n ∧
      ∀ mem' ample, n ≤ ample.size → writtenBytes (f mem bv) = writtenBytes (f mem' ample)) ∧
  (bv.size < n → (f mem bv).1.status ≠ .ok)

theorem reportsTruncation_record_iff {stmts : List Stmt} {bs : List UInt8}
    (h : Emits (record stmts) bs) (hpos : 0 < bs.length) {mem : Mem} {bv : View} :
    ReportsTruncation (record stmts) bs.length mem bv ↔ bs.length ≤ bv.size := by
  constructor
  · intro hreports
    by_contra hlt
    exact hreports.2 (Nat.lt_of_not_le hlt) record_status
  · intro hsize
    refine ⟨fun _ => ⟨?_, fun mem' ample hample => ?_⟩, fun hlt => ?_⟩
    · rw [h mem bv hsize]
      exact View.size_subview_zero hsize
    · rw [h.writtenBytes_eq mem hsize hpos, h.writtenBytes_eq mem' hample hpos]
    · exact absurd hsize (Nat.not_le_of_lt hlt)

theorem EntityStatePDU.reportsTruncation_iff (host : Endian) (pdu : EntityStatePDU) (mem : Mem)
    (bv : View) :
    ReportsTruncation (serializeWire host pdu) pdu.pduSizeCalc mem bv ↔
      pdu.pduSizeCalc ≤ bv.size := by
  have hlen := pdu.length_wire host
  have hpos : 0 < (pdu.wire host).length := by
    rw [hlen, pduSizeCalc]
    omega
  rw [← hlen]
  exact reportsTruncation_record_iff (pdu.emits_wire host) hpos

theorem ElectromagneticEmissionPDU.reportsTruncation_iff (host : Endian)
    (pdu : ElectromagneticEmissionPDU) (mem : Mem) (bv : View) :
    ReportsTruncation (serializeWire host pdu) pdu.pduSizeCalc mem bv ↔
      pdu.pduSizeCalc ≤ bv.size := by
  have hlen := pdu.length_wire
  have hpos : 0 < pdu.wire.length := by
    rw [hlen, pduSizeCalc_eq]
    omega
  rw [← hlen]
  exact reportsTruncation_record_iff (pdu.emits_wire host) hpos

/-- Both PDUs are reported truly exactly when they fit. -/
theorem serializeWire_reportsTruncation_iff (host : Endian) (mem : Mem) (bv : View) :
    (∀ pdu : EntityStatePDU,
      ReportsTruncation (serializeWire host pdu) pdu.pduSizeCalc mem bv ↔
        pdu.pduSizeCalc ≤ bv.size) ∧
    ∀ pdu : ElectromagneticEmissionPDU,
      ReportsTruncation (serializeWire host pdu) pdu.pduSizeCalc mem bv ↔
        pdu.pduSizeCalc ≤ bv.size :=
  ⟨fun pdu => pdu.reportsTruncation_iff host mem bv,
    fun pdu => pdu.reportsTruncation_iff host mem bv⟩

/-- An emission without systems takes 28 bytes; a view of 27 gets `Ok`. -/
theorem not_reportsTruncation_emission :
    ¬ ReportsTruncation (serializeWire .little (default : ElectromagneticEmissionPDU))
      (default : ElectromagneticEmissionPDU).pduSizeCalc (fun _ => 0) ⟨4096, 27⟩ := by
  rw [ElectromagneticEmissionPDU.reportsTruncation_iff]
  decide

end Csics.Dis
