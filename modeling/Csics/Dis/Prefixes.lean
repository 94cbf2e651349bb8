import Csics.Dis.Complete
import Csics.Dis.Lengths

/-!
# Truncated datagrams

What the decoders make of a PDU that is cut off. An emission is not missed as long as it has a
system behind its fixed part; the two bytes of padding in front of the systems may be missing
where there are none. An entity state is not missed as long as it has no variable parameter;
otherwise the bytes may end where the decoder takes the type of one unchecked.

`Extends` carries the argument for the nested records of an emission: where a cut record had a
value, the whole record would have the same value and bytes left over.
-/

namespace Csics.Dis

open Base Serialization

variable {bs rest more : List UInt8}

/-- The decoder returns an error. -/
def Rejects (α : Type) [Serde α] (host : Endian) (bs : List UInt8) : Prop :=
  ∃ rest, (deserializeDirect host : Get (Expected α)).run bs = .ok (unexpect, rest)

/-- Every proper prefix of the bytes that `serialize_wire` writes into an ample buffer is
rejected. -/
def RejectsTruncated (host : Endian) {α : Type} [Serde α] (pdu : α) (mem : Mem) (bv : View) :
    Prop :=
  ∀ bs, bs <+: writtenBytes (serializeWire host pdu mem bv) →
    bs ≠ writtenBytes (serializeWire host pdu mem bv) → Rejects α host bs

theorem rejects_iff_of_reports {α : Type} [Serde α] {host : Endian} (h : Reports α host bs) :
    Rejects α host bs ↔ ¬ Decodes α host bs := by
  obtain ⟨r, rest, hrun, hr⟩ := h
  constructor
  · rintro ⟨rest', hrejects⟩ ⟨x, rest'', hdecodes⟩
    rw [hrejects] at hdecodes
    cases hdecodes
  · intro hnot
    rcases hr with rfl | ⟨x, rfl⟩
    · exact ⟨rest, hrun⟩
    · exact absurd ⟨x, rest, hrun⟩ hnot

/-! ## Emission -/

theorem getD_append_left {n : Nat} (h : n < bs.length) :
    (bs ++ more).getD n 0 = bs.getD n 0 := by
  rw [List.getD_eq_getElem?_getD, List.getD_eq_getElem?_getD, List.getElem?_append_left h]

theorem Beam.extends_cut : Extends Beam.cut := by
  apply Extends.bind (n := 52)
  · intro bs _
    exact (extends_leave 8).many _
  · intro bs more h
    rw [getD_append_left (by omega)]

theorem EmitterSystem.extends_cut : Extends EmitterSystem.cut := by
  apply Extends.bind (n := 20)
  · intro bs _
    exact Beam.extends_cut.many _
  · intro bs more h
    rw [getD_append_left (by omega)]

namespace ElectromagneticEmissionPDU

theorem cut_wire {pdu : ElectromagneticEmissionPDU} (h : pdu.Fits) : cut pdu.wire = some [] := by
  have hrun := pdu.runs_wire .little h.recoverable []
  rw [List.append_nil] at hrun
  exact (leaves .little pdu.wire []).mp ⟨_, hrun⟩

/-- With a system there are no bytes missing where the decoder has a value. -/
theorem eq_nil_of_cut {pdu : ElectromagneticEmissionPDU} (h : pdu.Fits)
    (hsystems : pdu.emitterSystems ≠ []) (hwire : pdu.wire = bs ++ more)
    (hcut : cut bs = some rest) : more = [] := by
  have hcount := pdu.getD_wire_count
  obtain ⟨h26, hrest⟩ := leave_bind_eq_some.mp hcut
  have hwhole := cut_wire h
  rw [hwire] at hcount hwhole
  obtain ⟨-, hwhole⟩ := leave_bind_eq_some.mp hwhole
  rw [getD_append_left (by omega)] at hcount hwhole
  rw [List.drop_append_of_le_length h26] at hwhole
  -- the first system needs the bytes behind the padding
  have hpos : 0 < pdu.emitterSystems.length := List.length_pos_iff.mpr hsystems
  obtain ⟨count, hsucc⟩ : ∃ count, (bs.getD 25 0).toNat = count + 1 := by
    refine ⟨pdu.emitterSystems.length - 1, ?_⟩
    rw [hcount, toNat_ofNat_eq_iff.mpr h.systems]
    omega
  have h20 : 20 ≤ (skipped 2 (bs.drop 26)).length := by
    rw [hsucc] at hrest
    obtain ⟨mid, hmid, -⟩ := Option.bind_eq_some_iff.mp hrest
    exact (leave_bind_eq_some.mp hmid).1
  have h2 : 2 ≤ (bs.drop 26).length := by
    by_contra hlt
    rw [skipped, leave, if_neg hlt, Option.getD_none] at h20
    omega
  have hskip : skipped 2 (bs.drop 26 ++ more) = skipped 2 (bs.drop 26) ++ more := by
    rw [skipped, skipped, leave, leave, if_pos h2, if_pos (by rw [List.length_append]; omega)]
    exact List.drop_append_of_le_length h2
  rw [hskip] at hwhole
  exact (EmitterSystem.extends_cut.many _).eq_nil_of_append hwhole hrest

/-- Without systems the padding may be missing. -/
theorem decodes_take (host : Endian) {pdu : ElectromagneticEmissionPDU}
    (h : pdu.emitterSystems = []) : Decodes ElectromagneticEmissionPDU host (pdu.wire.take 26) := by
  have hlen : pdu.wire.length = 28 := by
    rw [length_wire, pduSizeCalc_eq, h]
    rfl
  have h26 : (pdu.wire.take 26).length = 26 := List.length_take_of_le (by omega)
  have hcount : (pdu.wire.take 26).getD 25 0 = 0 := by
    have hwire := pdu.getD_wire_count
    rw [← List.take_append_drop 26 pdu.wire, getD_append_left (by omega), h] at hwire
    exact hwire
  refine (decodes_iff host _).mpr ?_
  show (cut _).isSome
  rw [cut, leave, if_pos (by omega), hcount]
  rfl

theorem rejectsTruncated_iff (host : Endian) {pdu : ElectromagneticEmissionPDU} (h : pdu.Fits)
    (mem : Mem) {bv : View} (hsize : pdu.pduSizeCalc ≤ bv.size) :
    RejectsTruncated host pdu mem bv ↔ pdu.emitterSystems ≠ [] := by
  unfold RejectsTruncated
  rw [writtenBytes_eq host pdu mem hsize]
  have hreports (bs : List UInt8) : Reports ElectromagneticEmissionPDU host bs :=
    returns_deserializeDirect host bs
  constructor
  · intro hrejects hnil
    have hlen : pdu.wire.length = 28 := by
      rw [length_wire, pduSizeCalc_eq, hnil]
      rfl
    have hne : pdu.wire.take 26 ≠ pdu.wire := by
      intro heq
      have h26 := congrArg List.length heq
      rw [List.length_take_of_le (by omega), hlen] at h26
      cases h26
    exact (rejects_iff_of_reports (hreports _)).mp
      (hrejects _ (List.take_prefix 26 _) hne) (decodes_take host hnil)
  · rintro hsystems bs ⟨more, hwire⟩ hne
    apply (rejects_iff_of_reports (hreports bs)).mpr
    rintro ⟨x, rest, hrun⟩
    have hnil := eq_nil_of_cut h hsystems hwire.symm ((leaves host bs rest).mp ⟨x, hrun⟩)
    rw [hnil, List.append_nil] at hwire
    exact hne hwire

end ElectromagneticEmissionPDU

/-! ## Entity state -/

namespace EntityStatePDU

theorem getD_wire_paramsType (host : Endian) (pdu : EntityStatePDU) :
    (pdu.wire host).getD 89 0 = pdu.drParameters.paramsType := by
  have hwire : pdu.wire host = (pdu.headWire host ++ [pdu.drParameters.algorithm]) ++
      pdu.drParameters.paramsType :: (pdu.drParameters.unionWire ++ pdu.tailWire host) := by
    simp [wire, wireAround]
  rw [hwire]
  exact getD_append_of_length (by simp)

/-- The fixed part has 140 bytes when the quaternion is selected. -/
theorem fixedSize_of_paramsType (h : bs.getD 89 0 = 1 ∨ bs.getD 89 0 = 2) : fixedSize bs = 140 := by
  rw [fixedSize, DeadReckoningParameters.unionSize, if_pos h]

variable {host : Endian} {pdu : EntityStatePDU}

/-- A proper prefix does not have all the bytes. -/
theorem not_complete_of_prefix
    (htype : pdu.drParameters.paramsType = 1 ∨ pdu.drParameters.paramsType = 2)
    (hcount : pdu.variableParameters.length ≤ 255) (hwire : pdu.wire host = bs ++ more)
    (hne : more ≠ []) : ¬ Complete bs := by
  have hlen := pdu.length_wire host
  have htypeWire := pdu.getD_wire_paramsType host
  have hcountWire := pdu.getD_wire_count host
  have hpos : 0 < more.length := List.length_pos_iff.mpr hne
  rw [hwire] at hlen htypeWire hcountWire
  rw [List.length_append, pduSizeCalc] at hlen
  unfold Complete
  intro hcomplete
  have hunion := DeadReckoningParameters.unionSize_ge (bs.getD 89 0)
  have hle : 90 ≤ bs.length := by
    rw [fixedSize] at hcomplete
    omega
  rw [getD_append_left (by omega)] at htypeWire hcountWire
  rw [fixedSize_of_paramsType (htypeWire ▸ htype), hcountWire, toNat_ofNat_eq_iff.mpr hcount]
    at hcomplete
  omega

theorem rejectsTruncated_iff
    (htype : pdu.drParameters.paramsType = 1 ∨ pdu.drParameters.paramsType = 2)
    (hcount : pdu.variableParameters.length ≤ 255) (mem : Mem) {bv : View}
    (hsize : pdu.pduSizeCalc ≤ bv.size) :
    RejectsTruncated host pdu mem bv ↔ pdu.variableParameters = [] := by
  unfold RejectsTruncated
  rw [writtenBytes_eq host pdu mem hsize]
  have hlen := pdu.length_wire host
  rw [pduSizeCalc] at hlen
  constructor
  · intro hrejects
    by_contra hparams
    have hpos : 0 < pdu.variableParameters.length := List.length_pos_iff.mpr hparams
    have h144 : ((pdu.wire host).take 144).length = 144 := List.length_take_of_le (by omega)
    have hne : (pdu.wire host).take 144 ≠ pdu.wire host := by
      intro heq
      have h := congrArg List.length heq
      omega
    obtain ⟨rest, hrun⟩ := hrejects _ (List.take_prefix 144 _) hne
    -- the bytes end in front of the first variable parameter
    have htypeWire := pdu.getD_wire_paramsType host
    have hcountWire := pdu.getD_wire_count host
    rw [← List.take_append_drop 144 (pdu.wire host), getD_append_left (by omega)]
      at htypeWire hcountWire
    have hends : EndsAtType ((pdu.wire host).take 144) := by
      unfold EndsAtType
      rw [fixedSize_of_paramsType (htypeWire ▸ htype), h144, hcountWire,
        toNat_ofNat_eq_iff.mpr hcount]
      exact ⟨by decide, rfl, hpos⟩
    rw [run_of_endsAtType host hends] at hrun
    cases hrun
  · rintro hparams bs ⟨more, hwire⟩ hne
    have hcountWire := pdu.getD_wire_count host
    have hzero : (bs.getD 19 0).toNat = 0 := by
      by_cases h19 : 19 < bs.length
      · rw [← hwire, getD_append_left h19, hparams] at hcountWire
        rw [hcountWire]
        rfl
      · rw [List.getD_eq_getElem?_getD, List.getElem?_eq_none (by omega)]
        rfl
    have hreports : Reports EntityStatePDU host bs := by
      apply reports_iff.mpr
      rintro ⟨-, -, hlt⟩
      rw [hzero] at hlt
      exact Nat.not_lt_zero _ hlt
    apply (rejects_iff_of_reports hreports).mpr
    rw [decodes_iff]
    apply not_complete_of_prefix htype hcount hwire.symm
    rintro rfl
    rw [List.append_nil] at hwire
    exact hne hwire

end EntityStatePDU

/-! ## Both PDUs -/

/-- A cut emission is rejected exactly when it has a system, and a cut entity state exactly when
it has no variable parameter. -/
theorem rejectsTruncated_all_iff (host : Endian) (mem : Mem) (bv : View)
    (emission : ElectromagneticEmissionPDU) (hfits : emission.Fits)
    (hemission : emission.pduSizeCalc ≤ bv.size) (state : EntityStatePDU)
    (htype : state.drParameters.paramsType = 1 ∨ state.drParameters.paramsType = 2)
    (hcount : state.variableParameters.length ≤ 255) (hstate : state.pduSizeCalc ≤ bv.size) :
    (RejectsTruncated host emission mem bv ↔ emission.emitterSystems ≠ []) ∧
      (RejectsTruncated host state mem bv ↔ state.variableParameters = []) :=
  ⟨ElectromagneticEmissionPDU.rejectsTruncated_iff host hfits mem hemission,
    EntityStatePDU.rejectsTruncated_iff htype hcount mem hstate⟩

/-- An entity state with a quaternion and one variable parameter. -/
def oneParameter : EntityStatePDU :=
  { (default : EntityStatePDU) with
    drParameters := { DeadReckoningParameters.init with paramsType := 1 }
    variableParameters := [default] }

theorem rejectsTruncated_all_iff_default :
    (RejectsTruncated .little (default : ElectromagneticEmissionPDU) (fun _ => 0) ⟨4096, 160⟩ ↔
        (default : ElectromagneticEmissionPDU).emitterSystems ≠ []) ∧
      (RejectsTruncated .little oneParameter (fun _ => 0) ⟨4096, 160⟩ ↔
        oneParameter.variableParameters = []) :=
  rejectsTruncated_all_iff .little (fun _ => 0) ⟨4096, 160⟩ default (by decide) (by decide)
    oneParameter (by decide) (by decide) (by decide)

/-- 26 of the 28 bytes of an emission without systems are decoded, and 144 of the 160 bytes of an
entity state with one variable parameter end in a fault. -/
theorem not_rejectsTruncated :
    ¬ RejectsTruncated .little (default : ElectromagneticEmissionPDU) (fun _ => 0) ⟨4096, 160⟩ ∧
      ¬ RejectsTruncated .little oneParameter (fun _ => 0) ⟨4096, 160⟩ := by
  constructor
  · rw [ElectromagneticEmissionPDU.rejectsTruncated_iff .little (by decide) _ (by decide)]
    exact fun hne => hne rfl
  · rw [EntityStatePDU.rejectsTruncated_iff (by decide) (by decide) _ (by decide)]
    exact List.cons_ne_nil _ _

end Csics.Dis
