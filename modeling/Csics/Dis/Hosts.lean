import Csics.Dis.Interop

/-!
# Reading on another host

What a host makes of an entity state that a host of any byte order has written. The two fields that
are written as they lie in memory arrive with their bytes in the other order, and everything else
arrives as it does on one host.
-/

namespace Csics.Dis

open Base Serialization

namespace EntityStatePDU

/-- The PDU with the fields that are written as they lie in memory in the other byte order. -/
def byteswapped (pdu : EntityStatePDU) : EntityStatePDU :=
  { pdu with
    entityAppearance := Word.byteswap pdu.entityAppearance
    capabilities := Word.byteswap pdu.capabilities }

/-- The other host sees these fields in the other order. -/
theorem wire_of_ne {host host' : Endian} (h : host ≠ host') (pdu : EntityStatePDU) :
    pdu.wire host = pdu.byteswapped.wire host' := by
  simp only [wire, wireAround, headWire, tailWire, Word.bytes_of_ne h]
  rfl

/-- The fields that are written as they lie in memory are palindromes. -/
def Palindromic (pdu : EntityStatePDU) : Prop :=
  Word.byteswap pdu.entityAppearance = pdu.entityAppearance ∧
    Word.byteswap pdu.capabilities = pdu.capabilities

instance (pdu : EntityStatePDU) : Decidable pdu.Palindromic := inferInstanceAs (Decidable (_ ∧ _))

theorem byteswapped_eq_self {pdu : EntityStatePDU} (h : pdu.Palindromic) :
    pdu.byteswapped = pdu := by
  rw [byteswapped, h.1, h.2]

/-- What one host writes the other one reads. -/
structure Readable (host host' : Endian) (pdu : EntityStatePDU) : Prop where
  order : host = host' ∨ pdu.Palindromic
  count : pdu.variableParameters.length ≤ 255
  union : pdu.drParameters.paramsType = 1 ∨ pdu.drParameters.paramsType = 2 ∨ pdu.clearTail = pdu

/-- The bytes of the PDU are read back on a host, up to the readings of the union that are not
selected. -/
def Reads (host : Endian) (bs : List UInt8) (pdu : EntityStatePDU) : Prop :=
  ∃ pdu' rest, (deserializeDirect host : Get (Expected EntityStatePDU)).run bs =
    .ok (.ok pdu', rest) ∧ pdu'.selected = pdu.selected

section

variable {host host' : Endian} {pdu : EntityStatePDU}

theorem reads_wire_iff_roundTrips :
    Reads host (pdu.wire host) pdu ↔
      pdu.RoundTrips host (fun _ => 0) ⟨0, pdu.pduSizeCalc⟩ [] := by
  rw [RoundTrips, decodeWritten, writtenBytes_eq host pdu _ (Nat.le_refl _), List.append_nil]
  exact Iff.rfl

/-- On one host only the counts and the union matter. -/
theorem reads_self_iff : Reads host (pdu.wire host) pdu ↔ pdu.Readable host host := by
  rw [reads_wire_iff_roundTrips]
  constructor
  · intro h
    have hcount := count_of_roundTrips h
    refine ⟨Or.inl rfl, hcount, ?_⟩
    rw [← or_assoc, or_iff_not_imp_left, not_or]
    intro ⟨h1, h2⟩
    exact (roundTrips_iff_clearTail host hcount (Nat.le_refl _) h1 h2).mp h
  · intro ⟨_, hcount, hunion⟩
    by_cases hselected : pdu.drParameters.paramsType = 1 ∨ pdu.drParameters.paramsType = 2
    · exact roundTrips_of_selected host hcount (Nat.le_refl _) hselected
    · obtain ⟨h1, h2⟩ := not_or.mp hselected
      rw [roundTrips_iff_clearTail host hcount (Nat.le_refl _) h1 h2]
      rwa [or_iff_right h1, or_iff_right h2] at hunion

/-- The number of variable parameters that arrive is the one in byte 19. -/
theorem count_of_reads (pdu' : EntityStatePDU)
    (hlength : pdu'.variableParameters.length = pdu.variableParameters.length)
    (h : Reads host (pdu'.wire host) pdu) : pdu.variableParameters.length ≤ 255 := by
  obtain ⟨x, rest, hrun, hsame⟩ := h
  have hsize : fixedSize (pdu'.wire host) ≤ (pdu'.wire host).length := by
    have hunion := DeadReckoningParameters.unionSize_le ((pdu'.wire host).getD 89 0)
    rw [length_wire, pduSizeCalc, fixedSize]
    omega
  have hparams : x.selected.variableParameters = pdu.selected.variableParameters := by
    rw [hsame]
  have hread := length_of_run hsize hrun
  rw [show x.variableParameters = pdu.variableParameters from hparams, getD_wire_count,
    hlength] at hread
  exact toNat_ofNat_eq_iff.mp hread.symm

/-- Zeros that have been moved into a string of fields from the front reach the field `word` behind
the first 36 bytes. -/
theorem zeros_of_shifted (head word word' behind : List UInt8) (hhead : head.length = 36)
    (hword : word.length = 4)
    (h : (List.replicate 6 0 ++ (head ++ (word' ++ behind))).take (40 + behind.length) =
      head ++ (word ++ behind)) : word = List.replicate 4 0 := by
  have hzeros : (List.replicate 6 0 ++ head).take head.length = head := by
    have htake := congrArg (List.take 36) h
    rw [List.take_take, ← hhead, List.take_left, ← List.append_assoc,
      List.take_append_of_le_length (by simp; omega), Nat.min_eq_left (by omega)] at htake
    exact htake
  rw [take_zeros_append_iff (by decide), hhead] at hzeros
  have hleft : List.replicate 6 0 ++ (List.replicate 36 0 ++ (word' ++ behind)) =
      List.replicate 40 0 ++ (List.replicate 2 0 ++ (word' ++ behind)) := by
    rw [← List.append_assoc, ← List.append_assoc (List.replicate 40 0),
      List.replicate_append_replicate, List.replicate_append_replicate]
  rw [← hzeros, hleft, ← List.append_assoc (List.replicate 36 0)] at h
  have hforty := congrArg (List.take 40) h
  rw [List.take_take, Nat.min_eq_left (by omega), List.take_left' List.length_replicate,
    List.take_left' (by simp [hword])] at hforty
  rw [show 40 = 36 + 4 from rfl, ← List.replicate_append_replicate] at hforty
  exact (List.append_cancel_left hforty).symm

/-- A PDU that arrives from a host of the other order has palindromes in the two fields. -/
theorem palindromic_of_reads (hne : host ≠ host') (h : Reads host' (pdu.wire host) pdu) :
    pdu.Palindromic := by
  rw [wire_of_ne hne] at h
  have hcount : pdu.variableParameters.length ≤ 255 := count_of_reads pdu.byteswapped rfl h
  change pdu.byteswapped.variableParameters.length ≤ 255 at hcount
  obtain ⟨x, rest, hrun, hsame⟩ := h
  by_cases hselected : pdu.byteswapped.drParameters.paramsType = 1 ∨
      pdu.byteswapped.drParameters.paramsType = 2
  · have hunion : pdu.byteswapped.drParameters.ReadsUnion
        pdu.byteswapped.drParameters.unionWire := by
      rw [DeadReckoningParameters.ReadsUnion, if_pos hselected]
    have hread := runs_wireAround host' _ hunion hcount []
    rw [List.append_nil] at hread
    cases hrun.symm.trans hread
    rw [selected_selected] at hsame
    exact ⟨congrArg entityAppearance hsame, congrArg capabilities hsame⟩
  · obtain ⟨h1, h2⟩ := not_or.mp hselected
    obtain ⟨a, v, m, c, params, -, htail, hread⟩ := run_shifted host' hcount h1 h2
    obtain ⟨rest', hread⟩ := hread []
    rw [List.append_nil] at hread
    cases hrun.symm.trans hread
    rw [selected_selected] at hsame
    refine ⟨congrArg entityAppearance hsame, ?_⟩
    -- the tail that arrives is the one that was sent, six bytes late
    have harrived : (pdu.byteswapped.withTail a v m c params).tailWire host' =
        pdu.tailWire host' := by
      have hfields : (pdu.byteswapped.withTail a v m c params).selected.tailWire host' =
          pdu.selected.tailWire host' := by rw [hsame]
      exact hfields
    rw [harrived, length_tailWire] at htail
    have hzero : Word.bytes host' pdu.capabilities = List.replicate 4 0 := by
      refine zeros_of_shifted [pdu.drParameters.linearAcceleration.wire,
          pdu.drParameters.angularVelocity.wire, [pdu.entityMarking.characterSet],
          pdu.entityMarking.marking.toList].flatten _
        (Word.bytes host' (Word.byteswap pdu.capabilities))
        (pdu.variableParameters.flatMap VariableParameters.wire) (by simp) (by simp) ?_
      simpa [tailWire, byteswapped, List.length_flatMap, Nat.mul_comm] using htail.symm
    have hcapabilities : pdu.capabilities = 0 := by
      rw [← Word.ofBytes_bytes host' pdu.capabilities, hzero]
      cases host' <;> decide
    rw [hcapabilities]
    decide

/-- What arrives on a host is what was sent, if and only if both have one order or the two fields
are palindromes, the variable parameters are counted and the decoder knows the union. -/
theorem reads_iff : Reads host' (pdu.wire host) pdu ↔ pdu.Readable host host' := by
  by_cases heq : host = host'
  · subst heq
    exact reads_self_iff
  · constructor
    · intro h
      have hpalindromic := palindromic_of_reads heq h
      rw [wire_of_ne heq, byteswapped_eq_self hpalindromic, reads_self_iff] at h
      exact ⟨Or.inr hpalindromic, h.count, h.union⟩
    · intro h
      have hpalindromic := h.order.resolve_left heq
      rw [wire_of_ne heq, byteswapped_eq_self hpalindromic, reads_self_iff]
      exact ⟨Or.inl rfl, h.count, h.union⟩

end

end EntityStatePDU

end Csics.Dis
