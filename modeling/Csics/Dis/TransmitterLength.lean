import Csics.Dis.TransmitterLoss

/-!
# The length of a Transmitter PDU

`pdu_size_calc` and `serialize_wire` count the bytes of a Transmitter PDU in different ways.
The formula adds 8 bytes to a list of modulation parameters that needs no padding, takes the
padding of a variable parameter for a number of bits, and leaves out the 6 bytes of its type and
length. The encoder writes no padding behind the modulation parameters, 7 or 8 bytes for the
radio type by the version, and what it pads through the cursor of its caller is missing in the
view it returns.

What is left is an equation between the residues of the list sizes. `declared_eq_written_iff`
states it for the returned view, and for the bytes that go through the two cursors.
-/

namespace Csics.Dis.TransmitterPDU

open Base Serialization

variable {pdu : TransmitterPDU}

/-- The sizes of the variable parameters. -/
def dataSizes (pdu : TransmitterPDU) : List Nat :=
  pdu.variableParameters.map fun varParam => varParam.data.length

/-- How many variable parameters have a multiple of eight bytes. -/
def alignedCount (pdu : TransmitterPDU) : Nat := pdu.dataSizes.countP (· % 8 = 0)

/-- The bytes of the radio type that the formula counts too much. -/
def radioSlack (pdu : TransmitterPDU) : Nat := 8 - RadioType.wireSize pdu.header.protocolVersion

/-- The residues of the list sizes make up for the differences, in the returned view. -/
def Balanced (pdu : TransmitterPDU) : Prop :=
  pdu.modulationParameters.length % 8 + 6 * pdu.variableParameters.length =
    14 + pdu.radioSlack + pdu.paddingSize + pdu.alignedCount + pdu.paddingSize / 8

/-- The same for all bytes that are written. -/
def BalancedTotal (pdu : TransmitterPDU) : Prop :=
  pdu.modulationParameters.length % 8 + 6 * pdu.variableParameters.length + pdu.paddingSize =
    8 + pdu.radioSlack + pdu.alignedCount + pdu.paddingSize / 8

instance (pdu : TransmitterPDU) : Decidable pdu.Balanced := inferInstanceAs (Decidable (_ = _))

/-- The bytes that the two cursors of `serialize_wire` go over. -/
def emitted (host : Endian) (pdu : TransmitterPDU) (mem : Mem) (bv : View) : Nat :=
  let fr := runStmts (pdu.statements host) ⟨mem, bv, bv⟩
  (bv.size - fr.bv_.size) + (bv.size - fr.bv.size)

/-! ## The formula -/

/-- The padding of the formula, in bits, is that of the encoder in bytes and 8 where there is
none. -/
theorem sum_sizes (ds : List Nat) :
    (ds.map fun d => d * 8 + (8 - d % 8)).sum =
      8 * ds.sum + (ds.map VariableTransmitterParameters.paddingOf).sum +
        8 * ds.countP (· % 8 = 0) := by
  induction ds with
  | nil => rfl
  | cons d ds ih =>
    rw [List.map_cons, List.sum_cons, ih, List.sum_cons, List.map_cons, List.sum_cons,
      List.countP_cons, VariableTransmitterParameters.paddingOf]
    by_cases h : d % 8 = 0
    · simp only [h, decide_true, if_true]
      omega
    · simp only [h, decide_false, if_false, Bool.false_eq_true]
      omega

theorem paddingSize_eq (pdu : TransmitterPDU) :
    pdu.paddingSize = (pdu.dataSizes.map VariableTransmitterParameters.paddingOf).sum := by
  rw [paddingSize, dataSizes, List.map_map]
  rfl

theorem pduSizeCalc_eq (pdu : TransmitterPDU) :
    pdu.pduSizeCalc = 112 + pdu.modulationParameters.length - pdu.modulationParameters.length % 8 +
      40 * pdu.antennaPatterns.length + pdu.dataSizes.sum + pdu.alignedCount +
        pdu.paddingSize / 8 := by
  have hsum := sum_sizes pdu.dataSizes
  rw [← paddingSize_eq] at hsum
  have hmap : (pdu.variableParameters.map fun varParam =>
      varParam.data.length * 8 + (8 - varParam.data.length % 8)) =
      pdu.dataSizes.map fun d => d * 8 + (8 - d % 8) := by
    rw [dataSizes, List.map_map]
    rfl
  unfold alignedCount
  rw [pduSizeCalc, hmap, hsum]
  omega

theorem listsSize_eq (pdu : TransmitterPDU) :
    pdu.listsSize = pdu.modulationParameters.length + 40 * pdu.antennaPatterns.length +
      (6 * pdu.variableParameters.length + pdu.dataSizes.sum) := by
  have hsum (params : List VariableTransmitterParameters) :
      (params.map fun varParam => 6 + varParam.data.length).sum =
        6 * params.length + (params.map fun varParam => varParam.data.length).sum := by
    induction params with
    | nil => rfl
    | cons varParam params ih =>
      simp only [List.map_cons, List.sum_cons, List.length_cons, ih]
      omega
  rw [listsSize, hsum, dataSizes]

/-! ## The encoder -/

/-- A variable parameter is longer than its padding. -/
theorem paddingSize_le (pdu : TransmitterPDU) :
    pdu.paddingSize ≤ 6 * pdu.variableParameters.length + pdu.dataSizes.sum := by
  unfold paddingSize dataSizes
  induction pdu.variableParameters with
  | nil => exact Nat.le_refl 0
  | cons varParam params ih =>
    simp only [List.map_cons, List.sum_cons, List.length_cons,
      VariableTransmitterParameters.requiredPadding, VariableTransmitterParameters.paddingOf]
      at ih ⊢
    omega

theorem headSize_eq (hversion : pdu.header.protocolVersion = .ieee1278_1998 ∨
    pdu.header.protocolVersion = .ieee1278_2012) :
    headSize pdu.header.protocolVersion + pdu.radioSlack = 101 := by
  unfold headSize radioSlack RadioType.wireSize
  rcases hversion with h | h
  · rw [h]
    rfl
  · rw [h]
    rfl

/-- The encoder writes what it declares exactly where the residues are balanced. -/
theorem declared_eq_written_iff (host : Endian) (mem : Mem) (bv : View)
    (hversion : pdu.header.protocolVersion = .ieee1278_1998 ∨
      pdu.header.protocolVersion = .ieee1278_2012)
    (hroom : pdu.room ≤ bv.size) :
    ((serializeWire host pdu mem bv).1.writtenView.size = pdu.pduSizeCalc ↔ pdu.Balanced) ∧
      (pdu.emitted host mem bv = pdu.pduSizeCalc ↔ pdu.BalancedTotal) := by
  obtain ⟨hbv_, hbv, -⟩ := runStmts_statements host mem hversion hroom
  have hview := (serializeWire_leaves host mem hversion hroom).1
  have hhead := headSize_eq hversion
  have hlists := pdu.listsSize_eq
  have hsize := pdu.pduSizeCalc_eq
  have hpadding := pdu.paddingSize_le
  rw [room] at hroom
  constructor
  · rw [hview, Balanced]
    omega
  · rw [emitted, hbv_, hbv, View.advance_of_le (by omega), View.advance_of_le (by omega),
      BalancedTotal]
    dsimp only
    omega

/-- A PDU of version 6 with three variable parameters without data. -/
def threeParameters : TransmitterPDU :=
  { (default : TransmitterPDU) with
    header := { (default : PDUHeader) with protocolVersion := .ieee1278_1998 }
    variableParameters := [default, default, default] }

theorem declared_eq_written_iff_threeParameters :
    (serializeWire .little threeParameters (fun _ => 0) ⟨4096, 256⟩).1.writtenView.size =
      threeParameters.pduSizeCalc :=
  (declared_eq_written_iff .little (fun _ => 0) ⟨4096, 256⟩ (by decide) (by decide)).1.mpr
    (by decide)

/-- A PDU of version 7 without lists declares 112 bytes; the returned view has 98, and 104 go
through the two cursors. -/
theorem plain_declares :
    plain.pduSizeCalc = 112 ∧
      (serializeWire .little plain (fun _ => 0) ⟨4096, 1024⟩).1.writtenView.size = 98 ∧
      plain.emitted .little (fun _ => 0) ⟨4096, 1024⟩ = 104 ∧
      (serializeWire .little plain (fun _ => 0) ⟨4096, 1024⟩).1.writtenView.size ≠
        plain.pduSizeCalc := by
  have hsize : plain.pduSizeCalc = 112 := by decide
  have hview : (serializeWire .little plain (fun _ => 0) ⟨4096, 1024⟩).1.writtenView.size = 98 := by
    decide +kernel
  refine ⟨hsize, hview, by decide +kernel, ?_⟩
  rw [hsize, hview]
  decide

end Csics.Dis.TransmitterPDU
