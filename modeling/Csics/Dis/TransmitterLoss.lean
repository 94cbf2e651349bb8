import Csics.Dis.Counting

/-!
# No Transmitter PDU comes back

The padding that the encoder writes through the cursor of its caller clears the first three
bytes of the PDU and moves the start of the returned view behind them. What is left is too
short for the decoder, and the whole buffer starts with protocol version 0.
-/

namespace Csics.Dis.TransmitterPDU

open Base Serialization

/-- The bytes that the encoder sends through its two cursors. -/
def room (pdu : TransmitterPDU) : Nat :=
  headSize pdu.header.protocolVersion + pdu.listsSize + 3 + pdu.paddingSize

/-- Decoding `bs` gives the PDU back, up to the reading of the radio type that is not selected. -/
def ComesBack (host : Endian) (pdu : TransmitterPDU) (bs : List UInt8) : Prop :=
  ∃ pdu' rest, (deserializeDirect host : Get (Expected TransmitterPDU)).run bs =
    .ok (.ok pdu', rest) ∧ pdu'.selected = pdu.selected

theorem eq_of_selected {pdu pdu' : TransmitterPDU} (h : pdu'.selected = pdu.selected) :
    pdu'.header = pdu.header ∧ pdu'.modulationParameters = pdu.modulationParameters ∧
      pdu'.antennaPatterns = pdu.antennaPatterns ∧
      pdu'.variableParameters = pdu.variableParameters := by
  simp only [selected, mk.injEq] at h
  exact ⟨h.1, h.2.2.2.2.2.2.2.2.2.2.2.2.2.2.2⟩

variable (host : Endian) {pdu : TransmitterPDU} (mem : Mem) {bv : View}

/-- The frame behind the padding of the number of modulation parameters. -/
theorem runStmts_head
    (hversion : pdu.header.protocolVersion = .ieee1278_1998 ∨
      pdu.header.protocolVersion = .ieee1278_2012)
    (hroom : pdu.room ≤ bv.size) :
    runStmts (pdu.serializeHead host ++ [padCaller 3]) ⟨mem, bv, bv⟩ =
      ⟨(mem.store bv.data pdu.headWire).store bv.data (List.replicate 3 0), bv.advance 3,
        bv.advance (headSize pdu.header.protocolVersion)⟩ := by
  rw [room] at hroom
  have hlen := pdu.length_headWire
  have hpad : (List.replicate 3 (0 : UInt8)).length ≤ bv.size := by
    rw [List.length_replicate]
    omega
  rw [runStmts_append, writes_serializeHead host pdu hversion _
    (show pdu.headWire.length ≤ bv.size by omega), hlen, runStmts_cons, padCaller,
    View.write_of_le hpad, List.length_replicate]
  rfl

/-- The statements of `serialize_wire`. -/
def statements (host : Endian) (pdu : TransmitterPDU) : List Stmt :=
  pdu.serializeHead host ++ padCaller 3 :: pdu.serializeLists host

/-- Where the two cursors are at the end, if there is room. -/
theorem runStmts_statements
    (hversion : pdu.header.protocolVersion = .ieee1278_1998 ∨
      pdu.header.protocolVersion = .ieee1278_2012)
    (hroom : pdu.room ≤ bv.size) :
    (runStmts (pdu.statements host) ⟨mem, bv, bv⟩).bv_ =
        bv.advance (headSize pdu.header.protocolVersion + pdu.listsSize) ∧
      (runStmts (pdu.statements host) ⟨mem, bv, bv⟩).bv = bv.advance (3 + pdu.paddingSize) ∧
      (runStmts (pdu.statements host) ⟨mem, bv, bv⟩).mem bv.data = 0 := by
  have hhead := runStmts_head host mem hversion hroom
  rw [room] at hroom
  have hadv := View.advance_of_le (show 3 ≤ bv.size by omega)
  have hadv_ := View.advance_of_le
    (show headSize pdu.header.protocolVersion ≤ bv.size by omega)
  have hpos : 0 < headSize pdu.header.protocolVersion := by
    rw [headSize]
    omega
  let fr : Frame := ⟨(mem.store bv.data pdu.headWire).store bv.data (List.replicate 3 0),
    bv.advance 3, bv.advance (headSize pdu.header.protocolVersion)⟩
  have hrun : runStmts (pdu.statements host) ⟨mem, bv, bv⟩ =
      runStmts (pdu.serializeLists host) fr := by
    rw [statements, List.append_cons, runStmts_append, hhead]
  obtain ⟨hbv_, hbv, hmem⟩ := pdu.shifts_serializeLists host fr
    (by dsimp only [fr]; rw [hadv_]; dsimp only; omega)
    (by dsimp only [fr]; rw [hadv]; dsimp only; omega)
  rw [hrun, hbv_, hbv]
  refine ⟨View.advance_advance (by omega), View.advance_advance (by omega), ?_⟩
  rw [hmem bv.data (by dsimp only [fr]; rw [hadv_]; dsimp only; omega)
    (by dsimp only [fr]; rw [hadv]; dsimp only; omega)]
  exact Mem.store_apply_of_mem (i := 0) (by decide)

/-- What `serialize_wire` leaves, if it has room. -/
theorem serializeWire_leaves
    (hversion : pdu.header.protocolVersion = .ieee1278_1998 ∨
      pdu.header.protocolVersion = .ieee1278_2012)
    (hroom : pdu.room ≤ bv.size) :
    (serializeWire host pdu mem bv).1.writtenView.size =
        headSize pdu.header.protocolVersion + pdu.listsSize - (3 + pdu.paddingSize) ∧
      (serializeWire host pdu mem bv).2 bv.data = 0 := by
  obtain ⟨hbv_, hbv, hmem⟩ := runStmts_statements host mem hversion hroom
  rw [room] at hroom
  refine ⟨?_, hmem⟩
  show ((runStmts (pdu.statements host) ⟨mem, bv, bv⟩).bv.subview 0
    ((runStmts (pdu.statements host) ⟨mem, bv, bv⟩).bv.size -
      (runStmts (pdu.statements host) ⟨mem, bv, bv⟩).bv_.size)).size = _
  rw [View.size_subview_zero (Nat.sub_le _ _), hbv_, hbv, View.advance_of_le (by omega),
    View.advance_of_le (by omega)]
  dsimp only
  omega

/-- The returned view is too short. -/
theorem not_comesBack_writtenBytes
    (hversion : pdu.header.protocolVersion = .ieee1278_1998 ∨
      pdu.header.protocolVersion = .ieee1278_2012)
    (hroom : pdu.room ≤ bv.size) :
    ¬ pdu.ComesBack host (writtenBytes (serializeWire host pdu mem bv)) := by
  rintro ⟨pdu', rest, hrun, hsame⟩
  obtain ⟨-, varParam, hparams, hlen⟩ := length_of_run hrun
  have hsize := (serializeWire_leaves host mem hversion hroom).1
  rw [writtenBytes, Mem.length_load] at hlen
  obtain ⟨hheader, hmods, hants, hparams'⟩ := eq_of_selected hsame
  rw [hparams] at hparams'
  rw [hheader, hmods, hants] at hlen
  rw [listsSize, ← hparams', List.map_singleton, List.sum_singleton] at hsize
  omega

/-- The buffer starts with version 0. -/
theorem not_comesBack_load
    (hversion : pdu.header.protocolVersion = .ieee1278_1998 ∨
      pdu.header.protocolVersion = .ieee1278_2012)
    (hroom : pdu.room ≤ bv.size) (n : Nat) :
    ¬ pdu.ComesBack host ((serializeWire host pdu mem bv).2.load bv.data n) := by
  rintro ⟨pdu', rest, hrun, hsame⟩
  obtain ⟨hhead, -⟩ := length_of_run hrun
  have hzero := (serializeWire_leaves host mem hversion hroom).2
  obtain ⟨hheader, -⟩ := eq_of_selected hsame
  cases n with
  | zero => nomatch hhead
  | succ n =>
    rw [Mem.load_succ, List.head?_cons, hzero, hheader] at hhead
    rw [← Option.some.inj hhead] at hversion
    revert hversion
    decide

/-- No PDU of version 6 or 7 comes back, neither from the returned view nor from the start of
the buffer. -/
theorem not_comesBack (bv : View)
    (hversion : pdu.header.protocolVersion = .ieee1278_1998 ∨
      pdu.header.protocolVersion = .ieee1278_2012)
    (hroom : pdu.room ≤ bv.size) :
    ¬ pdu.ComesBack host (writtenBytes (serializeWire host pdu mem bv)) ∧
      ∀ n, ¬ pdu.ComesBack host ((serializeWire host pdu mem bv).2.load bv.data n) :=
  ⟨not_comesBack_writtenBytes host mem hversion hroom,
    not_comesBack_load host mem hversion hroom⟩

/-- A PDU of version 7 without lists. -/
def plain : TransmitterPDU :=
  { (default : TransmitterPDU) with
    header := { (default : PDUHeader) with protocolVersion := .ieee1278_2012 } }

theorem not_comesBack_plain :
    ¬ plain.ComesBack .little
        (writtenBytes (serializeWire .little plain (fun _ => 0) ⟨4096, 1024⟩)) ∧
      ∀ n, ¬ plain.ComesBack .little
        ((serializeWire .little plain (fun _ => 0) ⟨4096, 1024⟩).2.load 4096 n) :=
  not_comesBack .little (fun _ => 0) ⟨4096, 1024⟩ (by decide) (by decide)

/-- It gets a view of 98 bytes, which is not decoded to it. -/
theorem plain_lost :
    (serializeWire .little plain (fun _ => 0) ⟨4096, 1024⟩).1 = ⟨⟨4099, 98⟩, .ok⟩ ∧
      ¬ plain.ComesBack .little
        (writtenBytes (serializeWire .little plain (fun _ => 0) ⟨4096, 1024⟩)) :=
  ⟨by decide +kernel, not_comesBack_writtenBytes .little (fun _ => 0) (by decide) (by decide)⟩

end Csics.Dis.TransmitterPDU
