import Csics.Dis.Emission
import Csics.Dis.EntityState

/-!
# Round trips

What the decoder of a PDU makes of the bytes that the encoder wrote, whatever follows them.

An emission comes back. An entity state comes back if its dead-reckoning parameters are of
type 1 or 2. Otherwise the decoder takes for the fields behind the union the bytes that start
six bytes early, which are the right ones only if all of them are zero.
-/

namespace Csics.Dis

open Base Serialization

/-- The result of decoding what `serialize_wire` has written to `bv`, followed by `extra`. -/
def decodeWritten {α : Type} [Serde α] (host : Endian) (pdu : α) (mem : Mem) (bv : View)
    (extra : List UInt8) : Except Fault (Expected α × List UInt8) :=
  (deserializeDirect host : Get (Expected α)).run
    (writtenBytes (serializeWire host pdu mem bv) ++ extra)

theorem decodeWritten_eq {α : Type} [Serde α] {host : Endian} {pdu : α} {bs : List UInt8}
    (h : Emits (serializeWire host pdu) bs) {bv : View} (hsize : bs.length ≤ bv.size)
    (hpos : 0 < bs.length) (mem : Mem) (extra : List UInt8) :
    decodeWritten host pdu mem bv extra =
      (deserializeDirect host : Get (Expected α)).run (bs ++ extra) := by
  rw [decodeWritten, h.writtenBytes_eq mem hsize hpos]

/-! ## Electromagnetic emission -/

/-- The decoder consumes exactly the written bytes and gives the PDU back; an absent and an
empty list of track jams have the same canonical form. -/
theorem ElectromagneticEmissionPDU.decodeWritten_canonical (host : Endian)
    (pdu : ElectromagneticEmissionPDU) (mem : Mem) (bv : View) (extra : List UInt8)
    (hfits : pdu.Fits) (hsize : pdu.pduSizeCalc ≤ bv.size) :
    decodeWritten host pdu mem bv extra = .ok (.ok pdu.canonical, extra) := by
  have hlen := pdu.length_wire
  have hpos := pdu.pduSizeCalc_eq
  rw [decodeWritten_eq (emits_wire host pdu) (by omega) (by omega)]
  exact pdu.runs_wire host hfits.recoverable extra

/-- One system with one beam that has one track jam. -/
theorem ElectromagneticEmissionPDU.decodeWritten_canonical_trackJam :
    let beam : Beam := { (default : Beam) with trackJams := some [default] }
    let system : EmitterSystem := { (default : EmitterSystem) with beams := [beam] }
    let pdu : ElectromagneticEmissionPDU :=
      { (default : ElectromagneticEmissionPDU) with emitterSystems := [system] }
    decodeWritten .little pdu (fun _ => 0) ⟨4096, 1024⟩ [7] = .ok (.ok pdu.canonical, [7]) :=
  decodeWritten_canonical .little _ _ _ _ (by decide) (by decide)

/-! ## Byte strings as fields -/

theorem exists_append {bs : List UInt8} (m n : Nat) (h : bs.length = m + n) :
    ∃ xs ys, bs = xs ++ ys ∧ xs.length = m ∧ ys.length = n := by
  refine ⟨bs.take m, bs.drop m, (List.take_append_drop m bs).symm, ?_, ?_⟩
  · rw [List.length_take]
    omega
  · rw [List.length_drop]
    omega

/-- A string is not changed by moving it behind zeros exactly if it is zero. -/
theorem take_zeros_append_iff {bs : List UInt8} {k : Nat} (hk : 0 < k) :
    (List.replicate k 0 ++ bs).take bs.length = bs ↔ List.replicate bs.length 0 = bs := by
  constructor
  · intro h
    apply List.ext_getElem (by rw [List.length_replicate])
    intro i _ hi
    rw [List.getElem_replicate]
    induction i using Nat.strongRecOn with
    | ind i ih =>
      have hget : ((List.replicate k 0 ++ bs).take bs.length)[i]? = bs[i]? := by rw [h]
      rw [List.getElem?_take_of_lt hi, List.getElem?_eq_getElem hi] at hget
      by_cases hik : i < k
      · rw [List.getElem?_append_left (by simpa using hik),
          List.getElem?_replicate_of_lt hik] at hget
        exact Option.some.inj hget
      · have hlt : i - k < bs.length := by omega
        rw [List.getElem?_append_right (by simpa using hik), List.length_replicate,
          List.getElem?_eq_getElem hlt] at hget
        rw [← Option.some.inj hget]
        exact ih (i - k) (by omega) (by simpa using hlt) hlt
  · intro h
    obtain ⟨n, rfl⟩ : ∃ n, bs = List.replicate n 0 := ⟨_, h.symm⟩
    rw [List.replicate_append_replicate, List.take_replicate, List.length_replicate,
      Nat.min_eq_left (by omega)]

theorem Vec3.exists_wire {bs : List UInt8} (h : bs.length = 12) : ∃ pdu : Vec3, pdu.wire = bs := by
  obtain ⟨xs, ys, rfl, hxs, hys⟩ := exists_append 4 8 h
  obtain ⟨ys, zs, rfl, hys, hzs⟩ := exists_append 4 4 hys
  refine ⟨⟨Word.ofBytes .big xs, Word.ofBytes .big ys, Word.ofBytes .big zs⟩, ?_⟩
  simp only [wire, words, List.flatMap_cons, List.flatMap_nil, List.append_nil]
  rw [Word.beBytes_ofBytes hxs, Word.beBytes_ofBytes hys, Word.beBytes_ofBytes hzs]

theorem VariableParameters.exists_wire {bs : List UInt8} (h : bs.length = 16) :
    ∃ pdu : VariableParameters, pdu.wire = bs := by
  obtain ⟨type, data, rfl⟩ := List.exists_cons_of_length_eq_add_one h
  have hdata : data.length = 15 := by simpa using h
  exact ⟨⟨type, ⟨data.toArray, hdata⟩⟩, rfl⟩

theorem VariableParameters.exists_flatMap_wire {n : Nat} {bs : List UInt8}
    (h : bs.length = 16 * n) :
    ∃ params : List VariableParameters, params.length = n ∧ params.flatMap wire = bs := by
  induction n generalizing bs with
  | zero =>
    obtain rfl := List.length_eq_zero_iff.mp h
    exact ⟨[], rfl, rfl⟩
  | succ n ih =>
    rw [Nat.mul_succ, Nat.add_comm] at h
    obtain ⟨xs, ys, rfl, hxs, hys⟩ := exists_append _ _ h
    obtain ⟨pdu, rfl⟩ := exists_wire hxs
    obtain ⟨params, hlen, rfl⟩ := ih hys
    exact ⟨pdu :: params, by rw [List.length_cons, hlen], List.flatMap_cons⟩

/-! ## Entity state -/

namespace EntityStatePDU

/-- The PDU with other fields behind the union. -/
def withTail (pdu : EntityStatePDU) (linearAcceleration angularVelocity : Vec3)
    (entityMarking : EntityMarking) (capabilities : UInt32)
    (variableParameters : List VariableParameters) : EntityStatePDU :=
  { pdu with
    drParameters := { pdu.drParameters with
      linearAcceleration := linearAcceleration
      angularVelocity := angularVelocity }
    entityMarking := entityMarking
    capabilities := capabilities
    variableParameters := variableParameters }

theorem wireAround_withTail (host : Endian) (pdu : EntityStatePDU) {a v : Vec3} {m : EntityMarking}
    {c : UInt32} {params : List VariableParameters}
    (hlen : params.length = pdu.variableParameters.length) (union : List UInt8) :
    (pdu.withTail a v m c params).wireAround host union =
      [pdu.headWire host, [pdu.drParameters.algorithm], [pdu.drParameters.paramsType], union,
        (pdu.withTail a v m c params).tailWire host].flatten := by
  rw [wireAround, headWire, headWire, pduSizeCalc, pduSizeCalc]
  simp only [withTail, hlen]

/-- Every byte string of the right length is the tail of some PDU. -/
theorem exists_tailWire (host : Endian) (pdu : EntityStatePDU) {bs : List UInt8}
    (h : bs.length = 40 + 16 * pdu.variableParameters.length) :
    ∃ a v m c params, params.length = pdu.variableParameters.length ∧
      (pdu.withTail a v m c params).tailWire host = bs := by
  have hsplit (k : Nat) : 40 + 16 * k = 12 + (12 + (12 + (4 + 16 * k))) := by omega
  rw [hsplit] at h
  obtain ⟨as, bs, rfl, has, h⟩ := exists_append _ _ h
  obtain ⟨vs, bs, rfl, hvs, h⟩ := exists_append _ _ h
  obtain ⟨ms, bs, rfl, hms, h⟩ := exists_append _ _ h
  obtain ⟨cs, ps, rfl, hcs, hps⟩ := exists_append _ _ h
  obtain ⟨a, rfl⟩ := Vec3.exists_wire has
  obtain ⟨v, rfl⟩ := Vec3.exists_wire hvs
  obtain ⟨params, hlen, rfl⟩ := VariableParameters.exists_flatMap_wire hps
  obtain ⟨charset, marking, rfl⟩ := List.exists_cons_of_length_eq_add_one hms
  have hmarking : marking.length = 11 := by simpa using hms
  refine ⟨a, v, ⟨charset, ⟨marking.toArray, hmarking⟩⟩, Word.ofBytes host cs, params, hlen, ?_⟩
  simp [tailWire, withTail, Word.bytes_ofBytes (α := UInt32) host hcs]

/-- The PDU with every field behind the union set to zero. -/
def clearTail (pdu : EntityStatePDU) : EntityStatePDU :=
  pdu.withTail ⟨0, 0, 0⟩ ⟨0, 0, 0⟩ ⟨0, .replicate 11 0⟩ 0
    (pdu.variableParameters.map fun _ => ⟨0, .replicate 15 0⟩)

theorem tailWire_clearTail (host : Endian) (pdu : EntityStatePDU) :
    pdu.clearTail.tailWire host = List.replicate (pdu.tailWire host).length 0 := by
  have hvec : Vec3.wire ⟨0, 0, 0⟩ = List.replicate 12 0 := by decide
  have hword : Word.bytes host (0 : UInt32) = List.replicate 4 0 := by cases host <;> decide
  have hparam : VariableParameters.wire ⟨0, .replicate 15 0⟩ = List.replicate 16 0 := by decide
  have hparams : pdu.clearTail.variableParameters.flatMap VariableParameters.wire =
      List.replicate (pdu.variableParameters.length * 16) 0 := by
    rw [clearTail, withTail, List.flatMap_map, hparam, List.flatMap_def, List.map_const',
      List.flatten_replicate_replicate]
  have hbyte : [(0 : UInt8)] = List.replicate 1 0 := rfl
  have h : pdu.clearTail.tailWire host = [List.replicate 12 0, List.replicate 12 0, [0],
      List.replicate 11 0, List.replicate 4 0,
      List.replicate (pdu.variableParameters.length * 16) 0].flatten := by
    rw [← hvec, ← hword, ← hparams, ← Vector.toList_replicate]
    rfl
  rw [h, length_tailWire, hbyte]
  simp only [List.flatten_cons, List.flatten_nil, List.append_nil, List.replicate_append_replicate]
  congr 1
  omega

@[simp] theorem selected_selected (pdu : EntityStatePDU) :
    pdu.selected.selected = pdu.selected := by
  simp only [selected, DeadReckoningParameters.selected]
  congr 2 <;> split <;> rfl

theorem selected_withTail_iff {pdu : EntityStatePDU} {a v : Vec3} {m : EntityMarking} {c : UInt32}
    {params : List VariableParameters} :
    (pdu.withTail a v m c params).selected = pdu.selected ↔ pdu.withTail a v m c params = pdu := by
  refine ⟨fun h => ?_, fun h => by rw [h]⟩
  simp only [selected, withTail, DeadReckoningParameters.selected, mk.injEq,
    DeadReckoningParameters.mk.injEq, true_and] at h
  obtain ⟨⟨-, -, ha, hv⟩, hm, hc, hparams⟩ := h
  rw [withTail, ha, hv, hm, hc, hparams]

/-- Decoding gives the PDU back, up to the readings of the union that are not selected. -/
def RoundTrips (host : Endian) (pdu : EntityStatePDU) (mem : Mem) (bv : View)
    (extra : List UInt8) : Prop :=
  ∃ pdu' rest, decodeWritten host pdu mem bv extra = .ok (.ok pdu', rest) ∧
    pdu'.selected = pdu.selected

section

variable (host : Endian) {pdu : EntityStatePDU}

/-- With a type other than 1 and 2 the decoder takes the last bytes of the union for the first
ones of the tail. -/
theorem run_shifted (hcount : pdu.variableParameters.length ≤ 255)
    (h1 : pdu.drParameters.paramsType ≠ 1) (h2 : pdu.drParameters.paramsType ≠ 2) :
    ∃ a v m c params, params.length = pdu.variableParameters.length ∧
      (pdu.withTail a v m c params).tailWire host =
        (List.replicate 6 0 ++ pdu.tailWire host).take (pdu.tailWire host).length ∧
      ∀ extra, ∃ rest, (deserializeDirect host : Get (Expected EntityStatePDU)).run
        (pdu.wire host ++ extra) = .ok (.ok (pdu.withTail a v m c params).selected, rest) := by
  have hsum : (List.replicate 6 0 ++ pdu.tailWire host).length =
      (pdu.tailWire host).length + 6 := by
    rw [List.length_append, List.length_replicate, Nat.add_comm]
  obtain ⟨early, late, hbytes, hearly, -⟩ := exists_append _ _ hsum
  obtain ⟨a, v, m, c, params, hlen, htail⟩ :=
    exists_tailWire host pdu (hearly.trans (pdu.length_tailWire host))
  refine ⟨a, v, m, c, params, hlen, ?_, fun extra => ⟨late ++ extra, ?_⟩⟩
  · rw [htail, hbytes, ← hearly, List.take_left]
  · have hunion : (pdu.withTail a v m c params).drParameters.ReadsUnion (List.replicate 8 0) := by
      have hneg : ¬ ((pdu.withTail a v m c params).drParameters.paramsType = 1 ∨
          (pdu.withTail a v m c params).drParameters.paramsType = 2) := by
        simp [withTail, h1, h2]
      rw [DeadReckoningParameters.ReadsUnion, if_neg hneg, List.length_replicate]
    have hrun := runs_wireAround host _ hunion (Nat.le_trans (Nat.le_of_eq hlen) hcount)
      (late ++ extra)
    have hwire : pdu.drParameters.unionWire = List.replicate 8 0 ++ List.replicate 6 0 := by
      rw [DeadReckoningParameters.unionWire, if_neg h1, if_neg h2,
        List.replicate_append_replicate]
    rw [wireAround_withTail host pdu hlen, htail] at hrun
    rw [← hrun, wire, wireAround, hwire]
    simp only [List.flatten_cons, List.flatten_nil, List.append_assoc, List.append_nil]
    rw [← List.append_assoc early, ← hbytes, List.append_assoc]

/-- With a type other than 1 and 2, PDUs that agree up to the tail are told apart by it. -/
theorem withTail_eq_iff (hcount : pdu.variableParameters.length ≤ 255)
    (h1 : pdu.drParameters.paramsType ≠ 1) (h2 : pdu.drParameters.paramsType ≠ 2) {a v : Vec3}
    {m : EntityMarking} {c : UInt32} {params : List VariableParameters}
    (hlen : params.length = pdu.variableParameters.length) :
    pdu.withTail a v m c params = pdu ↔
      (pdu.withTail a v m c params).tailWire host = pdu.tailWire host := by
  refine ⟨fun h => by rw [h], fun h => selected_withTail_iff.mp ?_⟩
  have hunion : pdu.drParameters.ReadsUnion (List.replicate 8 0) := by
    rw [DeadReckoningParameters.ReadsUnion, if_neg (by simp [h1, h2]), List.length_replicate]
  have hrun := runs_wireAround host (pdu.withTail a v m c params) hunion
    (Nat.le_trans (Nat.le_of_eq hlen) hcount)
  rw [wireAround_withTail host pdu hlen, h] at hrun
  exact Except.ok.inj (hrun.unique (runs_wireAround host pdu hunion hcount))

theorem roundTrips_iff_of_run {mem : Mem} {bv : View} {extra rest : List UInt8}
    (hsize : pdu.pduSizeCalc ≤ bv.size) {pdu' : EntityStatePDU}
    (hrun : (deserializeDirect host : Get (Expected EntityStatePDU)).run (pdu.wire host ++ extra) =
      .ok (.ok pdu'.selected, rest)) :
    pdu.RoundTrips host mem bv extra ↔ pdu'.selected = pdu.selected := by
  have hlen := pdu.length_wire host
  have hpos : 0 < (pdu.wire host).length := by
    rw [hlen, pduSizeCalc]
    omega
  rw [RoundTrips, decodeWritten_eq (pdu.emits_wire host) (by omega) hpos, hrun]
  refine ⟨?_, fun h => ⟨_, _, rfl, by rw [selected_selected, h]⟩⟩
  rintro ⟨_, _, heq, h⟩
  cases heq
  rwa [selected_selected] at h

theorem roundTrips_of_selected {mem : Mem} {bv : View} {extra : List UInt8}
    (hcount : pdu.variableParameters.length ≤ 255) (hsize : pdu.pduSizeCalc ≤ bv.size)
    (h : pdu.drParameters.paramsType = 1 ∨ pdu.drParameters.paramsType = 2) :
    pdu.RoundTrips host mem bv extra := by
  have hunion : pdu.drParameters.ReadsUnion pdu.drParameters.unionWire := by
    rw [DeadReckoningParameters.ReadsUnion, if_pos h]
  rw [roundTrips_iff_of_run host hsize (pdu.runs_wireAround host hunion hcount extra)]

theorem roundTrips_iff_clearTail {mem : Mem} {bv : View} {extra : List UInt8}
    (hcount : pdu.variableParameters.length ≤ 255) (hsize : pdu.pduSizeCalc ≤ bv.size)
    (h1 : pdu.drParameters.paramsType ≠ 1) (h2 : pdu.drParameters.paramsType ≠ 2) :
    pdu.RoundTrips host mem bv extra ↔ pdu.clearTail = pdu := by
  obtain ⟨a, v, m, c, params, hparams, htail, hrun⟩ := run_shifted host hcount h1 h2
  obtain ⟨rest, hrun⟩ := hrun extra
  have hclear : pdu.clearTail = pdu ↔
      List.replicate (pdu.tailWire host).length 0 = pdu.tailWire host := by
    rw [← tailWire_clearTail]
    exact withTail_eq_iff host hcount h1 h2 (List.length_map _)
  rw [roundTrips_iff_of_run host hsize hrun, selected_withTail_iff,
    withTail_eq_iff host hcount h1 h2 hparams, htail, hclear]
  exact take_zeros_append_iff (by omega)

/-- An entity state comes back exactly if its dead-reckoning parameters are of type 1 or 2, or
every field behind them is zero. -/
theorem roundTrips_iff {mem : Mem} {bv : View} {extra : List UInt8}
    (hcount : pdu.variableParameters.length ≤ 255) (hsize : pdu.pduSizeCalc ≤ bv.size) :
    pdu.RoundTrips host mem bv extra ↔ pdu.drParameters.paramsType = 1 ∨
      pdu.drParameters.paramsType = 2 ∨ pdu.clearTail = pdu := by
  by_cases h : pdu.drParameters.paramsType = 1 ∨ pdu.drParameters.paramsType = 2
  · rw [← or_assoc]
    exact iff_of_true (roundTrips_of_selected host hcount hsize h) (Or.inl h)
  · obtain ⟨h1, h2⟩ := not_or.mp h
    rw [or_iff_right h1, or_iff_right h2]
    exact roundTrips_iff_clearTail host hcount hsize h1 h2

end

/-- A PDU with default parameters but for its capabilities. -/
def capable : EntityStatePDU := { (default : EntityStatePDU) with capabilities := 1 }

theorem roundTrips_iff_capable :
    capable.RoundTrips .little (fun _ => 0) ⟨4096, 144⟩ [] ↔
      capable.drParameters.paramsType = 1 ∨ capable.drParameters.paramsType = 2 ∨
        capable.clearTail = capable :=
  roundTrips_iff .little (by decide) (by decide)

/-- The default type of the parameters loses the capabilities. -/
theorem not_roundTrips_capable :
    capable.variableParameters.length ≤ 255 ∧ capable.pduSizeCalc ≤ 144 ∧
      ¬ capable.RoundTrips .little (fun _ => 0) ⟨4096, 144⟩ [] := by
  refine ⟨by decide, by decide, ?_⟩
  rw [roundTrips_iff_clearTail .little (by decide) (by decide) (by decide) (by decide)]
  decide

end EntityStatePDU

end Csics.Dis
