import Csics.Dis.Complete

/-!
# The count of the variable parameters

A Transmitter PDU on the wire announces `k` variable parameters and has `k` records behind its
other lists. The decoder reads one record whatever `k` is.
-/

namespace Csics.Dis

open Base Serialization

/-- A variable parameter with the bytes of its two paddings. -/
structure ParameterRecord where
  type : UInt32
  padding : List UInt8
  data : List UInt8
  alignment : List UInt8
  length_padding : padding.length = 2
  length_data : 6 + data.length < 2 ^ 16
  length_alignment : alignment.length =
    VariableTransmitterParameters.paddingOf (6 + data.length)

namespace ParameterRecord

def bytes (r : ParameterRecord) : List UInt8 :=
  [Word.beBytes r.type, Word.beBytes (UInt16.ofNat (6 + r.data.length)), r.padding, r.data,
    r.alignment].flatten

/-- The parameter that the record stands for. -/
def parameter (r : ParameterRecord) : VariableTransmitterParameters := ⟨r.type, r.data⟩

theorem dataLength_ofNat (r : ParameterRecord) :
    VariableTransmitterParameters.dataLength (UInt16.ofNat (6 + r.data.length)) =
      r.data.length := by
  have hlen := r.length_data
  have htoNat : (UInt16.ofNat (6 + r.data.length)).toNat = 6 + r.data.length := by
    rw [UInt16.toNat_ofNat']
    exact Nat.mod_eq_of_lt hlen
  rw [VariableTransmitterParameters.dataLength, htoNat]
  omega

theorem runs_bytes (host : Endian) (r : ParameterRecord) :
    Runs (VariableTransmitterParameters.deserialize host) r.bytes (.ok r.parameter) := by
  have hpadding : Runs (Serialization.read UInt16 host) r.padding _ :=
    runs_read host r.length_padding
  have hdata : Runs (Parser.many (Serialization.read UInt8 host) r.data.length) r.data
      (some r.data) := by
    intro rest
    have hrun := run_many_bytes_of_le host (show r.data.length ≤ (r.data ++ rest).length by
      rw [List.length_append]
      omega)
    rwa [List.take_left, List.drop_left] at hrun
  have hmod : (6 + r.data.length) % 2 ^ 64 = 6 + r.data.length := by
    have hlen := r.length_data
    omega
  simp only [bytes, List.flatten_cons, List.flatten_nil]
  refine (runs_read_be host _).bind <| (runs_read_be host _).bind <| hpadding.bind ?_
  simp only [hasValue_ok, deref_ok, Bool.not_true, Bool.or_self, Bool.false_eq_true, if_false,
    pure_bind, Be.native_fromNative, dataLength_ofNat, hmod]
  apply hdata.bind
  dsimp only
  split
  · exact (runs_skip_of_length r.length_alignment).bind (runs_return r.parameter)
  · have hnil : r.alignment = [] := by
      apply List.eq_nil_of_length_eq_zero
      rw [r.length_alignment]
      omega
    rw [hnil]
    exact runs_return r.parameter

end ParameterRecord

namespace TransmitterPDU

/-- The 16-bit field of the number of variable parameters. -/
def parameterCount (bs : List UInt8) : Nat :=
  (Word.beAt UInt16 bs (headSize (bs.getD 0 0) - 71)).toNat

/-- The bytes are a complete PDU of version 6 or 7: the fixed part, the modulation parameters
and the antenna patterns that it counts, and as many records as it announces. -/
structure Layout (bs : List UInt8) (records : List ParameterRecord) : Prop where
  known : Known (bs.getD 0 0)
  count : parameterCount bs = records.length
  split : ∃ fixed mods ants,
    bs = fixed ++ (mods ++ (ants ++ records.flatMap ParameterRecord.bytes)) ∧
    fixed.length = headSize (bs.getD 0 0) + 3 ∧ mods.length = modulationCount bs ∧
    ants.length = 40 * antennaCount bs

/-- The bytes are decoded to a PDU with these variable parameters. -/
def Honours (host : Endian) (bs : List UInt8) (records : List ParameterRecord) : Prop :=
  ∃ pdu rest, (deserializeDirect host : Get (Expected TransmitterPDU)).run bs =
    .ok (.ok pdu, rest) ∧ pdu.variableParameters = records.map ParameterRecord.parameter

variable {bs : List UInt8} {records : List ParameterRecord}

/-- The decoder behind the antenna patterns. -/
theorem Layout.run (host : Endian) (h : Layout bs records) :
    ∃ pdu : TransmitterPDU, (deserializeDirect host : Get (Expected TransmitterPDU)).run bs = (do
      match ← Parser.many (VariableTransmitterParameters.deserialize host) 1 with
      | none => return unexpect
      | some variableParameters =>
        return .ok { pdu with variableParameters := variableParameters } :
        Get (Expected TransmitterPDU)).run (records.flatMap ParameterRecord.bytes) := by
  obtain ⟨fixed, mods, ants, hbs, hfixed, hmods, hants⟩ := h.split
  have hsize := congrArg List.length hbs
  rw [List.length_append] at hsize
  obtain ⟨pdu, hrun⟩ := run_of_known host h.known (by omega)
  have hbytes := run_many_bytes_of_le host (show modulationCount bs ≤
      (mods ++ (ants ++ records.flatMap ParameterRecord.bytes)).length by
    rw [List.length_append]
    omega)
  obtain ⟨patterns, -, hpatterns⟩ := (BeamAntennaPattern.reads host).run_many
    (show antennaCount bs * 40 ≤ (ants ++ records.flatMap ParameterRecord.bytes).length by
      rw [List.length_append]
      omega)
  rw [List.take_left' hmods, List.drop_left' hmods] at hbytes
  rw [List.drop_left' (by omega)] at hpatterns
  have hdrop : bs.drop (headSize (bs.getD 0 0) + 3) =
      mods ++ (ants ++ records.flatMap ParameterRecord.bytes) := by
    rw [← hfixed, hbs]
    exact List.drop_left
  rw [hdrop] at hrun
  refine ⟨{ pdu with modulationParameters := mods, antennaPatterns := patterns }, hrun.trans ?_⟩
  exact (Parser.run_bind_of_ok hbytes).trans (Parser.run_bind_of_ok hpatterns)

/-- The count is honoured when it is one. -/
theorem honours_iff (host : Endian) (h : Layout bs records) :
    Honours host bs records ↔ parameterCount bs = 1 := by
  rw [h.count]
  constructor
  · intro ⟨pdu, rest, hrun, hparams⟩
    obtain ⟨-, varParam, hone, -⟩ := length_of_run hrun
    have hlen := congrArg List.length hparams
    rw [hone, List.length_map] at hlen
    exact hlen.symm
  · intro hone
    obtain ⟨r, rfl⟩ := List.length_eq_one_iff.mp hone
    obtain ⟨pdu, hrun⟩ := h.run host
    have hrecords := Runs.many fun r' (_ : r' ∈ [r]) => ParameterRecord.runs_bytes host r'
    have hmany := hrecords []
    rw [List.append_nil] at hmany
    exact ⟨_, [], hrun.trans (Parser.run_bind_of_ok hmany), rfl⟩

/-- A fixed part of version 7 that announces `k` variable parameters and nothing else. -/
def announcing (k : UInt8) : List UInt8 := 7 :: List.replicate 30 0 ++ k :: List.replicate 72 0

/-- A record of two bytes. -/
def twoBytes : ParameterRecord := ⟨1, [0, 0], [2, 3], [], rfl, by decide, rfl⟩

theorem honours_iff_twoBytes :
    Honours .little (announcing 1 ++ twoBytes.bytes) [twoBytes] :=
  (honours_iff .little ⟨.inr (by decide +kernel), by decide +kernel,
    ⟨announcing 1, [], [], by decide +kernel, by decide +kernel, by decide +kernel,
      by decide +kernel⟩⟩).mpr (by decide +kernel)

/-- Without variable parameters the decoder looks for one. -/
theorem not_honours_none :
    ¬ ∀ (host : Endian) (bs : List UInt8) (records : List ParameterRecord),
      Layout bs records → Honours host bs records := by
  intro h
  obtain ⟨pdu, rest, hrun, hparams⟩ := h .little (announcing 0) []
    ⟨.inr (by decide +kernel), by decide +kernel,
      ⟨announcing 0, [], [], by decide +kernel, by decide +kernel, by decide +kernel,
        by decide +kernel⟩⟩
  obtain ⟨-, varParam, hone, -⟩ := length_of_run hrun
  rw [hone] at hparams
  cases hparams

end TransmitterPDU

end Csics.Dis
