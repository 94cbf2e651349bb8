import Csics.Base.Transcoding
import Csics.Compression.ZLIBCompressor
import Csics.Compression.ZSTDCompressor

/-!
# Sessions

A caller feeds a compressor piece by piece. It advances its views by the counts of each result, as
the tests do, and collects what is in front of `out` behind the call. In the end it calls `finish`
with what is left.

If the library transcodes, the collected bytes decode to the bytes that have been fed, however they
were cut and however large the outputs were: for zlib if `finish` tells that it has ended and gets
less than 4 GiB (`ZLIBCompressor.inflate_session_iff`), for zstd if no call fails and nothing is
left to flush (`ZSTDCompressor.decompress_session`).
-/

namespace Csics.Compression

open Base

/-- A caller with its compressor, the input that has not been consumed, the output, and the replies
of the library. -/
structure Caller (α κ : Type) where
  compressor : α
  pending : List UInt8
  collected : List UInt8
  log : List (Reply κ)

/-- What a caller does before it finishes. `flush` is `finish` without any input. -/
inductive CallerOp where
  | feed (bytes : List UInt8)
  | compressPartial (out : Nat)
  | compressBuffer (out : Nat)
  | flush (out : Nat)
  deriving DecidableEq, Repr

/-- All bytes that are fed. -/
def fed : List CallerOp → List UInt8
  | [] => []
  | .feed bytes :: ops => bytes ++ fed ops
  | _ :: ops => fed ops

theorem fed_append (ops ops' : List CallerOp) : fed (ops ++ ops') = fed ops ++ fed ops' := by
  induction ops with
  | nil => rfl
  | cons op ops ih => cases op <;> simp [fed, ih]

/-- `abc` in two pieces. -/
def abcPieces : List CallerOp :=
  [.feed [0x61], .compressPartial 10, .feed [0x62, 0x63], .compressBuffer 10]

namespace Caller

variable {α κ : Type}

/-- The views advance by the counts of the result; `bytes` are behind the start of `out`. -/
def receive (t : Caller α κ) (compressor : α) (r : CompressionResult) (bytes : List UInt8)
    (log : List (Reply κ)) : Caller α κ where
  compressor := compressor
  pending := t.pending.drop r.inputConsumed
  collected := t.collected ++ bytes.take r.compressed
  log := t.log ++ log

def feed (t : Caller α κ) (bytes : List UInt8) : Caller α κ :=
  { t with pending := t.pending ++ bytes }

def init (compressor : α) : Caller α κ := ⟨compressor, [], [], []⟩

end Caller

/-! ## zlib -/

namespace ZLIBCompressor

variable {σ : Type} (deflate : Codec σ ZlibFlush ZlibCode)

/-- A caller of the zlib compressor. It does not finish before the end. -/
def session (fuel : Nat) (t : Caller (ZLIBCompressor σ) ZlibCode) :
    CallerOp → Option (Caller (ZLIBCompressor σ) ZlibCode)
  | .feed bytes => some (t.feed bytes)
  | .compressPartial out =>
    let (r, s, reply) := compressPartial deflate t.compressor t.pending out
    some (t.receive s r (written [reply]) [reply])
  | .compressBuffer out =>
    (compressBuffer deflate fuel t.compressor t.pending out).map fun (r, s, log) =>
      t.receive s r (written log) log
  | .flush _ => none

variable {deflate} {fuel : Nat} {s : ZLIBCompressor σ} {z₀ : σ} {taken put input : List UInt8}
  {out : Nat} {outcome : Outcome σ}

/-- The status tells whether `finish` has left its loop with the end of the stream. -/
theorem finishBody_eq_inr_status {t : FinishLoop σ} {o : Outcome σ}
    (h : finishBody deflate t = .inr o) :
    o.1.status ≠ .inputBufferFinished ∨
    ((t.call deflate).2.code = .streamEnd ∧
      o = (t.advance (t.call deflate).1 (t.call deflate).2).outcome
        (t.advance (t.call deflate).1 (t.call deflate).2).nextOut .inputBufferFinished) := by
  change (if (t.call deflate).2.code = .streamError then _ else _) = _ at h
  split at h
  · cases h
    exact Or.inl CompressionStatus.noConfusion
  split at h
  · cases h
    exact Or.inl CompressionStatus.noConfusion
  split at h
  · rename_i hcode
    cases h
    exact Or.inr ⟨hcode, rfl⟩
  · cases h

/-- A call has taken as much of its input as its result counts, and has put what it counts. -/
structure Transfers (deflate : Codec σ ZlibFlush ZlibCode) (z₀ : σ)
    (taken put input : List UInt8) (outcome : Outcome σ) : Prop where
  carries : deflate.Carries z₀ outcome.2.1.zstream
    (taken ++ input.take outcome.1.inputConsumed) (put ++ written outcome.2.2)
  consumed_le : outcome.1.inputConsumed ≤ input.length
  compressed : outcome.1.compressed = (written outcome.2.2).length

theorem transfers_compressPartial (h : deflate.Carries z₀ s.zstream taken put)
    (input : List UInt8) (out : Nat) :
    Transfers deflate z₀ taken put input
      ((compressPartial deflate s input out).1, (compressPartial deflate s input out).2.1,
        [(compressPartial deflate s input out).2.2]) := by
  have hoffer := Codec.Carries.offer input 0 ((List.append_nil taken).symm ▸ h) .noFlush
    (input.length % 2 ^ 32) (availOut out)
  rw [Nat.zero_add, List.drop_zero] at hoffer
  constructor
  case carries => simpa [written, compressPartial, availIn] using hoffer
  case consumed_le => exact Nat.le_trans (deflate.consumed_le _ _ _ _) (length_availIn_le input)
  case compressed => simp [written, compressPartial]

/-- The loop of `compress_buffer` is somewhere in its input. -/
structure BufferLoop.Carries (deflate : Codec σ ZlibFlush ZlibCode) (z₀ : σ)
    (taken put input : List UInt8) (t : BufferLoop σ) : Prop where
  carries : deflate.Carries z₀ t.compressor.zstream (taken ++ input.take t.totalConsumed)
    (put ++ written t.log)
  rest : t.input = input.drop t.totalConsumed
  consumed_le : t.totalConsumed ≤ input.length
  compressed : t.totalCompressed = (written t.log).length

theorem BufferLoop.Carries.advance {t : BufferLoop σ}
    (h : t.Carries deflate z₀ taken put input) :
    (t.advance (t.call deflate).1 (t.call deflate).2).Carries deflate z₀ taken put input := by
  obtain ⟨hcarries, hrest, hle, hcompressed⟩ := h
  have hoffer := hcarries.offer input t.totalConsumed .noFlush (t.input.length % 2 ^ 32)
    (availOut t.out)
  rw [← hrest] at hoffer
  have hconsumed : (t.call deflate).2.consumed ≤ t.input.length :=
    Nat.le_trans (deflate.consumed_le _ _ _ _) (length_availIn_le t.input)
  constructor
  case carries =>
    rw [List.append_assoc, ← written_concat] at hoffer
    exact hoffer
  case rest => exact (congrArg (List.drop _) hrest).trans List.drop_drop
  case consumed_le =>
    rw [hrest, List.length_drop] at hconsumed
    simp only [BufferLoop.advance]
    omega
  case compressed =>
    simp only [BufferLoop.advance, written_concat, List.length_append, hcompressed]

theorem transfers_compressBuffer (h : deflate.Carries z₀ s.zstream taken put)
    (hcall : compressBuffer deflate fuel s input out = some outcome) :
    Transfers deflate z₀ taken put input outcome := by
  refine Loop.induction (I := BufferLoop.Carries deflate z₀ taken put input)
    (Q := Transfers deflate z₀ taken put input) ?_ ?_ ?_ hcall
  · intro t t' ht hbody
    obtain ⟨-, rfl⟩ := bufferBody_eq_inl.mp hbody
    exact ht.advance
  · intro t o ht hbody
    rw [bufferBody_eq_inr hbody]
    obtain ⟨hcarries, -, hle, hcompressed⟩ := ht.advance
    exact ⟨hcarries, hle, hcompressed⟩
  · constructor
    case carries => simpa using h
    case rest => rfl
    case consumed_le => exact Nat.zero_le _
    case compressed => rfl

/-- Between the calls of a caller the library has taken what is not pending, and has put what has
been collected. -/
def Follows (deflate : Codec σ ZlibFlush ZlibCode) (z₀ : σ) (ops : List CallerOp)
    (t : Caller (ZLIBCompressor σ) ZlibCode) : Prop :=
  ∃ taken, deflate.Carries z₀ t.compressor.zstream taken t.collected ∧ taken ++ t.pending = fed ops

theorem Follows.receive {ops : List CallerOp} {t : Caller (ZLIBCompressor σ) ZlibCode}
    {taken : List UInt8} (hfed : taken ++ t.pending = fed ops)
    (h : Transfers deflate z₀ taken t.collected t.pending outcome) :
    Follows deflate z₀ ops
      (t.receive outcome.2.1 outcome.1 (written outcome.2.2) outcome.2.2) := by
  obtain ⟨hcarries, hle, hcompressed⟩ := h
  refine ⟨taken ++ t.pending.take outcome.1.inputConsumed, ?_, ?_⟩
  · simp only [Caller.receive, hcompressed, List.take_length]
    exact hcarries
  · simp only [Caller.receive]
    rw [List.append_assoc, List.take_append_drop, hfed]

theorem Follows.session {ops : List CallerOp} {op : CallerOp}
    {t t' : Caller (ZLIBCompressor σ) ZlibCode} (h : Follows deflate z₀ ops t)
    (hstep : session deflate fuel t op = some t') : Follows deflate z₀ (ops ++ [op]) t' := by
  obtain ⟨taken, hcarries, hfed⟩ := h
  rw [Follows, fed_append]
  cases op with
  | feed bytes =>
    cases hstep
    refine ⟨taken, hcarries, ?_⟩
    simp only [Caller.feed, fed, List.append_nil, ← hfed, List.append_assoc]
  | compressPartial out =>
    cases hstep
    have hops : fed ops ++ fed [.compressPartial out] = fed ops := List.append_nil _
    rw [hops]
    exact Follows.receive hfed (transfers_compressPartial hcarries t.pending out)
  | compressBuffer out =>
    obtain ⟨outcome, hcall, rfl⟩ := Option.map_eq_some_iff.mp hstep
    have hops : fed ops ++ fed [.compressBuffer out] = fed ops := List.append_nil _
    rw [hops]
    exact Follows.receive hfed (transfers_compressBuffer hcarries hcall)
  | flush out => cases hstep

theorem follows_run {ops : List CallerOp} {t : Caller (ZLIBCompressor σ) ZlibCode}
    (h : run (ZLIBCompressor.session deflate fuel) (.init (.init z₀)) ops = some t) :
    Follows deflate z₀ ops t :=
  run_past [] (I := Follows deflate z₀) (fun _ _ _ _ hfollows hstep => hfollows.session hstep)
    ⟨[], .start, rfl⟩ h

/-- The loop of `finish` is somewhere in what it has been offered. -/
structure FinishLoop.Carries (deflate : Codec σ ZlibFlush ZlibCode) (z₀ : σ)
    (taken put input : List UInt8) (t : FinishLoop σ) : Prop where
  carries : ∃ n, deflate.Carries z₀ t.zstream (taken ++ input.take n) (put ++ written t.log) ∧
    t.nextIn = input.drop n
  nextOut : t.nextOut = (written t.log).length

theorem FinishLoop.Carries.advance {t : FinishLoop σ}
    (h : t.Carries deflate z₀ taken put input) :
    (t.advance (t.call deflate).1 (t.call deflate).2).Carries deflate z₀ taken put input := by
  obtain ⟨⟨n, hcarries, hrest⟩, hnextOut⟩ := h
  have hoffer := hcarries.offer input n .finish t.nextIn.length t.availOut
  rw [← hrest, List.take_length] at hoffer
  constructor
  case carries =>
    rw [List.append_assoc, ← written_concat] at hoffer
    exact ⟨_, hoffer, (congrArg (List.drop _) hrest).trans List.drop_drop⟩
  case nextOut => simp only [FinishLoop.advance, written_concat, List.length_append, hnextOut]

/-- Where `finish` ends the stream, all that has been put decodes to all that has been taken, and
the result counts what this call has put. -/
theorem decode_finish {inflate : List UInt8 → Option (List UInt8)}
    (hdeflate : deflate.Transcodes z₀ .finish (· = .streamEnd) inflate)
    (h : deflate.Carries z₀ s.zstream taken put)
    (hcall : finish deflate fuel s input out = some outcome)
    (hended : outcome.1.status = .inputBufferFinished) :
    inflate (put ++ (written outcome.2.2).take outcome.1.compressed) =
      some (taken ++ availIn input) := by
  unfold finish at hcall
  split at hcall
  · cases hcall
    cases hended
  refine Loop.induction (I := FinishLoop.Carries deflate z₀ taken put (availIn input))
    (Q := fun o : Outcome σ => o.1.status = .inputBufferFinished →
      inflate (put ++ (written o.2.2).take o.1.compressed) = some (taken ++ availIn input))
    ?_ ?_ ?_ hcall hended
  · intro t t' ht hbody
    obtain ⟨-, rfl⟩ := finishBody_eq_inl.mp hbody
    exact ht.advance
  · intro t o ht hbody hstatus
    rcases finishBody_eq_inr_status hbody with hne | ⟨hcode, rfl⟩
    · exact absurd hstatus hne
    obtain ⟨n, hcarries, hrest⟩ := ht.carries
    obtain ⟨-, hdecode⟩ := hdeflate _ _ _ hcarries t.nextIn t.availOut hcode
    have hnextOut := ht.advance.nextOut
    simp only [FinishLoop.outcome, hnextOut, List.take_length]
    rw [hrest, List.append_assoc, List.append_assoc, List.take_append_drop, ← hrest,
      ← written_concat] at hdecode
    exact hdecode
  · constructor
    case carries => exact ⟨0, by simpa using h, rfl⟩
    case nextOut => rfl

/-- `set_zstream` offers all of an input of less than 4 GiB. -/
theorem availIn_eq_self_iff (input : List UInt8) :
    availIn input = input ↔ input.length < 2 ^ 32 := by
  constructor
  · intro heq
    have hlength := congrArg List.length heq
    rw [availIn, List.length_take] at hlength
    omega
  · intro hlt
    rw [availIn, Nat.mod_eq_of_lt hlt, List.take_length]

/-- What a caller of the zlib compressor has collected behind a `finish` that ends the stream
decodes to all bytes that it has fed, if and only if it finishes with less than 4 GiB. -/
theorem inflate_session_iff {inflate : List UInt8 → Option (List UInt8)}
    (hdeflate : deflate.Transcodes z₀ .finish (· = .streamEnd) inflate) {ops : List CallerOp}
    {t : Caller (ZLIBCompressor σ) ZlibCode}
    (hrun : run (ZLIBCompressor.session deflate fuel) (.init (.init z₀)) ops = some t)
    (hcall : finish deflate fuel t.compressor t.pending out = some outcome)
    (hended : outcome.1.status = .inputBufferFinished) :
    inflate (t.receive outcome.2.1 outcome.1 (written outcome.2.2) outcome.2.2).collected =
      some (fed ops) ↔ t.pending.length < 2 ^ 32 := by
  obtain ⟨taken, hcarries, hfed⟩ := follows_run hrun
  have hdecode := decode_finish hdeflate hcarries hcall hended
  rw [← availIn_eq_self_iff]
  simp only [Caller.receive, hdecode, ← hfed, Option.some.injEq, List.append_cancel_left_eq]

/-- The code of `abc` behind the header of a zlib stream. -/
def abcCode : List UInt8 := [0x4B, 0x4C, 0x4A, 0x06, 0x00, 0x02, 0x4D, 0x01, 0x27]

/-- A library that takes and puts what zlib does where it is fed `abc`. -/
def abcDeflate : Codec Gathered ZlibFlush ZlibCode :=
  gather [0x78, 0x9C] (encodeText [0x61, 0x62, 0x63] abcCode) (· = .finish) .ok .streamEnd
    .bufError

theorem abcDeflate_transcodes : abcDeflate.Transcodes ⟨[], false, false⟩ .finish (· = .streamEnd)
    (decodeText [0x78, 0x9C] [0x61, 0x62, 0x63] abcCode) :=
  gather_transcodes rfl ZlibCode.noConfusion (decodeText_encodeText (by decide))

/-- The header of the stream is in front of the second piece. -/
theorem inflate_session_iff_abc : ∃ t outcome,
    run (session abcDeflate 1) (.init (.init ⟨[], false, false⟩)) abcPieces = some t ∧
    t.collected = [0x78, 0x9C] ∧
    finish abcDeflate 1 t.compressor t.pending 20 = some outcome ∧
    decodeText [0x78, 0x9C] [0x61, 0x62, 0x63] abcCode
      (t.receive outcome.2.1 outcome.1 (written outcome.2.2) outcome.2.2).collected =
        some [0x61, 0x62, 0x63] := by
  have hsession : ∃ t outcome,
      run (session abcDeflate 1) (.init (.init ⟨[], false, false⟩)) abcPieces = some t ∧
      t.collected = [0x78, 0x9C] ∧ t.pending = [] ∧
      finish abcDeflate 1 t.compressor t.pending 20 = some outcome ∧
      outcome.1.status = .inputBufferFinished := ⟨_, _, rfl, rfl, rfl, rfl, rfl⟩
  obtain ⟨t, outcome, hrun, hcollected, hpending, hcall, hended⟩ := hsession
  refine ⟨t, outcome, hrun, hcollected, hcall, ?_⟩
  refine (inflate_session_iff abcDeflate_transcodes hrun hcall hended).mpr ?_
  rw [hpending]
  decide

end ZLIBCompressor

/-! ## zstd -/

namespace ZSTDCompressor

variable {σ : Type} (compressStream2 : Codec σ ZstdEndDirective ZstdCode) (reset : σ → σ)

/-- The calls that have not failed. What a failing call has put is written over by the next one. -/
def kept (log : List (Reply ZstdCode)) : List (Reply ZstdCode) :=
  log.filter fun r => r.code ≠ .error

/-- A caller of the zstd compressor. It flushes when nothing is pending. -/
def session (fuel : Nat) (t : Caller σ ZstdCode) : CallerOp → Option (Caller σ ZstdCode)
  | .feed bytes => some (t.feed bytes)
  | .compressPartial out =>
    let (r, stream, reply) := compressPartial compressStream2 reset t.compressor t.pending out
    some (t.receive stream r (written [reply]) [reply])
  | .compressBuffer out =>
    (compressBuffer compressStream2 reset fuel t.compressor t.pending out).map
      fun (r, stream, log) => t.receive stream r (written (kept log)) log
  | .flush out =>
    if t.pending = [] then
      (finish compressStream2 reset fuel t.compressor [] out).map fun (r, stream, log) =>
        t.receive stream r (written (kept log)) log
    else none

/-- No call of the library has failed. -/
def Clean (log : List (Reply ZstdCode)) : Prop := ∀ r ∈ log, r.code ≠ .error

variable {compressStream2 reset} {fuel : Nat} {stream z₀ : σ} {taken put input : List UInt8}
  {out : Nat} {outcome : Outcome σ} {log : List (Reply ZstdCode)} {reply : Reply ZstdCode}

theorem kept_of_clean (h : Clean log) : kept log = log :=
  List.filter_eq_self.mpr fun r hr => decide_eq_true (h r hr)

theorem clean_concat : Clean (log ++ [reply]) ↔ Clean log ∧ reply.code ≠ .error := by
  simp only [Clean, List.mem_append, List.mem_singleton, or_imp, forall_and, forall_eq]

/-- A call that does not fail leaves the stream as the library does. -/
theorem callStream_of_ne {mode : ZstdEndDirective}
    (h : (callStream compressStream2 reset mode input out stream).2.code ≠ .error) :
    callStream compressStream2 reset mode input out stream =
      compressStream2.call stream mode input out := by
  have hcode : (compressStream2.call stream mode input out).2.code ≠ .error := h
  exact Prod.ext (if_neg hcode) rfl

/-- Unless a call has failed, it has taken as much of its input as its result counts, and has put
what it counts. -/
def Transfers (compressStream2 : Codec σ ZstdEndDirective ZstdCode) (z₀ : σ)
    (taken put input : List UInt8) (outcome : Outcome σ) : Prop :=
  Clean outcome.2.2 →
    compressStream2.Carries z₀ outcome.2.1 (taken ++ input.take outcome.1.inputConsumed)
      (put ++ written outcome.2.2) ∧
    outcome.1.compressed = (written outcome.2.2).length

theorem transfers_compressPartial (reset : σ → σ)
    (h : compressStream2.Carries z₀ stream taken put) (input : List UInt8) (out : Nat) :
    Transfers compressStream2 z₀ taken put input
      ((compressPartial compressStream2 reset stream input out).1,
        (compressPartial compressStream2 reset stream input out).2.1,
        [(compressPartial compressStream2 reset stream input out).2.2]) := by
  intro hclean
  have hcode := hclean _ (List.mem_singleton_self _)
  have hcall := callStream_of_ne hcode
  have hcarries := h.call .continue input out
  rw [← hcall] at hcarries
  refine ⟨?_, ?_⟩
  · simpa [written, compressPartial] using hcarries
  · simp [written, compressPartial]

/-- The loop of `compress_buffer` is somewhere in its input. -/
structure BufferLoop.Carries (compressStream2 : Codec σ ZstdEndDirective ZstdCode) (z₀ : σ)
    (taken put input : List UInt8) (t : BufferLoop σ) : Prop where
  carries : compressStream2.Carries z₀ t.stream (taken ++ input.take t.totalInputConsumed)
    (put ++ written t.log)
  rest : t.input = input.drop t.totalInputConsumed
  compressed : t.totalCompressed = (written t.log).length

theorem BufferLoop.Carries.advance {t : BufferLoop σ}
    (h : t.Carries compressStream2 z₀ taken put input)
    (hcode : (t.call compressStream2 reset).2.code ≠ .error) :
    (t.advance (t.call compressStream2 reset).1 (t.call compressStream2 reset).2).Carries
      compressStream2 z₀ taken put input := by
  obtain ⟨hcarries, hrest, hcompressed⟩ := h
  have hcall : t.call compressStream2 reset = _ := callStream_of_ne hcode
  have hoffer := hcarries.offer input t.totalInputConsumed .continue t.input.length t.out
  rw [← hrest, List.take_length, ← hcall] at hoffer
  constructor
  case carries =>
    rw [List.append_assoc, ← written_concat] at hoffer
    exact hoffer
  case rest => exact (congrArg (List.drop _) hrest).trans List.drop_drop
  case compressed =>
    simp only [BufferLoop.advance, written_concat, List.length_append, hcompressed]

theorem transfers_compressBuffer (h : compressStream2.Carries z₀ stream taken put)
    (hcall : compressBuffer compressStream2 reset fuel stream input out = some outcome) :
    Transfers compressStream2 z₀ taken put input outcome := by
  refine Loop.induction
    (I := fun t => Clean t.log → BufferLoop.Carries compressStream2 z₀ taken put input t)
    (Q := Transfers compressStream2 z₀ taken put input) ?_ ?_ ?_ hcall
  · intro t t' ht hbody hclean
    rcases bufferBody_eq_inl hbody with ⟨hcode, rfl⟩ | ⟨hcode, -, rfl⟩
    · exact absurd hcode (clean_concat.mp hclean).2
    · exact (ht (clean_concat.mp hclean).1).advance hcode
  · intro t o ht hbody
    obtain ⟨hcode, status, rfl⟩ := bufferBody_eq_inr hbody
    intro hclean
    obtain ⟨hcarries, -, hcompressed⟩ := (ht (clean_concat.mp hclean).1).advance hcode
    exact ⟨hcarries, hcompressed⟩
  · intro _
    constructor
    case carries => simpa using h
    case rest => rfl
    case compressed => rfl

/-- The loop of `finish` is somewhere in its input. -/
structure FinishLoop.Carries (compressStream2 : Codec σ ZstdEndDirective ZstdCode) (z₀ : σ)
    (taken put input : List UInt8) (t : FinishLoop σ) : Prop where
  carries : ∃ n, compressStream2.Carries z₀ t.stream (taken ++ input.take n)
    (put ++ written t.log) ∧ t.iBuf = input.drop n
  compressed : t.compressedTotal = (written t.log).length

theorem FinishLoop.Carries.advance {t : FinishLoop σ}
    (h : t.Carries compressStream2 z₀ taken put input)
    (hcode : (t.call compressStream2 reset).2.code ≠ .error) :
    (t.advance (t.call compressStream2 reset).1 (t.call compressStream2 reset).2).Carries
      compressStream2 z₀ taken put input := by
  obtain ⟨⟨n, hcarries, hrest⟩, hcompressed⟩ := h
  have hcall : t.call compressStream2 reset = _ := callStream_of_ne hcode
  have hoffer := hcarries.offer input n .end t.iBuf.length t.out
  rw [← hrest, List.take_length, ← hcall] at hoffer
  constructor
  case carries =>
    rw [List.append_assoc, ← written_concat] at hoffer
    exact ⟨_, hoffer, (congrArg (List.drop _) hrest).trans List.drop_drop⟩
  case compressed =>
    simp only [FinishLoop.advance, written_concat, List.length_append, hcompressed]

/-- The body of `finish`, in terms of its call. -/
theorem finishBody_eq_inr_status {t : FinishLoop σ} {o : Outcome σ}
    (h : finishBody compressStream2 reset t = .inr o)
    (hcode : (t.call compressStream2 reset).2.code ≠ .error) :
    ∃ n, (t.call compressStream2 reset).2.code = .bytes n ∧
      let t' := t.advance (t.call compressStream2 reset).1 (t.call compressStream2 reset).2
      o = (⟨t'.compressedTotal, 0, finishStatus n t'.out⟩, t'.stream, t'.log) := by
  unfold finishBody at h
  split at h
  rename_i stream reply hcall
  rw [FinishLoop.call, hcall] at hcode ⊢
  split at h
  · rename_i herror
    exact absurd herror hcode
  · rename_i n hn
    dsimp only at h
    split at h
    · cases h
    · cases h
      exact ⟨n, hn, rfl⟩

/-- What `finish` has taken and put, and counted. If nothing is left to flush, it is the end of the
stream. -/
structure Finishes (compressStream2 : Codec σ ZstdEndDirective ZstdCode) (z₀ : σ)
    (taken put input : List UInt8) (decompress : List UInt8 → Option (List UInt8))
    (outcome : Outcome σ) : Prop where
  carries : ∃ n, compressStream2.Carries z₀ outcome.2.1 (taken ++ input.take n)
    (put ++ written outcome.2.2)
  compressed : outcome.1.compressed = (written outcome.2.2).length
  inputConsumed : outcome.1.inputConsumed = 0
  ended : outcome.1.status ≠ .needsFlush →
    decompress (put ++ written outcome.2.2) = some (taken ++ input)

theorem finishes_finish {decompress : List UInt8 → Option (List UInt8)}
    (hstream : compressStream2.Transcodes z₀ .end (· = .bytes 0) decompress)
    (h : compressStream2.Carries z₀ stream taken put)
    (hcall : finish compressStream2 reset fuel stream input out = some outcome)
    (hclean : Clean outcome.2.2) :
    Finishes compressStream2 z₀ taken put input decompress outcome := by
  refine Loop.induction
    (I := fun t => Clean t.log → FinishLoop.Carries compressStream2 z₀ taken put input t)
    (Q := fun o : Outcome σ =>
      Clean o.2.2 → Finishes compressStream2 z₀ taken put input decompress o)
    ?_ ?_ ?_ hcall hclean
  · intro t t' ht hbody hclean
    obtain ⟨-, rfl⟩ := finishBody_eq_inl hbody
    obtain ⟨hclean, hcode⟩ := clean_concat.mp hclean
    exact (ht hclean).advance hcode
  · intro t o ht hbody hclean
    have hcode : (t.call compressStream2 reset).2.code ≠ .error := by
      rcases finishBody_eq_inr hbody with ⟨-, rfl⟩ | ⟨hcode, -⟩
      · exact (clean_concat.mp hclean).2
      · exact hcode
    obtain ⟨n, hn, rfl⟩ := finishBody_eq_inr_status hbody hcode
    have hcarries := ht (clean_concat.mp hclean).1
    obtain ⟨⟨m, hput, -⟩, hcompressed⟩ := hcarries.advance hcode
    constructor
    case carries => exact ⟨m, hput⟩
    case compressed => exact hcompressed
    case inputConsumed => rfl
    case ended =>
      intro hstatus
      have hzero : n = 0 := by
        by_contra hne
        exact hstatus (if_pos hne)
      obtain ⟨⟨m, hput, hrest⟩, -⟩ := hcarries
      have hcall : t.call compressStream2 reset = _ := callStream_of_ne hcode
      rw [hzero, hcall] at hn
      obtain ⟨-, hdecode⟩ := hstream _ _ _ hput t.iBuf t.out hn
      rw [← hcall, hrest, List.append_assoc, List.append_assoc, List.take_append_drop,
        ← written_concat] at hdecode
      exact hdecode
  · intro _
    constructor
    case carries => exact ⟨0, by simpa using h, rfl⟩
    case compressed => rfl

/-- Between the calls of a caller, none of which has failed, the library has taken what is not
pending, and has put what has been collected. -/
def Follows (compressStream2 : Codec σ ZstdEndDirective ZstdCode) (z₀ : σ) (ops : List CallerOp)
    (t : Caller σ ZstdCode) : Prop :=
  Clean t.log → ∃ taken, compressStream2.Carries z₀ t.compressor taken t.collected ∧
    taken ++ t.pending = fed ops

theorem clean_append {log' : List (Reply ZstdCode)} :
    Clean (log ++ log') ↔ Clean log ∧ Clean log' := by
  simp only [Clean, List.mem_append, or_imp, forall_and]

theorem Follows.receive {ops : List CallerOp} {t : Caller σ ZstdCode} {bytes : List UInt8}
    (hfed : taken ++ t.pending = fed ops)
    (hcarries : compressStream2.Carries z₀ outcome.2.1
      (taken ++ t.pending.take outcome.1.inputConsumed) (t.collected ++ written outcome.2.2))
    (hcompressed : outcome.1.compressed = (written outcome.2.2).length)
    (hbytes : bytes = written outcome.2.2) :
    Follows compressStream2 z₀ ops (t.receive outcome.2.1 outcome.1 bytes outcome.2.2) := by
  intro _
  refine ⟨taken ++ t.pending.take outcome.1.inputConsumed, ?_, ?_⟩
  · simp only [Caller.receive, hbytes, hcompressed, List.take_length]
    exact hcarries
  · simp only [Caller.receive]
    rw [List.append_assoc, List.take_append_drop, hfed]

theorem Follows.session {decompress : List UInt8 → Option (List UInt8)}
    (hstream : compressStream2.Transcodes z₀ .end (· = .bytes 0) decompress)
    {ops : List CallerOp} {op : CallerOp} {t t' : Caller σ ZstdCode}
    (h : Follows compressStream2 z₀ ops t)
    (hstep : session compressStream2 reset fuel t op = some t') :
    Follows compressStream2 z₀ (ops ++ [op]) t' := by
  intro hclean
  rw [fed_append]
  cases op with
  | feed bytes =>
    cases hstep
    obtain ⟨taken, hcarries, hfed⟩ := h hclean
    refine ⟨taken, hcarries, ?_⟩
    simp only [Caller.feed, fed, List.append_nil, ← hfed, List.append_assoc]
  | compressPartial out =>
    cases hstep
    have hops : fed ops ++ fed [.compressPartial out] = fed ops := List.append_nil _
    rw [hops]
    obtain ⟨hold, hnew⟩ := clean_append.mp hclean
    obtain ⟨taken, hcarries, hfed⟩ := h hold
    obtain ⟨hput, hcompressed⟩ :=
      transfers_compressPartial reset hcarries t.pending out hnew
    exact Follows.receive hfed hput hcompressed rfl hclean
  | compressBuffer out =>
    obtain ⟨outcome, hcall, rfl⟩ := Option.map_eq_some_iff.mp hstep
    have hops : fed ops ++ fed [.compressBuffer out] = fed ops := List.append_nil _
    rw [hops]
    obtain ⟨hold, hnew⟩ := clean_append.mp hclean
    obtain ⟨taken, hcarries, hfed⟩ := h hold
    obtain ⟨hput, hcompressed⟩ := transfers_compressBuffer hcarries hcall hnew
    exact Follows.receive hfed hput hcompressed (congrArg written (kept_of_clean hnew)) hclean
  | flush out =>
    have hops : fed ops ++ fed [.flush out] = fed ops := List.append_nil _
    rw [hops]
    rw [ZSTDCompressor.session] at hstep
    split at hstep
    case isFalse => cases hstep
    obtain ⟨outcome, hcall, rfl⟩ := Option.map_eq_some_iff.mp hstep
    obtain ⟨hold, hnew⟩ := clean_append.mp hclean
    obtain ⟨taken, hcarries, hfed⟩ := h hold
    obtain ⟨⟨n, hput⟩, hcompressed, hconsumed, -⟩ := finishes_finish hstream hcarries hcall hnew
    refine Follows.receive hfed ?_ hcompressed (congrArg written (kept_of_clean hnew)) hclean
    rw [hconsumed]
    simpa using hput

theorem follows_run {decompress : List UInt8 → Option (List UInt8)}
    (hstream : compressStream2.Transcodes z₀ .end (· = .bytes 0) decompress)
    {ops : List CallerOp} {t : Caller σ ZstdCode}
    (h : run (ZSTDCompressor.session compressStream2 reset fuel) (.init z₀) ops = some t) :
    Follows compressStream2 z₀ ops t :=
  run_past [] (I := Follows compressStream2 z₀)
    (fun _ _ _ _ hfollows hstep => hfollows.session hstream hstep)
    (fun _ => ⟨[], .start, rfl⟩) h

/-- If no call of the library fails, what a caller of the zstd compressor has collected behind a
`finish` that leaves nothing to flush decodes to all bytes that it has fed. -/
theorem decompress_session {decompress : List UInt8 → Option (List UInt8)}
    (hstream : compressStream2.Transcodes z₀ .end (· = .bytes 0) decompress)
    {ops : List CallerOp} {t : Caller σ ZstdCode}
    (hrun : run (ZSTDCompressor.session compressStream2 reset fuel) (.init z₀) ops = some t)
    (hcall : finish compressStream2 reset fuel t.compressor t.pending out = some outcome)
    (hclean : Clean (t.log ++ outcome.2.2)) (hended : outcome.1.status ≠ .needsFlush) :
    decompress (t.receive outcome.2.1 outcome.1 (written (kept outcome.2.2))
      outcome.2.2).collected = some (fed ops) := by
  obtain ⟨hold, hnew⟩ := clean_append.mp hclean
  obtain ⟨taken, hcarries, hfed⟩ := follows_run hstream hrun hold
  obtain ⟨-, hcompressed, -, hdecode⟩ := finishes_finish hstream hcarries hcall hnew
  simp only [Caller.receive, kept_of_clean hnew, hcompressed, List.take_length]
  rw [← hfed]
  exact hdecode hended

/-- The frame of `abc`: a raw block. -/
def abcFrame : List UInt8 :=
  [0x28, 0xB5, 0x2F, 0xFD, 0x00, 0x58, 0x19, 0x00, 0x00, 0x61, 0x62, 0x63]

/-- A library that takes and puts what zstd does where it is fed `abc`. -/
def abcStream : Codec Gathered ZstdEndDirective ZstdCode :=
  gather [] (encodeText [0x61, 0x62, 0x63] abcFrame) (· = .end) (.bytes 0) (.bytes 0) .error

theorem abcStream_transcodes : abcStream.Transcodes ⟨[], false, false⟩ .end (· = .bytes 0)
    (decodeText [] [0x61, 0x62, 0x63] abcFrame) :=
  gather_transcodes rfl ZstdCode.noConfusion (decodeText_encodeText (by decide))

/-- zstd puts nothing before the end. -/
theorem decompress_session_abc : ∃ t outcome,
    run (session abcStream id 1) (.init ⟨[], false, false⟩) abcPieces = some t ∧
    t.collected = [] ∧
    finish abcStream id 1 t.compressor t.pending 20 = some outcome ∧
    decodeText [] [0x61, 0x62, 0x63] abcFrame
      (t.receive outcome.2.1 outcome.1 (written (kept outcome.2.2)) outcome.2.2).collected =
        some [0x61, 0x62, 0x63] := by
  have hsession : ∃ t outcome,
      run (session abcStream id 1) (.init ⟨[], false, false⟩) abcPieces = some t ∧
      t.collected = [] ∧ finish abcStream id 1 t.compressor t.pending 20 = some outcome ∧
      (t.log ++ outcome.2.2).map Reply.code = [.bytes 0, .bytes 0, .bytes 0] ∧
      outcome.1.status = .inputBufferFinished := ⟨_, _, rfl, rfl, rfl, rfl, rfl⟩
  obtain ⟨t, outcome, hrun, hcollected, hcall, hcodes, hended⟩ := hsession
  have hclean : Clean (t.log ++ outcome.2.2) := by
    intro r hr hcode
    have hmem := List.mem_map_of_mem (f := Reply.code) hr
    rw [hcodes, hcode] at hmem
    exact absurd hmem (by decide)
  refine ⟨t, outcome, hrun, hcollected, hcall, ?_⟩
  refine decompress_session abcStream_transcodes hrun hcall hclean ?_
  rw [hended]
  exact CompressionStatus.noConfusion

end ZSTDCompressor

end Csics.Compression
