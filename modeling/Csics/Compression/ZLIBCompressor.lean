import Csics.Compression.Compressor

/-!
# The zlib compressor

`ZLIBCompressor` of `src/io/ZLIBCompressor.cpp` over a codec that stands for `deflate`. The counters
`avail_in` and `avail_out` of a `z_stream` have 32 bits, so that a view of 4 GiB or more is offered
in part. `init` is not an operation of `ICompressor`, and is left out.
-/

namespace Csics.Compression

open Base

/-- The modes of `deflate` that are used. -/
inductive ZlibFlush where
  | noFlush
  | finish
  deriving DecidableEq, Repr

/-- The documented results of `deflate`. -/
inductive ZlibCode where
  | ok
  | streamEnd
  | streamError
  | bufError
  deriving DecidableEq, Repr

inductive ZlibState where
  | compressing
  | finishing
  | finished
  deriving DecidableEq, Repr

structure ZLIBCompressor (σ : Type) where
  zstream : σ
  state : ZlibState

namespace ZLIBCompressor

variable {σ : Type} (deflate : Codec σ ZlibFlush ZlibCode)

/-- What `set_zstream` offers of the input, `avail_in` bytes. -/
def availIn (input : List UInt8) : List UInt8 := input.take (input.length % 2 ^ 32)

/-- `avail_out` after `set_zstream`. -/
def availOut (out : Nat) : Nat := out % 2 ^ 32

/-- The status of `compress_partial` for a result of `deflate` and the counters behind the call. -/
def partialStatus (zout : ZlibCode) (availIn availOut : Nat) : CompressionStatus :=
  match zout with
  | .ok | .bufError =>
    if availOut = 0 then .outputBufferFull else if availIn = 0 then .needsInput else .ok
  | .streamError => .nonFatalError
  -- no case of the switch: the status of `ret{}`
  | .streamEnd => .ok

/-- `compress_partial`. -/
def compressPartial (s : ZLIBCompressor σ) (input : List UInt8) (out : Nat) :
    CompressionResult × ZLIBCompressor σ × Reply ZlibCode :=
  let (zstream, reply) := deflate.call s.zstream .noFlush (availIn input) (availOut out)
  (⟨reply.produced.length, reply.consumed,
      partialStatus reply.code ((availIn input).length - reply.consumed)
        (availOut out - reply.produced.length)⟩,
    { s with zstream := zstream }, reply)

/-- The variables of the loop of `compress_buffer`. -/
structure BufferLoop (σ : Type) where
  compressor : ZLIBCompressor σ
  input : List UInt8
  out : Nat
  totalCompressed : Nat
  totalConsumed : Nat
  log : List (Reply ZlibCode)

/-- What a call of the compressor returns: the result, the compressor behind it, and the log. -/
abbrev Outcome (σ : Type) := CompressionResult × ZLIBCompressor σ × List (Reply ZlibCode)

/-- The views and the totals advance by the counts of a call. -/
def BufferLoop.advance (t : BufferLoop σ) (zstream : σ) (reply : Reply ZlibCode) : BufferLoop σ :=
  { compressor := { t.compressor with zstream := zstream }
    input := t.input.drop reply.consumed
    out := t.out - reply.produced.length
    totalCompressed := t.totalCompressed + reply.produced.length
    totalConsumed := t.totalConsumed + reply.consumed
    log := t.log ++ [reply] }

/-- What is returned with a status. -/
def BufferLoop.outcome (t : BufferLoop σ) (status : CompressionStatus) : Outcome σ :=
  (⟨t.totalCompressed, t.totalConsumed, status⟩, t.compressor, t.log)

/-- The status ends the loop of `compress_buffer`. -/
def Leaves (status : CompressionStatus) : Prop :=
  status = .outputBufferFull ∨ status = .needsInput

instance (status : CompressionStatus) : Decidable (Leaves status) :=
  inferInstanceAs (Decidable (_ ∨ _))

/-- A round of the loop of `compress_buffer`. -/
def bufferBody (t : BufferLoop σ) : BufferLoop σ ⊕ Outcome σ :=
  let (r, compressor, reply) := compressPartial deflate t.compressor t.input t.out
  let t' := t.advance compressor.zstream reply
  if Leaves r.status then .inr (t'.outcome r.status) else .inl t'

/-- `compress_buffer`, for at most `fuel` rounds of its loop. -/
def compressBuffer (fuel : Nat) (s : ZLIBCompressor σ) (input : List UInt8) (out : Nat) :
    Option (Outcome σ) :=
  loop (bufferBody deflate) fuel ⟨s, input, out, 0, 0, []⟩

/-- The variables of the loop of `finish`: the fields of the `z_stream`, with `next_out` as an
offset in `out`. -/
structure FinishLoop (σ : Type) where
  zstream : σ
  nextIn : List UInt8
  nextOut : Nat
  availOut : Nat
  log : List (Reply ZlibCode)

/-- The fields of the `z_stream` behind a call. -/
def FinishLoop.advance (t : FinishLoop σ) (zstream : σ) (reply : Reply ZlibCode) : FinishLoop σ :=
  { zstream := zstream
    nextIn := t.nextIn.drop reply.consumed
    nextOut := t.nextOut + reply.produced.length
    availOut := t.availOut - reply.produced.length
    log := t.log ++ [reply] }

/-- What is returned, with the compressor in the state that `finish` has set. -/
def FinishLoop.outcome (t : FinishLoop σ) (compressed : Nat) (status : CompressionStatus) :
    Outcome σ :=
  (⟨compressed, 0, status⟩, ⟨t.zstream, .finishing⟩, t.log)

/-- A round of the loop of `finish`. -/
def finishBody (t : FinishLoop σ) : FinishLoop σ ⊕ Outcome σ :=
  let (zstream, reply) := deflate.call t.zstream .finish t.nextIn t.availOut
  let t' := t.advance zstream reply
  if reply.code = .streamError then .inr (t'.outcome 0 .fatalError)
  else if t'.availOut = 0 ∧ reply.code = .bufError then .inr (t'.outcome 0 .outputBufferFull)
  else if reply.code = .streamEnd then .inr (t'.outcome t'.nextOut .inputBufferFinished)
  else .inl t'

/-- `finish`, for at most `fuel` rounds of its loop. -/
def finish (fuel : Nat) (s : ZLIBCompressor σ) (input : List UInt8) (out : Nat) :
    Option (Outcome σ) :=
  if s.state = .finished then some (⟨0, 0, .invalidState⟩, s, [])
  else loop (finishBody deflate) fuel ⟨s.zstream, availIn input, 0, availOut out, []⟩

/-- One call, for at most `fuel` rounds of its loop. -/
def call (fuel : Nat) (s : ZLIBCompressor σ) : Op → Option (Outcome σ)
  | .compressPartial input out =>
    let (r, s, reply) := compressPartial deflate s input out
    some (r, s, [reply])
  | .compressBuffer input out => compressBuffer deflate fuel s input out
  | .finish input out => finish deflate fuel s input out

/-- The constructor of the compressor. -/
def init (zstream : σ) : ZLIBCompressor σ := ⟨zstream, .compressing⟩

/-! ## Rounds -/

/-- The call of the library in a round of `compress_buffer`. -/
def BufferLoop.call (t : BufferLoop σ) : σ × Reply ZlibCode :=
  deflate.call t.compressor.zstream .noFlush (availIn t.input) (availOut t.out)

/-- The status with which a call ends a round. -/
def BufferLoop.status (t : BufferLoop σ) (reply : Reply ZlibCode) : CompressionStatus :=
  partialStatus reply.code ((availIn t.input).length - reply.consumed)
    (availOut t.out - reply.produced.length)

/-- The call of the library in a round of `finish`. -/
def FinishLoop.call (t : FinishLoop σ) : σ × Reply ZlibCode :=
  deflate.call t.zstream .finish t.nextIn t.availOut

variable {deflate}

theorem bufferBody_eq_inl {t t' : BufferLoop σ} : bufferBody deflate t = .inl t' ↔
    ¬ Leaves (t.status (t.call deflate).2) ∧
      t' = t.advance (t.call deflate).1 (t.call deflate).2 := by
  show (if Leaves (t.status (t.call deflate).2) then Sum.inr _ else Sum.inl _) = _ ↔ _
  split
  · rename_i hleaves
    exact iff_of_false nofun fun h => h.1 hleaves
  · rename_i hleaves
    rw [and_iff_right hleaves, Sum.inl.injEq]
    exact eq_comm

theorem bufferBody_eq_inr {t : BufferLoop σ} {o : Outcome σ}
    (h : bufferBody deflate t = .inr o) :
    o = (t.advance (t.call deflate).1 (t.call deflate).2).outcome
      (t.status (t.call deflate).2) := by
  change (if Leaves (t.status (t.call deflate).2) then Sum.inr _ else Sum.inl _) = _ at h
  split at h
  · cases h
    rfl
  · cases h

theorem finishBody_eq_inl {t t' : FinishLoop σ} : finishBody deflate t = .inl t' ↔
    ((t.call deflate).2.code = .ok ∨ (t.call deflate).2.code = .bufError ∧
      (t.advance (t.call deflate).1 (t.call deflate).2).availOut ≠ 0) ∧
      t' = t.advance (t.call deflate).1 (t.call deflate).2 := by
  unfold finishBody FinishLoop.call
  obtain ⟨zstream, consumed, produced, code⟩ := deflate.call t.zstream .finish t.nextIn t.availOut
  cases code with
  | ok => simp [eq_comm]
  | streamEnd => simp
  | streamError => simp
  | bufError =>
    by_cases hroom : (t.advance zstream ⟨consumed, produced, .bufError⟩).availOut = 0
    · simp [hroom]
    · simp [hroom, eq_comm]

theorem finishBody_eq_inr {t : FinishLoop σ} {o : Outcome σ} (h : finishBody deflate t = .inr o) :
    ((t.call deflate).2.code ≠ .streamEnd ∧ ∃ status,
      o = (t.advance (t.call deflate).1 (t.call deflate).2).outcome 0 status) ∨
    ((t.call deflate).2.code = .streamEnd ∧
      o = (t.advance (t.call deflate).1 (t.call deflate).2).outcome
        (t.advance (t.call deflate).1 (t.call deflate).2).nextOut .inputBufferFinished) := by
  change (if (t.call deflate).2.code = .streamError then _ else _) = _ at h
  split at h
  · rename_i hcode
    cases h
    exact Or.inl ⟨fun hend => ZlibCode.noConfusion (hcode.symm.trans hend), _, rfl⟩
  split at h
  · rename_i hcode
    cases h
    exact Or.inl ⟨fun hend => ZlibCode.noConfusion (hcode.2.symm.trans hend), _, rfl⟩
  split at h
  · rename_i hcode
    cases h
    exact Or.inr ⟨hcode, rfl⟩
  · cases h

theorem length_availIn_le (input : List UInt8) : (availIn input).length ≤ input.length := by
  rw [availIn, List.length_take]
  exact Nat.min_le_right _ _

end ZLIBCompressor

end Csics.Compression
