import Csics.Compression.Compressor

/-!
# The zstd compressor

`ZSTDCompressor` of `src/io/ZSTDCompressor.cpp` over a codec that stands for `ZSTD_compressStream2`.
Its result is an error or what is left to flush. `reset` is `ZSTD_CCtx_reset`, with which an error
is followed.
-/

namespace Csics.Compression

open Base

inductive ZstdEndDirective where
  | continue
  | end
  deriving DecidableEq, Repr

/-- A result of `ZSTD_compressStream2`, as `ZSTD_isError` tells them apart. -/
inductive ZstdCode where
  | error
  | bytes (n : Nat)
  deriving DecidableEq, Repr

namespace ZSTDCompressor

variable {σ : Type} (compressStream2 : Codec σ ZstdEndDirective ZstdCode) (reset : σ → σ)

/-- A call of the library, and the stream behind the reset that follows an error. -/
def callStream (mode : ZstdEndDirective) (input : List UInt8) (out : Nat) (stream : σ) :
    σ × Reply ZstdCode :=
  let (stream, reply) := compressStream2.call stream mode input out
  (if reply.code = .error then reset stream else stream, reply)

/-- The status of `compress_partial` for the sizes of the views and a reply. -/
def partialStatus (inputSize outSize : Nat) (reply : Reply ZstdCode) : CompressionStatus :=
  match reply.code with
  | .error => .nonFatalError
  | .bytes n =>
    if outSize = reply.produced.length then .outputBufferFull
    else if n ≠ 0 then .needsFlush
    else if reply.consumed = inputSize then .inputBufferFinished else .needsInput

/-- `compress_partial`. -/
def compressPartial (stream : σ) (input : List UInt8) (out : Nat) :
    CompressionResult × σ × Reply ZstdCode :=
  let (stream, reply) := callStream compressStream2 reset .continue input out stream
  (⟨reply.produced.length, reply.consumed, partialStatus input.length out reply⟩, stream, reply)

/-- The variables of the loops of `compress_buffer`. -/
structure BufferLoop (σ : Type) where
  stream : σ
  input : List UInt8
  out : Nat
  totalInputConsumed : Nat
  totalCompressed : Nat
  log : List (Reply ZstdCode)

/-- What a call of the compressor returns: the result, the stream behind it, and the log. -/
abbrev Outcome (σ : Type) := CompressionResult × σ × List (Reply ZstdCode)

/-- The inner loop repeats a call that fails, with the same views. -/
def BufferLoop.retry (t : BufferLoop σ) (stream : σ) (reply : Reply ZstdCode) : BufferLoop σ :=
  { t with stream := stream, log := t.log ++ [reply] }

/-- The views and the totals advance by the counts of a call. -/
def BufferLoop.advance (t : BufferLoop σ) (stream : σ) (reply : Reply ZstdCode) : BufferLoop σ :=
  { stream := stream
    input := t.input.drop reply.consumed
    out := t.out - reply.produced.length
    totalInputConsumed := t.totalInputConsumed + reply.consumed
    totalCompressed := t.totalCompressed + reply.produced.length
    log := t.log ++ [reply] }

/-- What is returned with a status. -/
def BufferLoop.outcome (t : BufferLoop σ) (status : CompressionStatus) : Outcome σ :=
  (⟨t.totalCompressed, t.totalInputConsumed, status⟩, t.stream, t.log)

/-- A round of `compress_buffer`, which is one call of `compress_partial`. The inner loop repeats it
for the same views after an error, the outer one goes on where it has ended. -/
def bufferBody (t : BufferLoop σ) : BufferLoop σ ⊕ Outcome σ :=
  let (r, stream, reply) := compressPartial compressStream2 reset t.stream t.input t.out
  if r.status = .nonFatalError then .inl (t.retry stream reply)
  else if r.status = .needsFlush then .inl (t.advance stream reply)
  -- the returns for `OutputBufferFull` and `FatalError`, and the one behind the loop
  else .inr ((t.advance stream reply).outcome r.status)

/-- `compress_buffer`, for at most `fuel` rounds. -/
def compressBuffer (fuel : Nat) (stream : σ) (input : List UInt8) (out : Nat) :
    Option (Outcome σ) :=
  loop (bufferBody compressStream2 reset) fuel ⟨stream, input, out, 0, 0, []⟩

/-- The variables of the loop of `finish`, with the rest of `i_buf`. -/
structure FinishLoop (σ : Type) where
  stream : σ
  iBuf : List UInt8
  out : Nat
  compressedTotal : Nat
  log : List (Reply ZstdCode)

/-- The views and the total advance by the counts of a call. -/
def FinishLoop.advance (t : FinishLoop σ) (stream : σ) (reply : Reply ZstdCode) : FinishLoop σ :=
  { stream := stream
    iBuf := t.iBuf.drop reply.consumed
    out := t.out - reply.produced.length
    compressedTotal := t.compressedTotal + reply.produced.length
    log := t.log ++ [reply] }

/-- The status behind the loop of `finish`. -/
def finishStatus (bytes out : Nat) : CompressionStatus :=
  if bytes ≠ 0 then .needsFlush
  else if out = 0 then .outputBufferFull else .inputBufferFinished

/-- A round of the loop of `finish`. -/
def finishBody (t : FinishLoop σ) : FinishLoop σ ⊕ Outcome σ :=
  let (stream, reply) := callStream compressStream2 reset .end t.iBuf t.out t.stream
  match reply.code with
  | .error => .inr (⟨t.compressedTotal, 0, .nonFatalError⟩, stream, t.log ++ [reply])
  | .bytes n =>
    let t' := t.advance stream reply
    if n ≠ 0 ∧ t'.out > 0 then .inl t'
    else .inr (⟨t'.compressedTotal, 0, finishStatus n t'.out⟩, stream, t'.log)

/-- `finish`, for at most `fuel` rounds of its loop. -/
def finish (fuel : Nat) (stream : σ) (input : List UInt8) (out : Nat) : Option (Outcome σ) :=
  loop (finishBody compressStream2 reset) fuel ⟨stream, input, out, 0, []⟩

/-- One call, for at most `fuel` rounds of its loop. -/
def call (fuel : Nat) (stream : σ) : Op → Option (Outcome σ)
  | .compressPartial input out =>
    let (r, stream, reply) := compressPartial compressStream2 reset stream input out
    some (r, stream, [reply])
  | .compressBuffer input out => compressBuffer compressStream2 reset fuel stream input out
  | .finish input out => finish compressStream2 reset fuel stream input out

/-! ## Rounds -/

variable {compressStream2 reset} {stream : σ} {reply : Reply ZstdCode}

/-- The status of a failing call, and of no other. -/
theorem partialStatus_eq_nonFatalError {inputSize outSize : Nat} :
    partialStatus inputSize outSize reply = .nonFatalError ↔ reply.code = .error := by
  unfold partialStatus
  cases hcode : reply.code with
  | error => exact iff_of_true rfl rfl
  | bytes n =>
    refine iff_of_false ?_ ZstdCode.noConfusion
    dsimp only
    split
    · exact CompressionStatus.noConfusion
    split
    · exact CompressionStatus.noConfusion
    split <;> exact CompressionStatus.noConfusion

/-- The call of the library in a round of `compress_buffer`. -/
def BufferLoop.call (compressStream2 : Codec σ ZstdEndDirective ZstdCode) (reset : σ → σ)
    (t : BufferLoop σ) : σ × Reply ZstdCode :=
  callStream compressStream2 reset .continue t.input t.out t.stream

/-- The call of the library in a round of `finish`. -/
def FinishLoop.call (compressStream2 : Codec σ ZstdEndDirective ZstdCode) (reset : σ → σ)
    (t : FinishLoop σ) : σ × Reply ZstdCode :=
  callStream compressStream2 reset .end t.iBuf t.out t.stream

theorem bufferBody_eq (t : BufferLoop σ) : bufferBody compressStream2 reset t =
    if (t.call compressStream2 reset).2.code = .error then
      .inl (t.retry (t.call compressStream2 reset).1 (t.call compressStream2 reset).2)
    else if partialStatus t.input.length t.out (t.call compressStream2 reset).2 = .needsFlush then
      .inl (t.advance (t.call compressStream2 reset).1 (t.call compressStream2 reset).2)
    else .inr ((t.advance (t.call compressStream2 reset).1
      (t.call compressStream2 reset).2).outcome
        (partialStatus t.input.length t.out (t.call compressStream2 reset).2)) :=
  if_congr partialStatus_eq_nonFatalError rfl rfl

theorem bufferBody_eq_inl {t t' : BufferLoop σ}
    (h : bufferBody compressStream2 reset t = .inl t') :
    ((t.call compressStream2 reset).2.code = .error ∧
      t' = t.retry (t.call compressStream2 reset).1 (t.call compressStream2 reset).2) ∨
    ((t.call compressStream2 reset).2.code ≠ .error ∧
      partialStatus t.input.length t.out (t.call compressStream2 reset).2 = .needsFlush ∧
      t' = t.advance (t.call compressStream2 reset).1 (t.call compressStream2 reset).2) := by
  rw [bufferBody_eq] at h
  split at h
  · rename_i hcode
    cases h
    exact Or.inl ⟨hcode, rfl⟩
  · rename_i hcode
    split at h
    · rename_i hflush
      cases h
      exact Or.inr ⟨hcode, hflush, rfl⟩
    · cases h

theorem bufferBody_eq_inr {t : BufferLoop σ} {o : Outcome σ}
    (h : bufferBody compressStream2 reset t = .inr o) :
    (t.call compressStream2 reset).2.code ≠ .error ∧ ∃ status,
      o = (t.advance (t.call compressStream2 reset).1
        (t.call compressStream2 reset).2).outcome status := by
  rw [bufferBody_eq] at h
  split at h
  · cases h
  · rename_i hcode
    split at h
    · cases h
    · cases h
      exact ⟨hcode, _, rfl⟩

theorem finishBody_eq_inl {t t' : FinishLoop σ}
    (h : finishBody compressStream2 reset t = .inl t') :
    (∃ n, (t.call compressStream2 reset).2.code = .bytes n ∧ n ≠ 0) ∧
      t' = t.advance (t.call compressStream2 reset).1 (t.call compressStream2 reset).2 := by
  unfold finishBody at h
  split at h
  rename_i stream reply hcall
  rw [FinishLoop.call, hcall]
  split at h
  · cases h
  · rename_i n hcode
    dsimp only at h
    split at h
    · rename_i hgo
      cases h
      exact ⟨⟨n, hcode, hgo.1⟩, rfl⟩
    · cases h

theorem finishBody_eq_inr {t : FinishLoop σ} {o : Outcome σ}
    (h : finishBody compressStream2 reset t = .inr o) :
    ((t.call compressStream2 reset).2.code = .error ∧
      o = (⟨t.compressedTotal, 0, .nonFatalError⟩, (t.call compressStream2 reset).1,
        t.log ++ [(t.call compressStream2 reset).2])) ∨
    ((t.call compressStream2 reset).2.code ≠ .error ∧ ∃ status,
      o = (⟨(t.advance (t.call compressStream2 reset).1
          (t.call compressStream2 reset).2).compressedTotal, 0, status⟩,
        (t.call compressStream2 reset).1, t.log ++ [(t.call compressStream2 reset).2])) := by
  unfold finishBody at h
  split at h
  rename_i stream reply hcall
  rw [FinishLoop.call, hcall]
  split at h
  · rename_i hcode
    cases h
    exact Or.inl ⟨hcode, rfl⟩
  · rename_i n hcode
    dsimp only at h
    split at h
    · cases h
    · cases h
      exact Or.inr ⟨fun herror => ZstdCode.noConfusion (hcode.symm.trans herror), _, rfl⟩

end ZSTDCompressor

end Csics.Compression
