import Csics.Compression.ZLIBCompressor
import Csics.Compression.ZSTDCompressor

/-!
# What the results count

A caller advances its views by the counts of a result. `compress_partial` reports what one call of
the library has done, and `compress_buffer` of the zlib compressor the sum of its rounds.
`compress_buffer` of the zstd compressor leaves out the calls that failed. `finish` reports no input
at all, and on its ways out without the end of the stream nothing of the output (zlib), or not what
the failing call has put (zstd).

`accounts_iff` says for every codec when the counts of a call are right. The condition is about the
replies that the call has got from the library.
-/

namespace Csics.Compression

open Base

/-! ## zlib -/

namespace ZLIBCompressor

/-- The replies to a call for which its counts are right: `finish` has not made the library take
anything, nor put anything unless the stream has ended. -/
def Counted : Op → List (Reply ZlibCode) → Prop
  | .finish _ _, log =>
    consumed log = 0 ∧ (produced log = 0 ∨ ∃ r ∈ log.getLast?, r.code = .streamEnd)
  | .compressPartial _ _, _ => True
  | .compressBuffer _ _, _ => True

variable {σ : Type} {deflate : Codec σ ZlibFlush ZlibCode} {s : ZLIBCompressor σ} {fuel : Nat}
  {input : List UInt8} {out : Nat} {outcome : Outcome σ} {reply : Reply ZlibCode}

/-- One call of the library is counted. -/
theorem accounts_compressPartial :
    Accounts (compressPartial deflate s input out).1
      [(compressPartial deflate s input out).2.2] := by
  constructor <;> simp [compressPartial, produced, consumed]

/-- The totals are those of the log. -/
def BufferLoop.Tallies (t : BufferLoop σ) : Prop :=
  t.totalCompressed = produced t.log ∧ t.totalConsumed = consumed t.log

theorem BufferLoop.Tallies.advance {t : BufferLoop σ} (h : t.Tallies) (zstream : σ)
    (reply : Reply ZlibCode) : (t.advance zstream reply).Tallies := by
  obtain ⟨hcompressed, hconsumed⟩ := h
  constructor
  · simp only [BufferLoop.advance, produced_concat, hcompressed]
  · simp only [BufferLoop.advance, consumed_concat, hconsumed]

theorem accounts_compressBuffer (h : compressBuffer deflate fuel s input out = some outcome) :
    Accounts outcome.1 outcome.2.2 := by
  refine Loop.induction (I := BufferLoop.Tallies) (Q := fun o : Outcome σ => Accounts o.1 o.2.2)
    ?_ ?_ ⟨rfl, rfl⟩ h
  · intro t t' htally hbody
    obtain ⟨-, rfl⟩ := bufferBody_eq_inl.mp hbody
    exact htally.advance _ _
  · intro t o htally hbody
    rw [bufferBody_eq_inr hbody]
    exact htally.advance (t.call deflate).1 (t.call deflate).2

/-- `next_out` is behind what has been put. -/
def FinishLoop.Tallies (t : FinishLoop σ) : Prop := t.nextOut = produced t.log

theorem FinishLoop.Tallies.advance {t : FinishLoop σ} (h : t.Tallies) (zstream : σ)
    (reply : Reply ZlibCode) : (t.advance zstream reply).Tallies := by
  unfold Tallies at h ⊢
  simp only [FinishLoop.advance, produced_concat, h]

theorem exists_getLast_iff {log : List (Reply ZlibCode)} :
    (∃ r ∈ (log ++ [reply]).getLast?, r.code = .streamEnd) ↔ reply.code = .streamEnd := by
  simp

theorem accounts_finish_iff (h : finish deflate fuel s input out = some outcome) :
    Accounts outcome.1 outcome.2.2 ↔ Counted (.finish input out) outcome.2.2 := by
  unfold finish at h
  split at h
  · cases h
    exact iff_of_true ⟨rfl, rfl⟩ ⟨rfl, Or.inl rfl⟩
  refine Loop.induction (I := FinishLoop.Tallies)
    (Q := fun o : Outcome σ => Accounts o.1 o.2.2 ↔ Counted (.finish input out) o.2.2)
    ?_ ?_ (show FinishLoop.Tallies ⟨_, _, 0, _, []⟩ from rfl) h
  · intro t t' htally hbody
    obtain ⟨-, rfl⟩ := finishBody_eq_inl.mp hbody
    exact htally.advance _ _
  · intro t o htally hbody
    rcases finishBody_eq_inr hbody with ⟨hcode, status, rfl⟩ | ⟨hcode, rfl⟩
    · simp only [Accounts, Counted, FinishLoop.outcome, FinishLoop.advance, exists_getLast_iff,
        hcode, or_false]
      rw [and_comm, eq_comm (a := 0), eq_comm (a := 0)]
    · have hput := htally.advance (t.call deflate).1 (t.call deflate).2
      simp only [FinishLoop.Tallies, FinishLoop.advance] at hput
      simp only [Accounts, Counted, FinishLoop.outcome, FinishLoop.advance, exists_getLast_iff,
        hcode, or_true, and_true, hput, true_and]
      rw [eq_comm]

theorem accounts_call_iff {op : Op} (h : call deflate fuel s op = some outcome) :
    Accounts outcome.1 outcome.2.2 ↔ Counted op outcome.2.2 := by
  cases op with
  | compressPartial input out =>
    cases h
    exact iff_of_true accounts_compressPartial trivial
  | compressBuffer input out => exact iff_of_true (accounts_compressBuffer h) trivial
  | finish input out => exact accounts_finish_iff h

end ZLIBCompressor

/-! ## zstd -/

namespace ZSTDCompressor

/-- The replies to a call for which its counts are right: a failing call has moved nothing, and
`finish` has not made the library take anything. -/
def Counted : Op → List (Reply ZstdCode) → Prop
  | .compressPartial _ _, _ => True
  | .compressBuffer _ _, log => ∀ r ∈ log, r.code = .error → r.moved = 0
  | .finish _ _, log => consumed log = 0 ∧ ∀ r ∈ log, r.code = .error → r.produced = []

/-- The calls that failed. -/
def failed (log : List (Reply ZstdCode)) : List (Reply ZstdCode) :=
  log.filter fun r => r.code = .error

variable {σ : Type} {compressStream2 : Codec σ ZstdEndDirective ZstdCode} {reset : σ → σ}
  {stream : σ} {fuel : Nat} {input : List UInt8} {out : Nat} {outcome : Outcome σ}
  {log : List (Reply ZstdCode)} {reply : Reply ZstdCode}

theorem failed_concat_of_eq (h : reply.code = .error) :
    failed (log ++ [reply]) = failed log ++ [reply] := by
  simp [failed, h]

theorem failed_concat_of_ne (h : reply.code ≠ .error) : failed (log ++ [reply]) = failed log := by
  simp [failed, h]

theorem produced_failed_eq_zero :
    produced (failed log) = 0 ↔ ∀ r ∈ log, r.code = .error → r.produced = [] := by
  simp [produced_eq_zero, failed]

theorem consumed_failed_eq_zero :
    consumed (failed log) = 0 ↔ ∀ r ∈ log, r.code = .error → r.consumed = 0 := by
  simp [consumed_eq_zero, failed]

variable (compressStream2 reset) in
theorem accounts_compressPartial :
    Accounts (compressPartial compressStream2 reset stream input out).1
      [(compressPartial compressStream2 reset stream input out).2.2] := by
  constructor <;> simp [compressPartial, produced, consumed]

/-- The totals leave out the calls that failed. -/
def BufferLoop.Tallies (t : BufferLoop σ) : Prop :=
  t.totalCompressed + produced (failed t.log) = produced t.log ∧
    t.totalInputConsumed + consumed (failed t.log) = consumed t.log

theorem BufferLoop.Tallies.retry {t : BufferLoop σ} (h : t.Tallies) (hcode : reply.code = .error) :
    (t.retry stream reply).Tallies := by
  obtain ⟨hproduced, hconsumed⟩ := h
  constructor
  · simp only [BufferLoop.retry, failed_concat_of_eq hcode, produced_concat]
    omega
  · simp only [BufferLoop.retry, failed_concat_of_eq hcode, consumed_concat]
    omega

theorem BufferLoop.Tallies.advance {t : BufferLoop σ} (h : t.Tallies)
    (hcode : reply.code ≠ .error) : (t.advance stream reply).Tallies := by
  obtain ⟨hproduced, hconsumed⟩ := h
  constructor
  · simp only [BufferLoop.advance, failed_concat_of_ne hcode, produced_concat]
    omega
  · simp only [BufferLoop.advance, failed_concat_of_ne hcode, consumed_concat]
    omega

/-- The totals are right if the calls that failed have moved nothing. -/
theorem BufferLoop.Tallies.accounts_outcome_iff {t : BufferLoop σ} (h : t.Tallies)
    (status : CompressionStatus) :
    Accounts (t.outcome status).1 t.log ↔ Counted (.compressBuffer input out) t.log := by
  obtain ⟨hproduced, hconsumed⟩ := h
  have hfailed : Accounts (t.outcome status).1 t.log ↔
      produced (failed t.log) = 0 ∧ consumed (failed t.log) = 0 := by
    simp only [Accounts, BufferLoop.outcome]
    omega
  rw [hfailed, produced_failed_eq_zero, consumed_failed_eq_zero]
  constructor
  · rintro ⟨hput, htaken⟩ r hr hcode
    exact Reply.moved_eq_zero.mpr ⟨htaken r hr hcode, hput r hr hcode⟩
  · intro hcounted
    exact ⟨fun r hr hcode => (Reply.moved_eq_zero.mp (hcounted r hr hcode)).2,
      fun r hr hcode => (Reply.moved_eq_zero.mp (hcounted r hr hcode)).1⟩

theorem accounts_compressBuffer_iff
    (h : compressBuffer compressStream2 reset fuel stream input out = some outcome) :
    Accounts outcome.1 outcome.2.2 ↔ Counted (.compressBuffer input out) outcome.2.2 := by
  refine Loop.induction (I := BufferLoop.Tallies)
    (Q := fun o : Outcome σ => Accounts o.1 o.2.2 ↔ Counted (.compressBuffer input out) o.2.2)
    ?_ ?_ ⟨rfl, rfl⟩ h
  · intro t t' htally hbody
    rcases bufferBody_eq_inl hbody with ⟨hcode, rfl⟩ | ⟨hcode, -, rfl⟩
    · exact htally.retry hcode
    · exact htally.advance hcode
  · intro t o htally hbody
    obtain ⟨hcode, status, rfl⟩ := bufferBody_eq_inr hbody
    exact (htally.advance hcode).accounts_outcome_iff status

/-- The total is what has been put, and no call has failed so far. -/
def FinishLoop.Tallies (t : FinishLoop σ) : Prop :=
  t.compressedTotal = produced t.log ∧ ∀ r ∈ t.log, r.code ≠ .error

theorem FinishLoop.Tallies.advance {t : FinishLoop σ} (h : t.Tallies)
    (stream : σ) (hcode : reply.code ≠ .error) : (t.advance stream reply).Tallies := by
  obtain ⟨hproduced, hnone⟩ := h
  constructor
  · simp only [FinishLoop.advance, produced_concat, hproduced]
  · intro r hr
    rcases List.mem_append.mp hr with hr | hr
    · exact hnone r hr
    · rw [List.mem_singleton.mp hr]
      exact hcode

/-- Without a call that fails only the input is missing. -/
theorem FinishLoop.Tallies.accounts_outcome_iff {t : FinishLoop σ} (h : t.Tallies)
    (status : CompressionStatus) :
    Accounts ⟨t.compressedTotal, 0, status⟩ t.log ↔ Counted (.finish input out) t.log := by
  obtain ⟨hproduced, hnone⟩ := h
  have hcodes : ∀ r ∈ t.log, r.code = .error → r.produced = [] := by
    intro r hr hcode
    exact absurd hcode (hnone r hr)
  simp only [Accounts, Counted, hproduced, true_and]
  rw [and_iff_left hcodes, eq_comm]

/-- A failing call is left out with what it has put. -/
theorem FinishLoop.Tallies.accounts_error_iff {t : FinishLoop σ} (h : t.Tallies)
    (hcode : reply.code = .error) :
    Accounts ⟨t.compressedTotal, 0, .nonFatalError⟩ (t.log ++ [reply]) ↔
      Counted (.finish input out) (t.log ++ [reply]) := by
  obtain ⟨hproduced, hnone⟩ := h
  have hput : (∀ r ∈ t.log ++ [reply], r.code = .error → r.produced = []) ↔
      reply.produced = [] := by
    constructor
    · intro hall
      exact hall reply (List.mem_append_right _ (List.mem_singleton_self _)) hcode
    · intro hempty r hr hr'
      rcases List.mem_append.mp hr with hr | hr
      · exact absurd hr' (hnone r hr)
      · rw [List.mem_singleton.mp hr, hempty]
  simp only [Accounts, Counted, hput, produced_concat, hproduced]
  rw [and_comm, eq_comm (a := 0), ← List.length_eq_zero_iff]
  apply and_congr_right
  intro _
  omega

theorem accounts_finish_iff
    (h : finish compressStream2 reset fuel stream input out = some outcome) :
    Accounts outcome.1 outcome.2.2 ↔ Counted (.finish input out) outcome.2.2 := by
  refine Loop.induction (I := FinishLoop.Tallies)
    (Q := fun o : Outcome σ => Accounts o.1 o.2.2 ↔ Counted (.finish input out) o.2.2)
    ?_ ?_ ⟨rfl, fun r hr => absurd hr List.not_mem_nil⟩ h
  · intro t t' htally hbody
    obtain ⟨⟨n, hcode, -⟩, rfl⟩ := finishBody_eq_inl hbody
    exact htally.advance _ fun herror => ZstdCode.noConfusion (hcode.symm.trans herror)
  · intro t o htally hbody
    rcases finishBody_eq_inr hbody with ⟨hcode, rfl⟩ | ⟨hcode, status, rfl⟩
    · exact htally.accounts_error_iff hcode
    · exact (htally.advance t.stream hcode).accounts_outcome_iff status

theorem accounts_call_iff {op : Op} (h : call compressStream2 reset fuel stream op = some outcome) :
    Accounts outcome.1 outcome.2.2 ↔ Counted op outcome.2.2 := by
  cases op with
  | compressPartial input out =>
    cases h
    exact iff_of_true (accounts_compressPartial compressStream2 reset) trivial
  | compressBuffer input out => exact accounts_compressBuffer_iff h
  | finish input out => exact accounts_finish_iff h

end ZSTDCompressor

/-! ## Both compressors -/

/-- The counts of every call that returns are right, if and only if its replies meet the condition
of the operation. -/
theorem accounts_iff {σ τ : Type} (deflate : Codec σ ZlibFlush ZlibCode)
    (compressStream2 : Codec τ ZstdEndDirective ZstdCode) (reset : τ → τ) (fuel : Nat) (op : Op) :
    (∀ (s : ZLIBCompressor σ) (outcome : ZLIBCompressor.Outcome σ),
      ZLIBCompressor.call deflate fuel s op = some outcome →
        (Accounts outcome.1 outcome.2.2 ↔ ZLIBCompressor.Counted op outcome.2.2)) ∧
    (∀ (stream : τ) (outcome : ZSTDCompressor.Outcome τ),
      ZSTDCompressor.call compressStream2 reset fuel stream op = some outcome →
        (Accounts outcome.1 outcome.2.2 ↔ ZSTDCompressor.Counted op outcome.2.2)) :=
  ⟨fun _ _ h => ZLIBCompressor.accounts_call_iff h,
    fun _ _ h => ZSTDCompressor.accounts_call_iff h⟩

/-- A library that stores the bytes as they are. A stream that has ended takes no more. -/
def storeDeflate : Codec Bool ZlibFlush ZlibCode where
  call
    | true, .noFlush, _, _ => (true, ⟨0, [], .streamError⟩)
    | true, .finish, input, _ => (true, ⟨0, [], if input = [] then .streamEnd else .bufError⟩)
    | false, mode, input, room =>
      (decide (mode = .finish ∧ input.length ≤ room),
        ⟨min input.length room, input.take room,
          if mode = .finish ∧ input.length ≤ room then .streamEnd
          else if min input.length room = 0 then .bufError else .ok⟩)
  consumed_le z mode input room := by
    cases z with
    | true => cases mode <;> exact Nat.zero_le _
    | false => cases mode <;> exact Nat.min_le_left _ _
  produced_le z mode input room := by
    cases z with
    | true => cases mode <;> exact Nat.zero_le _
    | false => cases mode <;> exact List.length_take_le _ _

/-- A library that stores the bytes as they are, and fails without room for any. -/
def storeStream : Codec Unit ZstdEndDirective ZstdCode where
  call _ _ input room :=
    ((), ⟨min input.length room, input.take room,
      if room = 0 ∧ input ≠ [] then .error else .bytes (input.length - room)⟩)
  consumed_le _ _ _ _ := Nat.min_le_left _ _
  produced_le _ _ _ _ := List.length_take_le _ _

/-- All bytes are stored, and counted. -/
theorem accounts_iff_store :
    (∃ o, ZLIBCompressor.call storeDeflate 1 (.init false) (.compressBuffer [1, 2, 3] 5) = some o ∧
      o.1 = ⟨3, 3, .needsInput⟩ ∧ Accounts o.1 o.2.2) ∧
    ∃ o, ZSTDCompressor.call storeStream id 1 () (.compressBuffer [1, 2, 3] 5) = some o ∧
      o.1 = ⟨3, 3, .inputBufferFinished⟩ ∧ Accounts o.1 o.2.2 := by
  have hcounted := accounts_iff storeDeflate storeStream id 1 (.compressBuffer [1, 2, 3] 5)
  refine ⟨⟨_, rfl, rfl, (hcounted.1 (.init false) _ rfl).mpr trivial⟩,
    ⟨_, rfl, rfl, (hcounted.2 () _ rfl).mpr ?_⟩⟩
  intro r hr hcode
  obtain rfl := List.mem_singleton.mp hr
  cases hcode

/-- The output is full before the stream has ended: two bytes have been taken and put, and `finish`
reports none of them. -/
theorem not_accounts_full :
    ∃ o, ZLIBCompressor.call storeDeflate 2 (.init false) (.finish [1, 2, 3] 2) = some o ∧
      o.1 = ⟨0, 0, .outputBufferFull⟩ ∧ produced o.2.2 = 2 ∧ consumed o.2.2 = 2 ∧
      ¬ Accounts o.1 o.2.2 :=
  ⟨_, rfl, rfl, rfl, rfl, by decide⟩

end Csics.Compression
