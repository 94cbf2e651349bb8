import Csics.Base.Run
import Csics.Compression.Accounting

/-!
# Which calls return

A library moves a byte with every call, or says that it did not. Then a loop around it ends, unless
it goes round again for an answer that the library gives for ever. The loops do so for different
answers. `compress_buffer` of the zlib compressor goes on after `Z_STREAM_ERROR` and `Z_STREAM_END`,
and with input and output left after `Z_BUF_ERROR`. `finish` goes on after `Z_BUF_ERROR` while there
is output left: its state `Finished` is never set, so that it runs again on a stream that has ended.
`compress_buffer` of the zstd compressor repeats a call that fails. Its `finish` always returns.

`run_returns_iff` says for every order of calls that all of them return, if and only if none of them
gets to where the library refuses to go on.
-/

namespace Csics.Compression

open Base

/-! ## zlib -/

namespace ZLIBCompressor

variable {σ : Type} (deflate : Codec σ ZlibFlush ZlibCode)

/-- The codes with which `deflate` says that it has done nothing. -/
def Refusal (code : ZlibCode) : Prop :=
  code = .bufError ∨ code = .streamError ∨ code = .streamEnd

/-- A reply after which `compress_buffer` is where it was. -/
def BufferRefusal (input : List UInt8) (out : Nat) (r : Reply ZlibCode) : Prop :=
  r.moved = 0 ∧ (r.code = .streamError ∨ r.code = .streamEnd ∨
    r.code = .bufError ∧ availIn input ≠ [] ∧ availOut out ≠ 0)

/-- A reply after which `finish` is where it was. -/
def FinishRefusal (availOut : Nat) (r : Reply ZlibCode) : Prop :=
  r.moved = 0 ∧ r.code = .bufError ∧ availOut ≠ 0

/-- The call gets to where `deflate` refuses for ever. -/
def Stalls (s : ZLIBCompressor σ) : Op → Prop
  | .compressPartial _ _ => False
  | .compressBuffer input out =>
    ∃ t, Loop.Reaches (bufferBody deflate) ⟨s, input, out, 0, 0, []⟩ t ∧
      Refuses (fun z => deflate.call z .noFlush (availIn t.input) (availOut t.out))
        (BufferRefusal t.input t.out) t.compressor.zstream
  | .finish input out =>
    s.state ≠ .finished ∧
    ∃ t, Loop.Reaches (finishBody deflate) ⟨s.zstream, availIn input, 0, availOut out, []⟩ t ∧
      Refuses (fun z => deflate.call z .finish t.nextIn t.availOut) (FinishRefusal t.availOut)
        t.zstream

/-- The call comes to an end. -/
def Returns (s : ZLIBCompressor σ) (op : Op) : Prop :=
  ∃ fuel outcome, call deflate fuel s op = some outcome

variable {deflate} {s : ZLIBCompressor σ} {op : Op} {input : List UInt8} {out : Nat}

/-! ### `compress_buffer` -/

/-- What is left of both views. -/
def BufferLoop.left (t : BufferLoop σ) : Nat := t.input.length + t.out

variable (deflate) in
theorem BufferLoop.left_advance (t : BufferLoop σ) :
    (t.advance (t.call deflate).1 (t.call deflate).2).left + (t.call deflate).2.moved =
      t.left := by
  have hconsumed : (t.call deflate).2.consumed ≤ (availIn t.input).length :=
    deflate.consumed_le _ _ _ _
  have hproduced : (t.call deflate).2.produced.length ≤ availOut t.out :=
    deflate.produced_le _ _ _ _
  have hin := length_availIn_le t.input
  have hout : availOut t.out ≤ t.out := Nat.mod_le _ _
  simp only [left, advance, List.length_drop, Reply.moved]
  omega

/-- A reply without progress leaves `compress_buffer` where it was, unless it ends the loop. -/
theorem bufferRefusal_iff {t : BufferLoop σ} {r : Reply ZlibCode} (hmoved : r.moved = 0)
    (hcode : Refusal r.code) : BufferRefusal t.input t.out r ↔ ¬ Leaves (t.status r) := by
  obtain ⟨hconsumed, hproduced⟩ := Reply.moved_eq_zero.mp hmoved
  rw [BufferRefusal, and_iff_right hmoved]
  rcases hcode with hcode | hcode | hcode
  · by_cases hout : availOut t.out = 0
    · simp [Leaves, BufferLoop.status, partialStatus, hcode, hproduced, hout]
    · by_cases hin : availIn t.input = []
      · simp [Leaves, BufferLoop.status, partialStatus, hcode, hconsumed, hproduced, hout, hin]
      · simp [Leaves, BufferLoop.status, partialStatus, hcode, hconsumed, hproduced, hout, hin]
  · simp [Leaves, BufferLoop.status, partialStatus, hcode]
  · simp [Leaves, BufferLoop.status, partialStatus, hcode]

theorem BufferRefusal.refusal {r : Reply ZlibCode} (h : BufferRefusal input out r) :
    Refusal r.code := by
  rcases h.2 with hcode | hcode | ⟨hcode, -⟩
  · exact Or.inr (Or.inl hcode)
  · exact Or.inr (Or.inr hcode)
  · exact Or.inl hcode

/-- Where `compress_buffer` idles `deflate` refuses, and conversely. -/
theorem idles_bufferBody_iff (h : deflate.Progressive Refusal) (t : BufferLoop σ) :
    Loop.Idles (bufferBody deflate) BufferLoop.left t ↔
      Refuses (fun z => deflate.call z .noFlush (availIn t.input) (availOut t.out))
        (BufferRefusal t.input t.out) t.compressor.zstream := by
  refine idles_iff (fun u : BufferLoop σ => u.compressor.zstream)
    (P := fun u => u.input = t.input ∧ u.out = t.out) ⟨rfl, rfl⟩ ?_ ?_
  · rintro u ⟨hin, hout⟩
    rw [← hin, ← hout]
    have hleft := u.left_advance deflate
    constructor
    · intro hrefusal
      have hmoved : (u.call deflate).2.moved = 0 := hrefusal.1
      refine ⟨_, bufferBody_eq_inl.mpr
        ⟨(bufferRefusal_iff hmoved hrefusal.refusal).mp hrefusal, rfl⟩, ?_⟩
      omega
    · rintro ⟨u', hbody, hsame⟩
      obtain ⟨hleaves, rfl⟩ := bufferBody_eq_inl.mp hbody
      have hmoved : (u.call deflate).2.moved = 0 := by omega
      have hcode : Refusal (u.call deflate).2.code := (h _ _ _ _).resolve_left (by
        rw [← BufferLoop.call, hmoved]
        exact Nat.lt_irrefl 0)
      exact (bufferRefusal_iff hmoved hcode).mpr hleaves
  · rintro u u' ⟨hin, hout⟩ hbody hsame
    obtain ⟨-, rfl⟩ := bufferBody_eq_inl.mp hbody
    have hleft := u.left_advance deflate
    obtain ⟨hconsumed, hproduced⟩ := Reply.moved_eq_zero.mp
      (show (u.call deflate).2.moved = 0 by omega)
    refine ⟨⟨?_, ?_⟩, ?_⟩
    · simp [BufferLoop.advance, hconsumed, hin]
    · simp [BufferLoop.advance, hproduced, hout]
    · rw [← hin, ← hout]
      rfl

theorem returns_compressBuffer_iff (h : deflate.Progressive Refusal) :
    Returns deflate s (.compressBuffer input out) ↔
      ¬ Stalls deflate s (.compressBuffer input out) := by
  have hle : ∀ t t', bufferBody deflate t = .inl t' → t'.left ≤ t.left := by
    intro t t' hbody
    obtain ⟨-, rfl⟩ := bufferBody_eq_inl.mp hbody
    have hleft := t.left_advance deflate
    omega
  refine (Loop.returns_iff hle).trans ?_
  simp only [idles_bufferBody_iff h, Stalls, not_exists, not_and]

/-! ### `finish` -/

/-- What is left of both views. -/
def FinishLoop.left (t : FinishLoop σ) : Nat := t.nextIn.length + t.availOut

variable (deflate) in
theorem FinishLoop.left_advance (t : FinishLoop σ) :
    (t.advance (t.call deflate).1 (t.call deflate).2).left + (t.call deflate).2.moved =
      t.left := by
  have hconsumed : (t.call deflate).2.consumed ≤ t.nextIn.length := deflate.consumed_le _ _ _ _
  have hproduced : (t.call deflate).2.produced.length ≤ t.availOut := deflate.produced_le _ _ _ _
  simp only [left, advance, List.length_drop, Reply.moved]
  omega

/-- Where `finish` idles `deflate` refuses, and conversely. -/
theorem idles_finishBody_iff (h : deflate.Progressive Refusal) (t : FinishLoop σ) :
    Loop.Idles (finishBody deflate) FinishLoop.left t ↔
      Refuses (fun z => deflate.call z .finish t.nextIn t.availOut) (FinishRefusal t.availOut)
        t.zstream := by
  refine idles_iff FinishLoop.zstream
    (P := fun u => u.nextIn = t.nextIn ∧ u.availOut = t.availOut) ⟨rfl, rfl⟩ ?_ ?_
  · rintro u ⟨hin, hout⟩
    rw [← hin, ← hout]
    have hleft := u.left_advance deflate
    constructor
    · rintro ⟨hmoved, hcode, hroom⟩
      have hcall : (u.call deflate).2.moved = 0 := hmoved
      obtain ⟨-, hproduced⟩ := Reply.moved_eq_zero.mp hcall
      refine ⟨_, finishBody_eq_inl.mpr ⟨Or.inr ⟨hcode, ?_⟩, rfl⟩, ?_⟩
      · simpa [FinishLoop.advance, hproduced] using hroom
      · omega
    · rintro ⟨u', hbody, hsame⟩
      obtain ⟨hgo, rfl⟩ := finishBody_eq_inl.mp hbody
      have hmoved : (u.call deflate).2.moved = 0 := by omega
      obtain ⟨-, hproduced⟩ := Reply.moved_eq_zero.mp hmoved
      have hcode : Refusal (u.call deflate).2.code := (h _ _ _ _).resolve_left (by
        rw [← FinishLoop.call, hmoved]
        exact Nat.lt_irrefl 0)
      rcases hgo with hok | ⟨hbuf, hroom⟩
      · simp [Refusal, hok] at hcode
      · refine ⟨hmoved, hbuf, ?_⟩
        simpa [FinishLoop.advance, hproduced] using hroom
  · rintro u u' ⟨hin, hout⟩ hbody hsame
    obtain ⟨-, rfl⟩ := finishBody_eq_inl.mp hbody
    have hleft := u.left_advance deflate
    obtain ⟨hconsumed, hproduced⟩ := Reply.moved_eq_zero.mp
      (show (u.call deflate).2.moved = 0 by omega)
    refine ⟨⟨?_, ?_⟩, ?_⟩
    · simp [FinishLoop.advance, hconsumed, hin]
    · simp [FinishLoop.advance, hproduced, hout]
    · rw [← hin, ← hout]
      rfl

theorem returns_finish_iff (h : deflate.Progressive Refusal) :
    Returns deflate s (.finish input out) ↔ ¬ Stalls deflate s (.finish input out) := by
  by_cases hstate : s.state = .finished
  · refine iff_of_true ⟨0, _, if_pos hstate⟩ ?_
    rintro ⟨hne, -⟩
    exact hne hstate
  · have hle : ∀ t t', finishBody deflate t = .inl t' → t'.left ≤ t.left := by
      intro t t' hbody
      obtain ⟨-, rfl⟩ := finishBody_eq_inl.mp hbody
      have hleft := t.left_advance deflate
      omega
    have hloop : Returns deflate s (.finish input out) ↔ Loop.Returns (finishBody deflate)
        ⟨s.zstream, availIn input, 0, availOut out, []⟩ := by
      simp only [Returns, Loop.Returns, call, finish, if_neg hstate]
    rw [hloop, Loop.returns_iff hle]
    simp only [idles_finishBody_iff h, Stalls, not_exists, not_and, ne_eq, hstate,
      not_false_eq_true, forall_const]

/-- A call returns unless it gets to where `deflate` refuses for ever. -/
theorem returns_iff (h : deflate.Progressive Refusal) : Returns deflate s op ↔
    ¬ Stalls deflate s op := by
  cases op with
  | compressPartial input out => exact iff_of_true ⟨0, _, rfl⟩ not_false
  | compressBuffer input out => exact returns_compressBuffer_iff h
  | finish input out => exact returns_finish_iff h

/-! ### Sequences of calls -/

theorem call_unique {fuel fuel' : Nat} {o o' : Outcome σ} (h : call deflate fuel s op = some o)
    (h' : call deflate fuel' s op = some o') : o = o' := by
  cases op with
  | compressPartial input out => exact Option.some.inj (h.symm.trans h')
  | compressBuffer input out => exact Loop.eq_of_loop h h'
  | finish input out =>
    by_cases hstate : s.state = .finished
    · have hvalue : ∀ fuel, call deflate fuel s (.finish input out) =
          some (⟨0, 0, .invalidState⟩, s, []) := fun fuel => if_pos hstate
      rw [hvalue] at h h'
      exact Option.some.inj (h.symm.trans h')
    · have hloop : ∀ fuel, call deflate fuel s (.finish input out) =
          loop (finishBody deflate) fuel ⟨s.zstream, availIn input, 0, availOut out, []⟩ :=
        fun fuel => if_neg hstate
      rw [hloop] at h h'
      exact Loop.eq_of_loop h h'

variable (deflate) in
/-- The compressor behind a call, if it returns. -/
noncomputable def step (s : ZLIBCompressor σ) (op : Op) : Option (ZLIBCompressor σ) :=
  (Loop.value fun fuel => call deflate fuel s op).map fun o => o.2.1

theorem step_of_call (fuel : Nat) {o : Outcome σ} (h : call deflate fuel s op = some o) :
    step deflate s op = some o.2.1 := by
  have hvalue : Loop.value (fun fuel => call deflate fuel s op) = some o :=
    (Loop.value_eq_some fun _ _ _ _ => call_unique).mpr ⟨fuel, h⟩
  rw [step, hvalue]
  rfl

end ZLIBCompressor

/-! ## zstd -/

namespace ZSTDCompressor

variable {σ : Type} (compressStream2 : Codec σ ZstdEndDirective ZstdCode) (reset : σ → σ)

/-- The codes with which the library says that it has done nothing: an error, or nothing left. -/
def Refusal (code : ZstdCode) : Prop := code = .error ∨ code = .bytes 0

/-- The call gets to where the library fails for ever. -/
def Stalls (stream : σ) : Op → Prop
  | .compressPartial _ _ => False
  | .compressBuffer input out =>
    ∃ t, Loop.Reaches (bufferBody compressStream2 reset) ⟨stream, input, out, 0, 0, []⟩ t ∧
      Refuses (callStream compressStream2 reset .continue t.input t.out)
        (fun r => r.code = .error) t.stream
  | .finish _ _ => False

/-- The call comes to an end. -/
def Returns (stream : σ) (op : Op) : Prop :=
  ∃ fuel outcome, call compressStream2 reset fuel stream op = some outcome

variable {compressStream2 reset} {stream : σ} {op : Op} {input : List UInt8} {out : Nat}

/-! ### `compress_buffer` -/

/-- What is left of both views. -/
def BufferLoop.left (t : BufferLoop σ) : Nat := t.input.length + t.out

variable (compressStream2 reset) in
theorem BufferLoop.left_advance (t : BufferLoop σ) :
    (t.advance (t.call compressStream2 reset).1 (t.call compressStream2 reset).2).left +
      (t.call compressStream2 reset).2.moved = t.left := by
  have hconsumed : (t.call compressStream2 reset).2.consumed ≤ t.input.length :=
    compressStream2.consumed_le _ _ _ _
  have hproduced : (t.call compressStream2 reset).2.produced.length ≤ t.out :=
    compressStream2.produced_le _ _ _ _
  simp only [left, advance, List.length_drop, Reply.moved]
  omega

/-- With something left to flush the library has done something. -/
theorem moved_pos_of_needsFlush (h : compressStream2.Progressive Refusal) {t : BufferLoop σ}
    (hflush : partialStatus t.input.length t.out (t.call compressStream2 reset).2 = .needsFlush) :
    0 < (t.call compressStream2 reset).2.moved := by
  refine (h t.stream .continue t.input t.out).resolve_right ?_
  intro hcode
  have hcode : Refusal (t.call compressStream2 reset).2.code := hcode
  unfold partialStatus at hflush
  rcases hcode with hcode | hcode
  · rw [hcode] at hflush
    cases hflush
  · rw [hcode] at hflush
    dsimp only at hflush
    split at hflush
    · cases hflush
    · rw [if_neg (not_not.mpr rfl)] at hflush
      split at hflush <;> cases hflush

/-- Where `compress_buffer` idles the library fails, and conversely. -/
theorem idles_bufferBody_iff (h : compressStream2.Progressive Refusal) (t : BufferLoop σ) :
    Loop.Idles (bufferBody compressStream2 reset) BufferLoop.left t ↔
      Refuses (callStream compressStream2 reset .continue t.input t.out)
        (fun r => r.code = .error) t.stream := by
  have hround : ∀ u u' : BufferLoop σ, bufferBody compressStream2 reset u = .inl u' →
      u'.left = u.left → (u.call compressStream2 reset).2.code = .error ∧
        u' = u.retry (u.call compressStream2 reset).1 (u.call compressStream2 reset).2 := by
    intro u u' hbody hsame
    rcases bufferBody_eq_inl hbody with hretry | ⟨-, hflush, rfl⟩
    · exact hretry
    · have hleft := u.left_advance compressStream2 reset
      have hpos := moved_pos_of_needsFlush h hflush
      omega
  refine idles_iff BufferLoop.stream
    (P := fun u => u.input = t.input ∧ u.out = t.out) ⟨rfl, rfl⟩ ?_ ?_
  · rintro u ⟨hin, hout⟩
    rw [← hin, ← hout]
    constructor
    · intro hcode
      exact ⟨_, (bufferBody_eq u).trans (if_pos hcode), rfl⟩
    · rintro ⟨u', hbody, hsame⟩
      exact (hround u u' hbody hsame).1
  · rintro u u' ⟨hin, hout⟩ hbody hsame
    obtain ⟨-, rfl⟩ := hround u u' hbody hsame
    rw [← hin, ← hout]
    exact ⟨⟨rfl, rfl⟩, rfl⟩

theorem returns_compressBuffer_iff (h : compressStream2.Progressive Refusal) :
    Returns compressStream2 reset stream (.compressBuffer input out) ↔
      ¬ Stalls compressStream2 reset stream (.compressBuffer input out) := by
  have hle : ∀ t t', bufferBody compressStream2 reset t = .inl t' → t'.left ≤ t.left := by
    intro t t' hbody
    rcases bufferBody_eq_inl hbody with ⟨-, rfl⟩ | ⟨-, -, rfl⟩
    · exact Nat.le_refl _
    · have hleft := t.left_advance compressStream2 reset
      omega
  refine (Loop.returns_iff hle).trans ?_
  simp only [idles_bufferBody_iff h, Stalls, not_exists, not_and]

/-! ### `finish` -/

/-- What is left of both views. -/
def FinishLoop.left (t : FinishLoop σ) : Nat := t.iBuf.length + t.out

/-- `finish` goes round only if something has been done. -/
theorem returns_finish (h : compressStream2.Progressive Refusal) :
    Returns compressStream2 reset stream (.finish input out) := by
  refine Loop.returns_of_lt (m := FinishLoop.left) ?_ _
  intro t t' hbody
  obtain ⟨⟨n, hcode, hn⟩, rfl⟩ := finishBody_eq_inl hbody
  have hconsumed : (t.call compressStream2 reset).2.consumed ≤ t.iBuf.length :=
    compressStream2.consumed_le _ _ _ _
  have hproduced : (t.call compressStream2 reset).2.produced.length ≤ t.out :=
    compressStream2.produced_le _ _ _ _
  have hmoved : 0 < (t.call compressStream2 reset).2.moved := by
    refine (h t.stream .end t.iBuf t.out).resolve_right ?_
    intro hrefusal
    have hrefusal : Refusal (t.call compressStream2 reset).2.code := hrefusal
    rw [hcode] at hrefusal
    rcases hrefusal with herror | hzero
    · cases herror
    · exact hn (ZstdCode.bytes.inj hzero)
  simp only [FinishLoop.left, FinishLoop.advance, List.length_drop, Reply.moved] at hmoved ⊢
  omega

/-- A call returns unless it gets to where the library fails for ever. -/
theorem returns_iff (h : compressStream2.Progressive Refusal) :
    Returns compressStream2 reset stream op ↔ ¬ Stalls compressStream2 reset stream op := by
  cases op with
  | compressPartial input out => exact iff_of_true ⟨0, _, rfl⟩ not_false
  | compressBuffer input out => exact returns_compressBuffer_iff h
  | finish input out => exact iff_of_true (returns_finish h) not_false

/-! ### Sequences of calls -/

theorem call_unique {fuel fuel' : Nat} {o o' : Outcome σ}
    (h : call compressStream2 reset fuel stream op = some o)
    (h' : call compressStream2 reset fuel' stream op = some o') : o = o' := by
  cases op with
  | compressPartial input out => exact Option.some.inj (h.symm.trans h')
  | compressBuffer input out => exact Loop.eq_of_loop h h'
  | finish input out => exact Loop.eq_of_loop h h'

variable (compressStream2 reset) in
/-- The stream behind a call, if it returns. -/
noncomputable def step (stream : σ) (op : Op) : Option σ :=
  (Loop.value fun fuel => call compressStream2 reset fuel stream op).map fun o => o.2.1

theorem step_of_call (fuel : Nat) {o : Outcome σ}
    (h : call compressStream2 reset fuel stream op = some o) :
    step compressStream2 reset stream op = some o.2.1 := by
  have hvalue : Loop.value (fun fuel => call compressStream2 reset fuel stream op) = some o :=
    (Loop.value_eq_some fun _ _ _ _ => call_unique).mpr ⟨fuel, h⟩
  rw [step, hvalue]
  rfl

end ZSTDCompressor

/-! ## Both compressors -/

/-- In every order of the calls all of them return, if and only if none of them gets to where the
library refuses for ever. -/
theorem run_returns_iff {σ τ : Type} (deflate : Codec σ ZlibFlush ZlibCode)
    (compressStream2 : Codec τ ZstdEndDirective ZstdCode) (reset : τ → τ) (ops : List Op) :
    (deflate.Progressive ZLIBCompressor.Refusal → ∀ s : ZLIBCompressor σ,
      Guarded (ZLIBCompressor.step deflate) (ZLIBCompressor.Returns deflate) s ops ↔
        Guarded (ZLIBCompressor.step deflate)
          (fun s op => ¬ ZLIBCompressor.Stalls deflate s op) s ops) ∧
    (compressStream2.Progressive ZSTDCompressor.Refusal → ∀ stream : τ,
      Guarded (ZSTDCompressor.step compressStream2 reset)
          (ZSTDCompressor.Returns compressStream2 reset) stream ops ↔
        Guarded (ZSTDCompressor.step compressStream2 reset)
          (fun stream op => ¬ ZSTDCompressor.Stalls compressStream2 reset stream op)
          stream ops) := by
  constructor
  · intro h s
    exact guarded_congr (I := fun _ => True) (fun s op _ => ZLIBCompressor.returns_iff h)
      (fun _ _ _ _ _ _ => trivial) trivial
  · intro h stream
    exact guarded_congr (I := fun _ => True) (fun s op _ => ZSTDCompressor.returns_iff h)
      (fun _ _ _ _ _ _ => trivial) trivial

theorem storeDeflate_progressive : storeDeflate.Progressive ZLIBCompressor.Refusal := by
  intro z mode input room
  cases z with
  | true =>
    refine Or.inr ?_
    cases mode with
    | noFlush => exact Or.inr (Or.inl rfl)
    | finish =>
      by_cases hin : input = []
      · exact Or.inr (Or.inr (if_pos hin))
      · exact Or.inl (if_neg hin)
  | false =>
    by_cases hmoved : min input.length room = 0
    · refine Or.inr ?_
      by_cases hend : mode = .finish ∧ input.length ≤ room
      · exact Or.inr (Or.inr (if_pos hend))
      · exact Or.inl ((if_neg hend).trans (if_pos hmoved))
    · exact Or.inl (Nat.add_pos_left (Nat.pos_of_ne_zero hmoved) _)

theorem storeStream_progressive : storeStream.Progressive ZSTDCompressor.Refusal := by
  intro z mode input room
  by_cases hin : input = []
  · subst hin
    refine Or.inr (Or.inr ?_)
    simp [storeStream]
  · by_cases hroom : room = 0
    · exact Or.inr (Or.inl (if_pos ⟨hroom, hin⟩))
    · have hlength := List.length_pos_iff.mpr hin
      refine Or.inl (Nat.add_pos_left (?_ : 0 < min input.length room) _)
      omega

/-- Both compressors store three bytes and end the stream, and meet the condition. -/
theorem run_returns_iff_store :
    Guarded (ZLIBCompressor.step storeDeflate)
      (fun s op => ¬ ZLIBCompressor.Stalls storeDeflate s op) (.init false)
      [.compressBuffer [1, 2] 5, .finish [3] 5] ∧
    Guarded (ZSTDCompressor.step storeStream id)
      (fun stream op => ¬ ZSTDCompressor.Stalls storeStream id stream op) ()
      [.compressBuffer [1, 2] 5, .finish [3] 5] := by
  have hreturns := run_returns_iff storeDeflate storeStream id
    [.compressBuffer [1, 2] 5, .finish [3] 5]
  constructor
  · refine (hreturns.1 storeDeflate_progressive _).mp ⟨⟨1, _, rfl⟩, ?_⟩
    intro s hs
    rw [ZLIBCompressor.step_of_call 1 rfl] at hs
    cases hs
    exact ⟨⟨1, _, rfl⟩, fun s hs => trivial⟩
  · refine (hreturns.2 storeStream_progressive _).mp ⟨⟨1, _, rfl⟩, ?_⟩
    intro s hs
    exact ⟨⟨1, _, rfl⟩, fun s hs => trivial⟩

/-- `deflate` refuses to take more once the stream has ended. -/
theorem storeDeflate_refuses_finish {input : List UInt8} {room : Nat} (hin : input ≠ [])
    (hroom : room ≠ 0) :
    Refuses (fun z => storeDeflate.call z .finish input room)
      (ZLIBCompressor.FinishRefusal room) true :=
  refuses_of_eq rfl ⟨rfl, if_neg hin, hroom⟩

/-- The second `finish` never returns, nor does `compress_buffer` behind a `finish`, nor one for an
output without room. -/
theorem not_returns_ended :
    ¬ Guarded (ZLIBCompressor.step storeDeflate) (ZLIBCompressor.Returns storeDeflate)
      (.init false) [.finish [1] 1, .finish [2] 1] ∧
    ¬ Guarded (ZLIBCompressor.step storeDeflate) (ZLIBCompressor.Returns storeDeflate)
      (.init false) [.finish [1] 1, .compressBuffer [2] 1] ∧
    ¬ Guarded (ZSTDCompressor.step storeStream id) (ZSTDCompressor.Returns storeStream id) ()
      [.compressBuffer [1] 0] := by
  refine ⟨?_, ?_, ?_⟩
  · intro h
    have hsecond := (h.2 _ (ZLIBCompressor.step_of_call 1 rfl)).1
    refine (ZLIBCompressor.returns_iff storeDeflate_progressive).mp hsecond ⟨by decide, _,
      Loop.Reaches.refl, ?_⟩
    exact storeDeflate_refuses_finish (by decide) (by decide)
  · intro h
    have hsecond := (h.2 _ (ZLIBCompressor.step_of_call 1 rfl)).1
    refine (ZLIBCompressor.returns_iff storeDeflate_progressive).mp hsecond ⟨_,
      Loop.Reaches.refl, ?_⟩
    exact refuses_of_eq rfl ⟨rfl, Or.inl rfl⟩
  · intro h
    refine (ZSTDCompressor.returns_iff storeStream_progressive).mp h.1 ⟨_, Loop.Reaches.refl, ?_⟩
    exact refuses_of_eq rfl rfl

end Csics.Compression
