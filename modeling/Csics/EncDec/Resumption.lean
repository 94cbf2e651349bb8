import Csics.EncDec.Chunking

/-!
# Going on after a full buffer

A call that returns `OutputBufferFull` can be resumed when its result says how much of the
input it took and how much output it wrote: the text written so far and the bytes held over
stand for the bytes held before and the input taken (`Resumes.encodes`). The rest of the
input, given to a second call, then ends in the same text (`continues_of_encodes`).

The loop of `encode_b64_no_holdover` reports what is left of the two buffers instead, and
leaves the bytes held over as they were. So the only calls that can be resumed are those that
stop in front of the loop or behind it (`resumes_iff`).
-/

namespace Csics.EncDec

open Base Serialization

/-- The two functions that write text. -/
inductive Method where
  | encode
  | finish
  deriving DecidableEq, Repr

namespace Method

def call (m : Method) (e : Base64Encoder) (mem : Mem) (inp : List UInt8) (out : View) :
    Outcome :=
  match m with
  | .encode => e.encode mem inp out
  | .finish => e.finish mem inp out

/-- The text of a byte string that `encode` or `finish` takes to its end. -/
def text (m : Method) (bs : List UInt8) : List UInt8 :=
  match m with
  | .encode => Base64.quanta bs
  | .finish => Base64.encode bs

/-- The bytes held over afterwards. -/
def rest (m : Method) (bs : List UInt8) : List UInt8 :=
  match m with
  | .encode => Base64.leftover bs
  | .finish => []

theorem text_append (m : Method) {whole : List UInt8} (h : 3 ∣ whole.length) (bs : List UInt8) :
    m.text (whole ++ bs) = Base64.encode whole ++ m.text bs := by
  cases m with
  | encode =>
    rw [text, Base64.quanta_append, Base64.leftover_of_dvd h, Base64.encode_of_dvd h,
      List.nil_append]
    rfl
  | finish =>
    rw [text, Base64.encode_append, Base64.leftover_of_dvd h, Base64.encode_of_dvd h,
      List.nil_append]
    rfl

theorem rest_append (m : Method) {whole : List UInt8} (h : 3 ∣ whole.length) (bs : List UInt8) :
    m.rest (whole ++ bs) = m.rest bs := by
  cases m with
  | encode => rw [rest, Base64.leftover_append, Base64.leftover_of_dvd h, List.nil_append, rest]
  | finish => rfl

/-- A call with an ample buffer. -/
theorem call_of_room (m : Method) (e : Base64Encoder) (mem : Mem) {inp : List UInt8} {out : View}
    (hroom : (m.text (e.held ++ inp)).length ≤ out.size) :
    (m.call e mem inp out).result.status = .ok ∧
      (m.call e mem inp out).text out = m.text (e.held ++ inp) ∧
      (m.call e mem inp out).encoder.held = m.rest (e.held ++ inp) := by
  cases m with
  | encode =>
    rw [text, Base64.length_quanta, List.length_append] at hroom
    obtain ⟨e', hheld, hencode⟩ := Base64Encoder.encode_eq e mem hroom
    rw [call, hencode]
    exact ⟨rfl, Mem.load_store _ _ _, hheld⟩
  | finish =>
    rw [call, Base64Encoder.finish_eq hroom]
    exact ⟨rfl, Mem.load_store _ _ _, rfl⟩

end Method

/-- The result of a call tells the caller how to go on. -/
structure Resumes (m : Method) (e : Base64Encoder) (mem : Mem) (inp : List UInt8) (out : View) :
    Prop where
  processed_le : (m.call e mem inp out).result.processed ≤ inp.length
  output_le : (m.call e mem inp out).result.output ≤ out.size
  encodes : ∃ whole, 3 ∣ whole.length ∧
    (m.call e mem inp out).text out = Base64.encode whole ∧
    whole ++ (m.call e mem inp out).encoder.held =
      e.held ++ inp.take (m.call e mem inp out).result.processed
  /-- A second call with the rest of the input and one call with all of it, both with ample
  buffers, agree in their text and in the bytes they hold. -/
  continues : ∀ mem₁ out₁ mem₂ out₂, (m.text (e.held ++ inp)).length ≤ out₁.size →
    (m.text (e.held ++ inp)).length ≤ out₂.size →
    let o := m.call e mem inp out
    let one := m.call e mem₁ inp out₁
    let two := m.call o.encoder mem₂ (inp.drop o.result.processed) out₂
    two.result.status = .ok ∧ one.text out₁ = o.text out ++ two.text out₂ ∧
      one.encoder.held = two.encoder.held

variable {m : Method} {e : Base64Encoder} {mem : Mem} {inp : List UInt8} {out : View}

/-- The call stops before the first quantum with the bytes held over in it, or has only the
padding left to write. -/
def StopsOutsideLoop (m : Method) (e : Base64Encoder) (inp : List UInt8) (out : View) : Prop :=
  (e.count.val ≠ 0 ∧ out.size < 4) ∨
    (m = .finish ∧ 4 * ((e.count.val + inp.length) / 3) ≤ out.size)

theorem continues_of_encodes {o : Outcome} {written whole : List UInt8}
    (hdvd : 3 ∣ whole.length) (hwritten : written = Base64.encode whole)
    (hsplit : whole ++ o.encoder.held = e.held ++ inp.take o.result.processed)
    (mem₁ : Mem) (out₁ : View) (mem₂ : Mem) (out₂ : View)
    (h1 : (m.text (e.held ++ inp)).length ≤ out₁.size)
    (h2 : (m.text (e.held ++ inp)).length ≤ out₂.size) :
    (m.call o.encoder mem₂ (inp.drop o.result.processed) out₂).result.status = .ok ∧
      (m.call e mem₁ inp out₁).text out₁ = written ++
        (m.call o.encoder mem₂ (inp.drop o.result.processed) out₂).text out₂ ∧
      (m.call e mem₁ inp out₁).encoder.held =
        (m.call o.encoder mem₂ (inp.drop o.result.processed) out₂).encoder.held := by
  have hall : e.held ++ inp = whole ++ (o.encoder.held ++ inp.drop o.result.processed) := by
    rw [← List.append_assoc, hsplit, List.append_assoc, List.take_append_drop]
  have htext := m.text_append hdvd (o.encoder.held ++ inp.drop o.result.processed)
  rw [← hall] at htext
  have hlen := congrArg List.length htext
  rw [List.length_append] at hlen
  obtain ⟨_, htext₁, hheld₁⟩ := m.call_of_room e mem₁ h1
  obtain ⟨hok, htext₂, hheld₂⟩ := m.call_of_room o.encoder mem₂
    (show (m.text (o.encoder.held ++ inp.drop o.result.processed)).length ≤ out₂.size by omega)
  refine ⟨hok, ?_, ?_⟩
  · rw [htext₁, htext₂, htext, hwritten]
  · rw [hheld₁, hheld₂, hall, m.rest_append hdvd]

/-- What the caller is told is enough to go on with. -/
theorem resumes_of_encodes (hprocessed : (m.call e mem inp out).result.processed ≤ inp.length)
    (houtput : (m.call e mem inp out).result.output ≤ out.size)
    (hencodes : ∃ whole, 3 ∣ whole.length ∧
      (m.call e mem inp out).text out = Base64.encode whole ∧
      whole ++ (m.call e mem inp out).encoder.held =
        e.held ++ inp.take (m.call e mem inp out).result.processed) :
    Resumes m e mem inp out where
  processed_le := hprocessed
  output_le := houtput
  encodes := hencodes
  continues := by
    obtain ⟨whole, hdvd, hwritten, hsplit⟩ := hencodes
    exact continues_of_encodes hdvd hwritten hsplit

/-- A call that does nothing can be made again. -/
theorem resumes_of_unchanged {status : EncodingStatus}
    (h : m.call e mem inp out = ⟨mem, e, ⟨0, 0, status⟩⟩) : Resumes m e mem inp out := by
  apply resumes_of_encodes
  · rw [h]
    exact Nat.zero_le _
  · rw [h]
    exact Nat.zero_le _
  · refine ⟨[], Nat.dvd_zero 3, ?_, ?_⟩
    · rw [h]
      rfl
    · rw [h]
      simp

/-- Only the padding is left to write. -/
theorem resumes_of_padding (hroom : 4 * ((e.held.length + inp.length) / 3) ≤ out.size)
    (hfull : out.size < (Base64.encode (e.held ++ inp)).length) :
    Resumes .finish e mem inp out := by
  obtain ⟨e', hheld, hfinish⟩ := Base64Encoder.finish_full_of_padding e mem hroom hfull
  have hcall : Method.finish.call e mem inp out = _ := hfinish
  obtain ⟨whole, hdvd, hsplit, htext⟩ := Base64.exists_whole (e.held ++ inp)
  apply resumes_of_encodes
  · rw [hcall]
  · rw [hcall, Base64.length_quanta, List.length_append]
    exact hroom
  · refine ⟨whole, hdvd, ?_, ?_⟩
    · rw [hcall, ← htext]
      exact Mem.load_store _ _ _
    · rw [hcall, hheld, hsplit, List.take_length]

/-- Behind a stop inside the loop the text that is reported, the bytes held and the input that
is reported cannot fit together: the loop has taken all but `processed` bytes. -/
theorem not_resumes_of_loop {mem' : Mem} {k : Nat} {status : EncodingStatus}
    (hfull : out.size < 4 * ((e.held.length + inp.length) / 3))
    (h : m.call e mem inp out = ⟨mem', e,
      ⟨inp.length + 3 * k - 3 * (out.size / 4), out.size % 4 + 4 * k, status⟩⟩) :
    ¬ Resumes m e mem inp out := by
  intro hres
  obtain ⟨whole, hdvd, htext, hsplit⟩ := hres.encodes
  have hprocessed := hres.processed_le
  have hheld := e.length_held_lt
  rw [h] at htext hsplit hprocessed
  simp only at hsplit hprocessed
  have hlen := congrArg List.length hsplit
  rw [List.length_append, List.length_append, List.length_take_of_le hprocessed] at hlen
  have houtput := congrArg List.length htext
  rw [Outcome.text, Mem.length_load, Base64.encode_of_dvd hdvd, Base64.length_quanta] at houtput
  simp only at houtput
  omega

/-- Exactly the calls that stop outside of the loop can be resumed. -/
theorem resumes_iff (m : Method) (e : Base64Encoder) (mem : Mem) (inp : List UInt8) (out : View)
    (hstatus : (m.call e mem inp out).result.status = .outputBufferFull) :
    Resumes m e mem inp out ↔ StopsOutsideLoop m e inp out := by
  have hcount := e.length_held
  by_cases hroom : 4 * ((e.held.length + inp.length) / 3) ≤ out.size
  · cases m with
    | encode =>
      rw [Method.call, Base64Encoder.status_encode, if_pos hroom] at hstatus
      cases hstatus
    | finish =>
      have hfull : out.size < (Base64.encode (e.held ++ inp)).length := by
        by_contra hle
        rw [Method.call, Base64Encoder.status_finish, if_pos (Nat.not_lt.mp hle)] at hstatus
        cases hstatus
      constructor
      · intro _
        exact .inr ⟨rfl, hcount ▸ hroom⟩
      · intro _
        exact resumes_of_padding hroom hfull
  · have hcall : m.call e mem inp out = e.encode mem inp out := by
      cases m with
      | encode => rfl
      | finish =>
        have hencode := Base64Encoder.status_encode e mem inp out
        rw [if_neg hroom] at hencode
        exact Base64Encoder.finish_full_of_encode hencode
    by_cases hheld : e.count.val ≠ 0 ∧ out.size < 4
    · have hzero : e.count ≠ 0 := fun h => hheld.1 (congrArg Fin.val h)
      have hencode := Base64Encoder.encode_full_of_held mem hzero hheld.2
        (show 3 ≤ e.held.length + inp.length by omega)
      exact ⟨fun _ => .inl hheld, fun _ => resumes_of_unchanged (hcall.trans hencode)⟩
    · have hsize : 4 * (if e.count = 0 then 0 else 1) ≤ out.size := by
        split <;> omega
      obtain ⟨mem', hencode⟩ := Base64Encoder.encode_full_of_loop mem rfl hsize
        (Nat.not_le.mp hroom)
      have hnot := not_resumes_of_loop (Nat.not_le.mp hroom)
        (hcall.trans hencode)
      constructor
      · intro hres
        exact absurd hres hnot
      · rintro (hstop | ⟨_, hstop⟩)
        · exact absurd hstop hheld
        · exact absurd (hcount ▸ hstop) hroom

theorem resumes_iff_held :
    Resumes .encode ⟨1, 0x4D, 0⟩ (fun _ => 0) [0x61, 0x6E] ⟨100, 2⟩ :=
  (resumes_iff .encode ⟨1, 0x4D, 0⟩ (fun _ => 0) [0x61, 0x6E] ⟨100, 2⟩ (by decide)).mpr
    (.inl ⟨by decide, by decide⟩)

/-- `foobar` into four bytes: `Zm9v` is written, and the result counts the three bytes of
input and the zero bytes of output that are left. -/
theorem not_resumes_foobar :
    ¬ ∀ m e mem inp out, (Method.call m e mem inp out).result.status = .outputBufferFull →
      Resumes m e mem inp out := by
  intro h
  have hres := h .encode .init (fun _ => 0) [0x66, 0x6F, 0x6F, 0x62, 0x61, 0x72] ⟨100, 4⟩
    (by decide)
  obtain ⟨whole, _, htext, hsplit⟩ := hres.encodes
  have hwhole : whole ++ [] = [0x66, 0x6F, 0x6F] := hsplit
  rw [List.append_nil] at hwhole
  rw [hwhole] at htext
  exact absurd htext (by decide)

end Csics.EncDec
