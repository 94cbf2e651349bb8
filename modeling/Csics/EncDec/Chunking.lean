import Csics.EncDec.Base64Encoder

/-!
# Encoding a message in pieces

A session calls `encode` on some pieces of a message and `finish` on the last one. Every
call starts from a memory of its own: the caller may do what it likes between two calls.

The invariant of a session is that the encoder holds what is left over by the pieces so far
(`session_spec`). Its consequence `session_eq_encode` is that the text does not depend on
where the message is cut.
-/

namespace Csics.EncDec

open Base Serialization

/-- The arguments of a call and the memory it starts from. -/
structure Call where
  mem : Mem
  input : List UInt8
  out : View

/-- The bytes a call reports as its output. -/
def Outcome.text (o : Outcome) (out : View) : List UInt8 :=
  o.mem.load out.data o.result.output

namespace Base64Encoder

/-- `encode` on every call of the list, then `finish`: each call with its outcome, and the
encoder after the last one. -/
def session (e : Base64Encoder) : List Call → Call → List (Call × Outcome) × Base64Encoder
  | [], last =>
    let o := e.finish last.mem last.input last.out
    ([(last, o)], o.encoder)
  | c :: cs, last =>
    let o := e.encode c.mem c.input c.out
    let r := o.encoder.session cs last
    ((c, o) :: r.1, r.2)

theorem session_cons (e : Base64Encoder) (c : Call) (cs : List Call) (last : Call) :
    e.session (c :: cs) last =
      ((c, e.encode c.mem c.input c.out) ::
          ((e.encode c.mem c.input c.out).encoder.session cs last).1,
        ((e.encode c.mem c.input c.out).encoder.session cs last).2) := rfl

/-- A fresh encoder, or one whose last `finish` returned `Ok`. -/
inductive Ready : Base64Encoder → Prop where
  | fresh : Ready init
  | finished (e : Base64Encoder) (c : Call)
      (hok : (e.finish c.mem c.input c.out).result.status = .ok) :
      Ready (e.finish c.mem c.input c.out).encoder

/-- The whole input is taken, and memory changes at the reported output only. -/
structure Complete (c : Call) (o : Outcome) : Prop where
  processed : o.result.processed = c.input.length
  output_le : o.result.output ≤ c.out.size
  frame : ∀ i, ¬ (c.out.data ≤ i ∧ i < c.out.data + o.result.output) → o.mem i = c.mem i

theorem Ready.eq_init {e : Base64Encoder} (h : Ready e) : e = init := by
  cases h with
  | fresh => rfl
  | finished e c hok =>
    rw [status_finish] at hok
    by_cases hroom : (Base64.encode (e.held ++ c.input)).length ≤ c.out.size
    · rw [finish_eq hroom]
    · rw [if_neg hroom] at hok
      cases hok

theorem complete_of_store {c : Call} {e : Base64Encoder} {text : List UInt8}
    (hroom : text.length ≤ c.out.size) :
    Complete c ⟨c.mem.store c.out.data text, e, ⟨c.input.length, text.length, .ok⟩⟩ where
  processed := rfl
  output_le := hroom
  frame := by
    intro i hi
    by_cases hlt : i < c.out.data
    · exact Mem.store_apply_of_lt hlt
    · exact Mem.store_apply_of_ge (by
        simp only at hi
        omega)

/-- One call of `encode` that returns `Ok`. -/
theorem encode_of_ok {e : Base64Encoder} {c : Call}
    (hok : (e.encode c.mem c.input c.out).result.status = .ok) :
    Complete c (e.encode c.mem c.input c.out) ∧
      (e.encode c.mem c.input c.out).text c.out = Base64.quanta (e.held ++ c.input) ∧
      (e.encode c.mem c.input c.out).encoder.held = Base64.leftover (e.held ++ c.input) := by
  have hroom : 4 * ((e.held.length + c.input.length) / 3) ≤ c.out.size := by
    by_contra hfull
    rw [status_encode, if_neg hfull] at hok
    cases hok
  obtain ⟨e', hheld, hencode⟩ := encode_eq e c.mem hroom
  have hlen : (Base64.quanta (e.held ++ c.input)).length ≤ c.out.size := by
    rwa [Base64.length_quanta, List.length_append]
  rw [hencode]
  exact ⟨complete_of_store hlen, Mem.load_store _ _ _, hheld⟩

/-- One call of `finish` that returns `Ok`. -/
theorem finish_of_ok {e : Base64Encoder} {c : Call}
    (hok : (e.finish c.mem c.input c.out).result.status = .ok) :
    Complete c (e.finish c.mem c.input c.out) ∧
      (e.finish c.mem c.input c.out).text c.out = Base64.encode (e.held ++ c.input) ∧
      (e.finish c.mem c.input c.out).encoder = init := by
  have hroom : (Base64.encode (e.held ++ c.input)).length ≤ c.out.size := by
    by_contra hfull
    rw [status_finish, if_neg hfull] at hok
    cases hok
  rw [finish_eq hroom]
  exact ⟨complete_of_store hroom, Mem.load_store _ _ _, rfl⟩

/-- A session from any encoder encodes the bytes it holds and the pieces of the message. -/
theorem session_spec (e : Base64Encoder) (cs : List Call) (last : Call)
    (hok : ∀ p ∈ (e.session cs last).1, p.2.result.status = .ok) :
    (∀ p ∈ (e.session cs last).1, Complete p.1 p.2) ∧
      ((e.session cs last).1.flatMap fun p => p.2.text p.1.out) =
        Base64.encode (e.held ++ cs.flatMap Call.input ++ last.input) ∧
      (e.session cs last).2 = init := by
  induction cs generalizing e with
  | nil =>
    obtain ⟨hcomplete, htext, hinit⟩ := finish_of_ok (hok _ (List.mem_singleton_self _))
    refine ⟨?_, ?_, hinit⟩
    · intro p hp
      obtain rfl := List.mem_singleton.mp hp
      exact hcomplete
    · rw [List.flatMap_nil, List.append_nil, ← htext]
      exact List.flatMap_singleton _ _
  | cons c cs ih =>
    obtain ⟨hcomplete, htext, hheld⟩ := encode_of_ok (hok _ List.mem_cons_self)
    obtain ⟨hrest, htexts, hinit⟩ := ih (e.encode c.mem c.input c.out).encoder
      fun p hp => hok p (List.mem_cons_of_mem _ hp)
    refine ⟨?_, ?_, hinit⟩
    · intro p hp
      rcases List.mem_cons.mp hp with rfl | hp
      · exact hcomplete
      · exact hrest p hp
    · have hcut : e.held ++ (c.input ++ cs.flatMap Call.input) ++ last.input =
          e.held ++ c.input ++ (cs.flatMap Call.input ++ last.input) := by
        simp only [List.append_assoc]
      rw [session_cons, List.flatMap_cons, htexts, htext, hheld, List.flatMap_cons, hcut,
        Base64.encode_append (e.held ++ c.input), List.append_assoc (Base64.leftover _)]

/-- A message may be cut anywhere: the outputs of its pieces are the Base64 text of the whole,
and the encoder is as it was before. -/
theorem session_eq_encode {e : Base64Encoder} (he : Ready e) (cs : List Call) (last : Call)
    (hok : ∀ p ∈ (e.session cs last).1, p.2.result.status = .ok) :
    (∀ p ∈ (e.session cs last).1, Complete p.1 p.2) ∧
      ((e.session cs last).1.flatMap fun p => p.2.text p.1.out) =
        Base64.encode (cs.flatMap Call.input ++ last.input) ∧
      (e.session cs last).2 = init := by
  obtain rfl := he.eq_init
  exact session_spec init cs last hok

/-- `f`, `oob` and `a`: the second call completes a quantum with the byte held over. -/
theorem session_eq_encode_fooba :
    ((init.session [⟨fun _ => 0, [0x66], ⟨100, 0⟩⟩, ⟨fun _ => 0, [0x6F, 0x6F, 0x62], ⟨100, 4⟩⟩]
        ⟨fun _ => 0, [0x61], ⟨200, 4⟩⟩).1.flatMap fun p => p.2.text p.1.out) =
      [0x5A, 0x6D, 0x39, 0x76, 0x59, 0x6D, 0x45, 0x3D] :=
  (session_eq_encode .fresh _ _ (by decide)).2.1.trans (by decide)

end Base64Encoder

end Csics.EncDec
