import Csics.Base.Base64Decoding
import Csics.EncDec.Chunking

/-!
# Decoding what was encoded

One encoder is used for any number of messages, each cut into pieces and closed by `finish`. A
buffer that has a quantum for every three bytes of its piece and the two that may be held over is
large enough; then the texts are decoded to the messages, and no other texts are.
-/

namespace Csics.EncDec

open Base Serialization

/-- A message that is cut into pieces. The last of them goes to `finish`. -/
structure Message where
  pieces : List Call
  last : Call

namespace Message

def bytes (m : Message) : List UInt8 := m.pieces.flatMap Call.input ++ m.last.input

/-- The buffers are large enough, whatever the encoder holds. -/
structure Fits (m : Message) : Prop where
  pieces : ∀ c ∈ m.pieces, 4 * ((c.input.length + 2) / 3) ≤ c.out.size
  last : 4 * ((m.last.input.length + 4) / 3) ≤ m.last.out.size

end Message

namespace Base64Encoder

/-- Message after message: the text of each, and the encoder at the end. -/
def sessions (e : Base64Encoder) : List Message → List (List (Call × Outcome)) × Base64Encoder
  | [] => ([], e)
  | m :: ms =>
    let r := e.session m.pieces m.last
    let rs := r.2.sessions ms
    (r.1 :: rs.1, rs.2)

section

variable {e : Base64Encoder}

theorem encode_ok_of_room {c : Call} (h : 4 * ((c.input.length + 2) / 3) ≤ c.out.size) :
    (e.encode c.mem c.input c.out).result.status = .ok := by
  have hheld := e.length_held_lt
  rw [status_encode, if_pos]
  refine Nat.le_trans (Nat.mul_le_mul_left 4 (Nat.div_le_div_right ?_)) h
  omega

theorem finish_ok_of_room {c : Call} (h : 4 * ((c.input.length + 4) / 3) ≤ c.out.size) :
    (e.finish c.mem c.input c.out).result.status = .ok := by
  have hheld := e.length_held_lt
  have hleftover := Base64.length_leftover (e.held ++ c.input)
  rw [status_finish, if_pos]
  rw [List.length_append] at hleftover
  rw [length_encode]
  split
  · omega
  · rename_i hne
    have hpos := List.length_pos_iff.mpr hne
    omega

/-- No call of a message whose buffers are large enough fails. -/
theorem session_ok {m : Message} (h : m.Fits) :
    ∀ p ∈ (e.session m.pieces m.last).1, p.2.result.status = .ok := by
  obtain ⟨pieces, last⟩ := m
  obtain ⟨hpieces, hlast⟩ := h
  dsimp only at hpieces hlast ⊢
  induction pieces generalizing e with
  | nil =>
    intro p hp
    rw [List.mem_singleton.mp hp]
    exact finish_ok_of_room hlast
  | cons c cs ih =>
    obtain ⟨hc, hcs⟩ := List.forall_mem_cons.mp hpieces
    rw [session_cons, List.forall_mem_cons]
    exact ⟨encode_ok_of_room hc, ih hcs⟩

end

/-- Of any number of messages each is decoded from its own text, and from no other. -/
theorem decode_sessions {e : Base64Encoder} (he : Ready e) (ms : List Message)
    (hms : ∀ m ∈ ms, m.Fits) :
    List.Forall₂ (fun m (s : List (Call × Outcome)) =>
      (∀ p ∈ s, p.2.result.status = .ok ∧ Complete p.1 p.2) ∧
        ∀ text, Base64.decode text = some m.bytes ↔ text = s.flatMap fun p => p.2.text p.1.out)
      ms (e.sessions ms).1 := by
  obtain rfl := he.eq_init
  induction ms with
  | nil => exact .nil
  | cons m ms ih =>
    obtain ⟨hm, hms⟩ := List.forall_mem_cons.mp hms
    have hok := session_ok (e := init) hm
    obtain ⟨hcomplete, htext, hinit⟩ := session_spec init m.pieces m.last hok
    refine .cons ⟨fun p hp => ⟨hok p hp, hcomplete p hp⟩, fun text => ?_⟩ ?_
    · rw [htext]
      exact Base64.decode_eq_some_iff
    · -- the next message begins with a fresh encoder again
      rw [hinit]
      exact ih hms

/-- `foob` in two pieces, then `a`. -/
def foobAndA : List Message :=
  [⟨[⟨fun _ => 0, [0x66], ⟨100, 4⟩⟩], ⟨fun _ => 0, [0x6F, 0x6F, 0x62], ⟨100, 8⟩⟩⟩,
    ⟨[], ⟨fun _ => 0, [0x61], ⟨200, 4⟩⟩⟩]

theorem decode_sessions_foobAndA : ∃ foob a, (init.sessions foobAndA).1 = [foob, a] ∧
    Base64.decode (foob.flatMap fun p => p.2.text p.1.out) = some [0x66, 0x6F, 0x6F, 0x62] ∧
    Base64.decode (a.flatMap fun p => p.2.text p.1.out) = some [0x61] := by
  have hfits : ∀ m ∈ foobAndA, m.Fits :=
    List.forall_mem_cons.mpr ⟨⟨by decide, by decide⟩,
      List.forall_mem_singleton.mpr ⟨by decide, by decide⟩⟩
  obtain ⟨hfoob, hrest⟩ := List.forall₂_cons.mp (decode_sessions .fresh foobAndA hfits)
  obtain ⟨ha, -⟩ := List.forall₂_cons.mp hrest
  exact ⟨_, _, rfl, (hfoob.2 _).mpr rfl, (ha.2 _).mpr rfl⟩

end Base64Encoder

end Csics.EncDec
