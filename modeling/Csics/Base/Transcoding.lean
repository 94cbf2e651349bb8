import Csics.Base.Codec
import Csics.Base.Run

/-!
# What a codec has taken and put

`Codec.Carries` follows a codec over its calls, with all bytes that it has taken so far and all that
it has put. A codec transcodes if what it has put when it ends its stream decodes to what it has
taken. `written` are the bytes that the calls of a log have put one behind the other.
-/

namespace Csics.Base

variable {σ φ κ : Type*}

/-- The codec gets to the state, and has taken and put these bytes on its way. -/
inductive Codec.Carries (c : Codec σ φ κ) (z₀ : σ) : σ → List UInt8 → List UInt8 → Prop
  | start : Carries c z₀ z₀ [] []
  | call {z : σ} {taken put : List UInt8} (mode : φ) (input : List UInt8) (room : Nat)
      (h : Carries c z₀ z taken put) :
      Carries c z₀ (c.call z mode input room).1
        (taken ++ input.take (c.call z mode input room).2.consumed)
        (put ++ (c.call z mode input room).2.produced)

/-- A final call that ends the stream takes the rest of the input, and what has been put so far
decodes to what has been taken. -/
def Codec.Transcodes (c : Codec σ φ κ) (z₀ : σ) (final : φ) (ended : κ → Prop)
    (decode : List UInt8 → Option (List UInt8)) : Prop :=
  ∀ z taken put, c.Carries z₀ z taken put → ∀ input room,
    ended (c.call z final input room).2.code →
      (c.call z final input room).2.consumed = input.length ∧
        decode (put ++ (c.call z final input room).2.produced) = some (taken ++ input)

/-- The bytes that the calls have put. -/
def written (log : List (Reply κ)) : List UInt8 := log.flatMap Reply.produced

@[simp] theorem written_nil : written ([] : List (Reply κ)) = [] := rfl

@[simp] theorem written_concat {log : List (Reply κ)} {r : Reply κ} :
    written (log ++ [r]) = written log ++ r.produced := by
  simp [written]

/-- What a call takes behind what has been taken of an input. -/
theorem take_append_take_drop {α : Type*} (l : List α) (m n : Nat) :
    l.take m ++ (l.drop m).take n = l.take (m + n) := List.take_add.symm

variable {c : Codec σ φ κ} {z₀ z : σ} {taken put : List UInt8}

/-- A call that is offered the beginning of what is left of an input. -/
theorem Codec.Carries.offer (input : List UInt8) (n : Nat)
    (h : c.Carries z₀ z (taken ++ input.take n) put) (mode : φ) (k room : Nat) :
    c.Carries z₀ (c.call z mode ((input.drop n).take k) room).1
      (taken ++ input.take (n + (c.call z mode ((input.drop n).take k) room).2.consumed))
      (put ++ (c.call z mode ((input.drop n).take k) room).2.produced) := by
  have hle := c.consumed_le z mode ((input.drop n).take k) room
  have hcall := h.call mode ((input.drop n).take k) room
  rw [List.length_take] at hle
  rw [List.take_take, Nat.min_eq_left (Nat.le_trans hle (Nat.min_le_left _ _)),
    List.append_assoc, take_append_take_drop] at hcall
  exact hcall

/-! ## Gathering -/

/-- What a gathering codec has taken, and whether it has begun and ended its stream. -/
structure Gathered where
  taken : List UInt8
  begun : Bool
  done : Bool

/-- What a gathering codec puts where there is room for it. -/
def Gathered.pieces (z : Gathered) (header : List UInt8) (body : List UInt8 → List UInt8)
    (final : Bool) (input : List UInt8) : List UInt8 :=
  (if z.begun then [] else header) ++ if final then body (z.taken ++ input) else []

variable (header : List UInt8) (body : List UInt8 → List UInt8) (final : φ → Bool)
  (ok ended refused : κ)

/-- A codec that puts a header at once and everything else at the end. It refuses a call without
room for that, and any call behind the end. -/
def gather : Codec Gathered φ κ where
  call z mode input room :=
    if z.done ∨ room < (z.pieces header body (final mode) input).length then
      (z, ⟨0, [], refused⟩)
    else
      (⟨z.taken ++ input, true, final mode⟩, ⟨input.length,
        z.pieces header body (final mode) input, if final mode then ended else ok⟩)
  consumed_le z mode input room := by
    split
    · exact Nat.zero_le _
    · exact Nat.le_refl _
  produced_le z mode input room := by
    split
    · exact Nat.zero_le _
    · rename_i h
      exact Nat.le_of_not_lt fun hlt => h (.inr hlt)

variable {header body final ok ended refused}

/-- What a gathering codec has put so far. -/
theorem put_of_carries_gather {z : Gathered} {taken put : List UInt8}
    (h : (gather header body final ok ended refused).Carries ⟨[], false, false⟩ z taken put) :
    z.taken = taken ∧
      (z.done = false → put = if z.begun then header else []) := by
  induction h with
  | start => exact ⟨rfl, fun _ => rfl⟩
  | @call z taken put mode input room _ ih =>
    obtain ⟨rfl, hput⟩ := ih
    simp only [gather]
    split
    · simpa using hput
    · rename_i hcall
      rw [not_or, Bool.not_eq_true] at hcall
      simp only [List.take_length, true_and, hput hcall.1, Gathered.pieces, if_true]
      intro hfinal
      cases z.begun <;> simp [hfinal]

/-- A gathering codec transcodes if its decoder undoes a header with a body. -/
theorem gather_transcodes {mode : φ} {decode : List UInt8 → Option (List UInt8)}
    (hmode : final mode = true) (hrefused : refused ≠ ended)
    (hdecode : ∀ l, decode (header ++ body l) = some l) :
    (gather header body final ok ended refused).Transcodes ⟨[], false, false⟩ mode (· = ended)
      decode := by
  intro z taken put hcarries input room hended
  obtain ⟨rfl, hput⟩ := put_of_carries_gather hcarries
  simp only [gather] at hended ⊢
  split at hended
  · exact absurd hended hrefused
  · rename_i hcall
    rw [if_neg hcall]
    rw [not_or, Bool.not_eq_true] at hcall
    refine ⟨rfl, ?_⟩
    have hwhole : put ++ z.pieces header body (final mode) input =
        header ++ body (z.taken ++ input) := by
      rw [hput hcall.1, Gathered.pieces, hmode]
      cases z.begun <;> simp
    rw [hwhole, hdecode]

/-- An encoding of which only the code of one text is known. -/
def encodeText (text code l : List UInt8) : List UInt8 := if l = text then code else 0 :: l

def decodeText (header text code l : List UInt8) : Option (List UInt8) :=
  if l = header ++ code then some text else some (l.drop (header.length + 1))

theorem decodeText_encodeText {header text code : List UInt8} (hcode : code.head? ≠ some 0)
    (l : List UInt8) :
    decodeText header text code (header ++ encodeText text code l) = some l := by
  by_cases h : l = text
  · simp [decodeText, encodeText, h]
  · have hne : 0 :: l ≠ code := fun heq => hcode (heq ▸ rfl)
    simp [decodeText, encodeText, h, hne]

end Csics.Base
