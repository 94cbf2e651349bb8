import Mathlib.Algebra.Ring.Nat
import Mathlib.Tactic.Choose
import Csics.Base.Loop

/-!
# Stream codecs

A codec turns a stream of bytes into another one, a piece at a time. A call offers it some input and
some room, and its reply tells how much of the input it has taken, what it has put into the room,
and a code. `log`s are the replies to the calls so far.

A codec may refuse a call however often it is repeated. `idles_iff` brings a loop around a codec
down to that: where the loop idles, the codec refuses.
-/

namespace Csics.Base

/-- What a call has done. -/
structure Reply (κ : Type*) where
  consumed : Nat
  produced : List UInt8
  code : κ
  deriving DecidableEq, Repr

/-- A codec with states `σ`, modes `φ` and codes `κ`. A call takes no more than it is offered. -/
structure Codec (σ φ κ : Type*) where
  call : σ → φ → List UInt8 → Nat → σ × Reply κ
  consumed_le : ∀ z mode input room, (call z mode input room).2.consumed ≤ input.length
  produced_le : ∀ z mode input room, (call z mode input room).2.produced.length ≤ room

variable {σ φ κ : Type*}

/-- How many bytes have been taken or put. -/
def Reply.moved (r : Reply κ) : Nat := r.consumed + r.produced.length

theorem Reply.moved_eq_zero {r : Reply κ} : r.moved = 0 ↔ r.consumed = 0 ∧ r.produced = [] := by
  rw [moved, Nat.add_eq_zero_iff, List.length_eq_zero_iff]

/-! ## Logs -/

/-- How many bytes all calls have taken. -/
def consumed (log : List (Reply κ)) : Nat := (log.map Reply.consumed).sum

/-- How many bytes all calls have put. -/
def produced (log : List (Reply κ)) : Nat := (log.map fun r => r.produced.length).sum

variable {log : List (Reply κ)} {r : Reply κ}

@[simp] theorem consumed_nil : consumed ([] : List (Reply κ)) = 0 := rfl

@[simp] theorem produced_nil : produced ([] : List (Reply κ)) = 0 := rfl

@[simp] theorem consumed_concat : consumed (log ++ [r]) = consumed log + r.consumed := by
  simp [consumed]

@[simp] theorem produced_concat : produced (log ++ [r]) = produced log + r.produced.length := by
  simp [produced]

theorem consumed_eq_zero : consumed log = 0 ↔ ∀ r ∈ log, r.consumed = 0 := by
  simp [consumed, List.sum_eq_zero_iff_forall_eq_nat]

theorem produced_eq_zero : produced log = 0 ↔ ∀ r ∈ log, r.produced = [] := by
  simp [produced, List.sum_eq_zero_iff_forall_eq_nat]

/-! ## Refusals -/

/-- Every call moves something, or has one of these codes. -/
def Codec.Progressive (c : Codec σ φ κ) (refusal : κ → Prop) : Prop :=
  ∀ z mode input room, 0 < (c.call z mode input room).2.moved ∨
    refusal (c.call z mode input room).2.code

/-- The call gets such a reply, and so does each repetition of it. -/
def Refuses (call : σ → σ × Reply κ) (refusal : Reply κ → Prop) (z : σ) : Prop :=
  ∀ n, refusal (call ((fun z => (call z).1)^[n] z)).2

/-- A refusal that leaves the codec as it is stands for ever. -/
theorem refuses_of_eq {call : σ → σ × Reply κ} {refusal : Reply κ → Prop} {z : σ}
    (hcall : (call z).1 = z) (hrefusal : refusal (call z).2) : Refuses call refusal z := by
  intro n
  rw [Function.iterate_fixed hcall]
  exact hrefusal

variable {τ ρ : Type*} {body : τ → τ ⊕ ρ} {m : τ → Nat}
  {call : σ → σ × Reply κ} {refusal : Reply κ → Prop} {t : τ}

/-- In an idle round nothing but the stream changes, and the round is one refused call. -/
theorem idles_iff (stream : τ → σ) {P : τ → Prop} (hP : P t)
    (hidle : ∀ t, P t →
      (refusal (call (stream t)).2 ↔ ∃ t', body t = .inl t' ∧ m t' = m t))
    (hnext : ∀ t t', P t → body t = .inl t' → m t' = m t →
      P t' ∧ stream t' = (call (stream t)).1) :
    Loop.Idles body m t ↔ Refuses call refusal (stream t) := by
  constructor
  · rintro ⟨u, rfl, hu⟩
    have hround : ∀ n, P (u n) ∧ stream (u n) = (fun z => (call z).1)^[n] (stream (u 0)) := by
      intro n
      induction n with
      | zero => exact ⟨hP, rfl⟩
      | succ n ih =>
        obtain ⟨hPn, hstream⟩ := hnext _ _ ih.1 (hu n).1 (hu n).2
        rw [Function.iterate_succ_apply', ← ih.2]
        exact ⟨hPn, hstream⟩
    intro n
    obtain ⟨hPn, hstream⟩ := hround n
    rw [← hstream]
    exact (hidle _ hPn).mpr ⟨_, hu n⟩
  · intro hrefuses
    have hround : ∀ t : { t // P t ∧ Refuses call refusal (stream t) },
        ∃ t' : { t // P t ∧ Refuses call refusal (stream t) },
          body t.1 = .inl t'.1 ∧ m t'.1 = m t.1 := by
      rintro ⟨t, hPt, ht⟩
      obtain ⟨t', hbody, hm⟩ := (hidle t hPt).mp (ht 0)
      obtain ⟨hPt', hstream⟩ := hnext t t' hPt hbody hm
      refine ⟨⟨t', hPt', ?_⟩, hbody, hm⟩
      intro n
      rw [hstream]
      exact ht (n + 1)
    choose next hnext using hround
    refine ⟨fun n => (next^[n] ⟨t, hP, hrefuses⟩).1, rfl, ?_⟩
    intro n
    dsimp only
    rw [Function.iterate_succ_apply']
    exact hnext _

end Csics.Base
