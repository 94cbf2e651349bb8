import Csics.Container.Refinement

/-!
# The lifetimes of elements

For an element type with a destructor, and with a copy or a move of its own, the slots below
`size()` hold the objects, and no others, and every object that has been constructed is in one slot,
or has been destroyed once. Operations that would do otherwise, construct over an object, or assign
to one that is not there, are those that do not go through.

All of this is kept by every operation but `swap_and_pop`, which destroys the element before it
assigns to it, and by those that make room by destroying the elements before they read an argument
that is one of them (`respects_iff_guarded`).
-/

namespace Csics.Container

open Base

variable {α : Type}

/-- An operation, perhaps with an argument in the buffer itself. -/
inductive ElementOp (α : Type) where
  | outer (op : BufferOp α)
  /-- `push_back(b[i])`, and `push_back(std::move(b[i]))` where it moves. -/
  | pushBackOwn (name i : Nat) (moves : Bool)
  /-- `emplace_back(f(b[i]))`, for a reference to the element or a part of it. -/
  | emplaceBackOwn (name i : Nat) (moves : Bool) (f : α → α)
  | appendOwn (name offset count : Nat)
  | assignOwned (name : Nat)

namespace Buffers

section

variable (T : ElementType α) (policy : CapacityPolicy)

def elementStep (w : Buffers α) : ElementOp α → Option (Buffers α)
  | .outer op => w.step T policy op
  | .pushBackOwn name i moves => w.modify name fun b => b.constructBackOwn T moves i id
  | .emplaceBackOwn name i moves f => w.modify name fun b => b.constructBackOwn T moves i f
  | .appendOwn name offset count => w.modify name fun b => b.appendOwn T offset count
  | .assignOwned name => w.modify name fun b => b.assignOwned T

/-- The operation is one that a program may call. -/
def ElementValid (w : Buffers α) : ElementOp α → Prop
  | .outer op => w.Valid T op
  | .pushBackOwn name i _ | .emplaceBackOwn name i _ _ => w.Has name fun b => i < b.size
  | .appendOwn name offset count => w.Has name fun b => offset + count ≤ b.size
  | .assignOwned name => w.Has name fun b => b.size ≠ 0

/-- `swap_and_pop` is at the last position, and an argument in the buffer itself meets room. -/
def Lasts (w : Buffers α) : ElementOp α → Prop
  | .outer op => w.Pops T op
  | .pushBackOwn name _ _ | .emplaceBackOwn name _ _ _ => w.Has name fun b => b.size < b.capacity
  | .appendOwn name _ count => count = 0 ∨ w.Has name fun b => b.size + count ≤ b.capacity
  | .assignOwned _ => False

instance (w : Buffers α) (op : ElementOp α) : Decidable (w.ElementValid T op) := by
  cases op <;> unfold ElementValid <;> infer_instance

instance (w : Buffers α) (op : ElementOp α) : Decidable (w.Lasts T op) := by
  cases op <;> unfold Lasts <;> infer_instance

end

/-- The objects are in the slots below `size()`, every object is there or has been destroyed, and
without buffers all have been destroyed once. -/
structure Respects (w : Buffers α) : Prop where
  live : ∀ name b, w.buffers.lookup name = some b →
    ∀ i, (∃ o, b.slots[i]? = some (some o)) ↔ i < b.size
  once : ∀ k < w.life.begun,
    total (fun b => b.slots.live.count k) w.buffers + w.life.ended.count k = 1
  destroyed : w.buffers = ∅ → ∀ k < w.life.begun, w.life.ended.count k = 1

variable {T : ElementType α} {policy : CapacityPolicy} {w : Buffers α} {op : BufferOp α}

theorem Inv.respects (h : w.Inv T) (ht : T.triviallyDestructible = false) : w.Respects := by
  have honce : ∀ k < w.life.begun,
      total (fun b : Buffer α => b.slots.live.count k) w.buffers + w.life.ended.count k = 1 := by
    intro k hk
    rw [h.accounts ht k, Lifetimes.issued, if_pos hk]
  refine ⟨?_, honce, ?_⟩
  · intro name b hb i
    obtain ⟨os, hos⟩ := h.holds name b hb
    exact hos.exists_getElem?_iff ht
  · intro hempty k hk
    have hk := honce k hk
    rwa [hempty, total_empty, Nat.zero_add] at hk

theorem moves_of_not_copyable (ht : T.triviallyCopyable = false) : w.Moves T op := by
  have hnot : ¬ T.triviallyCopyable = true := by simp [ht]
  cases op with
  | moveConstruct name src => exact fun htrue => absurd htrue hnot
  | moveAssign name src => exact fun _ htrue => absurd htrue hnot
  | _ => trivial

/-- A method that keeps what a buffer holds keeps the invariant. -/
theorem Inv.exists_modify {name : Nat} {b : Buffer α}
    {f : Buffer α → Lifetimes → Option (Buffer α × Lifetimes)} (h : w.Inv T)
    (hb : w.buffers.lookup name = some b)
    (hf : ∀ os, b.Holds T os → ∃ vs, Turns T os w.life (f b w.life) vs) :
    ∃ w', w.modify name f = some w' ∧ w'.Inv T := by
  obtain ⟨os, hos⟩ := h.holds name b hb
  obtain ⟨vs, hturns⟩ := hf os hos
  obtain ⟨w', hstep, hinv, -⟩ := h.modify_turns hb hos hturns
  exact ⟨w', hstep, hinv⟩

variable {own : ElementOp α}

theorem elementStep_spec (hcopyable : T.triviallyCopyable = false) (h : w.Inv T)
    (hvalid : w.ElementValid T own) (hlasts : w.Lasts T own) :
    ∃ w', w.elementStep T policy own = some w' ∧ w'.Inv T := by
  cases own with
  | outer op =>
    obtain ⟨w', hstep, hinv, -⟩ := step_spec h hvalid (moves_of_not_copyable hcopyable) hlasts
    exact ⟨w', hstep, hinv⟩
  | pushBackOwn name i moves =>
    obtain ⟨b, hb, hi⟩ := hvalid
    exact h.exists_modify hb fun os hos =>
      exists_turns_constructBackOwn hos moves id hi ((has_iff hb).mp hlasts)
  | emplaceBackOwn name i moves f =>
    obtain ⟨b, hb, hi⟩ := hvalid
    exact h.exists_modify hb fun os hos =>
      exists_turns_constructBackOwn hos moves f hi ((has_iff hb).mp hlasts)
  | appendOwn name offset count =>
    obtain ⟨b, hb, hle⟩ := hvalid
    exact h.exists_modify hb fun os hos =>
      exists_turns_appendOwn hos hle (hlasts.imp_right (has_iff hb).mp)
  | assignOwned name => exact hlasts.elim

/-- An argument that `reallocate` ends is read. -/
theorem elementStep_eq_none (h : w.Inv T) (hvalid : w.ElementValid T own)
    (hlasts : ¬ w.Lasts T own) : w.elementStep T policy own = none := by
  cases own with
  | outer op => exact step_eq_none_of_not_pops h hvalid hlasts
  | pushBackOwn name i moves =>
    obtain ⟨b, hb, -⟩ := hvalid
    rw [Lasts, has_iff hb] at hlasts
    rw [elementStep, modify, hb, Option.bind_some, Buffer.constructBackOwn,
      arguments_eq_none (by omega)]
    rfl
  | emplaceBackOwn name i moves f =>
    obtain ⟨b, hb, -⟩ := hvalid
    rw [Lasts, has_iff hb] at hlasts
    rw [elementStep, modify, hb, Option.bind_some, Buffer.constructBackOwn,
      arguments_eq_none (by omega)]
    rfl
  | appendOwn name offset count =>
    obtain ⟨b, hb, -⟩ := hvalid
    rw [Lasts, has_iff hb, not_or] at hlasts
    rw [elementStep, modify, hb, Option.bind_some, Buffer.appendOwn, if_neg hlasts.1,
      arguments_eq_none (by omega)]
    rfl
  | assignOwned name =>
    obtain ⟨b, hb, -⟩ := hvalid
    rw [elementStep, modify, hb, Option.bind_some, assignOwned_eq_none, Option.map_none]

end Buffers

end Csics.Container
