import Mathlib.Logic.Function.Basic
import Csics.Base.Run
import Csics.Base.Total
import Csics.Container.Contents

/-!
# Buffers by name

All buffers of a program, and the operations on them. `Lists` is what they stand for: a list for
each name. `step` tells what an operation does, and `Lists.step` what it does to the lists.

`step_spec` is the simulation. A `Valid` operation goes through if it does not do one of two things,
moving from a buffer with room for elements that are trivially copyable, and `swap_and_pop` at a
position before the last of elements that are destroyed (`Sound`). Then it does the same as on the
lists, unless it erases an empty range before elements that do not survive a move onto themselves.
-/

namespace Csics.Container

open Base

variable {α : Type}

/-- The buffers, and the lifetimes of their elements. -/
structure Buffers (α : Type) where
  buffers : AList fun _ : Nat => Buffer α
  life : Lifetimes

/-- An operation on the buffer of a name. The values it is given lie outside the buffer. -/
inductive BufferOp (α : Type) where
  | create (name : Nat)
  | ofData (name : Nat) (data : List α)
  | ofValue (name size : Nat) (value : α)
  | ofSize (name : Nat) (added : List α)
  | copyConstruct (name src : Nat)
  | moveConstruct (name src : Nat)
  | destruct (name : Nat)
  | copyAssign (name src : Nat)
  | moveAssign (name src : Nat)
  | pushBack (name : Nat) (value : α)
  | emplaceBack (name : Nat) (value : α)
  | popBack (name : Nat)
  | erase (name first last : Nat)
  | swapAndPop (name pos : Nat)
  | append (name : Nat) (data : List α)
  | appendUninitialized (name : Nat) (added : List α)
  | resize (name newSize : Nat) (added : Nat → α)
  | clear (name : Nat)

/-- The operation is move construction or move assignment. -/
def BufferOp.IsMove : BufferOp α → Prop
  | .moveConstruct _ _ | .moveAssign _ _ => True
  | _ => False

instance (op : BufferOp α) : Decidable op.IsMove := by
  cases op <;> unfold BufferOp.IsMove <;> infer_instance

namespace Buffers

/-- No buffer, and no element has begun. -/
def init : Buffers α := ⟨∅, ⟨0, []⟩⟩

/-- A new buffer. -/
def construct (w : Buffers α) (name : Nat) (r : Option (Buffer α × Lifetimes)) :
    Option (Buffers α) :=
  if name ∈ w.buffers then none
  else r.map fun p => ⟨w.buffers.insert name p.1, p.2⟩

/-- A method of a buffer. -/
def modify (w : Buffers α) (name : Nat)
    (f : Buffer α → Lifetimes → Option (Buffer α × Lifetimes)) : Option (Buffers α) :=
  (w.buffers.lookup name).bind fun b =>
    (f b w.life).map fun p => ⟨w.buffers.insert name p.1, p.2⟩

/-- Two buffers, one of which has been moved to the other. -/
def moved (w : Buffers α) (name src : Nat) (r : Option (Buffer α × Buffer α × Lifetimes)) :
    Option (Buffers α) :=
  r.map fun p => ⟨(w.buffers.insert src p.2.1).insert name p.1, p.2.2⟩

variable (T : ElementType α) (policy : CapacityPolicy)

def step (w : Buffers α) : BufferOp α → Option (Buffers α)
  | .create name => w.construct name (some (Buffer.empty, w.life))
  | .ofData name data => w.construct name (Buffer.ofData T policy data w.life)
  | .ofValue name size value => w.construct name (Buffer.ofValue T policy size value w.life)
  | .ofSize name added => w.construct name (some (Buffer.ofSize T policy added w.life))
  | .copyConstruct name src => (w.buffers.lookup src).bind fun other =>
      w.construct name (other.copyConstruct T policy w.life)
  | .moveConstruct name src =>
    if name ∈ w.buffers then none
    else (w.buffers.lookup src).bind fun other =>
      w.moved name src (other.moveConstruct T w.life)
  | .destruct name => (w.buffers.lookup name).bind fun b =>
      (b.destruct T w.life).map fun life => ⟨w.buffers.erase name, life⟩
  -- both assignments begin with this == &other
  | .copyAssign name src =>
    if name = src then w.modify name fun b life => some (b, life)
    else (w.buffers.lookup src).bind fun other =>
      w.modify name fun b => b.copyAssign T policy other
  | .moveAssign name src =>
    if name = src then w.modify name fun b life => some (b, life)
    else (w.buffers.lookup name).bind fun b => (w.buffers.lookup src).bind fun other =>
      w.moved name src (b.moveAssign T other w.life)
  | .pushBack name value => w.modify name fun b => b.pushBack T policy value
  | .emplaceBack name value => w.modify name fun b => b.emplaceBack T policy value
  | .popBack name => w.modify name fun b => b.popBack T
  | .erase name first last => w.modify name fun b => b.erase T first last
  | .swapAndPop name pos => w.modify name fun b => b.swapAndPop T pos
  | .append name data => w.modify name fun b => b.append T policy data
  | .appendUninitialized name added => w.modify name fun b => b.appendUninitialized T policy added
  | .resize name newSize added => w.modify name fun b => b.resize T policy newSize added
  | .clear name => w.modify name fun b => b.clear T

/-! ## What is asked of the caller -/

/-- A buffer of that name, with a property. -/
def Has (w : Buffers α) (name : Nat) (P : Buffer α → Prop) : Prop :=
  ∃ b, w.buffers.lookup name = some b ∧ P b

/-- The operation is one that a program may call. -/
def Valid (w : Buffers α) : BufferOp α → Prop
  | .create name | .ofData name _ | .ofValue name _ _ => name ∉ w.buffers
  | .ofSize name _ => name ∉ w.buffers ∧ T.triviallyCopyable = true
  | .copyConstruct name src | .moveConstruct name src =>
    name ∉ w.buffers ∧ w.Has src fun _ => True
  | .copyAssign name src | .moveAssign name src =>
    (w.Has name fun _ => True) ∧ w.Has src fun _ => True
  | .destruct name | .pushBack name _ | .emplaceBack name _ | .append name _ | .resize name _ _
  | .clear name => w.Has name fun _ => True
  | .popBack name => w.Has name fun b => b.size ≠ 0
  | .erase name first last => w.Has name fun b => first ≤ last ∧ last ≤ b.size
  | .swapAndPop name pos => w.Has name fun b => pos < b.size
  | .appendUninitialized name _ => (w.Has name fun _ => True) ∧ T.triviallyCopyable = true

/-- A buffer that is moved from has no room if `T` is trivially copyable. -/
def Moves (w : Buffers α) : BufferOp α → Prop
  | .moveConstruct _ src => T.triviallyCopyable = true → w.Has src fun b => b.capacity = 0
  | .moveAssign name src =>
    name ≠ src → T.triviallyCopyable = true → w.Has src fun b => b.capacity = 0
  | _ => True

/-- Where elements are destroyed, `swap_and_pop` is at the last position. -/
def Pops (w : Buffers α) : BufferOp α → Prop
  | .swapAndPop name pos =>
    T.triviallyDestructible = true ∨ w.Has name fun b => pos + 1 = b.size
  | _ => True

/-- Before an empty range, elements survive a move onto themselves. -/
def Erases (w : Buffers α) : BufferOp α → Prop
  | .erase name first last =>
    first = last → w.Has name fun b =>
      ∃ l ∈ b.elements, ∀ v ∈ l.drop first, T.selfMoved v = v
  | _ => True

instance (w : Buffers α) (name : Nat) (P : Buffer α → Prop) [DecidablePred P] :
    Decidable (w.Has name P) :=
  match hb : w.buffers.lookup name with
  | none => isFalse (by simp [Has, hb])
  | some b => decidable_of_iff (P b) (by simp [Has, hb])

instance (w : Buffers α) (op : BufferOp α) : Decidable (w.Valid T op) := by
  cases op <;> unfold Valid <;> infer_instance

instance (w : Buffers α) (op : BufferOp α) : Decidable (w.Moves T op) := by
  cases op <;> unfold Moves <;> infer_instance

instance (w : Buffers α) (op : BufferOp α) : Decidable (w.Pops T op) := by
  cases op <;> unfold Pops <;> infer_instance

instance [DecidableEq α] (w : Buffers α) (op : BufferOp α) : Decidable (w.Erases T op) := by
  cases op <;> unfold Erases <;> infer_instance

/-! ## Lists by name -/

/-- A list for each buffer. -/
abbrev Lists (α : Type) := Nat → Option (List α)

/-- What the operation does to the lists. Of a list that is moved, nothing is left if `T` is
trivially copyable, and otherwise what moves leave of its elements. -/
def Lists.step (ls : Lists α) : BufferOp α → Lists α
  | .create name => Function.update ls name (some [])
  | .ofData name data => Function.update ls name (some data)
  | .ofValue name size value => Function.update ls name (some (List.replicate size value))
  | .ofSize name added => Function.update ls name (some added)
  | .copyConstruct name src | .copyAssign name src => Function.update ls name (ls src)
  | .moveConstruct name src => move ls name src
  | .moveAssign name src => if name = src then ls else move ls name src
  | .destruct name => Function.update ls name none
  | .pushBack name value | .emplaceBack name value => change ls name (· ++ [value])
  | .popBack name => change ls name List.dropLast
  | .erase name first last => change ls name (eraseRange · first last)
  | .swapAndPop name pos => change ls name (replaceByLast · pos)
  | .append name data => change ls name (· ++ data)
  | .appendUninitialized name added => change ls name (· ++ added)
  | .resize name newSize added => change ls name (resized · newSize added)
  | .clear name => change ls name fun _ => []
where
  change (ls : Lists α) (name : Nat) (f : List α → List α) : Lists α :=
    Function.update ls name ((ls name).map f)
  move (ls : Lists α) (name src : Nat) : Lists α :=
    Function.update (change ls src fun l =>
      if T.triviallyCopyable = true then [] else l.map T.movedFrom) name (ls src)

/-- The lists that the buffers are. -/
def contents (w : Buffers α) : Lists α := fun name => (w.buffers.lookup name).bind Buffer.elements

/-- Every buffer is the list of its name, with as many elements as it has room for at most, and with
storage for those. -/
def Agrees (w : Buffers α) (ls : Lists α) : Prop :=
  ∀ name, Option.Rel (fun b l => b.elements = some l ∧ b.size ≤ b.capacity ∧
    b.slots.length = b.capacity) (w.buffers.lookup name) (ls name)

/-- Every buffer holds elements, and every element that has begun is in a buffer or has been
destroyed. -/
structure Inv (w : Buffers α) : Prop where
  holds : ∀ name b, w.buffers.lookup name = some b → ∃ os, b.Holds T os
  accounts : T.triviallyDestructible = false → ∀ k,
    total (fun b => b.slots.live.count k) w.buffers + w.life.ended.count k = w.life.issued k

variable {T policy} {w : Buffers α} {name src : Nat} {b other : Buffer α} {os xs : List (Object α)}
  {vs ws : List α} {life : Lifetimes}

/-! ## The invariant -/

theorem inv_init : (init : Buffers α).Inv T where
  holds := by
    intro name b hb
    rw [init, AList.lookup_empty] at hb
    cases hb
  accounts _ k := by
    simp [init, Lifetimes.issued]

theorem contents_init : (init : Buffers α).contents = fun _ => none := by
  ext name : 1
  rw [contents, init, AList.lookup_empty]
  rfl

theorem contents_of_lookup (hb : w.buffers.lookup name = some b) (h : b.Holds T os) :
    w.contents name = some (values os) := by
  rw [contents, hb]
  exact h.elements

/-- The contents with one buffer more, or another one. -/
theorem contents_insert (h : b.Holds T os) :
    (⟨w.buffers.insert name b, life⟩ : Buffers α).contents =
      Function.update w.contents name (some (values os)) := by
  ext name' : 1
  by_cases hname : name' = name
  · subst hname
    rw [Function.update_self, contents, AList.lookup_insert]
    exact h.elements
  · rw [Function.update_of_ne hname, contents, AList.lookup_insert_ne hname]
    rfl

theorem Inv.agrees (h : w.Inv T) : w.Agrees w.contents := by
  intro name
  cases hb : w.buffers.lookup name with
  | none =>
    rw [contents, hb]
    exact .none
  | some b =>
    obtain ⟨os, hos⟩ := h.holds name b hb
    rw [contents_of_lookup hb hos]
    exact .some ⟨hos.elements, hos.size_le, hos.capacity⟩

/-- The buffers are no other lists. -/
theorem Agrees.eq {ls : Lists α} (h : w.Agrees ls) : ls = w.contents := by
  ext name : 1
  have hrel := h name
  rw [contents]
  generalize ls name = list at hrel ⊢
  cases hb : w.buffers.lookup name with
  | none =>
    rw [hb] at hrel
    cases hrel
    rfl
  | some b =>
    rw [hb] at hrel
    cases hrel with
    | some hl => exact hl.1.symm

/-- With one buffer more, or another one, all buffers hold elements. -/
theorem holds_insert {buffers : AList fun _ : Nat => Buffer α}
    (h : ∀ name b, buffers.lookup name = some b → ∃ os, b.Holds T os) (hos : b.Holds T os) :
    ∀ name' b', (buffers.insert name b).lookup name' = some b' → ∃ os, b'.Holds T os := by
  intro name' b' hb'
  by_cases hname : name' = name
  · subst hname
    rw [AList.lookup_insert] at hb'
    cases hb'
    exact ⟨os, hos⟩
  · rw [AList.lookup_insert_ne hname] at hb'
    exact h name' b' hb'

/-- The objects in the buffers, with another one for a name. -/
theorem total_live_insert {buffers : AList fun _ : Nat => Buffer α} {b' : Buffer α}
    (ht : T.triviallyDestructible = false) (hb : buffers.lookup name = some b)
    (hos : b.Holds T os) (hxs : b'.Holds T xs) (k : Nat) :
    total (fun b => b.slots.live.count k) (buffers.insert name b') + (ids os).count k =
      total (fun b => b.slots.live.count k) buffers + (ids xs).count k := by
  have htotal := total_insert_of_lookup (fun b : Buffer α => b.slots.live.count k) (v := b') hb
  rwa [hos.live_eq ht, hxs.live_eq ht] at htotal

/-- The objects in the buffers, with one for a new name. -/
theorem total_live_insert_of_notMem {buffers : AList fun _ : Nat => Buffer α}
    (ht : T.triviallyDestructible = false) (hname : name ∉ buffers) (hos : b.Holds T os)
    (k : Nat) :
    total (fun b => b.slots.live.count k) (buffers.insert name b) =
      total (fun b => b.slots.live.count k) buffers + (ids os).count k := by
  have htotal := total_insert_of_notMem (fun b : Buffer α => b.slots.live.count k) (v := b) hname
  rwa [hos.live_eq ht] at htotal

/-- A method that turns the elements of a buffer into others. -/
theorem Inv.modify_turns {f : Buffer α → Lifetimes → Option (Buffer α × Lifetimes)}
    (h : w.Inv T) (hb : w.buffers.lookup name = some b) (hos : b.Holds T os)
    (hturns : Turns T os w.life (f b w.life) vs) :
    ∃ w', w.modify name f = some w' ∧ w'.Inv T ∧
      w'.contents = Function.update w.contents name (some vs) := by
  obtain ⟨b', life', os', hturns, hos', hvalues, hconserves⟩ := hturns
  have hmodify : w.modify name f = some ⟨w.buffers.insert name b', life'⟩ := by
    rw [Buffers.modify, hb, Option.bind_some, hturns, Option.map_some]
  refine ⟨_, hmodify, ⟨holds_insert h.holds hos', ?_⟩, ?_⟩
  · intro ht k
    have htotal := total_live_insert ht hb hos hos' k
    have haccounts := h.accounts ht k
    have hk := hconserves ht k
    simp only
    omega
  · rw [contents_insert hos', hvalues]

/-- A method that turns a list into another one, perhaps on a condition. -/
theorem Inv.modify_of {f : Buffer α → Lifetimes → Option (Buffer α × Lifetimes)}
    {g : List α → List α} {P : Prop} (h : w.Inv T) (hb : w.buffers.lookup name = some b)
    (hf : ∀ os, b.Holds T os → ∃ vs, Turns T os w.life (f b w.life) vs ∧
      (vs = g (values os) ↔ P)) :
    ∃ w', w.modify name f = some w' ∧ w'.Inv T ∧
      (w'.contents = Lists.step.change w.contents name g ↔ P) := by
  obtain ⟨os, hos⟩ := h.holds name b hb
  obtain ⟨vs, hturns, hvs⟩ := hf os hos
  obtain ⟨w', hmodify, hinv, hcontents⟩ := h.modify_turns hb hos hturns
  refine ⟨w', hmodify, hinv, ?_⟩
  rw [hcontents, Lists.step.change, contents_of_lookup hb hos, Option.map_some,
    (Function.update_injective _ _).eq_iff, Option.some.injEq]
  exact hvs

theorem Inv.modify {f : Buffer α → Lifetimes → Option (Buffer α × Lifetimes)}
    {g : List α → List α} {P : Prop} (h : w.Inv T) (hb : w.buffers.lookup name = some b)
    (hf : ∀ os, b.Holds T os → Turns T os w.life (f b w.life) (g (values os))) (hP : P) :
    ∃ w', w.modify name f = some w' ∧ w'.Inv T ∧
      (w'.contents = Lists.step.change w.contents name g ↔ P) :=
  h.modify_of hb fun os hos => ⟨_, hf os hos, iff_of_true rfl hP⟩

/-- An assignment of a buffer to itself does nothing. -/
theorem Inv.assign_self (h : w.Inv T) (hb : w.buffers.lookup name = some b) :
    ∃ w', w.modify name (fun b life => some (b, life)) = some w' ∧ w'.Inv T ∧
      w'.contents = w.contents := by
  obtain ⟨w', hstep, hinv, hcontents⟩ := h.modify (f := fun b life => some (b, life))
    (g := id) hb (fun os hos => hos.turns) trivial
  refine ⟨w', hstep, hinv, ?_⟩
  rw [hcontents.mpr trivial, Lists.step.change, Option.map_id]
  exact Function.update_eq_self _ _

theorem Inv.construct {r : Option (Buffer α × Lifetimes)} (h : w.Inv T) (hname : name ∉ w.buffers)
    (hr : Turns T [] w.life r vs) : ∃ w', w.construct name r = some w' ∧ w'.Inv T ∧
      w'.contents = Function.update w.contents name (some vs) := by
  obtain ⟨b, life', os, rfl, hos, hvalues, hconserves⟩ := hr
  refine ⟨⟨w.buffers.insert name b, life'⟩, if_neg hname, ⟨holds_insert h.holds hos, ?_⟩, ?_⟩
  · intro ht k
    have htotal := total_live_insert_of_notMem ht hname hos k
    have haccounts := h.accounts ht k
    have hk := hconserves ht k
    simp only [ids_nil, List.count_nil] at hk ⊢
    omega
  · rw [contents_insert hos, hvalues]

theorem Inv.destruct (h : w.Inv T) (hb : w.buffers.lookup name = some b) :
    ∃ life', b.destruct T w.life = some life' ∧
      (⟨w.buffers.erase name, life'⟩ : Buffers α).Inv T ∧
      (⟨w.buffers.erase name, life'⟩ : Buffers α).contents =
        Function.update w.contents name none := by
  obtain ⟨os, hos⟩ := h.holds name b hb
  obtain ⟨life', hdestruct, hconserves⟩ := exists_destruct w.life hos
  refine ⟨life', hdestruct, ⟨?_, ?_⟩, ?_⟩
  · intro name' b' hb'
    by_cases hname : name' = name
    · subst hname
      rw [AList.lookup_erase] at hb'
      cases hb'
    · rw [AList.lookup_erase_ne hname] at hb'
      exact h.holds name' b' hb'
  · intro ht k
    have htotal := total_erase_of_lookup (fun b : Buffer α => b.slots.live.count k) hb
    have haccounts := h.accounts ht k
    have hk := hconserves ht k
    rw [hos.live_eq ht] at htotal
    simp only [List.count_nil] at hk ⊢
    omega
  · ext name' : 1
    by_cases hname : name' = name
    · subst hname
      rw [Function.update_self, contents, AList.lookup_erase]
      rfl
    · rw [Function.update_of_ne hname, contents, AList.lookup_erase_ne hname]
      rfl

/-- Elements of one buffer have been moved to another one. -/
theorem contents_moved (h : b.Holds T os) (hother : other.Holds T xs) :
    (⟨(w.buffers.insert src other).insert name b, life⟩ : Buffers α).contents =
      Function.update (Function.update w.contents src (some (values xs))) name
        (some (values os)) := by
  have hsrc : (⟨w.buffers.insert src other, life⟩ : Buffers α).contents =
      Function.update w.contents src (some (values xs)) := contents_insert hother
  rw [← hsrc]
  exact contents_insert (w := ⟨w.buffers.insert src other, life⟩) h

/-- What the moved elements and those that are left make of the lists. -/
theorem move_eq (hcontents : w.contents src = some vs)
    (hws : ws = if T.triviallyCopyable = true then [] else vs.map T.movedFrom) :
    Lists.step.move T w.contents name src =
      Function.update (Function.update w.contents src (some ws)) name (some vs) := by
  rw [Lists.step.move, Lists.step.change, hcontents, hws]
  rfl

theorem left_eq (h : b.Holds T os) (hmove : T.triviallyCopyable = true → b.capacity = 0) :
    (values os).map T.movedFrom =
      if T.triviallyCopyable = true then [] else (values os).map T.movedFrom := by
  split
  · rename_i ht
    have hcapacity := hmove ht
    have hsize := h.size
    have hle := h.size_le
    have hos : os = [] := List.eq_nil_of_length_eq_zero (by omega)
    rw [hos]
    rfl
  · rfl

theorem Inv.moveConstruct (h : w.Inv T) (hname : name ∉ w.buffers)
    (hsrc : w.buffers.lookup src = some other)
    (hmove : T.triviallyCopyable = true → other.capacity = 0) :
    ∃ w', w.moved name src (other.moveConstruct T w.life) = some w' ∧ w'.Inv T ∧
      w'.contents = Lists.step.move T w.contents name src := by
  obtain ⟨xs, hxs⟩ := h.holds src other hsrc
  have hparts : Parts T xs w.life (other.moveConstruct T w.life) (values xs)
      ((values xs).map T.movedFrom) := parts_moveConstruct hxs hmove
  obtain ⟨b, other', life', os, xs', hparts, hos, hxs', hvalues, hleft, hconserves⟩ := hparts
  have hne : name ≠ src := by
    rintro rfl
    exact hname (AList.lookup_isSome.mp (by rw [hsrc]; rfl))
  rw [hparts]
  refine ⟨_, rfl, ⟨holds_insert (holds_insert h.holds hxs') hos, ?_⟩, ?_⟩
  · intro ht k
    have hnew : name ∉ w.buffers.insert src other' := by
      rw [AList.mem_insert]
      exact fun hmem => hmem.elim hne hname
    have htotal := total_live_insert ht hsrc hxs hxs' k
    have htotal' := total_live_insert_of_notMem ht hnew hos k
    have haccounts := h.accounts ht k
    have hk := hconserves ht k
    rw [List.count_append] at hk
    simp only
    omega
  · rw [contents_moved hos hxs', hvalues, hleft,
      move_eq (contents_of_lookup hsrc hxs) (left_eq hxs hmove)]

theorem Inv.moveAssign (h : w.Inv T) (hne : name ≠ src) (hb : w.buffers.lookup name = some b)
    (hsrc : w.buffers.lookup src = some other)
    (hmove : T.triviallyCopyable = true → other.capacity = 0) :
    ∃ w', w.moved name src (b.moveAssign T other w.life) = some w' ∧ w'.Inv T ∧
      w'.contents = Lists.step.move T w.contents name src := by
  obtain ⟨ys, hys⟩ := h.holds name b hb
  obtain ⟨xs, hxs⟩ := h.holds src other hsrc
  have hparts : Parts T (ys ++ xs) w.life (b.moveAssign T other w.life) (values xs)
      ((values xs).map T.movedFrom) := parts_moveAssign hys hxs hmove
  obtain ⟨b', other', life', os, xs', hparts, hos, hxs', hvalues, hleft, hconserves⟩ := hparts
  rw [hparts]
  refine ⟨_, rfl, ⟨holds_insert (holds_insert h.holds hxs') hos, ?_⟩, ?_⟩
  · intro ht k
    have hold : (w.buffers.insert src other').lookup name = some b := by
      rw [AList.lookup_insert_ne hne, hb]
    have htotal := total_live_insert ht hsrc hxs hxs' k
    have htotal' := total_live_insert ht hold hys hos k
    have haccounts := h.accounts ht k
    have hk := hconserves ht k
    rw [List.count_append, ids_append, List.count_append] at hk
    simp only
    omega
  · rw [contents_moved hos hxs', hvalues, hleft,
      move_eq (contents_of_lookup hsrc hxs) (left_eq hxs hmove)]

/-! ## One operation -/

theorem has_iff (hb : w.buffers.lookup name = some b) {P : Buffer α → Prop} :
    w.Has name P ↔ P b := by
  constructor
  · rintro ⟨b', hb', hP⟩
    cases hb.symm.trans hb'
    exact hP
  · exact fun hP => ⟨b, hb, hP⟩

/-- `erase` does what it does to the list, if its elements survive. -/
theorem exists_turns_erase {first last : Nat} (h : b.Holds T os) (hfirst : first ≤ last)
    (hlast : last ≤ b.size) : ∃ vs, Turns T os life (b.erase T first last life) vs ∧
      (vs = eraseRange (values os) first last ↔
        (first = last → ∃ l ∈ b.elements, ∀ v ∈ l.drop first, T.selfMoved v = v)) := by
  refine ⟨_, turns_erase h hfirst hlast, ?_⟩
  rw [h.elements, eraseRange, List.append_cancel_left_eq]
  by_cases heq : first = last
  · subst heq
    simp only [if_true, forall_const, Option.mem_def, Option.some.injEq, exists_eq_left']
    conv_lhs => rw [← List.map_id ((values os).drop first)]
    rw [List.map_map, List.map_inj_left]
    rfl
  · simp only [heq, if_false, false_imp_iff]

theorem Inv.step_copyAssign (h : w.Inv T) (hb : w.buffers.lookup name = some b)
    (hother : w.buffers.lookup src = some other) :
    ∃ w', w.step T policy (.copyAssign name src) = some w' ∧ w'.Inv T ∧
      w'.contents = Lists.step T w.contents (.copyAssign name src) := by
  by_cases hname : name = src
  · subst hname
    obtain ⟨w', hstep, hinv, hcontents⟩ := h.assign_self hb
    refine ⟨w', ?_, hinv, ?_⟩
    · rw [step, if_pos rfl]
      exact hstep
    · rw [hcontents, Lists.step, Function.update_eq_self]
  · obtain ⟨os, hos⟩ := h.holds name b hb
    obtain ⟨xs, hxs⟩ := h.holds src other hother
    obtain ⟨w', hstep, hinv, hcontents⟩ := h.modify
      (f := fun b => b.copyAssign T policy other) (g := fun _ => values xs) hb
      (fun os hos => turns_copyAssign hos hxs) trivial
    refine ⟨w', ?_, hinv, ?_⟩
    · rw [step, if_neg hname, hother]
      exact hstep
    · rw [hcontents.mpr trivial, Lists.step.change, contents_of_lookup hb hos, Lists.step,
        contents_of_lookup hother hxs, Option.map_some]

theorem Inv.step_moveAssign (h : w.Inv T) (hb : w.buffers.lookup name = some b)
    (hother : w.buffers.lookup src = some other)
    (hmove : name ≠ src → T.triviallyCopyable = true → other.capacity = 0) :
    ∃ w', w.step T policy (.moveAssign name src) = some w' ∧ w'.Inv T ∧
      w'.contents = Lists.step T w.contents (.moveAssign name src) := by
  by_cases hname : name = src
  · subst hname
    obtain ⟨w', hstep, hinv, hcontents⟩ := h.assign_self hb
    refine ⟨w', ?_, hinv, ?_⟩
    · rw [step, if_pos rfl]
      exact hstep
    · rw [hcontents, Lists.step, if_pos rfl]
  · obtain ⟨w', hstep, hinv, hcontents⟩ := h.moveAssign hname hb hother (hmove hname)
    refine ⟨w', ?_, hinv, ?_⟩
    · rw [step, if_neg hname, hb, Option.bind_some, hother]
      exact hstep
    · rw [hcontents, Lists.step, if_neg hname]

/-- The invariant is kept by every valid operation that is sound, and the lists change as they
ought to if and only if the elements survive an `erase`. -/
theorem step_spec {op : BufferOp α} (h : w.Inv T) (hvalid : w.Valid T op) (hmoves : w.Moves T op)
    (hpops : w.Pops T op) :
    ∃ w', w.step T policy op = some w' ∧ w'.Inv T ∧
      (w'.contents = Lists.step T w.contents op ↔ w.Erases T op) := by
  cases op with
  | create name =>
    obtain ⟨w', hstep, hinv, hcontents⟩ := h.construct (T := T) hvalid Buffer.holds_empty.turns
    exact ⟨w', hstep, hinv, iff_of_true hcontents trivial⟩
  | ofData name data =>
    obtain ⟨w', hstep, hinv, hcontents⟩ := h.construct hvalid (turns_ofData fun _ => .refl)
    exact ⟨w', hstep, hinv, iff_of_true hcontents trivial⟩
  | ofValue name size value =>
    obtain ⟨w', hstep, hinv, hcontents⟩ := h.construct hvalid (turns_ofData fun _ => .refl)
    exact ⟨w', hstep, hinv, iff_of_true hcontents trivial⟩
  | ofSize name added =>
    obtain ⟨hname, ht⟩ := hvalid
    obtain ⟨w', hstep, hinv, hcontents⟩ := h.construct hname (turns_ofSize ht)
    exact ⟨w', hstep, hinv, iff_of_true hcontents trivial⟩
  | copyConstruct name src =>
    obtain ⟨hname, other, hother, -⟩ := hvalid
    obtain ⟨xs, hxs⟩ := h.holds src other hother
    obtain ⟨w', hstep, hinv, hcontents⟩ := h.construct hname (turns_copyConstruct hxs)
    refine ⟨w', ?_, hinv, iff_of_true ?_ trivial⟩
    · rw [step, hother]
      exact hstep
    · rw [hcontents, Lists.step, contents_of_lookup hother hxs]
  | moveConstruct name src =>
    obtain ⟨hname, other, hother, -⟩ := hvalid
    obtain ⟨w', hstep, hinv, hcontents⟩ := h.moveConstruct hname hother fun ht =>
      (has_iff hother).mp (hmoves ht)
    refine ⟨w', ?_, hinv, iff_of_true hcontents trivial⟩
    rw [step, if_neg hname, hother]
    exact hstep
  | destruct name =>
    obtain ⟨b, hb, -⟩ := hvalid
    obtain ⟨life', hdestruct, hinv, hcontents⟩ := h.destruct hb
    refine ⟨_, ?_, hinv, iff_of_true hcontents trivial⟩
    rw [step, hb, Option.bind_some, hdestruct, Option.map_some]
  | copyAssign name src =>
    obtain ⟨⟨b, hb, -⟩, other, hother, -⟩ := hvalid
    obtain ⟨w', hstep, hinv, hcontents⟩ := h.step_copyAssign hb hother
    exact ⟨w', hstep, hinv, iff_of_true hcontents trivial⟩
  | moveAssign name src =>
    obtain ⟨⟨b, hb, -⟩, other, hother, -⟩ := hvalid
    obtain ⟨w', hstep, hinv, hcontents⟩ := h.step_moveAssign hb hother fun hne ht =>
      (has_iff hother).mp (hmoves hne ht)
    exact ⟨w', hstep, hinv, iff_of_true hcontents trivial⟩
  | pushBack name value =>
    obtain ⟨b, hb, -⟩ := hvalid
    exact h.modify hb (fun os hos => turns_constructBack hos value) trivial
  | emplaceBack name value =>
    obtain ⟨b, hb, -⟩ := hvalid
    exact h.modify hb (fun os hos => turns_constructBack hos value) trivial
  | popBack name =>
    obtain ⟨b, hb, hsize⟩ := hvalid
    refine h.modify hb (fun os hos => turns_popBack hos ?_) trivial
    intro hnil
    subst hnil
    exact hsize hos.size
  | erase name first last =>
    obtain ⟨b, hb, hfirst, hlast⟩ := hvalid
    refine h.modify_of hb fun os hos => ?_
    obtain ⟨vs, hturns, hvs⟩ := exists_turns_erase hos hfirst hlast
    refine ⟨vs, hturns, hvs.trans ?_⟩
    simp only [Erases, has_iff hb]
  | swapAndPop name pos =>
    obtain ⟨b, hb, hpos⟩ := hvalid
    have hpop : pos + 1 = b.size ∨ T.triviallyDestructible = true :=
      (hpops.imp_right (has_iff hb).mp).symm
    exact h.modify hb (fun os hos => turns_swapAndPop hos hpos hpop) trivial
  | append name data =>
    obtain ⟨b, hb, -⟩ := hvalid
    exact h.modify hb (fun os hos => turns_append hos data) trivial
  | appendUninitialized name added =>
    obtain ⟨⟨b, hb, -⟩, -⟩ := hvalid
    exact h.modify hb (fun os hos => turns_appendUninitialized hos added) trivial
  | resize name newSize added =>
    obtain ⟨b, hb, -⟩ := hvalid
    exact h.modify hb (fun os hos => turns_resize hos) trivial
  | clear name =>
    obtain ⟨b, hb, -⟩ := hvalid
    exact h.modify hb (fun os hos => turns_clear hos) trivial

/-- Where the condition does not hold, `swap_and_pop` does not go through. -/
theorem step_eq_none_of_not_pops {op : BufferOp α} (h : w.Inv T) (hvalid : w.Valid T op)
    (hpops : ¬ w.Pops T op) : w.step T policy op = none := by
  cases op with
  | swapAndPop name pos =>
    obtain ⟨b, hb, hpos⟩ := hvalid
    obtain ⟨os, hos⟩ := h.holds name b hb
    rw [Pops, has_iff hb, not_or, Bool.not_eq_true] at hpops
    have hnone : b.swapAndPop T pos w.life = none :=
      swapAndPop_eq_none hos (by omega) hpops.1
    rw [step, modify, hb, Option.bind_some, hnone, Option.map_none]
  | _ => exact absurd trivial hpops

theorem null_of_moved {w' : Buffers α} (hne : name ≠ src) (hcapacity : other.capacity ≠ 0)
    (hmoved : w.moved name src (some (b, { other with buf := none }, life)) = some w') :
    ∃ name b, w'.buffers.lookup name = some b ∧ b.buf = none ∧ b.capacity ≠ 0 := by
  cases hmoved
  refine ⟨src, { other with buf := none }, ?_, rfl, hcapacity⟩
  dsimp only
  rw [AList.lookup_insert_ne hne.symm, AList.lookup_insert]

/-- A buffer that is moved from though it has room is left with its sizes, but without storage. -/
theorem exists_null_of_not_moves {op : BufferOp α} {w' : Buffers α} (hvalid : w.Valid T op)
    (hmoves : ¬ w.Moves T op) (hstep : w.step T policy op = some w') :
    ∃ name b, w'.buffers.lookup name = some b ∧ b.buf = none ∧ b.capacity ≠ 0 := by
  cases op with
  | moveConstruct name src =>
    obtain ⟨hname, other, hother, -⟩ := hvalid
    simp only [Moves, has_iff hother, Classical.not_imp] at hmoves
    obtain ⟨ht, hcapacity⟩ := hmoves
    have hne : name ≠ src := by
      intro heq
      subst heq
      exact hname (AList.lookup_isSome.mp (by rw [hother]; rfl))
    rw [step, if_neg hname, hother, Option.bind_some, moveConstruct_of_copyable ht] at hstep
    exact null_of_moved hne hcapacity hstep
  | moveAssign name src =>
    obtain ⟨⟨b, hb, -⟩, other, hother, -⟩ := hvalid
    simp only [Moves, has_iff hother, Classical.not_imp] at hmoves
    obtain ⟨hne, ht, hcapacity⟩ := hmoves
    have hdestruct : b.destruct T w.life = some w.life := by
      rw [Buffer.destruct, destroyN, if_pos (triviallyDestructible_of ht)]
      rfl
    rw [step, if_neg hne, hb, Option.bind_some, hother, Option.bind_some, Buffer.moveAssign,
      hdestruct, Option.bind_eq_bind, Option.bind_some, moveConstruct_of_copyable ht] at hstep
    exact null_of_moved hne hcapacity hstep
  | _ => exact absurd trivial hmoves

end Buffers

end Csics.Container
