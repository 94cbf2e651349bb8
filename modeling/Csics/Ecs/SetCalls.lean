import Csics.Container.Buffer
import Csics.Ecs.Entries

/-!
# Calls on a sparse set

`insert` takes the component by reference, and `emplace` what it makes the component from, so that
either may be given a component of the set itself. `push_back` copies the argument of `insert` when
`reallocate` has ended the components, so that such an argument needs room in `dense_` (`Roomy`).
`Spaced` is a set with the capacity of `dense_`, which a removal does not lower.

An argument that is an rvalue is left as a move leaves it.
-/

namespace Csics.Ecs

open Base Container

variable {α : Type} {β : Type*} {N : Nat}

/-- What `insert` is given: a component that lies elsewhere, or the one at `j` in `dense_`, as an
lvalue or, where it `moves`, an rvalue. -/
inductive ComponentArg (α : Type) where
  | outer (c : α)
  | own (j : Nat) (moves : Bool)

/-- The calls that change a set. `args` is what `emplace` makes the component from. Where this is
the component at `j` or a part of it, it makes `take` of it, and leaves `left`. -/
inductive SetOp (α : Type) (β : Type*) where
  | insert (e : Entity) (a : ComponentArg α)
  | emplace (e : Entity) (args : β)
  | emplaceOwn (e : Entity) (j : Nat) (take left : α → α)
  | remove (e : Entity)

/-! ## The code -/

namespace SparseSet

variable (T : ElementType α)

/-- `dense_[i] = std::forward<Cc>(component)`, for the component at `j`. -/
def assignOwn (dense : List α) (i j : Nat) (moves : Bool) (component : α) : List α :=
  if moves = false then dense.set i component
  else if i = j then dense.set i (T.selfMoved component)
  else (dense.set i component).set j (T.movedFrom component)

/-- `insert(entity, component)`, for the component at `j` of the set itself. -/
def insertOwn (s : SparseSet α N) (capacity : Nat) (entity : Entity) (j : Nat) (moves : Bool) :
    Option (SparseSet α N) :=
  if h : entity.id.toNat < N then
    s.dense[j]?.bind fun component =>
      let i := s.sparse[entity.id.toNat]
      if i = npos then
        -- `reallocate` ends the component before `push_back` copies it
        if s.dense.length + 1 > capacity then none
        else some {
          dense := s.dense ++ [component]
          sparse := s.sparse.set entity.id.toNat s.dense.length
          entities := s.entities ++ [entity] }
      else if i < s.dense.length then
        some { s with dense := assignOwn T s.dense i j moves component }
      else none
  else none

/-- `emplace(entity, args...)`, for a component of the set itself. The new one is made before it is
inserted. -/
def emplaceOwn (s : SparseSet α N) (entity : Entity) (j : Nat) (take left : α → α) :
    Option (SparseSet α N) :=
  s.dense[j]?.bind fun component =>
    SparseSet.insert { s with dense := s.dense.set j (left component) } entity (take component)

end SparseSet

/-- A set, and the capacity of `dense_`. -/
structure Spaced (α : Type) (N : Nat) where
  set : SparseSet α N
  capacity : Nat

namespace Spaced

/-- The set as the constructor leaves it. -/
def init : Spaced α N := ⟨.init, 0⟩

/-- The set behind a call. `add_capacity_for(1)` makes room where there is none. -/
def become (p : Spaced α N) (t : SparseSet α N) : Spaced α N :=
  ⟨t, if t.dense.length > p.capacity then
    CapacityPolicy.fiftyPercent.adjustCapacity t.dense.length else p.capacity⟩

section

variable (T : ElementType α) (construct : β → α)

def insert (p : Spaced α N) (e : Entity) : ComponentArg α → Option (Spaced α N)
  | .outer c => (p.set.insert e c).map p.become
  | .own j moves => (p.set.insertOwn T p.capacity e j moves).map p.become

def step (p : Spaced α N) : SetOp α β → Option (Spaced α N)
  | .insert e a => p.insert T e a
  | .emplace e args => (p.set.emplace construct e args).map p.become
  | .emplaceOwn e j take left => (p.set.emplaceOwn e j take left).map p.become
  | .remove e => (p.set.remove e).map p.become

end

/-! ## What is asked of the caller -/

/-- An argument in the set itself is there. -/
def Has (p : Spaced α N) : ComponentArg α → Prop
  | .outer _ => True
  | .own j _ => j < p.set.dense.length

/-- What is inserted has an id below `N`; a removal may have any. -/
def Valid (p : Spaced α N) : SetOp α β → Prop
  | .insert e a => e.id.toNat < N ∧ p.Has a
  | .emplace e _ => e.id.toNat < N
  | .emplaceOwn e j _ _ => e.id.toNat < N ∧ j < p.set.dense.length
  | .remove _ => True

/-- An argument in the set itself is not inserted into a full `dense_`. -/
def Lasts (p : Spaced α N) (e : Entity) : ComponentArg α → Prop
  | .outer _ => True
  | .own _ _ => p.set.contains e = some true ∨ p.set.dense.length < p.capacity

def Roomy (p : Spaced α N) : SetOp α β → Prop
  | .insert e a => p.Lasts e a
  | _ => True

/-- The component at `j` of the set, and its entity. -/
def Holds (p : Spaced α N) (j : Nat) (P : Entity → α → Prop) : Prop :=
  ∀ x ∈ p.set.entities[j]?, ∀ c ∈ p.set.dense[j]?, P x c

instance (p : Spaced α N) (j : Nat) (P : Entity → α → Prop) [∀ x c, Decidable (P x c)] :
    Decidable (p.Holds j P) := by
  unfold Holds
  infer_instance

instance (p : Spaced α N) (a : ComponentArg α) : Decidable (p.Has a) := by
  cases a <;> unfold Has <;> infer_instance

instance (p : Spaced α N) (e : Entity) (a : ComponentArg α) : Decidable (p.Lasts e a) := by
  cases a <;> unfold Lasts <;> infer_instance

instance (p : Spaced α N) (op : SetOp α β) : Decidable (p.Valid op) := by
  cases op <;> unfold Valid <;> infer_instance

instance (p : Spaced α N) (op : SetOp α β) : Decidable (p.Roomy op) := by
  cases op <;> unfold Roomy <;> infer_instance

end Spaced

/-! ## What an argument in the set itself leads to -/

namespace SparseSet

variable {T : ElementType α} {s t : SparseSet α N} {e x : Entity} {c d : α} {j capacity : Nat}
  {moves : Bool}

theorem contains_eq_true_iff (hN : e.id.toNat < N) :
    s.contains e = some true ↔ s.sparse[e.id.toNat] ≠ npos := by
  rw [contains, dif_pos hN, Option.some.injEq, decide_eq_true_eq]

/-- Under a new id, with room, the component is inserted. -/
theorem insertOwn_of_room (hN : e.id.toNat < N) (hc : s.dense[j]? = some c)
    (hnew : s.contains e ≠ some true) (hroom : s.dense.length < capacity) :
    s.insertOwn T capacity e j moves = s.insert e c := by
  rw [Ne, contains_eq_true_iff hN, not_not] at hnew
  simp only [insertOwn, SparseSet.insert, dif_pos hN, hc, Option.bind_some, hnew, if_true]
  exact if_neg (by omega)

theorem insertOwn_eq_none (hnew : s.contains e ≠ some true) (hfull : capacity ≤ s.dense.length) :
    s.insertOwn T capacity e j moves = none := by
  by_cases hN : e.id.toNat < N
  · rw [Ne, contains_eq_true_iff hN, not_not] at hnew
    cases hc : s.dense[j]? with
    | none => simp only [insertOwn, dif_pos hN, hc, Option.bind_none]
    | some c =>
      simp only [insertOwn, dif_pos hN, hc, Option.bind_some, hnew, if_true]
      exact if_pos (by omega)
  · rw [insertOwn, dif_neg hN]

namespace Rep

/-- Under a recorded id, its component is assigned. -/
theorem insertOwn_recorded (h : s.Rep) (T : ElementType α) (capacity : Nat) (moves : Bool)
    (hN : e.id.toNat < N) (hc : s.dense[j]? = some c) (hmem : s.contains e = some true) :
    ∃ i y, s.entities[i]? = some y ∧ y.id = e.id ∧ i < s.dense.length ∧
      s.insertOwn T capacity e j moves =
        some { s with dense := assignOwn T s.dense i j moves c } := by
  have hne := (contains_eq_true_iff hN).mp hmem
  obtain ⟨y, b, hy, hb, hyid⟩ := h.entities_sparse hne
  have hlt := (List.getElem?_eq_some_iff.mp hb).1
  refine ⟨_, y, hy, hyid, hlt, ?_⟩
  simp only [insertOwn, dif_pos hN, hc, Option.bind_some, if_neg hne, if_pos hlt]

/-- The component of a recorded entity is replaced as `insert` does. -/
theorem insert_recorded (h : s.Rep) (hx : s.entities[j]? = some x) (d : α) :
    s.insert x d = some { s with dense := s.dense.set j d } := by
  have hj := (List.getElem?_eq_some_iff.mp hx).1
  rw [h.length_eq] at hj
  have hid : s.ids[j]? = some x.id.toNat := by
    rw [getElem?_ids, hx]
    rfl
  obtain ⟨hget, hne⟩ := (h.sparse_iff _ _).mpr hid
  have hN : x.id.toNat < N := h.lt_of_mem (List.mem_of_getElem? hid)
  rw [Vector.getElem?_eq_getElem hN, Option.some.injEq] at hget
  simp only [SparseSet.insert, dif_pos hN, hget, if_neg hne, if_pos hj]

/-- Only the number of the components matters. -/
theorem with_dense (h : s.Rep) {dense : List α} (hlength : dense.length = s.dense.length) :
    ({ s with dense := dense } : SparseSet α N).Rep where
  length_eq := h.length_eq.trans hlength.symm
  sparse_iff := h.sparse_iff

end Rep

theorem length_assignOwn {dense : List α} {i : Nat} :
    (assignOwn T dense i j moves c).length = dense.length := by
  unfold assignOwn
  split
  · exact List.length_set
  split
  · exact List.length_set
  · rw [List.length_set, List.length_set]

/-- A component of the set itself is inserted as another one is, or assigned to one. -/
theorem Rep.insertOwn_cases (h : s.Rep) (ht : s.insertOwn T capacity e j moves = some t) :
    (∃ c, s.insert e c = some t) ∨
      s.contains e = some true ∧ t.Rep ∧ t.entities = s.entities := by
  have hN : e.id.toNat < N := by
    by_contra hN
    rw [insertOwn, dif_neg hN] at ht
    cases ht
  cases hc : s.dense[j]? with
  | none =>
    rw [insertOwn, dif_pos hN, hc] at ht
    cases ht
  | some c =>
    by_cases hmem : s.contains e = some true
    · obtain ⟨i, y, -, -, -, hinsert⟩ := h.insertOwn_recorded T capacity moves hN hc hmem
      cases hinsert.symm.trans ht
      exact Or.inr ⟨hmem, h.with_dense length_assignOwn, rfl⟩
    · by_cases hroom : s.dense.length < capacity
      · rw [insertOwn_of_room hN hc hmem hroom] at ht
        exact Or.inl ⟨c, ht⟩
      · rw [insertOwn_eq_none hmem (Nat.le_of_not_lt hroom)] at ht
        cases ht

/-- Such an argument of `emplace` is left, and a component is inserted. -/
theorem exists_of_emplaceOwn {take left : α → α} (ht : s.emplaceOwn e j take left = some t) :
    ∃ c, s.dense[j]? = some c ∧
      SparseSet.insert { s with dense := s.dense.set j (left c) } e (take c) = some t :=
  Option.bind_eq_some_iff.mp ht

end SparseSet

end Csics.Ecs
