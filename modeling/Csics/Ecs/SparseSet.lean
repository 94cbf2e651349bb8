import Mathlib.Algebra.Order.Ring.Nat
import Mathlib.Data.List.Basic
import Mathlib.Data.List.Nodup
import Mathlib.Data.Finset.Card
import Mathlib.Data.Fintype.Card

/-!
# Sparse sets

`Entity` and `SparseSet` of `include/csics/sim/ecs`. A set keeps its components in
`dense_`, the entity of each in `entities_` and for every id below `N` the index of its
component in `sparse_`, or `npos`. An access outside a buffer is undefined and makes the
operation `none`.

`SparseSet.Rep` is the representation invariant; `insert` and `remove` keep it.
-/

namespace Csics.Ecs

/-- What an append adds to a list, read by index. -/
theorem getElem?_concat_eq_some_iff {β : Type*} {as : List β} {a b : β} {i : Nat} :
    (as ++ [a])[i]? = some b ↔ as[i]? = some b ∨ i = as.length ∧ a = b := by
  rcases Nat.lt_trichotomy i as.length with hlt | rfl | hgt
  · rw [List.getElem?_append_left hlt, or_iff_left]
    intro hlast
    omega
  · rw [List.getElem?_concat_length, List.getElem?_eq_none (Nat.le_refl _), Option.some_inj,
      and_iff_right rfl, or_iff_right (Option.some_ne_none b).symm]
  · rw [List.getElem?_eq_none (by rw [List.length_append]; exact hgt),
      List.getElem?_eq_none hgt.le, or_iff_left]
    intro hlast
    omega

structure Entity where
  id : UInt32
  generation : UInt32
  deriving DecidableEq, Repr

/-- `std::numeric_limits<std::size_t>::max()`. -/
def npos : Nat := 2 ^ 64 - 1

structure SparseSet (α : Type*) (N : Nat) where
  dense : List α
  sparse : Vector Nat N
  entities : List Entity

namespace SparseSet

variable {α : Type*} {N : Nat}

/-- The set as the constructor leaves it. -/
def init : SparseSet α N := ⟨[], .replicate N npos, []⟩

/-- `insert(entity, component)`, for a component that lies outside the set. -/
def insert (s : SparseSet α N) (entity : Entity) (component : α) : Option (SparseSet α N) :=
  if h : entity.id.toNat < N then
    let i := s.sparse[entity.id.toNat]
    if i = npos then
      some {
        dense := s.dense ++ [component]
        sparse := s.sparse.set entity.id.toNat s.dense.length
        entities := s.entities ++ [entity] }
    else if i < s.dense.length then some { s with dense := s.dense.set i component }
    else none
  else none

/-- `emplace(entity, args...)`; the component type has the constructor `construct`. -/
def emplace {β : Type*} (construct : β → α) (s : SparseSet α N) (entity : Entity) (args : β) :
    Option (SparseSet α N) := s.insert entity (construct args)

/-- `at(entity)`: `some none` stands for `nullptr`. -/
def at? (s : SparseSet α N) (entity : Entity) : Option (Option α) :=
  if h : entity.id.toNat < N then
    let i := s.sparse[entity.id.toNat]
    if i ≠ npos then
      match s.entities[i]?, s.dense[i]? with
      | some e, some c => some (if e.generation ≠ entity.generation then none else some c)
      | _, _ => none
    else some none
  else none

/-- `contains(entity)`. -/
def contains (s : SparseSet α N) (entity : Entity) : Option Bool :=
  if h : entity.id.toNat < N then some (s.sparse[entity.id.toNat] ≠ npos) else none

/-- `remove(entity)`: the last component and the last entity move to the removed spot. -/
def remove (s : SparseSet α N) (entity : Entity) : Option (SparseSet α N) :=
  if h : entity.id.toNat < N then
    let i := s.sparse[entity.id.toNat]
    if i = npos ∨ s.dense.isEmpty then some s
    else
      match s.dense.getLast?, s.entities.getLast? with
      | some last, some lastEntity =>
        if hl : lastEntity.id.toNat < N ∧ i < s.dense.length ∧ i < s.entities.length then
          some {
            dense := (s.dense.set i last).dropLast
            sparse := (s.sparse.set lastEntity.id.toNat i hl.1).set entity.id.toNat npos
            entities := (s.entities.set i lastEntity).dropLast }
        else none
      | _, _ => none
  else some s

/-! ## The representation invariant -/

/-- The ids of the recorded entities, in order. -/
def ids (s : SparseSet α N) : List Nat := s.entities.map fun e => e.id.toNat

/-- `sparse_` is the inverse of the list of ids. -/
structure Rep (s : SparseSet α N) : Prop where
  length_eq : s.entities.length = s.dense.length
  sparse_iff : ∀ id i, (s.sparse[id]? = some i ∧ i ≠ npos) ↔ s.ids[i]? = some id

variable {s t : SparseSet α N} {e x : Entity} {c : α}

@[simp] theorem length_ids (s : SparseSet α N) : s.ids.length = s.entities.length := by
  simp [ids]

theorem init_rep : (init : SparseSet α N).Rep where
  length_eq := rfl
  sparse_iff id i := by
    simp only [init, ids, List.map_nil, List.getElem?_nil, reduceCtorEq, iff_false, not_and]
    intro h
    by_cases hid : id < N
    · simp only [Vector.getElem?_eq_getElem hid, Vector.getElem_replicate, Option.some.injEq] at h
      exact not_not.mpr h.symm
    · simp [hid] at h

private theorem length_le_of_nodup {l : List Nat} (hl : l.Nodup) (hN : ∀ i ∈ l, i < N) :
    l.length ≤ N := by
  have hsub : l.toFinset ⊆ Finset.range N := by
    intro i hi
    exact Finset.mem_range.mpr (hN i (List.mem_toFinset.mp hi))
  have hcard := Finset.card_le_card hsub
  rwa [List.toFinset_card_of_nodup hl, Finset.card_range] at hcard

namespace Rep

theorem nodup (h : s.Rep) : s.ids.Nodup := by
  rw [List.nodup_iff_getElem?_ne_getElem?]
  intro i j hij hj heq
  have hi : s.ids[i]? = some (s.ids[i]) := List.getElem?_eq_getElem (hij.trans hj)
  have h1 := (h.sparse_iff _ i).mpr hi
  have h2 := (h.sparse_iff _ j).mpr (heq ▸ hi)
  have := Option.some.inj (h1.1.symm.trans h2.1)
  omega

theorem index_unique (h : s.Rep) {i j id : Nat} (hi : s.ids[i]? = some id)
    (hj : s.ids[j]? = some id) : i = j := by
  have h1 := ((h.sparse_iff id i).mpr hi).1
  have h2 := ((h.sparse_iff id j).mpr hj).1
  exact Option.some.inj (h1.symm.trans h2)

theorem lt_of_mem (h : s.Rep) {id : Nat} (hid : id ∈ s.ids) : id < N := by
  obtain ⟨i, hi⟩ := List.mem_iff_getElem?.mp hid
  have hsome := ((h.sparse_iff id i).mpr hi).1
  by_contra hN
  rw [Vector.getElem?_eq_none (by omega)] at hsome
  cases hsome

/-- There are no more entities than 32-bit ids, so no index is the sentinel. -/
theorem length_lt (h : s.Rep) : s.dense.length < npos := by
  have hle : s.ids.length ≤ 2 ^ 32 := by
    apply length_le_of_nodup h.nodup
    intro j hj
    obtain ⟨x, -, rfl⟩ := List.mem_map.mp hj
    exact x.id.toNat_lt
  rw [length_ids, h.length_eq] at hle
  unfold npos
  omega

/-- `contains` tells whether the id is recorded. -/
theorem contains_iff (h : s.Rep) : s.contains e = some true ↔ e.id.toNat ∈ s.ids := by
  unfold contains
  by_cases hN : e.id.toNat < N
  · have hget : s.sparse[e.id.toNat]? = some s.sparse[e.id.toNat] := Vector.getElem?_eq_getElem hN
    simp only [hN, dif_pos, Option.some.injEq, decide_eq_true_eq]
    constructor
    · intro hne
      exact List.mem_iff_getElem?.mpr ⟨_, (h.sparse_iff _ _).mp ⟨hget, hne⟩⟩
    · intro hmem
      obtain ⟨i, hi⟩ := List.mem_iff_getElem?.mp hmem
      obtain ⟨h1, h2⟩ := (h.sparse_iff _ _).mpr hi
      rw [hget] at h1
      exact Option.some.inj h1 ▸ h2
  · simp only [hN, dif_neg, not_false_iff, reduceCtorEq, false_iff]
    exact fun hmem => hN (h.lt_of_mem hmem)

end Rep

/-! ## The operations keep the representation -/

/-- `insert` either replaces a component or records the entity at the end. -/
theorem insert_cases (ht : s.insert e c = some t) :
    (t.sparse = s.sparse ∧ t.entities = s.entities ∧ t.dense.length = s.dense.length) ∨
      ∃ h : e.id.toNat < N, s.sparse[e.id.toNat] = npos ∧
        t = ⟨s.dense ++ [c], s.sparse.set e.id.toNat s.dense.length, s.entities ++ [e]⟩ := by
  unfold insert at ht
  split at ht
  · rename_i hN
    dsimp only at ht
    split at ht
    · rename_i hnpos
      exact Or.inr ⟨hN, hnpos, (Option.some.inj ht).symm⟩
    · split at ht
      · cases ht
        exact Or.inl ⟨rfl, rfl, List.length_set⟩
      · cases ht
  · cases ht

/-- `remove` either does nothing, or moves the last entry to the spot of the removed one. -/
theorem remove_cases (ht : s.remove e = some t) :
    (t = s ∧ ∀ h : e.id.toNat < N, s.sparse[e.id.toNat] = npos ∨ s.dense = []) ∨
      ∃ (h : e.id.toNat < N) (last : α) (lastEntity : Entity) (hl : lastEntity.id.toNat < N),
        s.sparse[e.id.toNat] ≠ npos ∧ s.dense.getLast? = some last ∧
        s.entities.getLast? = some lastEntity ∧
        s.sparse[e.id.toNat] < s.entities.length ∧
        t = ⟨(s.dense.set s.sparse[e.id.toNat] last).dropLast,
          (s.sparse.set lastEntity.id.toNat s.sparse[e.id.toNat] hl).set e.id.toNat npos,
          (s.entities.set s.sparse[e.id.toNat] lastEntity).dropLast⟩ := by
  unfold remove at ht
  split at ht
  · rename_i hN
    dsimp only at ht
    split at ht
    · rename_i hempty
      refine Or.inl ⟨(Option.some.inj ht).symm, ?_⟩
      intro _
      exact hempty.imp_right List.isEmpty_iff.mp
    · rename_i hne
      split at ht
      · rename_i last lastEntity hlast hlastEntity
        split at ht
        · rename_i hl
          exact Or.inr ⟨hN, last, lastEntity, hl.1, fun h0 => hne (Or.inl h0), hlast, hlastEntity,
            hl.2.2, (Option.some.inj ht).symm⟩
        · cases ht
      · cases ht
  · rename_i hN
    exact Or.inl ⟨(Option.some.inj ht).symm, fun h => absurd h hN⟩

theorem mem_entities_of_insert (ht : s.insert e c = some t) (hx : x ∈ t.entities) :
    x ∈ s.entities ∨ x = e := by
  rcases insert_cases ht with ⟨-, heq, -⟩ | ⟨hN, -, rfl⟩
  · exact Or.inl (heq ▸ hx)
  · simpa using hx

/-- Writing the component of a recorded id records no entity. -/
theorem entities_of_insert_of_contains (hmem : s.contains e = some true)
    (ht : s.insert e c = some t) : t.entities = s.entities := by
  rcases insert_cases ht with ⟨-, heq, -⟩ | ⟨hN, hnpos, -⟩
  · exact heq
  · simp [contains, hN, hnpos] at hmem

theorem contains_of_at? {c' : α} (hat : s.at? e = some (some c')) :
    s.contains e = some true := by
  unfold at? at hat
  split at hat
  · rename_i hN
    dsimp only at hat
    split at hat
    · rename_i hne
      simp [contains, hN, hne]
    · cases hat
  · cases hat

theorem mem_entities_of_remove (ht : s.remove e = some t) (hx : x ∈ t.entities) :
    x ∈ s.entities := by
  rcases remove_cases ht with ⟨rfl, -⟩ | ⟨hN, last, lastEntity, hl, -, -, hlast, -, rfl⟩
  · exact hx
  · rcases List.mem_or_eq_of_mem_set (List.mem_of_mem_dropLast hx) with hx | rfl
    · exact hx
    · exact List.mem_of_getLast? hlast

namespace Rep

theorem insert (h : s.Rep) (ht : s.insert e c = some t) : t.Rep := by
  rcases insert_cases ht with ⟨hsparse, hentities, hdense⟩ | ⟨hN, hnpos, rfl⟩
  · refine ⟨by rw [hentities, hdense, h.length_eq], ?_⟩
    intro id i
    rw [hsparse, ids, hentities]
    exact h.sparse_iff id i
  · refine ⟨by simp [h.length_eq], ?_⟩
    intro id i
    have hold := h.sparse_iff id i
    have hnew : e.id.toNat ∉ s.ids := by
      intro hmem
      obtain ⟨j, hj⟩ := List.mem_iff_getElem?.mp hmem
      obtain ⟨h1, h2⟩ := (h.sparse_iff _ _).mpr hj
      rw [Vector.getElem?_eq_getElem hN, hnpos] at h1
      exact h2 (Option.some.inj h1).symm
    have hlen : s.ids.length < npos := by
      rw [length_ids, h.length_eq]
      exact h.length_lt
    have hids : (s.entities ++ [e]).map (fun e => e.id.toNat) = s.ids ++ [e.id.toNat] := by
      simp [ids]
    have hdense : s.dense.length = s.ids.length := by rw [length_ids, h.length_eq]
    rw [ids, hids, hdense, Vector.getElem?_set]
    by_cases hid : e.id.toNat = id
    · subst hid
      simp only [if_true, Option.some.injEq]
      constructor
      · rintro ⟨rfl, -⟩
        simp
      · intro hi
        rcases getElem?_concat_eq_some_iff.mp hi with hi | ⟨rfl, -⟩
        · exact absurd (List.mem_of_getElem? hi) hnew
        · exact ⟨rfl, hlen.ne⟩
    · rw [if_neg hid, hold, getElem?_concat_eq_some_iff, or_iff_left]
      exact fun hlast => hid hlast.2

theorem remove (h : s.Rep) (ht : s.remove e = some t) : t.Rep := by
  rcases remove_cases ht with ⟨rfl, -⟩ | ⟨hN, last, lastEntity, hl, hne, -, hlast, hi, rfl⟩
  · exact h
  · generalize hk : s.sparse[e.id.toNat] = k at hne hi ⊢
    refine ⟨by simp [h.length_eq], ?_⟩
    intro id i
    have hget : s.sparse[e.id.toNat]? = some k := by rw [Vector.getElem?_eq_getElem hN, hk]
    have hidk : s.ids[k]? = some e.id.toNat := (h.sparse_iff _ _).mp ⟨hget, hne⟩
    have hidlast : s.ids[s.ids.length - 1]? = some lastEntity.id.toNat := by
      rw [List.getLast?_eq_getElem?] at hlast
      simp [ids, hlast]
    have hids : ((s.entities.set k lastEntity).dropLast).map (fun e => e.id.toNat) =
        (s.ids.set k lastEntity.id.toNat).dropLast := by
      rw [List.map_dropLast, List.map_set, ids]
    have hlen := length_ids s
    rw [ids, hids, List.getElem?_dropLast, List.length_set, List.getElem?_set,
      Vector.getElem?_set, Vector.getElem?_set]
    have hlt : k < s.ids.length := by omega
    have hold := h.sparse_iff id i
    by_cases h1 : e.id.toNat = id
    · -- the removed id
      subst h1
      simp only [if_true, Option.some.injEq]
      refine ⟨fun ⟨h0, h1⟩ => absurd h0.symm h1, ?_⟩
      intro hi'
      split at hi'
      · split at hi'
        · rename_i hlt' hki
          have hkn := h.index_unique hidk (hidlast.trans hi')
          omega
        · rename_i hki
          exact absurd (h.index_unique hidk hi') hki
      · cases hi'
    rw [if_neg h1]
    by_cases h2 : lastEntity.id.toNat = id
    · -- the moved id
      have hkn : k ≠ s.ids.length - 1 := by
        intro hkn
        rw [← hkn, hidk] at hidlast
        exact h1 ((Option.some.inj hidlast).trans h2)
      subst h2
      simp only [if_true, Option.some.injEq]
      by_cases hki : k = i
      · subst hki
        simp only [hne, hlt, if_true, ne_eq, not_false_iff, and_self, true_iff]
        rw [if_pos (by omega)]
      · simp only [hki, if_false, false_and, false_iff]
        intro hi'
        split at hi'
        · have := h.index_unique hi' hidlast
          omega
        · cases hi'
    · -- any other id
      rw [if_neg h2, hold]
      by_cases hki : k = i
      · subst hki
        simp [hidk, h1, h2]
      · rw [if_neg hki]
        split
        · exact Iff.rfl
        · rename_i hge
          simp only [reduceCtorEq, iff_false]
          intro hi'
          have hil : i < s.ids.length := (List.getElem?_eq_some_iff.mp hi').1
          have hin : i = s.ids.length - 1 := by omega
          rw [hin, hidlast] at hi'
          exact h2 (Option.some.inj hi')

end Rep

end SparseSet

end Csics.Ecs
