import Csics.Base.Traverse
import Csics.Ecs.Entries

/-!
# Iterating a view

The loop over a view reads `*it` at every entity of the driving set that all sets contain
(`iterate_skip`). `contains` looks at the id and `at` also at the generation, so nothing undefined
happens exactly if the sets record the same entity under every id that all of them have
(`exists_iterate_iff`), and then the loop yields the intersection of the sets.
-/

namespace Csics.Ecs

open Base

variable {κ : Type*} {C : κ → Type*} {N : Nat}

/-! ## What a set records under an id -/

namespace SparseSet

variable {α : Type*} {s : SparseSet α N} {e x : Entity} {id : UInt32} {c : α}

/-- The entity that is recorded under the id. -/
def recorded? (s : SparseSet α N) (id : UInt32) : Option Entity := (s.entry id).map Prod.fst

namespace Rep

theorem id_of_entry (h : s.Rep) (hentry : s.entry id = some (x, c)) : x.id = id := by
  obtain ⟨_, -, -, hid⟩ := h.entry_eq_some_iff.mp hentry
  exact hid

/-- `at` returns the component that is recorded with the entity itself. -/
theorem join_at?_eq_some_iff (h : s.Rep) :
    (s.at? e).join = some c ↔ s.entry e.id = some (e, c) := by
  rw [join_at?_eq, Option.bind_eq_some_iff]
  constructor
  · rintro ⟨⟨x, a⟩, hentry, ha⟩
    obtain ⟨hgen, hc⟩ := Option.ite_none_left_eq_some.mp ha
    have hx : x = e := by
      cases x
      cases e
      exact congrArg₂ Entity.mk (h.id_of_entry hentry) (not_not.mp hgen)
    cases hc
    rw [hentry, hx]
  · intro hentry
    exact ⟨(e, c), hentry, if_neg (not_not.mpr rfl)⟩

theorem recorded?_eq_some_iff (h : s.Rep) :
    s.recorded? id = some x ↔ x ∈ s.entities ∧ x.id = id := by
  rw [recorded?, Option.map_eq_some_iff]
  constructor
  · rintro ⟨⟨y, c⟩, hentry, rfl⟩
    obtain ⟨i, hx, -, hid⟩ := h.entry_eq_some_iff.mp hentry
    exact ⟨List.mem_of_getElem? hx, hid⟩
  · rintro ⟨hx, rfl⟩
    obtain ⟨i, hi, rfl⟩ := List.mem_iff_getElem.mp hx
    have hi' : i < s.dense.length := h.length_eq ▸ hi
    exact ⟨(s.entities[i], s.dense[i]), h.entry_eq_some_iff.mpr
      ⟨i, List.getElem?_eq_getElem hi, List.getElem?_eq_getElem hi', rfl⟩, rfl⟩

theorem recorded?_ne_none_iff (h : s.Rep) : s.recorded? id ≠ none ↔ id.toNat ∈ s.ids := by
  rw [Option.ne_none_iff_exists', ids, List.mem_map]
  apply exists_congr
  intro x
  rw [h.recorded?_eq_some_iff, UInt32.toNat_inj]

/-- `at` finds something exactly if the entity itself is recorded. -/
theorem exists_at?_iff (h : s.Rep) :
    (∃ c, (s.at? e).join = some c) ↔ s.recorded? e.id = some e := by
  rw [recorded?, Option.map_eq_some_iff]
  constructor
  · rintro ⟨c, hc⟩
    exact ⟨(e, c), h.join_at?_eq_some_iff.mp hc, rfl⟩
  · rintro ⟨⟨x, c⟩, hentry, rfl⟩
    exact ⟨c, h.join_at?_eq_some_iff.mpr hentry⟩

end Rep

end SparseSet

/-! ## The loop -/

namespace View

variable {sets : ∀ k, SparseSet (C k) N} {k : κ} {ks : List κ} {e : Entity}

theorem contains_iff (hrep : ∀ j ∈ ks, (sets j).Rep) :
    contains sets ks e = true ↔ ∀ j ∈ ks, e.id.toNat ∈ (sets j).ids := by
  rw [contains, List.all_eq_true]
  apply forall₂_congr
  intro j hj
  rw [decide_eq_true_iff, (hrep j hj).contains_iff]

/-- `find_smallest` selects one of the sets. -/
theorem exists_findSmallest (sets : ∀ k, SparseSet (C k) N) (k : κ) (ks : List κ) :
    ∃ j ∈ k :: ks, findSmallest sets k ks = (sets j).entities := by
  have hfold (l : List κ) (hl : ∀ a ∈ l, a ∈ k :: ks) (acc : Nat × List Entity)
      (hacc : ∃ j ∈ k :: ks, acc.2 = (sets j).entities) :
      ∃ j ∈ k :: ks, (l.foldl (fun acc a => if (sets a).dense.length < acc.1 then
        ((sets a).dense.length, (sets a).entities) else acc) acc).2 = (sets j).entities := by
    induction l generalizing acc with
    | nil => exact hacc
    | cons a l ih =>
      apply ih fun b hb => hl b (List.mem_cons_of_mem _ hb)
      dsimp only
      split
      · exact ⟨a, hl a List.mem_cons_self, rfl⟩
      · exact hacc
  exact hfold (k :: ks) (fun _ h => h) _ ⟨k, List.mem_cons_self, rfl⟩

theorem iterate_end (n : Nat) : iterate sets k ks n [] = some [] := by
  cases n with
  | zero => rfl
  | succ n => rfl

/-- The loop reads `*it` at each entity that all sets contain, and stops at the end. -/
theorem iterate_skip {n : Nat} {es : List Entity} (hn : es.length ≤ n) :
    iterate sets k ks n (skip sets (k :: ks) es) = (es.filter (contains sets (k :: ks))).mapM
      fun e => (components sets (k :: ks) e).map (e, ·) := by
  induction es generalizing n with
  | nil => exact iterate_end n
  | cons e es ih =>
    rw [List.length_cons] at hn
    obtain ⟨n, rfl⟩ := Nat.exists_eq_add_of_lt (Nat.lt_of_lt_of_le (Nat.succ_pos _) hn)
    rw [Nat.zero_add] at hn ⊢
    have hn' : es.length ≤ n := Nat.le_of_succ_le_succ hn
    rw [skip, List.filter_cons]
    split
    · have hne : e :: es ≠ end_ sets k ks := List.cons_ne_nil e es
      rw [iterate, if_neg hne, List.mapM_cons, deref]
      cases (components sets (k :: ks) e).map (e, ·) with
      | none => rfl
      | some r =>
        show (iterate sets k ks n (skip sets (k :: ks) es)).map (r :: ·) = _
        rw [ih hn']
        cases (es.filter (contains sets (k :: ks))).mapM
            fun e => (components sets (k :: ks) e).map (e, ·) with
        | none => rfl
        | some rs => rfl
    · exact ih (hn'.trans (Nat.le_succ n))

theorem iterate_begin {n : Nat} (hn : (findSmallest sets k ks).length ≤ n) :
    iterate sets k ks n (begin sets k ks) =
      (yields sets k ks).mapM fun e => (components sets (k :: ks) e).map (e, ·) := by
  rw [yields_eq_filter]
  exact iterate_skip hn

/-- The pointers are not null exactly if all sets record the entity itself. -/
theorem exists_components_iff (hrep : ∀ j ∈ ks, (sets j).Rep) :
    (∃ cs, components sets ks e = some cs) ↔ ∀ j ∈ ks, (sets j).recorded? e.id = some e := by
  rw [components, exists_mapM_iff]
  apply forall₂_congr
  intro j hj
  rw [← (hrep j hj).exists_at?_iff]
  constructor
  · rintro ⟨b, hb⟩
    obtain ⟨c, hc, -⟩ := Option.map_eq_some_iff.mp hb
    exact ⟨c, hc⟩
  · rintro ⟨c, hc⟩
    rw [hc]
    exact ⟨_, rfl⟩

theorem components_forall₂ {cs : List (Σ k, C k)} (hrep : ∀ j ∈ ks, (sets j).Rep)
    (hcs : components sets ks e = some cs) :
    List.Forall₂ (fun j c => ∃ a, c = ⟨j, a⟩ ∧ (sets j).entry e.id = some (e, a)) ks cs := by
  rw [components, mapM_eq_some_iff] at hcs
  induction hcs with
  | nil => exact .nil
  | cons hc _ ih =>
    obtain ⟨a, ha, rfl⟩ := Option.map_eq_some_iff.mp hc
    have hentry := (hrep _ List.mem_cons_self).join_at?_eq_some_iff.mp ha
    exact .cons ⟨a, rfl, hentry⟩ (ih fun j hj => hrep j (List.mem_cons_of_mem _ hj))

/-- Under an id that all sets have, they record the same entity. -/
def Agree (sets : ∀ k, SparseSet (C k) N) (k : κ) (ks : List κ) : Prop :=
  ∀ id, (∀ j ∈ k :: ks, (sets j).recorded? id ≠ none) →
    ∀ j ∈ ks, (sets j).recorded? id = (sets k).recorded? id

theorem Agree.eq {i j : κ} {id : UInt32} (h : Agree sets k ks)
    (hid : ∀ j ∈ k :: ks, (sets j).recorded? id ≠ none) (hi : i ∈ k :: ks) (hj : j ∈ k :: ks) :
    (sets i).recorded? id = (sets j).recorded? id := by
  have hhead : ∀ j ∈ k :: ks, (sets j).recorded? id = (sets k).recorded? id := by
    intro j hj
    rcases List.mem_cons.mp hj with rfl | hj
    · rfl
    · exact h id hid j hj
  rw [hhead i hi, hhead j hj]

theorem mem_yields_iff {j : κ} (hrep : ∀ j ∈ k :: ks, (sets j).Rep) (hj : j ∈ k :: ks)
    (hsmall : findSmallest sets k ks = (sets j).entities) :
    e ∈ yields sets k ks ↔ (sets j).recorded? e.id = some e ∧
      ∀ i ∈ k :: ks, (sets i).recorded? e.id ≠ none := by
  rw [yields_eq_filter, List.mem_filter, hsmall, contains_iff hrep,
    (hrep j hj).recorded?_eq_some_iff, and_iff_left rfl]
  apply and_congr_right
  intro _
  apply forall₂_congr
  intro i hi
  rw [(hrep i hi).recorded?_ne_none_iff]

/-- The loop ends, and nothing undefined is done in it, exactly if the sets agree. -/
theorem exists_iterate_iff (hrep : ∀ j ∈ k :: ks, (sets j).Rep) :
    (∃ rs, iterate sets k ks (findSmallest sets k ks).length (begin sets k ks) = some rs) ↔
      Agree sets k ks := by
  obtain ⟨j, hj, hsmall⟩ := exists_findSmallest sets k ks
  rw [iterate_begin le_rfl, exists_mapM_iff]
  constructor
  · intro h id hid i hi
    obtain ⟨e, he⟩ := Option.ne_none_iff_exists'.mp (hid j hj)
    obtain ⟨-, rfl⟩ := (hrep j hj).recorded?_eq_some_iff.mp he
    obtain ⟨r, hr⟩ := h e ((mem_yields_iff hrep hj hsmall).mpr ⟨he, hid⟩)
    obtain ⟨cs, hcs, -⟩ := Option.map_eq_some_iff.mp hr
    have hall := (exists_components_iff hrep).mp ⟨cs, hcs⟩
    rw [hall i (List.mem_cons_of_mem k hi), hall k List.mem_cons_self]
  · intro h e he
    obtain ⟨hrecorded, hid⟩ := (mem_yields_iff hrep hj hsmall).mp he
    obtain ⟨cs, hcs⟩ : ∃ cs, components sets (k :: ks) e = some cs := by
      apply (exists_components_iff hrep).mpr
      intro i hi
      rw [h.eq hid hi hj, hrecorded]
    rw [hcs]
    exact ⟨_, rfl⟩

/-- An id that several sets have comes with the same generation in all of them. -/
def Consistent (sets : ∀ k, SparseSet (C k) N) (ks : List κ) : Prop :=
  ∀ i ∈ ks, ∀ j ∈ ks, ∀ x ∈ (sets i).entities, ∀ y ∈ (sets j).entities,
    x.id = y.id → x.generation = y.generation

theorem Consistent.agree (hrep : ∀ j ∈ k :: ks, (sets j).Rep) (h : Consistent sets (k :: ks)) :
    Agree sets k ks := by
  intro id hid j hj
  have hj' : j ∈ k :: ks := List.mem_cons_of_mem k hj
  have hk : k ∈ k :: ks := List.mem_cons_self
  obtain ⟨x, hx⟩ := Option.ne_none_iff_exists'.mp (hid j hj')
  obtain ⟨y, hy⟩ := Option.ne_none_iff_exists'.mp (hid k hk)
  obtain ⟨hxmem, hxid⟩ := (hrep j hj').recorded?_eq_some_iff.mp hx
  obtain ⟨hymem, hyid⟩ := (hrep k hk).recorded?_eq_some_iff.mp hy
  have hxy := hxid.trans hyid.symm
  have hgen := h j hj' k hk x hxmem y hymem hxy
  rw [hx, hy]
  cases x
  cases y
  exact congrArg some (congrArg₂ Entity.mk hxy hgen)

end View

/-- The loop over a view ends. It visits each id that all sets have once and no other, and `*it` is
the entity of that id with the component that each set has for it. -/
theorem iterate_intersection (sets : ∀ k, SparseSet (C k) N) (k : κ) (ks : List κ)
    (hrep : ∀ j ∈ k :: ks, (sets j).Rep) (hgen : View.Consistent sets (k :: ks)) :
    ∃ rs, (∀ n, (View.findSmallest sets k ks).length ≤ n →
        View.iterate sets k ks n (View.begin sets k ks) = some rs) ∧
      (rs.map fun r => r.1.id.toNat).Nodup ∧
      (∀ id, id ∈ rs.map (fun r => r.1.id.toNat) ↔ ∀ j ∈ k :: ks, id ∈ (sets j).ids) ∧
      ∀ r ∈ rs, List.Forall₂ (fun j c => ∃ a, c = ⟨j, a⟩ ∧
        (sets j).entry r.1.id = some (r.1, a)) (k :: ks) r.2 := by
  obtain ⟨rs, hrs⟩ := (View.exists_iterate_iff hrep).mpr (hgen.agree hrep)
  rw [View.iterate_begin le_rfl] at hrs
  obtain ⟨hyields, hcomponents⟩ := mapM_pair_eq_some_iff.mp hrs
  obtain ⟨j, hj, hsmall⟩ := View.exists_findSmallest sets k ks
  have hids : rs.map (fun r => r.1.id.toNat) =
      (View.yields sets k ks).map fun e => e.id.toNat := by
    rw [← hyields, List.map_map]
    rfl
  refine ⟨rs, ?_, ?_, ?_, ?_⟩
  · intro n hn
    rw [View.iterate_begin hn, hrs]
  · rw [hids, View.yields_eq_filter, hsmall]
    exact (hrep j hj).nodup.sublist (List.filter_sublist.map _)
  · intro id
    rw [hids, View.yields_eq_filter, hsmall, List.mem_map]
    constructor
    · rintro ⟨e, he, rfl⟩
      exact (View.contains_iff hrep).mp (List.mem_filter.mp he).2
    · intro hid
      obtain ⟨e, he, rfl⟩ := List.mem_map.mp (hid j hj)
      exact ⟨e, List.mem_filter.mpr ⟨he, (View.contains_iff hrep).mpr hid⟩, rfl⟩
  · intro r hr
    exact View.components_forall₂ hrep (hcomponents r hr)

/-- The ids 0 and 1 in one set, and 1 and 3 in the other. -/
def overlapping : Bool → SparseSet Nat 4
  | false => ⟨[7, 8], #v[0, 1, npos, npos], [⟨0, 0⟩, ⟨1, 5⟩]⟩
  | true => ⟨[9, 2], #v[npos, 1, npos, 0], [⟨3, 0⟩, ⟨1, 5⟩]⟩

theorem overlapping_rep (j : Bool) : (overlapping j).Rep := by
  cases j with
  | false =>
    have h : (⟨[7], #v[0, npos, npos, npos], [⟨0, 0⟩]⟩ : SparseSet Nat 4).Rep :=
      SparseSet.init_rep.insert (e := ⟨0, 0⟩) (c := 7) rfl
    exact h.insert (e := ⟨1, 5⟩) (c := 8) rfl
  | true =>
    have h : (⟨[9], #v[npos, npos, npos, 0], [⟨3, 0⟩]⟩ : SparseSet Nat 4).Rep :=
      SparseSet.init_rep.insert (e := ⟨3, 0⟩) (c := 9) rfl
    exact h.insert (e := ⟨1, 5⟩) (c := 2) rfl

theorem iterate_intersection_overlapping :
    View.iterate overlapping false [true] 2 (View.begin overlapping false [true]) =
      some [(⟨1, 5⟩, [⟨false, 8⟩, ⟨true, 2⟩])] := by
  obtain ⟨rs, hrs, -⟩ := iterate_intersection overlapping false [true]
    (fun j _ => overlapping_rep j) (by unfold View.Consistent; decide)
  have h := hrs 2 (by decide)
  rw [h, Option.some.injEq]
  exact Option.some.inj (h.symm.trans rfl)

end Csics.Ecs
