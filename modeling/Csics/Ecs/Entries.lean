import Csics.Ecs.Flush

/-!
# What a world has under an id

`entry` is the entity that a sparse set records under an id, with its component. The operations
act on the entries one by one: an insertion writes the component of one entry, a removal clears
one, and nothing else changes (`Rep.entry_insert`, `Rep.entry_remove`). So the entry at the end of
a run is made by the operations on it alone, in their order (`entry_of_run`).
-/

namespace Csics.Ecs

open Base

/-! ## Sets -/

namespace SparseSet

variable {α : Type*} {N : Nat} {s t : SparseSet α N} {e x : Entity} {c : α} {id : UInt32}

/-- The entity that is recorded under the id, and its component. -/
def entry (s : SparseSet α N) (id : UInt32) : Option (Entity × α) :=
  if h : id.toNat < N then
    if s.sparse[id.toNat] = npos then none
    else
      match s.entities[s.sparse[id.toNat]]?, s.dense[s.sparse[id.toNat]]? with
      | some x, some c => some (x, c)
      | _, _ => none
  else none

theorem getElem?_ids (s : SparseSet α N) (i : Nat) :
    s.ids[i]? = s.entities[i]?.map fun e => e.id.toNat := by
  rw [ids, List.getElem?_map]

theorem entry_init (id : UInt32) : (init : SparseSet α N).entry id = none := by
  unfold entry
  by_cases hN : id.toNat < N
  · have hnpos : (init : SparseSet α N).sparse[id.toNat] = npos := Vector.getElem_replicate hN
    rw [dif_pos hN, if_pos hnpos]
  · rw [dif_neg hN]

/-- `at` looks at the entry and compares the generations. -/
theorem join_at?_eq (s : SparseSet α N) (e : Entity) : (s.at? e).join =
    (s.entry e.id).bind fun p => if p.1.generation ≠ e.generation then none else some p.2 := by
  unfold at? entry
  by_cases hN : e.id.toNat < N
  · rw [dif_pos hN, dif_pos hN]
    dsimp only
    by_cases hnpos : s.sparse[e.id.toNat] = npos
    · rw [if_neg (not_not.mpr hnpos), if_pos hnpos]
      rfl
    · rw [if_pos hnpos, if_neg hnpos]
      cases s.entities[s.sparse[e.id.toNat]]? with
      | none => rfl
      | some x =>
        cases s.dense[s.sparse[e.id.toNat]]? with
        | none => rfl
        | some c => rfl
  · rw [dif_neg hN, dif_neg hN]
    rfl

/-- Behind an append there is one more pair. -/
theorem exists_concat_iff {β γ : Type*} {l : List β} {m : List γ} {b x : β} {c y : γ}
    (hlen : l.length = m.length) :
    (∃ i : Nat, (l ++ [b])[i]? = some x ∧ (m ++ [c])[i]? = some y) ↔
      (∃ i : Nat, l[i]? = some x ∧ m[i]? = some y) ∨ b = x ∧ c = y := by
  constructor
  · rintro ⟨i, hx, hy⟩
    rcases getElem?_concat_eq_some_iff.mp hx with hx | ⟨rfl, rfl⟩
    · have hlt := (List.getElem?_eq_some_iff.mp hx).1
      have hy := (getElem?_concat_eq_some_iff.mp hy).resolve_right fun hlast => by omega
      exact Or.inl ⟨i, hx, hy⟩
    · rcases getElem?_concat_eq_some_iff.mp hy with hy | ⟨-, rfl⟩
      · have hlt := (List.getElem?_eq_some_iff.mp hy).1
        omega
      · exact Or.inr ⟨rfl, rfl⟩
  · rintro (⟨i, hx, hy⟩ | ⟨rfl, rfl⟩)
    · exact ⟨i, getElem?_concat_eq_some_iff.mpr (Or.inl hx),
        getElem?_concat_eq_some_iff.mpr (Or.inl hy)⟩
    · exact ⟨l.length, getElem?_concat_eq_some_iff.mpr (Or.inr ⟨rfl, rfl⟩),
        getElem?_concat_eq_some_iff.mpr (Or.inr ⟨hlen, rfl⟩)⟩

theorem getElem?_swapRemove {β : Type*} {l : List β} {b : β} {k : Nat} (hk : k < l.length)
    (i : Nat) : ((l.set k b).dropLast)[i]? =
      if i + 1 < l.length then if k = i then some b else l[i]? else none := by
  rw [List.getElem?_dropLast, List.length_set, List.getElem?_set]
  by_cases hlt : i + 1 < l.length
  · rw [if_pos (by omega), if_pos hlt]
    by_cases hki : k = i
    · rw [if_pos hki, if_pos hki, if_pos hk]
    · rw [if_neg hki, if_neg hki]
  · rw [if_neg (by omega), if_neg hlt]

/-- Where the last elements of two lists take the place of a removed pair, the other pairs are
left. -/
theorem exists_swapRemove_iff {β γ : Type*} {l : List β} {m : List γ} {b x : β} {c y : γ} {k : Nat}
    (hk : k < l.length) (hlen : l.length = m.length) (hb : l.getLast? = some b)
    (hc : m.getLast? = some c) :
    (∃ i : Nat, ((l.set k b).dropLast)[i]? = some x ∧ ((m.set k c).dropLast)[i]? = some y) ↔
      ∃ i : Nat, (i ≠ k ∧ l[i]? = some x) ∧ m[i]? = some y := by
  rw [List.getLast?_eq_getElem?] at hb hc
  rw [← hlen] at hc
  simp only [getElem?_swapRemove hk, getElem?_swapRemove (hlen ▸ hk), ← hlen]
  constructor
  · rintro ⟨i, hx, hy⟩
    split at hx
    · rename_i hlt
      rw [if_pos hlt] at hy
      split at hx
      · rename_i hki
        rw [if_pos hki] at hy
        cases hx
        cases hy
        exact ⟨l.length - 1, ⟨by omega, hb⟩, hc⟩
      · rename_i hki
        rw [if_neg hki] at hy
        exact ⟨i, ⟨Ne.symm hki, hx⟩, hy⟩
    · cases hx
  · rintro ⟨i, ⟨hik, hx⟩, hy⟩
    have hlt := (List.getElem?_eq_some_iff.mp hx).1
    by_cases hilast : i + 1 < l.length
    · refine ⟨i, ?_, ?_⟩
      · rw [if_pos hilast, if_neg hik.symm, hx]
      · rw [if_pos hilast, if_neg hik.symm, hy]
    · -- the last pair is at the place of the removed one now
      obtain rfl : i = l.length - 1 := by omega
      rw [hb] at hx
      rw [hc] at hy
      refine ⟨k, ?_, ?_⟩
      · rw [if_pos (by omega), if_pos rfl, hx]
      · rw [if_pos (by omega), if_pos rfl, hy]

namespace Rep

/-- The entries are the pairs in the two lists. -/
theorem entry_eq_some_iff (h : s.Rep) : s.entry id = some (x, c) ↔
    ∃ i : Nat, s.entities[i]? = some x ∧ s.dense[i]? = some c ∧ x.id = id := by
  unfold entry
  constructor
  · intro hentry
    split at hentry
    · rename_i hN
      split at hentry
      · cases hentry
      · rename_i hne
        have hget : s.sparse[id.toNat]? = some s.sparse[id.toNat] := Vector.getElem?_eq_getElem hN
        have hmem := (h.sparse_iff _ _).mp ⟨hget, hne⟩
        split at hentry
        · rename_i x' c' hx hc
          cases hentry
          rw [getElem?_ids, hx] at hmem
          exact ⟨_, hx, hc, UInt32.toNat_inj.mp (Option.some.inj hmem)⟩
        · cases hentry
    · cases hentry
  · rintro ⟨i, hx, hc, rfl⟩
    have hmem : s.ids[i]? = some x.id.toNat := by
      rw [getElem?_ids, hx]
      rfl
    obtain ⟨hget, hne⟩ := (h.sparse_iff _ _).mpr hmem
    have hN : x.id.toNat < N := h.lt_of_mem (List.mem_of_getElem? hmem)
    rw [Vector.getElem?_eq_getElem hN, Option.some.injEq] at hget
    rw [dif_pos hN, hget, if_neg hne, hx, hc]

theorem exists_entry_iff (h : s.Rep) : (∃ p, s.entry id = some p) ↔ id.toNat ∈ s.ids := by
  constructor
  · rintro ⟨⟨x, c⟩, hentry⟩
    obtain ⟨i, hx, -, rfl⟩ := h.entry_eq_some_iff.mp hentry
    exact List.mem_map_of_mem (List.mem_of_getElem? hx)
  · intro hid
    obtain ⟨x, hx, hxid⟩ := List.mem_map.mp hid
    obtain ⟨i, hi, rfl⟩ := List.mem_iff_getElem.mp hx
    have hi' : i < s.dense.length := h.length_eq ▸ hi
    exact ⟨(s.entities[i], s.dense[i]), h.entry_eq_some_iff.mpr ⟨i, List.getElem?_eq_getElem hi,
      List.getElem?_eq_getElem hi', UInt32.toNat_inj.mp hxid⟩⟩

/-- No two places have the same id. -/
theorem place_unique (h : s.Rep) {i j : Nat} {y : Entity} (hi : s.entities[i]? = some x)
    (hj : s.entities[j]? = some y) (hid : x.id = y.id) : i = j := by
  have hi' : s.ids[i]? = some x.id.toNat := by
    rw [getElem?_ids, hi]
    rfl
  have hj' : s.ids[j]? = some x.id.toNat := by
    rw [getElem?_ids, hj, hid]
    rfl
  exact h.index_unique hi' hj'

/-- The place that `sparse_` has for an id. -/
theorem entities_sparse (h : s.Rep) {hN : id.toNat < N} (hne : s.sparse[id.toNat] ≠ npos) :
    ∃ x c, s.entities[s.sparse[id.toNat]]? = some x ∧ s.dense[s.sparse[id.toNat]]? = some c ∧
      x.id = id := by
  have hget : s.sparse[id.toNat]? = some s.sparse[id.toNat] := Vector.getElem?_eq_getElem hN
  have hmem := (h.sparse_iff _ _).mp ⟨hget, hne⟩
  rw [getElem?_ids] at hmem
  obtain ⟨x, hx, hid⟩ := Option.map_eq_some_iff.mp hmem
  have hlt := (List.getElem?_eq_some_iff.mp hx).1
  rw [h.length_eq] at hlt
  exact ⟨x, _, hx, List.getElem?_eq_getElem hlt, UInt32.toNat_inj.mp hid⟩

/-- An insertion writes the component of one entry; the entity that is recorded stays. -/
theorem entry_insert (h : s.Rep) (ht : s.insert e c = some t) (id : UInt32) : t.entry id =
      if e.id = id then some (((s.entry id).map Prod.fst).getD e, c) else s.entry id := by
  have hrep := h.insert ht
  unfold SparseSet.insert at ht
  split at ht
  · rename_i hN
    dsimp only at ht
    split at ht
    · -- a new entry at the end
      rename_i hnpos
      cases ht
      have hlen := h.length_eq
      have hnone : s.entry e.id = none := by rw [entry, dif_pos hN, if_pos hnpos]
      by_cases hid : e.id = id
      · subst hid
        rw [if_pos rfl, hnone, hrep.entry_eq_some_iff]
        refine ⟨s.entities.length, List.getElem?_concat_length, ?_, rfl⟩
        rw [hlen]
        exact List.getElem?_concat_length
      · rw [if_neg hid]
        refine Option.ext fun p => ?_
        obtain ⟨x, a⟩ := p
        rw [hrep.entry_eq_some_iff, h.entry_eq_some_iff]
        simp only [← and_assoc, exists_and_right, exists_concat_iff hlen]
        constructor
        · rintro ⟨hold | ⟨rfl, rfl⟩, hxid⟩
          · exact ⟨hold, hxid⟩
          · exact absurd hxid hid
        · rintro ⟨hold, hxid⟩
          exact ⟨Or.inl hold, hxid⟩
    · rename_i hne
      split at ht
      · -- the component at the place of the id
        rename_i hlt
        cases ht
        obtain ⟨y, b, hy, hb, hyid⟩ := h.entities_sparse hne
        by_cases hid : e.id = id
        · subst hid
          have hentry : s.entry e.id = some (y, b) := h.entry_eq_some_iff.mpr ⟨_, hy, hb, hyid⟩
          rw [if_pos rfl, hentry, hrep.entry_eq_some_iff]
          exact ⟨_, hy, List.getElem?_set_self hlt, hyid⟩
        · rw [if_neg hid]
          refine Option.ext fun p => ?_
          rw [hrep.entry_eq_some_iff, h.entry_eq_some_iff]
          have hplace : ∀ i : Nat, s.entities[i]? = some p.1 → p.1.id = id →
              s.sparse[e.id.toNat] ≠ i := by
            rintro i hx rfl rfl
            rw [hy] at hx
            exact hid (hyid.symm.trans (congrArg Entity.id (Option.some.inj hx)))
          constructor
          · rintro ⟨i, hx, hc, hxid⟩
            rw [List.getElem?_set_ne (hplace i hx hxid)] at hc
            exact ⟨i, hx, hc, hxid⟩
          · rintro ⟨i, hx, hc, hxid⟩
            refine ⟨i, hx, ?_, hxid⟩
            rw [List.getElem?_set_ne (hplace i hx hxid), hc]
      · cases ht
  · cases ht

/-- A removal clears one entry, wherever the last one is moved to. -/
theorem entry_remove (h : s.Rep) (ht : s.remove e = some t) (id : UInt32) :
    t.entry id = if e.id = id then none else s.entry id := by
  have hrep := h.remove ht
  rcases remove_cases ht with
    ⟨rfl, hnone⟩ | ⟨hN, last, lastEntity, hl, hne, hlast, hlastEntity, hi, rfl⟩
  · by_cases hid : e.id = id
    · subst hid
      rw [if_pos rfl]
      by_cases hN : e.id.toNat < N
      · rcases hnone hN with hnpos | hempty
        · rw [entry, dif_pos hN, if_pos hnpos]
        · rw [entry, dif_pos hN, hempty]
          split
          · rfl
          · split
            · rename_i heq
              cases heq
            · rfl
      · rw [entry, dif_neg hN]
    · rw [if_neg hid]
  · obtain ⟨y, b, hy, hb, hyid⟩ := h.entities_sparse hne
    generalize s.sparse[e.id.toNat] = k at hne hi hy hb hrep
    refine Option.ext fun p => ?_
    obtain ⟨x, c⟩ := p
    have hother : (∃ i : Nat, ((s.entities.set k lastEntity).dropLast)[i]? = some x ∧
        ((s.dense.set k last).dropLast)[i]? = some c ∧ x.id = id) ↔
          ∃ i : Nat, i ≠ k ∧ s.entities[i]? = some x ∧ s.dense[i]? = some c ∧ x.id = id := by
      simp only [← and_assoc, exists_and_right,
        exists_swapRemove_iff hi h.length_eq hlastEntity hlast]
    rw [hrep.entry_eq_some_iff]
    refine hother.trans ?_
    by_cases hid : e.id = id
    · subst hid
      rw [if_pos rfl]
      refine iff_of_false ?_ (fun hnone => by cases hnone)
      rintro ⟨i, hik, hx, -, hxid⟩
      exact hik (h.place_unique hy hx (hyid.trans hxid.symm)).symm
    · rw [if_neg hid, h.entry_eq_some_iff]
      constructor
      · rintro ⟨i, -, hplace⟩
        exact ⟨i, hplace⟩
      · rintro ⟨i, hx, hplace⟩
        refine ⟨i, ?_, hx, hplace⟩
        rintro rfl
        rw [hy] at hx
        exact hid (hyid.symm.trans ((congrArg Entity.id (Option.some.inj hx)).trans hplace.2))

end Rep

end SparseSet

/-! ## Worlds -/

variable {κ : Type*} {C : κ → Type*} {w w' v : World κ C} {k : κ} {e : Entity} {id : UInt32}

/-- An entity that is recorded under an id, and its component. -/
abbrev Entry (κ : Type*) (C : κ → Type*) := Option (Entity × Component κ C)

/-- What an operation does to one entry. -/
inductive Touch (κ : Type*) (C : κ → Type*) where
  | write (e : Entity) (c : Component κ C)
  | clear

/-- The entry behind it. -/
def Touch.apply (entry : Entry κ C) : Touch κ C → Entry κ C
  | .write e c => some ((entry.map Prod.fst).getD e, c)
  | .clear => none

namespace World

/-- The entry of a component type under an id. -/
def entry (w : World κ C) (k : κ) (id : UInt32) : Entry κ C :=
  ((w.components k).entry id).map fun p => (p.1, ⟨k, p.2⟩)

/-- An entry that is recorded with the entity itself is its component. -/
theorem map_component? (h : w.entry k e.id = none ∨ ∃ c, w.entry k e.id = some (e, c)) :
    (w.component? k e).map (Sigma.mk k) = (w.entry k e.id).map Prod.snd := by
  rw [component?, SparseSet.join_at?_eq]
  rcases h with hnone | ⟨c, hsome⟩
  · rw [hnone, Option.map_eq_none_iff.mp hnone]
    rfl
  · rw [hsome]
    obtain ⟨⟨x, a⟩, hentry, heq⟩ := Option.map_eq_some_iff.mp hsome
    cases heq
    rw [hentry]
    simp

/-- The component of an older entity with the id is not found. -/
theorem component?_of_ne {x : Entity} {c : Component κ C} (hs : w.Sound)
    (h : w.entry k e.id = some (x, c)) (hx : x ≠ e) : w.component? k e = none := by
  obtain ⟨⟨y, a⟩, hentry, heq⟩ := Option.map_eq_some_iff.mp h
  obtain ⟨rfl, -⟩ := Prod.mk.inj heq
  obtain ⟨i, -, -, hid⟩ := (hs.rep k).entry_eq_some_iff.mp hentry
  have hgeneration : y.generation ≠ e.generation := by
    intro hgeneration
    obtain ⟨yid, ygen⟩ := y
    obtain ⟨eid, egen⟩ := e
    cases hid
    cases hgeneration
    exact hx rfl
  rw [component?, SparseSet.join_at?_eq, hentry]
  exact if_pos hgeneration

end World

/-! ## Where the order of the touches matters -/

namespace Touch

def isWrite : Touch κ C → Bool
  | .write _ _ => true
  | .clear => false

/-- All components are written with the handle `e`. -/
def Through (e : Entity) (ts : List (Touch κ C)) : Prop := ∀ x c, Touch.write x c ∈ ts → x = e

variable {ts : List (Touch κ C)} {entry : Entry κ C} {x : Entity}

/-- Once nothing is recorded, only `e` is. -/
theorem foldl_through (hts : Through e ts) (h : entry = none ∨ ∃ c, entry = some (e, c)) :
    ts.foldl apply entry = none ∨ ∃ c, ts.foldl apply entry = some (e, c) := by
  induction ts generalizing entry with
  | nil => exact h
  | cons t ts ih =>
    refine ih (fun x c hmem => hts x c (List.mem_cons_of_mem _ hmem)) ?_
    cases t with
    | clear => exact Or.inl rfl
    | write x c =>
      obtain rfl := hts x c List.mem_cons_self
      rcases h with rfl | ⟨c', rfl⟩
      · exact Or.inr ⟨c, rfl⟩
      · exact Or.inr ⟨c, rfl⟩

/-- Behind a removal there is nothing, or what was written with the handle later. -/
theorem foldl_of_clear (hts : Through e ts) (hclear : Touch.clear ∈ ts) :
    ts.foldl apply entry = none ∨ ∃ c, ts.foldl apply entry = some (e, c) := by
  obtain ⟨before, after, rfl⟩ := List.append_of_mem hclear
  rw [List.foldl_append, List.foldl_cons]
  refine foldl_through ?_ (Or.inl rfl)
  intro x c hmem
  exact hts x c (List.mem_append_right _ (List.mem_cons_of_mem _ hmem))

/-- The writes first, and then the removals. -/
def deferred (ts : List (Touch κ C)) : List (Touch κ C) :=
  ts.filter isWrite ++ ts.filter fun t => !isWrite t

theorem mem_deferred_iff {t : Touch κ C} : t ∈ deferred ts ↔ t ∈ ts := by
  rw [deferred, List.mem_append, List.mem_filter, List.mem_filter, ← and_or_left]
  refine and_iff_left ?_
  cases isWrite t with
  | true => exact Or.inl rfl
  | false => exact Or.inr rfl

/-- The component that the last touch leaves. -/
def lastComponent (entry : Entry κ C) (ts : List (Touch κ C)) : Option (Component κ C) :=
  match ts.getLast? with
  | none => entry.map Prod.snd
  | some (.write _ c) => some c
  | some .clear => none

/-- Whatever the other touches are. -/
theorem map_foldl (entry : Entry κ C) (ts : List (Touch κ C)) :
    (ts.foldl apply entry).map Prod.snd = lastComponent entry ts := by
  induction ts using List.reverseRecOn with
  | nil => rfl
  | append_singleton ts t _ =>
    rw [List.foldl_concat, lastComponent, List.getLast?_concat]
    cases t with
    | write x c => rfl
    | clear => rfl

/-- Without a removal the entity that is recorded stays. -/
theorem foldl_of_notMem {c : Component κ C} (hclear : Touch.clear ∉ ts) :
    ∃ c', ts.foldl apply (some (x, c)) = some (x, c') := by
  induction ts generalizing c with
  | nil => exact ⟨c, rfl⟩
  | cons t ts ih =>
    rw [List.mem_cons, not_or] at hclear
    cases t with
    | write y a => exact ih hclear.2
    | clear => exact absurd rfl hclear.1

/-- `e` is recorded with what the touches leave, and not an older entity with the id. -/
def Shows (e : Entity) (entry : Entry κ C) (ts : List (Touch κ C)) : Prop :=
  Touch.clear ∈ ts ∨ ∀ p ∈ entry, p.1 = e

/-- Then there is nothing, or what was written with the handle. -/
theorem foldl_of_shows (hts : Through e ts) (h : Shows e entry ts) :
    ts.foldl apply entry = none ∨ ∃ c, ts.foldl apply entry = some (e, c) := by
  rcases h with hclear | hentry
  · exact foldl_of_clear hts hclear
  · refine foldl_through hts ?_
    cases entry with
    | none => exact Or.inl rfl
    | some p =>
      obtain rfl := hentry p rfl
      exact Or.inr ⟨p.2, rfl⟩

/-- Otherwise the older entity stays. -/
theorem foldl_of_not_shows (h : ¬ Shows e entry ts) :
    ∃ x c, x ≠ e ∧ ts.foldl apply entry = some (x, c) := by
  obtain ⟨hclear, hentry⟩ := not_or.mp h
  cases entry with
  | none => exact absurd (fun p hp => by cases hp) hentry
  | some p =>
    obtain ⟨x, c⟩ := p
    obtain ⟨c', hfold⟩ := foldl_of_notMem (x := x) (c := c) hclear
    refine ⟨x, c', ?_, hfold⟩
    rintro rfl
    refine hentry fun p hp => ?_
    cases hp
    rfl

end Touch

/-! ## Operations on a world -/

variable [DecidableEq κ]

/-- What an operation does to the entry of a component type under an id, if it does anything. -/
def WorldOp.touch? (k : κ) (id : UInt32) : WorldOp κ C → Option (Touch κ C)
  | .addComponent e c | .setComponent e c =>
    if c.1 = k ∧ e.id = id then some (.write e c) else none
  | .removeComponent k' e => if k' = k ∧ e.id = id then some .clear else none
  | .addEntity | .removeEntity _ => none

theorem WorldOp.touch?_addComponent_self (e : Entity) (c : Component κ C) :
    (WorldOp.addComponent e c).touch? c.1 e.id = some (.write e c) := if_pos ⟨rfl, rfl⟩

/-- All that operations do to an entry. -/
def touches (k : κ) (id : UInt32) (ops : List (WorldOp κ C)) : List (Touch κ C) :=
  ops.filterMap (WorldOp.touch? k id)

theorem touches_append (k : κ) (id : UInt32) (ops ops' : List (WorldOp κ C)) :
    touches k id (ops ++ ops') = touches k id ops ++ touches k id ops' := List.filterMap_append

namespace World

theorem entry_setSparseSet_of_ne {j : κ} (s : SparseSet (C j) maxEntities) (h : k ≠ j) :
    (w.setSparseSet j s).entry k id = w.entry k id := by
  rw [entry, components_setSparseSet_of_ne h, entry]

theorem entry_addComponent {c : Component κ C} (h : w.Sound)
    (hw : w.addComponent e c = some w') : w'.entry k id =
      (if c.1 = k ∧ e.id = id then some (Touch.write e c) else none).elim (w.entry k id)
        (Touch.apply (w.entry k id)) := by
  obtain ⟨s, hins, rfl⟩ := Option.map_eq_some_iff.mp hw
  obtain ⟨j, a⟩ := c
  dsimp only at hins ⊢
  by_cases hk : j = k
  · subst hk
    have hentry := (h.rep j).entry_insert hins id
    rw [entry, components_setSparseSet_self, hentry]
    by_cases hid : e.id = id
    · rw [if_pos hid, if_pos ⟨rfl, hid⟩]
      dsimp only [Option.map_some, Option.elim_some, Touch.apply]
      rw [entry]
      cases (w.components j).entry id with
      | none => rfl
      | some p => rfl
    · rw [if_neg hid, if_neg fun h => hid h.2]
      rfl
  · rw [entry_setSparseSet_of_ne s (Ne.symm hk), if_neg fun h => hk h.1]
    rfl

/-- An operation touches the entry, or leaves it alone. -/
theorem entry_step {op : WorldOp κ C} (h : w.Sound) (hw : w.step op = some w') :
    w'.entry k id = (op.touch? k id).elim (w.entry k id) (Touch.apply (w.entry k id)) := by
  cases op with
  | addEntity =>
    obtain ⟨⟨e, w''⟩, hadd, rfl⟩ := Option.map_eq_some_iff.mp hw
    obtain ⟨hcomp, -⟩ := addEntity_cases hadd
    show w''.entry k id = w.entry k id
    rw [entry, hcomp, entry]
  | removeEntity e =>
    obtain ⟨hcomp, -⟩ := removeEntity_cases hw
    show w'.entry k id = w.entry k id
    rw [entry, hcomp, entry]
  | addComponent e c => exact entry_addComponent h hw
  | setComponent e c =>
    have hset : w.setComponent e c = some w' := hw
    unfold World.setComponent at hset
    split at hset
    · exact entry_addComponent h hset
    · cases hset
  | removeComponent j e =>
    obtain ⟨s, hrem, rfl⟩ := Option.map_eq_some_iff.mp hw
    show _ = (if j = k ∧ e.id = id then some Touch.clear else none).elim _ _
    by_cases hk : j = k
    · subst hk
      have hentry := (h.rep j).entry_remove hrem id
      rw [entry, components_setSparseSet_self, hentry]
      by_cases hid : e.id = id
      · rw [if_pos hid, if_pos ⟨rfl, hid⟩]
        rfl
      · rw [if_neg hid, if_neg fun h => hid h.2]
        rfl
    · rw [entry_setSparseSet_of_ne s (Ne.symm hk), if_neg fun h => hk h.1]
      rfl

/-- The entry behind a run is made by what touches it, in order. -/
theorem entry_of_run {ops : List (WorldOp κ C)} (h : w.Sound) (hw : Base.run step w ops = some w') :
    w'.entry k id = (touches k id ops).foldl Touch.apply (w.entry k id) := by
  induction ops generalizing w with
  | nil =>
    cases hw
    rfl
  | cons op ops ih =>
    obtain ⟨w'', hstep, hrest⟩ := run_cons_eq_some.mp hw
    rw [ih (h.step hstep) hrest, entry_step h hstep]
    unfold touches
    cases htouch : op.touch? k id with
    | none => rw [List.filterMap_cons_none htouch, Option.elim_none]
    | some t => rw [List.filterMap_cons_some htouch, Option.elim_some, List.foldl_cons]

end World

end Csics.Ecs
