import Mathlib.Data.List.Forall2

/-!
# Partial maps over a list

`l.mapM f` is defined where `f` is defined on all elements of `l`, and its elements are the values
of `f` in order.
-/

namespace Csics.Base

variable {α β : Type*} {f : α → Option β} {l : List α} {l' : List β}

theorem mapM_eq_some_iff : l.mapM f = some l' ↔ List.Forall₂ (fun a b => f a = some b) l l' := by
  induction l generalizing l' with
  | nil =>
    rw [List.forall₂_nil_left_iff, List.mapM_nil]
    exact ⟨fun h => (Option.some.inj h).symm, fun h => h ▸ rfl⟩
  | cons a l ih =>
    rw [List.mapM_cons]
    constructor
    · intro h
      obtain ⟨b, hb, h⟩ := Option.bind_eq_some_iff.mp h
      obtain ⟨bs, hbs, h⟩ := Option.bind_eq_some_iff.mp h
      cases h
      exact .cons hb (ih.mp hbs)
    · intro h
      cases h with
      | cons hb hbs =>
        rw [hb, ih.mpr hbs]
        rfl

theorem exists_mapM_iff : (∃ l', l.mapM f = some l') ↔ ∀ a ∈ l, ∃ b, f a = some b := by
  simp only [mapM_eq_some_iff]
  induction l with
  | nil => exact iff_of_true ⟨[], .nil⟩ fun a ha => absurd ha List.not_mem_nil
  | cons a l ih =>
    rw [List.forall_mem_cons, ← ih]
    constructor
    · rintro ⟨l', h⟩
      cases h with
      | cons hb hbs => exact ⟨⟨_, hb⟩, ⟨_, hbs⟩⟩
    · rintro ⟨⟨b, hb⟩, ⟨bs, hbs⟩⟩
      exact ⟨b :: bs, .cons hb hbs⟩

/-- Elements that are paired with the value of `f`. -/
theorem mapM_pair_eq_some_iff {ps : List (α × β)} :
    l.mapM (fun a => (f a).map (a, ·)) = some ps ↔
      ps.map Prod.fst = l ∧ ∀ p ∈ ps, f p.1 = some p.2 := by
  rw [mapM_eq_some_iff]
  constructor
  · intro h
    induction h with
    | nil => exact ⟨rfl, fun p hp => absurd hp List.not_mem_nil⟩
    | cons hp _ ih =>
      obtain ⟨b, hb, rfl⟩ := Option.map_eq_some_iff.mp hp
      exact ⟨congrArg _ ih.1, List.forall_mem_cons.mpr ⟨hb, ih.2⟩⟩
  · rintro ⟨rfl, h⟩
    induction ps with
    | nil => exact .nil
    | cons p ps ih =>
      obtain ⟨hp, hps⟩ := List.forall_mem_cons.mp h
      exact .cons (Option.map_eq_some_iff.mpr ⟨p.2, hp, rfl⟩) (ih hps)

end Csics.Base
