import Mathlib.Data.List.Perm.Basic
import Mathlib.Data.Set.BooleanAlgebra
import Csics.Base.Run

/-!
# Footprints

A partial operation on a family of cells has a footprint: the cells `R` that decide what it does,
and the cells `W` among them that it may change. Operations that do not write each other's cells
commute, failures included (`Footprint.commute`), so any number of them may be run in any order
(`run_perm`).
-/

namespace Csics.Base

variable {κ : Type*} {S : κ → Type*}

/-- The same in the cells of `P`. -/
def AgreeOn (P : Set κ) (σ τ : ∀ k, S k) : Prop := ∀ k ∈ P, σ k = τ k

/-- `f` changes cells of `W` only, and how it does depends on cells of `R` only. -/
structure Footprint (R W : Set κ) (f : (∀ k, S k) → Option (∀ k, S k)) : Prop where
  frame : ∀ {σ σ'}, f σ = some σ' → AgreeOn Wᶜ σ σ'
  fails : ∀ {σ τ}, AgreeOn R σ τ → f σ = none → f τ = none
  writes : ∀ {σ τ σ' τ'}, AgreeOn R σ τ → f σ = some σ' → f τ = some τ' → AgreeOn W σ' τ'

section

variable {P R R' W W' : Set κ} {σ σ' τ : ∀ k, S k} {f g : (∀ k, S k) → Option (∀ k, S k)}

namespace AgreeOn

theorem symm (h : AgreeOn P σ τ) : AgreeOn P τ σ := fun k hk => (h k hk).symm

theorem trans {υ : ∀ k, S k} (h : AgreeOn P σ τ) (h' : AgreeOn P τ υ) : AgreeOn P σ υ :=
  fun k hk => (h k hk).trans (h' k hk)

theorem mono (h : AgreeOn P σ τ) {Q : Set κ} (hQ : Q ⊆ P) : AgreeOn Q σ τ :=
  fun k hk => h k (hQ hk)

end AgreeOn

namespace Footprint

theorem mono (h : Footprint R W f) (hR : R ⊆ R') (hW : W ⊆ W') (hWR : W' ⊆ R') :
    Footprint R' W' f where
  frame hf := (h.frame hf).mono (Set.compl_subset_compl.mpr hW)
  fails hagree := h.fails (hagree.mono hR)
  writes {σ τ σ' τ'} hagree hσ hτ k hk := by
    by_cases hkW : k ∈ W
    · exact h.writes (hagree.mono hR) hσ hτ k hkW
    · -- a cell that is not written is as it was
      rw [← h.frame hσ k hkW, ← h.frame hτ k hkW]
      exact hagree k (hWR hk)

/-- What is outside of the footprint is not seen. -/
theorem agree_of_disjoint (hf : Footprint R W f) (hdisjoint : ∀ k ∈ P, k ∉ W) (h : f σ = some σ') :
    AgreeOn P σ σ' := (hf.frame h).mono hdisjoint

theorem exists_of_agree (hf : Footprint R W f) (hagree : AgreeOn R σ τ) (h : f σ = some σ') :
    ∃ τ', f τ = some τ' ∧ AgreeOn W σ' τ' := by
  cases hτ : f τ with
  | none =>
    rw [hf.fails hagree.symm hτ] at h
    cases h
  | some τ' => exact ⟨τ', rfl, hf.writes hagree h hτ⟩

/-- What was the same before is the same after. -/
theorem agree_after (hf : Footprint R W f) (hagree : AgreeOn R σ τ) {τ' : ∀ k, S k}
    (hσ : f σ = some σ') (hτ : f τ = some τ') : AgreeOn R σ' τ' := by
  intro k hk
  by_cases hkW : k ∈ W
  · exact hf.writes hagree hσ hτ k hkW
  · rw [← hf.frame hσ k hkW, ← hf.frame hτ k hkW]
    exact hagree k hk

/-- Neither writes what the other one looks at. -/
theorem commute (hf : Footprint R W f) (hg : Footprint R' W' g) (hW : W ⊆ R)
    (h : ∀ k ∈ R, k ∉ W') (h' : ∀ k ∈ R', k ∉ W) (σ : ∀ k, S k) :
    (f σ).bind g = (g σ).bind f := by
  cases hfσ : f σ with
  | none =>
    rw [Option.bind_none]
    cases hgσ : g σ with
    | none => rfl
    | some σ₂ => exact (hf.fails (hg.agree_of_disjoint h hgσ) hfσ).symm
  | some σ₁ =>
    rw [Option.bind_some]
    have hagree := hf.agree_of_disjoint h' hfσ
    cases hgσ : g σ with
    | none => exact hg.fails hagree hgσ
    | some σ₂ =>
      rw [Option.bind_some]
      obtain ⟨τ₁, hτ₁, hW₁⟩ := hg.exists_of_agree hagree hgσ
      obtain ⟨τ₂, hτ₂, hW₂⟩ := hf.exists_of_agree (hg.agree_of_disjoint h hgσ) hfσ
      rw [hτ₁, hτ₂]
      congr 1
      funext k
      by_cases hk : k ∈ W
      · have hk' : k ∉ W' := h k (hW hk)
        rw [← hg.frame hτ₁ k hk', hW₂ k hk]
      · rw [← hf.frame hτ₂ k hk]
        by_cases hk' : k ∈ W'
        · exact (hW₁ k hk').symm
        · rw [← hg.frame hτ₁ k hk', ← hf.frame hfσ k hk, hg.frame hgσ k hk']

theorem pure (h : W ⊆ R) : Footprint R W (some : (∀ k, S k) → Option (∀ k, S k)) where
  frame hf := by
    cases hf
    exact fun _ _ => rfl
  fails _ hf := by cases hf
  writes hagree hσ hτ := by
    cases hσ
    cases hτ
    exact hagree.mono h

theorem bind (hf : Footprint R W f) (hg : Footprint R W g) :
    Footprint R W fun σ => (f σ).bind g where
  frame {σ σ'} h := by
    obtain ⟨σ₁, hσ₁, hσ'⟩ := Option.bind_eq_some_iff.mp h
    exact (hf.frame hσ₁).trans (hg.frame hσ')
  fails {σ τ} hagree h := by
    cases hσ : f σ with
    | none => rw [hf.fails hagree hσ, Option.bind_none]
    | some σ₁ =>
      obtain ⟨τ₁, hτ₁, hW₁⟩ := hf.exists_of_agree hagree hσ
      rw [hσ, Option.bind_some] at h
      rw [hτ₁, Option.bind_some]
      exact hg.fails (hf.agree_after hagree hσ hτ₁) h
  writes {σ τ σ' τ'} hagree hσ hτ := by
    obtain ⟨σ₁, hσ₁, hσ'⟩ := Option.bind_eq_some_iff.mp hσ
    obtain ⟨τ₁, hτ₁, hτ'⟩ := Option.bind_eq_some_iff.mp hτ
    exact hg.writes (hf.agree_after hagree hσ₁ hτ₁) hσ' hτ'

/-- What is done may be chosen by the cells that are looked at. -/
theorem choose {α : Type*} {b : (∀ k, S k) → α} {F : α → (∀ k, S k) → Option (∀ k, S k)}
    (hb : ∀ {σ τ}, AgreeOn R σ τ → b σ = b τ) (h : ∀ σ, Footprint R W (F (b σ))) :
    Footprint R W fun σ => F (b σ) σ where
  frame {σ _} hσ := (h σ).frame hσ
  fails {σ τ} hagree hσ := by
    have hsame := hb hagree
    exact hsame ▸ (h σ).fails hagree hσ
  writes {σ τ σ' τ'} hagree hσ hτ := by
    rw [← hb hagree] at hτ
    exact (h σ).writes hagree hσ hτ

theorem run {α : Type*} {step : (∀ k, S k) → α → Option (∀ k, S k)} {as : List α} (hW : W ⊆ R)
    (h : ∀ a ∈ as, Footprint R W (step · a)) : Footprint R W (Base.run step · as) := by
  induction as with
  | nil => exact .pure hW
  | cons a as ih =>
    obtain ⟨ha, has⟩ := List.forall_mem_cons.mp h
    exact ha.bind (ih has)

end Footprint

/-- Where actions commute, their order does not matter. -/
theorem run_perm {σ α : Type*} {step : σ → α → Option σ} {as bs : List α} (hperm : as.Perm bs)
    (h : as.Pairwise fun a b => ∀ s, (step s a).bind (step · b) = (step s b).bind (step · a))
    (s : σ) : Base.run step s as = Base.run step s bs := by
  induction hperm generalizing s with
  | nil => rfl
  | cons a hperm ih =>
    rw [run_cons, run_cons]
    congr 1
    funext t
    exact ih (List.pairwise_cons.mp h).2 t
  | swap a b as =>
    have hrun (c d : α) : Base.run step s (c :: d :: as) =
        ((step s c).bind (step · d)).bind (Base.run step · as) := by
      rw [run_cons, Option.bind_assoc]
      rfl
    rw [hrun, hrun, (List.pairwise_cons.mp h).1 a List.mem_cons_self s]
  | trans hperm hperm' ih ih' =>
    refine (ih h s).trans (ih' ?_ s)
    exact (hperm.pairwise_iff fun hab s => (hab s).symm).mp h

end

end Csics.Base
