import Mathlib.Data.List.Nodup
import Mathlib.Logic.Equiv.Basic

/-!
# Tenancies

Owners that hold at most one resource each, no two the same, and the resources that were in use when
their owner let go of them without giving them back: these are `lost`, and nobody can hold them any
more. `InUse` are the resources that are held or lost. The operations keep the rules by their types,
and the lemmas `inUse_…` say what is in use behind them.
-/

namespace Csics.Base

structure Tenancy (ι α : Type*) where
  holds : ι → Option α
  lost : List α
  inj : ∀ {i j a}, holds i = some a → holds j = some a → i = j
  nodup : lost.Nodup
  apart : ∀ {i a}, holds i = some a → a ∉ lost

namespace Tenancy

variable {ι α : Type*}

def InUse (t : Tenancy ι α) (a : α) : Prop := (∃ i, t.holds i = some a) ∨ a ∈ t.lost

def empty : Tenancy ι α where
  holds _ := none
  lost := []
  inj h := by cases h
  nodup := List.nodup_nil
  apart h := by cases h

theorem not_inUse_empty (a : α) : ¬ (empty : Tenancy ι α).InUse a := by
  rintro (⟨i, h⟩ | h)
  · cases h
  · cases h

variable [DecidableEq ι] (t : Tenancy ι α) (i dst src : ι) {j : ι} {a b : α}

theorem of_update_none {f : ι → Option α} (h : Function.update f i none j = some a) :
    j ≠ i ∧ f j = some a := by
  by_cases hj : j = i
  · rw [hj, Function.update_self] at h
    cases h
  · rw [Function.update_of_ne hj] at h
    exact ⟨hj, h⟩

/-- What the owner holds is given back. -/
def release : Tenancy ι α where
  holds := Function.update t.holds i none
  lost := t.lost
  inj h h' := t.inj (of_update_none i h).2 (of_update_none i h').2
  nodup := t.nodup
  apart h := t.apart (of_update_none i h).2

/-- The owner lets go of what it holds, and it stays in use. -/
def forget : Tenancy ι α where
  holds := Function.update t.holds i none
  lost := t.lost ++ (t.holds i).toList
  inj h h' := t.inj (of_update_none i h).2 (of_update_none i h').2
  nodup := by
    refine t.nodup.append ?_ ?_
    · cases t.holds i <;> simp
    intro a ha hi
    exact t.apart (Option.mem_toList.mp hi) ha
  apart {j a} h := by
    obtain ⟨hj, h⟩ := of_update_none i h
    rw [List.mem_append, not_or]
    exact ⟨t.apart h, fun hi => hj (t.inj h (Option.mem_toList.mp hi))⟩

/-- An owner that holds nothing takes what is not in use. -/
def acquire (a : α) (h : ¬ t.InUse a) : Tenancy ι α where
  holds := Function.update t.holds i (some a)
  lost := t.lost
  inj {j k b} hj hk := by
    have hother {j : ι} (hj : Function.update t.holds i (some a) j = some b) (hne : j ≠ i) :
        t.holds j = some b ∧ b ≠ a := by
      rw [Function.update_of_ne hne] at hj
      exact ⟨hj, fun hb => h (Or.inl ⟨j, hb ▸ hj⟩)⟩
    by_cases hji : j = i
    · by_cases hki : k = i
      · rw [hji, hki]
      · rw [hji, Function.update_self] at hj
        cases hj
        exact absurd rfl (hother hk hki).2
    · by_cases hki : k = i
      · rw [hki, Function.update_self] at hk
        cases hk
        exact absurd rfl (hother hj hji).2
      · exact t.inj (hother hj hji).1 (hother hk hki).1
  nodup := t.nodup
  apart {j b} hj hb := by
    by_cases hji : j = i
    · rw [hji, Function.update_self] at hj
      cases hj
      exact h (Or.inr hb)
    · rw [Function.update_of_ne hji] at hj
      exact t.apart hj hb

/-- Two owners exchange what they hold. -/
def exchange : Tenancy ι α where
  holds j := t.holds (Equiv.swap dst src j)
  lost := t.lost
  inj h h' := (Equiv.swap dst src).injective (t.inj h h')
  nodup := t.nodup
  apart h := t.apart h

/-! ## What is in use -/

variable {t i dst src}

theorem inUse_release : (t.release i).InUse a ↔ t.InUse a ∧ t.holds i ≠ some a := by
  constructor
  · rintro (⟨j, h⟩ | h)
    · obtain ⟨hj, h⟩ := of_update_none i h
      exact ⟨Or.inl ⟨j, h⟩, fun hi => hj (t.inj h hi)⟩
    · exact ⟨Or.inr h, fun hi => t.apart hi h⟩
  · rintro ⟨⟨j, h⟩ | h, hi⟩
    · refine Or.inl ⟨j, ?_⟩
      have hj : j ≠ i := by
        rintro rfl
        exact hi h
      exact (Function.update_of_ne hj _ _).trans h
    · exact Or.inr h

/-- What is let go of stays in use. -/
theorem inUse_forget : (t.forget i).InUse a ↔ t.InUse a := by
  have hlost : a ∈ (t.forget i).lost ↔ a ∈ t.lost ∨ t.holds i = some a :=
    List.mem_append.trans (or_congr_right Option.mem_toList)
  constructor
  · rintro (⟨j, h⟩ | h)
    · exact Or.inl ⟨j, (of_update_none i h).2⟩
    · rcases hlost.mp h with h | h
      · exact Or.inr h
      · exact Or.inl ⟨i, h⟩
  · rintro (⟨j, h⟩ | h)
    · by_cases hj : j = i
      · exact Or.inr (hlost.mpr (Or.inr (hj ▸ h)))
      · exact Or.inl ⟨j, (Function.update_of_ne hj _ _).trans h⟩
    · exact Or.inr (hlost.mpr (Or.inl h))

theorem inUse_acquire {h : ¬ t.InUse a} (hi : t.holds i = none) :
    (t.acquire i a h).InUse b ↔ t.InUse b ∨ b = a := by
  constructor
  · rintro (⟨j, hj⟩ | hb)
    · by_cases hji : j = i
      · have hself : Function.update t.holds i (some a) j = some b := hj
        rw [hji, Function.update_self] at hself
        exact Or.inr (Option.some.inj hself).symm
      · have hother : Function.update t.holds i (some a) j = some b := hj
        rw [Function.update_of_ne hji] at hother
        exact Or.inl (Or.inl ⟨j, hother⟩)
    · exact Or.inl (Or.inr hb)
  · rintro ((⟨j, hj⟩ | hb) | rfl)
    · have hji : j ≠ i := by
        rintro rfl
        rw [hi] at hj
        cases hj
      exact Or.inl ⟨j, (Function.update_of_ne hji _ _).trans hj⟩
    · exact Or.inr hb
    · exact Or.inl ⟨i, Function.update_self _ _ _⟩

theorem inUse_exchange : (t.exchange dst src).InUse a ↔ t.InUse a := by
  refine or_congr_left ?_
  constructor
  · rintro ⟨j, h⟩
    exact ⟨_, h⟩
  · rintro ⟨j, h⟩
    refine ⟨Equiv.swap dst src j, ?_⟩
    show t.holds (Equiv.swap dst src (Equiv.swap dst src j)) = some a
    rw [Equiv.swap_apply_self, h]

end Tenancy

end Csics.Base
