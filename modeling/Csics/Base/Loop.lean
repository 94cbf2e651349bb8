import Mathlib.Logic.Function.Iterate
import Mathlib.Logic.Relation
import Mathlib.Tactic.ByContra
import Mathlib.Tactic.Choose

/-!
# Loops

A loop is given by its body, which goes round with a new state or leaves with a result. `loop` runs
it for a number of rounds, and `Loop.Returns` says that some number is enough. `Loop.value` is what
a computation comes to whose rounds are not limited.

`Loop.induction` is the invariant rule. A loop whose rounds lower a number returns
(`Loop.returns_of_lt`). Where rounds may leave the number as it is, the loop returns unless it gets
to a state from which all rounds do so (`Loop.returns_iff`).
-/

namespace Csics.Base

variable {σ ρ : Type*}

/-- The loop, for at most `fuel` rounds. -/
def loop (body : σ → σ ⊕ ρ) : Nat → σ → Option ρ
  | 0, _ => none
  | fuel + 1, s =>
    match body s with
    | .inl s' => loop body fuel s'
    | .inr r => some r

namespace Loop

/-- The loop comes to an end. -/
def Returns (body : σ → σ ⊕ ρ) (s : σ) : Prop := ∃ fuel r, loop body fuel s = some r

/-- The loop gets from one state to the other. -/
def Reaches (body : σ → σ ⊕ ρ) : σ → σ → Prop :=
  Relation.ReflTransGen fun s s' => body s = .inl s'

/-- From here on the loop goes round for ever, and the number stays what it is. -/
def Idles (body : σ → σ ⊕ ρ) (m : σ → Nat) (s : σ) : Prop :=
  ∃ u : Nat → σ, u 0 = s ∧ ∀ n, body (u n) = .inl (u (n + 1)) ∧ m (u (n + 1)) = m (u n)

variable {body : σ → σ ⊕ ρ} {m : σ → Nat} {s s' t : σ} {r : ρ} {fuel : Nat}

theorem Reaches.refl : Reaches body s s := Relation.ReflTransGen.refl

theorem Reaches.tail (h : Reaches body s t) (hround : body t = .inl s') : Reaches body s s' :=
  Relation.ReflTransGen.tail h hround

theorem succ_of_inl (h : body s = .inl s') : loop body (fuel + 1) s = loop body fuel s' := by
  rw [loop, h]

theorem succ_of_inr (h : body s = .inr r) : loop body (fuel + 1) s = some r := by
  rw [loop, h]

/-- What every round keeps holds when the loop is left. -/
theorem induction {I : σ → Prop} {Q : ρ → Prop}
    (hround : ∀ s s', I s → body s = .inl s' → I s') (hleave : ∀ s r, I s → body s = .inr r → Q r)
    (h0 : I s) (hloop : loop body fuel s = some r) : Q r := by
  induction fuel generalizing s with
  | zero => cases hloop
  | succ fuel ih =>
    cases hbody : body s with
    | inl s' =>
      rw [succ_of_inl hbody] at hloop
      exact ih (hround s s' h0 hbody) hloop
    | inr r' =>
      rw [succ_of_inr hbody] at hloop
      cases hloop
      exact hleave s r h0 hbody

theorem returns_of_inr (h : body s = .inr r) : Returns body s := ⟨1, r, succ_of_inr h⟩

theorem returns_iff_of_inl (h : body s = .inl s') : Returns body s ↔ Returns body s' := by
  constructor
  · rintro ⟨fuel, r, hloop⟩
    cases fuel with
    | zero => cases hloop
    | succ fuel => exact ⟨fuel, r, (succ_of_inl h).symm.trans hloop⟩
  · rintro ⟨fuel, r, hloop⟩
    exact ⟨fuel + 1, r, (succ_of_inl h).trans hloop⟩

/-- The states of a loop that does not return are such states. -/
theorem returns_iff_of_reaches (h : Reaches body s t) : Returns body s ↔ Returns body t := by
  induction h with
  | refl => rfl
  | tail _ hround ih => exact ih.trans (returns_iff_of_inl hround)

theorem exists_inl_of_not_returns (h : ¬ Returns body s) : ∃ s', body s = .inl s' := by
  cases hbody : body s with
  | inl s' => exact ⟨s', rfl⟩
  | inr r => exact absurd (returns_of_inr hbody) h

/-- The result does not depend on the number of rounds. -/
theorem eq_of_loop {fuel' : Nat} {r' : ρ} (h : loop body fuel s = some r)
    (h' : loop body fuel' s = some r') : r = r' := by
  induction fuel generalizing s fuel' with
  | zero => cases h
  | succ fuel ih =>
    cases fuel' with
    | zero => cases h'
    | succ fuel' =>
      cases hbody : body s with
      | inl s' =>
        rw [succ_of_inl hbody] at h h'
        exact ih h h'
      | inr r'' =>
        rw [succ_of_inr hbody] at h h'
        exact Option.some.inj (h.symm.trans h')

/-- Rounds that lower a number come to an end. -/
theorem returns_of_lt (hlt : ∀ s s', body s = .inl s' → m s' < m s) (s : σ) : Returns body s := by
  induction hm : m s using Nat.strongRecOn generalizing s with
  | ind k ih =>
    cases hbody : body s with
    | inl s' => exact (returns_iff_of_inl hbody).mpr (ih (m s') (hm ▸ hlt s s' hbody) s' rfl)
    | inr r => exact returns_of_inr hbody

theorem Idles.not_returns (h : Idles body m s) : ¬ Returns body s := by
  obtain ⟨u, rfl, hu⟩ := h
  rintro ⟨fuel, r, hloop⟩
  have hnone : ∀ fuel n, loop body fuel (u n) = none := by
    intro fuel
    induction fuel with
    | zero => exact fun n => rfl
    | succ fuel ih => exact fun n => (succ_of_inl (hu n).1).trans (ih (n + 1))
  rw [hnone] at hloop
  cases hloop

/-- A loop that does not return, and never lowers the number, idles. -/
theorem idles_of_not_returns (hs : ¬ Returns body s)
    (hsame : ∀ t, Reaches body s t → m t = m s) : Idles body m s := by
  have hnext : ∀ t : { t // Reaches body s t }, ∃ t' : { t // Reaches body s t },
      body t.1 = .inl t'.1 := by
    rintro ⟨t, ht⟩
    obtain ⟨t', hbody⟩ := exists_inl_of_not_returns fun h => hs ((returns_iff_of_reaches ht).mpr h)
    exact ⟨⟨t', ht.tail hbody⟩, hbody⟩
  choose next hbody using hnext
  refine ⟨fun n => (next^[n] ⟨s, Reaches.refl⟩).1, rfl, ?_⟩
  intro n
  dsimp only
  rw [Function.iterate_succ_apply']
  exact ⟨hbody _, (hsame _ (next _).2).trans (hsame _ (next^[n] ⟨s, Reaches.refl⟩).2).symm⟩

/-- The loop returns unless it gets to where it idles. -/
theorem returns_iff (hle : ∀ s s', body s = .inl s' → m s' ≤ m s) :
    Returns body s ↔ ∀ t, Reaches body s t → ¬ Idles body m t := by
  constructor
  · intro h t ht hidles
    exact hidles.not_returns ((returns_iff_of_reaches ht).mp h)
  · intro h
    by_contra hs
    induction hm : m s using Nat.strongRecOn generalizing s with
    | ind k ih =>
      by_cases hlower : ∃ t, Reaches body s t ∧ m t < m s
      · obtain ⟨t, ht, hlt⟩ := hlower
        exact ih (m t) (hm ▸ hlt) (fun t' ht' => h t' (Relation.ReflTransGen.trans ht ht'))
          (fun hreturns => hs ((returns_iff_of_reaches ht).mpr hreturns)) rfl
      · refine h s Reaches.refl (idles_of_not_returns hs ?_)
        intro t ht
        have hmono : m t ≤ m s := by
          clear hs ih hlower hm h
          induction ht with
          | refl => exact Nat.le_refl _
          | tail _ hround hmt => exact Nat.le_trans (hle _ _ hround) hmt
        have hnot : ¬ m t < m s := fun hlt => hlower ⟨t, ht, hlt⟩
        omega

/-! ## Values -/

open Classical in
/-- The result of a computation with fuel, if some fuel is enough. -/
noncomputable def value (f : Nat → Option ρ) : Option ρ :=
  if h : ∃ r fuel, f fuel = some r then some h.choose else none

theorem value_eq_some {f : Nat → Option ρ}
    (hunique : ∀ fuel fuel' r r', f fuel = some r → f fuel' = some r' → r = r') :
    value f = some r ↔ ∃ fuel, f fuel = some r := by
  constructor
  · intro h
    unfold value at h
    split at h
    · rename_i hexists
      cases h
      exact hexists.choose_spec
    · cases h
  · rintro ⟨fuel, hfuel⟩
    have hexists : ∃ r fuel, f fuel = some r := ⟨r, fuel, hfuel⟩
    obtain ⟨fuel', hfuel'⟩ := hexists.choose_spec
    rw [value, dif_pos hexists, hunique fuel' fuel _ r hfuel' hfuel]

end Loop

end Csics.Base
