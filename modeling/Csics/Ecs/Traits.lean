import Csics.Base.Footprint
import Csics.Ecs.World

/-!
# Compatible views

`incompatible_views` of `include/csics/sim/ecs/Traits.hpp` tells at compile time which systems
must not run beside each other: two of them write the same component type, or one reads what another
writes. What it is for is that the order of compatible systems does not matter
(`runLayer_perm`): a system without a context does nothing but write through its view. But a view
hands out mutable references to its `const` components as well, and a system may only write the
other ones (`System.WritesMutable`, `exists_order_of_const`).
-/

namespace Csics.Ecs

open Base

/-- A type argument of `View`: a component type, `const` or not. -/
structure Access (κ : Type*) where
  component : κ
  isConst : Bool

namespace Traits

variable {κ : Type*}

/-- `filter<Tup, Pred, Acc>`. -/
def filter {α : Type*} (pred : α → Bool) : List α → List α → List α
  | [], acc => acc
  | head :: tail, acc => if pred head then filter pred tail (head :: acc) else filter pred tail acc

/-- `view_traits<View<Cs...>>::const_components`. -/
def constComponents (cs : List (Access κ)) : List κ :=
  (filter Access.isConst cs []).map Access.component

/-- `view_traits<View<Cs...>>::mut_components`. -/
def mutComponents (cs : List (Access κ)) : List κ :=
  (filter (fun c => !c.isConst) cs []).map Access.component

/-- `view_traits<View<Cs...>>::components`, without `const`. -/
def components (cs : List (Access κ)) : List κ := cs.map Access.component

section

variable [DecidableEq κ]

def typeInTuple (t : κ) : List κ → Bool
  | [] => false
  | head :: ts => if t = head then true else typeInTuple t ts

def tupleIntersection : List κ → List κ → List κ → List κ
  | [], _, acc => acc
  | head :: tup1, tup2, acc =>
    if typeInTuple head tup2 then tupleIntersection tup1 tup2 (acc ++ [head])
    else tupleIntersection tup1 tup2 acc

def containsDuplicateTypes : List κ → Bool
  | [] => false
  | [_] => false
  | head :: ts => typeInTuple head ts || containsDuplicateTypes ts

/-- `incompatible_views<Vs...>::value`. -/
def incompatibleViews (vs : List (List (Access κ))) : Bool :=
  let allMutViews := vs.flatMap mutComponents
  let allConstViews := vs.flatMap constComponents
  let unioned := tupleIntersection allMutViews allConstViews []
  unioned.length ≠ 0 || containsDuplicateTypes allMutViews

end

/-! ## What the traits compute -/

section

variable {α : Type*} {pred : α → Bool} {cs : List (Access κ)} {vs : List (List (Access κ))} {k : κ}

theorem filter_eq (xs acc : List α) : filter pred xs acc = (xs.filter pred).reverse ++ acc := by
  induction xs generalizing acc with
  | nil => rfl
  | cons x xs ih =>
    rw [filter]
    split
    · rename_i hx
      rw [ih, List.filter_cons_of_pos hx, List.reverse_cons, List.append_assoc,
        List.singleton_append]
    · rename_i hx
      rw [ih, List.filter_cons_of_neg hx]

theorem mem_constComponents : k ∈ constComponents cs ↔ ⟨k, true⟩ ∈ cs := by
  rw [constComponents, filter_eq, List.append_nil, List.mem_map]
  constructor
  · rintro ⟨⟨k, c⟩, hmem, rfl⟩
    obtain ⟨hmem, rfl⟩ := List.mem_filter.mp (List.mem_reverse.mp hmem)
    exact hmem
  · intro h
    exact ⟨⟨k, true⟩, List.mem_reverse.mpr (List.mem_filter.mpr ⟨h, rfl⟩), rfl⟩

theorem mem_mutComponents : k ∈ mutComponents cs ↔ ⟨k, false⟩ ∈ cs := by
  rw [mutComponents, filter_eq, List.append_nil, List.mem_map]
  constructor
  · rintro ⟨⟨k, c⟩, hmem, rfl⟩
    obtain ⟨hmem, hc⟩ := List.mem_filter.mp (List.mem_reverse.mp hmem)
    cases c with
    | true => cases hc
    | false => exact hmem
  · intro h
    exact ⟨⟨k, false⟩, List.mem_reverse.mpr (List.mem_filter.mpr ⟨h, rfl⟩), rfl⟩

theorem mem_components : k ∈ components cs ↔ k ∈ mutComponents cs ∨ k ∈ constComponents cs := by
  rw [mem_mutComponents, mem_constComponents, components, List.mem_map]
  constructor
  · rintro ⟨⟨k, c⟩, hmem, rfl⟩
    cases c with
    | true => exact Or.inr hmem
    | false => exact Or.inl hmem
  · rintro (h | h)
    · exact ⟨_, h, rfl⟩
    · exact ⟨_, h, rfl⟩

variable [DecidableEq κ]

theorem typeInTuple_iff {ts : List κ} : typeInTuple k ts = true ↔ k ∈ ts := by
  induction ts with
  | nil => exact iff_of_false Bool.false_ne_true List.not_mem_nil
  | cons t ts ih =>
    rw [typeInTuple, List.mem_cons]
    split
    · rename_i hk
      exact iff_of_true rfl (Or.inl hk)
    · rename_i hk
      rw [ih, or_iff_right hk]

theorem tupleIntersection_eq (tup1 tup2 acc : List κ) :
    tupleIntersection tup1 tup2 acc = acc ++ tup1.filter (· ∈ tup2) := by
  induction tup1 generalizing acc with
  | nil => exact (List.append_nil acc).symm
  | cons t tup1 ih =>
    rw [tupleIntersection]
    split
    · rename_i ht
      rw [ih, List.filter_cons_of_pos (by simpa using typeInTuple_iff.mp ht), List.append_assoc,
        List.singleton_append]
    · rename_i ht
      rw [ih, List.filter_cons_of_neg (by simpa using mt typeInTuple_iff.mpr ht)]

theorem containsDuplicateTypes_eq_false_iff {ts : List κ} :
    containsDuplicateTypes ts = false ↔ ts.Nodup := by
  induction ts with
  | nil => exact iff_of_true rfl List.nodup_nil
  | cons t ts ih =>
    cases ts with
    | nil => exact iff_of_true rfl (List.nodup_singleton t)
    | cons t' ts =>
      show (typeInTuple t (t' :: ts) || containsDuplicateTypes (t' :: ts)) = false ↔ _
      rw [Bool.or_eq_false_iff, ih, ← Bool.not_eq_true, typeInTuple_iff]
      exact List.nodup_cons.symm

theorem incompatibleViews_eq_false_iff : incompatibleViews vs = false ↔
    (∀ k ∈ vs.flatMap mutComponents, k ∉ vs.flatMap constComponents) ∧
      (vs.flatMap mutComponents).Nodup := by
  rw [incompatibleViews, Bool.or_eq_false_iff, containsDuplicateTypes_eq_false_iff,
    tupleIntersection_eq, List.nil_append]
  refine and_congr_left fun _ => ?_
  rw [decide_eq_false_iff_not, not_not, List.length_eq_zero_iff, List.filter_eq_nil_iff]
  simp only [decide_eq_true_iff]

/-- No view mentions what another one writes. -/
theorem pairwise_of_compatible (h : incompatibleViews vs = false) :
    vs.Pairwise fun v v' => (∀ k ∈ components v, k ∉ mutComponents v') ∧
      ∀ k ∈ components v', k ∉ mutComponents v := by
  obtain ⟨hconst, hnodup⟩ := incompatibleViews_eq_false_iff.mp h
  obtain ⟨-, hpairwise⟩ := List.nodup_flatMap.mp hnodup
  refine hpairwise.imp_of_mem ?_
  intro v v' hv hv' hdisjoint
  have hread {u u' : List (Access κ)} (hu : u ∈ vs) (hu' : u' ∈ vs) {k : κ}
      (hk : k ∈ constComponents u) : k ∉ mutComponents u' :=
    fun hk' => hconst k (List.mem_flatMap.mpr ⟨u', hu', hk'⟩) (List.mem_flatMap.mpr ⟨u, hu, hk⟩)
  constructor
  · intro k hk
    rcases mem_components.mp hk with hmut | hconst
    · exact fun hk' => hdisjoint hmut hk'
    · exact hread hv hv' hconst
  · intro k hk
    rcases mem_components.mp hk with hmut | hconst
    · exact fun hk' => hdisjoint hk' hmut
    · exact hread hv' hv hconst

end

end Traits

/-! ## Systems without a context -/

open Traits

variable {κ : Type*} {C : κ → Type*}

/-- `SystemWithView` and `SystemWithDt`: what is written is a function of the components in the
view, and it is written through the references that the view yields. `begin` of a view that is taken
by value yields mutable ones, also for `const` components. -/
structure System (κ : Type*) (C : κ → Type*) where
  view : List (Access κ)
  body : (∀ k, SparseSet (C k) maxEntities) → List (Entity × Component κ C)
  body_congr {σ τ : ∀ k, SparseSet (C k) maxEntities} (h : ∀ k ∈ components view, σ k = τ k) :
    body σ = body τ
  mem_view (σ : ∀ k, SparseSet (C k) maxEntities) : ∀ p ∈ body σ, p.2.1 ∈ components view

namespace System

/-- The system only writes components that its view lists without `const`. -/
def WritesMutable (s : System κ C) : Prop :=
  ∀ σ, ∀ p ∈ s.body σ, p.2.1 ∈ mutComponents s.view

/-- What the system does to a world. -/
def calls (s : System κ C) (w : World κ C) : List (Call κ C) :=
  (s.body w.components).map fun p => .setComponent p.1 p.2

variable [DecidableEq κ]

/-- What systems do one after the other. -/
def layerCalls : World κ C → List (System κ C) → List (List (Call κ C))
  | _, [] => []
  | w, s :: systems =>
    s.calls w ::
      match Base.run WorldContext.call (w, .init) (s.calls w) with
      | none => []
      | some (w, _) => layerCalls w systems

/-- A write through a reference, to the sets alone. -/
def write (σ : ∀ k, SparseSet (C k) maxEntities) (p : Entity × Component κ C) :
    Option (∀ k, SparseSet (C k) maxEntities) :=
  match (σ p.2.1).at? p.1 with
  | some (some _) => ((σ p.2.1).insert p.1 p.2.2).map (Function.update σ p.2.1)
  | _ => none

/-- The system, on the sets alone. -/
def effect (s : System κ C) (σ : ∀ k, SparseSet (C k) maxEntities) :
    Option (∀ k, SparseSet (C k) maxEntities) := Base.run write σ (s.body σ)

end System

namespace World

variable [DecidableEq κ] {w : World κ C}

theorem setComponent_eq (w : World κ C) (e : Entity) (c : Component κ C) :
    w.setComponent e c =
      (System.write w.components (e, c)).map fun σ => { w with components := σ } := by
  unfold setComponent System.write addComponent
  dsimp only
  generalize (w.components c.1).at? e = found
  match found with
  | none => rfl
  | some none => rfl
  | some (some _) =>
    show Option.map _ _ = Option.map _ (Option.map _ _)
    rw [Option.map_map]
    rfl

theorem run_setComponent (ctx : WorldContext κ C) (ps : List (Entity × Component κ C)) :
    Base.run WorldContext.call (w, ctx) (ps.map fun p => .setComponent p.1 p.2) =
      (Base.run System.write w.components ps).map fun σ => ({ w with components := σ }, ctx) := by
  induction ps generalizing w with
  | nil => rfl
  | cons p ps ih =>
    rw [List.map_cons, run_cons, run_cons]
    show ((w.setComponent p.1 p.2).map (·, ctx)).bind _ = _
    rw [setComponent_eq]
    cases System.write w.components p with
    | none => rfl
    | some σ => exact ih

/-- The systems of a layer, on the sets alone. -/
theorem runSystems_layerCalls (systems : List (System κ C)) :
    w.runSystems (System.layerCalls w systems) =
      (Base.run (fun σ s => System.effect s σ) w.components systems).map fun σ =>
        ({ w with components := σ }, systems.map fun _ => .init) := by
  induction systems generalizing w with
  | nil => rfl
  | cons s systems ih =>
    have hcalls := run_setComponent (w := w) .init (s.body w.components)
    rw [System.layerCalls, runSystems, run_cons, System.calls, System.effect]
    rw [hcalls]
    cases Base.run System.write w.components (s.body w.components) with
    | none => rfl
    | some σ =>
      show (runSystems _ (System.layerCalls _ systems)).map _ = _
      rw [ih]
      show ((Base.run _ σ systems).map _).map _ = (Base.run _ σ systems).map _
      rw [Option.map_map]
      rfl

end World

namespace System

variable [DecidableEq κ]

theorem footprint_write (p : Entity × Component κ C) :
    Footprint {p.2.1} {p.2.1} (write · p) where
  frame {σ σ'} h := by
    dsimp only [write] at h
    split at h
    · obtain ⟨t, -, rfl⟩ := Option.map_eq_some_iff.mp h
      exact fun k hk => (Function.update_of_ne hk t σ).symm
    · cases h
  fails {σ τ} hagree h := by
    have hset : σ p.2.1 = τ p.2.1 := hagree _ rfl
    dsimp only [write] at h ⊢
    rw [hset] at h
    split
    · rename_i c hc
      rw [hc] at h
      exact Option.map_eq_none_iff.mpr (Option.map_eq_none_iff.mp h)
    · rfl
  writes {σ τ σ' τ'} hagree hσ hτ := by
    have hset : σ p.2.1 = τ p.2.1 := hagree _ rfl
    rintro _ rfl
    dsimp only [write] at hσ hτ
    rw [hset] at hσ
    split at hσ
    · rename_i c hc
      rw [hc] at hτ
      obtain ⟨t, ht, rfl⟩ := Option.map_eq_some_iff.mp hσ
      obtain ⟨t', ht', rfl⟩ := Option.map_eq_some_iff.mp hτ
      cases ht.symm.trans ht'
      rw [Function.update_self, Function.update_self]
    · cases hσ

/-- What a system may look at, and what it is meant to change. -/
def reads (s : System κ C) : Set κ := {k | k ∈ components s.view}

def writes (s : System κ C) : Set κ := {k | k ∈ mutComponents s.view}

omit [DecidableEq κ] in
theorem writes_subset (s : System κ C) : s.writes ⊆ s.reads :=
  fun _ hk => mem_components.mpr (Or.inl hk)

theorem footprint_effect (s : System κ C) (h : s.WritesMutable) :
    Footprint s.reads s.writes s.effect := by
  refine .choose (F := fun ps σ => Base.run write σ ps) s.body_congr fun σ => ?_
  refine .run s.writes_subset fun p hp => ?_
  have hmut : ({p.2.1} : Set κ) ⊆ s.writes := Set.singleton_subset_iff.mpr (h σ p hp)
  exact (footprint_write p).mono (hmut.trans s.writes_subset) hmut s.writes_subset

/-- Compatible systems commute. -/
theorem pairwise_commute {systems : List (System κ C)}
    (h : incompatibleViews (systems.map view) = false) (hwrites : ∀ s ∈ systems, s.WritesMutable) :
    systems.Pairwise fun s t => ∀ σ, (s.effect σ).bind t.effect = (t.effect σ).bind s.effect :=
  (List.pairwise_map.mp (pairwise_of_compatible h)).imp_of_mem fun {s t} hs ht hst =>
    (footprint_effect s (hwrites s hs)).commute (footprint_effect t (hwrites t ht))
      s.writes_subset hst.1 hst.2

end System

/-- If the views of the systems of a layer are compatible, and no system writes what its view lists
as `const`, then the executor may take the systems in any order: the layer leaves the world the
same, and fails in one order exactly if in the other. -/
theorem runLayer_perm [DecidableEq κ] (w : World κ C) {systems systems' : List (System κ C)}
    (hook : List (WorldOp κ C)) (hcompatible : incompatibleViews (systems.map System.view) = false)
    (hwrites : ∀ s ∈ systems, s.WritesMutable) (hperm : systems.Perm systems') :
    w.runLayer ⟨System.layerCalls w systems, hook⟩ =
      w.runLayer ⟨System.layerCalls w systems', hook⟩ := by
  have hrun := run_perm hperm (System.pairwise_commute hcompatible hwrites) w.components
  have hcontexts : systems.map (fun _ => (.init : WorldContext κ C)) =
      systems'.map fun _ => .init := by
    rw [List.map_const', List.map_const', hperm.length_eq]
  unfold World.runLayer
  dsimp only
  rw [World.runSystems_layerCalls, World.runSystems_layerCalls, hrun, hcontexts]

/-- Three component types. -/
inductive Part where
  | position
  | velocity
  | wind
  deriving DecidableEq

/-- Copies the wind of the first entity to another component of it. -/
def copySystem (target : Part) : System Part fun _ => Nat where
  view := [⟨target, false⟩, ⟨.wind, true⟩]
  body σ :=
    match (σ .wind).at? ⟨0, 0⟩ with
    | some (some c) => [(⟨0, 0⟩, ⟨target, c⟩)]
    | _ => []
  body_congr h := by
    rw [h .wind (List.mem_cons_of_mem _ List.mem_cons_self)]
  mem_view σ p hp := by
    split at hp
    · rw [List.mem_singleton.mp hp]
      exact List.mem_cons_self
    · cases hp

theorem writesMutable_copySystem (target : Part) : (copySystem target).WritesMutable := by
  intro σ p hp
  simp only [copySystem] at hp
  split at hp
  · rw [List.mem_singleton.mp hp]
    exact mem_mutComponents.mpr List.mem_cons_self
  · cases hp

/-- One entity with three components. -/
def threeComponents : List (WorldOp Part fun _ => Nat) :=
  [.addEntity, .addComponent ⟨0, 0⟩ ⟨.position, 5⟩, .addComponent ⟨0, 0⟩ ⟨.velocity, 6⟩,
    .addComponent ⟨0, 0⟩ ⟨.wind, 7⟩]

theorem runLayer_perm_copy : ∃ w w' : World Part fun _ => Nat,
    run World.step .init threeComponents = some w ∧
      w.runLayer ⟨System.layerCalls w [copySystem .position, copySystem .velocity], []⟩ = some w' ∧
      w.runLayer ⟨System.layerCalls w [copySystem .velocity, copySystem .position], []⟩ =
        some w' ∧
      (w'.components .position).dense = [7] ∧ (w'.components .velocity).dense = [7] := by
  refine ⟨_, _, rfl, rfl, ?_, rfl, rfl⟩
  rw [runLayer_perm _ [] (by decide) ?_ (.swap _ _ _)]
  · rfl
  · intro s hs
    rcases List.mem_pair.mp hs with rfl | rfl
    · exact writesMutable_copySystem _
    · exact writesMutable_copySystem _

/-- Gives the wind of the first entity a new value, through a `View<const Wind>`. -/
def windSystem (c : Nat) : System Part fun _ => Nat where
  view := [⟨.wind, true⟩]
  body σ :=
    match (σ .wind).at? ⟨0, 0⟩ with
    | some (some _) => [(⟨0, 0⟩, ⟨.wind, c⟩)]
    | _ => []
  body_congr h := by
    rw [h .wind List.mem_cons_self]
  mem_view σ p hp := by
    split at hp
    · rw [List.mem_singleton.mp hp]
      exact List.mem_cons_self
    · cases hp

/-- The traits let two such systems pass, and the later one wins. -/
theorem exists_order_of_const : ∃ w : World Part fun _ => Nat,
    run World.step .init threeComponents = some w ∧
      ∃ s t : System Part fun _ => Nat, incompatibleViews [s.view, t.view] = false ∧
        w.runLayer ⟨System.layerCalls w [s, t], []⟩ ≠
          w.runLayer ⟨System.layerCalls w [t, s], []⟩ := by
  refine ⟨_, rfl, windSystem 1, windSystem 2, by decide, ?_⟩
  intro heq
  have hdense := congrArg (Option.map fun w => (w.components .wind).dense) heq
  exact absurd hdense (by decide)

end Csics.Ecs
