import Csics.Ecs.World

/-!
# Components of dead entities

`NoGhosts w`: every entity that a sparse set of `w` records is alive. `remove_entity`
takes the entity out of copies of the sets, so it keeps this only for an entity without
components, and the flush of a layer keeps it only when the entities it adds components to
have not been destroyed meanwhile. `Meets` says so for every operation, also for those that
`run` performs.
-/

namespace Csics.Ecs

open Base

variable {κ : Type*} {C : κ → Type*} {w w' : World κ C}

namespace World

/-- Every recorded entity is alive, with the same id and generation. -/
def NoGhosts (w : World κ C) : Prop := ∀ k, ∀ x ∈ (w.components k).entities, x ∈ w.entities

instance [Fintype κ] (w : World κ C) : Decidable w.NoGhosts :=
  inferInstanceAs (Decidable (∀ k, ∀ x ∈ (w.components k).entities, x ∈ w.entities))

/-- The sets are well formed and record living entities only. -/
structure Inv (w : World κ C) : Prop where
  rep : ∀ k, (w.components k).Rep
  noGhosts : w.NoGhosts

theorem init_inv : (init : World κ C).Inv :=
  ⟨fun _ => SparseSet.init_rep, by intro k x hx; cases hx⟩

/-- `add_entity` adds the entity it returns at the end and touches no component. -/
theorem addEntity_cases {e : Entity} (h : w.addEntity = some (e, w')) :
    w'.components = w.components ∧ w'.entities = w.entities ++ [e] := by
  unfold addEntity at h
  split at h
  · obtain ⟨generation, -, heq⟩ := Option.map_eq_some_iff.mp h
    cases heq
    exact ⟨rfl, rfl⟩
  · cases h
    exact ⟨rfl, rfl⟩

theorem removeEntity_cases {e : Entity} (h : w.removeEntity e = some w') :
    w'.components = w.components ∧ w'.entities = w.entities.eraseP (fun x => x.id = e.id) ∧
      w'.deadEntities = w.deadEntities ++ [e.id] ∧ w'.generations = w.generations := by
  unfold removeEntity at h
  split at h
  · cases h
    exact ⟨rfl, rfl, rfl, rfl⟩
  · cases h

theorem Inv.addEntity {e : Entity} (h : w.Inv) (hw : w.addEntity = some (e, w')) : w'.Inv := by
  obtain ⟨hcomp, hent⟩ := addEntity_cases hw
  refine ⟨fun k => hcomp ▸ h.rep k, ?_⟩
  intro k x hx
  rw [hent]
  exact List.mem_append_left _ (h.noGhosts k x (hcomp ▸ hx))

/-- An entity without components is removed without a trace. -/
theorem Inv.removeEntity {e : Entity} (h : w.Inv)
    (hbare : ∀ k, (w.components k).contains e ≠ some true) (hw : w.removeEntity e = some w') :
    w'.Inv := by
  obtain ⟨hcomp, hent, -⟩ := removeEntity_cases hw
  refine ⟨fun k => hcomp ▸ h.rep k, ?_⟩
  intro k x hx
  rw [hcomp] at hx
  have hne : x.id ≠ e.id := by
    intro hid
    refine hbare k ((h.rep k).contains_iff.mpr ?_)
    rw [← hid]
    exact List.mem_map_of_mem hx
  rw [hent, List.mem_eraseP_of_neg (by simpa using hne)]
  exact h.noGhosts k x hx

variable [DecidableEq κ]

@[simp] theorem components_setSparseSet_self (k : κ) (s : SparseSet (C k) maxEntities) :
    (w.setSparseSet k s).components k = s := by simp [World.setSparseSet]

theorem components_setSparseSet_of_ne {j k : κ} (h : j ≠ k) (s : SparseSet (C k) maxEntities) :
    (w.setSparseSet k s).components j = w.components j := by simp [World.setSparseSet, h]

theorem rep_setSparseSet {k : κ} {s : SparseSet (C k) maxEntities}
    (h : ∀ k, (w.components k).Rep) (hrep : s.Rep) (j : κ) :
    ((w.setSparseSet k s).components j).Rep := by
  by_cases hj : j = k
  · subst hj
    rwa [components_setSparseSet_self]
  · rw [components_setSparseSet_of_ne hj]
    exact h j

/-- Replacing one set by one that records living entities only. -/
theorem Inv.setSparseSet {k : κ} {s : SparseSet (C k) maxEntities} (h : w.Inv) (hrep : s.Rep)
    (hlive : ∀ x ∈ s.entities, x ∈ w.entities) : (w.setSparseSet k s).Inv := by
  refine ⟨rep_setSparseSet h.rep hrep, ?_⟩
  intro j x hx
  by_cases hj : j = k
  · subst hj
    rw [components_setSparseSet_self] at hx
    exact hlive x hx
  · rw [components_setSparseSet_of_ne hj] at hx
    exact h.noGhosts j x hx

theorem Inv.addComponent {e : Entity} {c : Component κ C} (h : w.Inv)
    (hlive : e ∈ w.entities ∨ (w.components c.1).contains e = some true)
    (hw : w.addComponent e c = some w') : w'.Inv := by
  obtain ⟨s, hs, rfl⟩ := Option.map_eq_some_iff.mp hw
  apply h.setSparseSet ((h.rep c.1).insert hs)
  intro x hx
  rcases hlive with hlive | hmem
  · rcases SparseSet.mem_entities_of_insert hs hx with hx | rfl
    · exact h.noGhosts c.1 x hx
    · exact hlive
  · rw [SparseSet.entities_of_insert_of_contains hmem hs] at hx
    exact h.noGhosts c.1 x hx

theorem Inv.setComponent {e : Entity} {c : Component κ C} (h : w.Inv)
    (hw : w.setComponent e c = some w') : w'.Inv := by
  unfold World.setComponent at hw
  split at hw
  · rename_i c' hat
    exact h.addComponent (Or.inr (SparseSet.contains_of_at? hat)) hw
  · cases hw

theorem Inv.removeComponent {k : κ} {e : Entity} (h : w.Inv)
    (hw : w.removeComponent k e = some w') : w'.Inv := by
  obtain ⟨s, hs, rfl⟩ := Option.map_eq_some_iff.mp hw
  exact h.setSparseSet ((h.rep k).remove hs) fun x hx =>
    h.noGhosts k x (SparseSet.mem_entities_of_remove hs hx)

end World

/-! ## Conditions on a run -/

/-- A component is added to a living entity or replaces one of the same id, and a removed
entity has no component. -/
def WorldOp.Meets (w : World κ C) : WorldOp κ C → Prop
  | .addComponent e c => e ∈ w.entities ∨ (w.components c.1).contains e = some true
  | .removeEntity e => ∀ k, (w.components k).contains e ≠ some true
  | _ => True

instance [Fintype κ] (w : World κ C) (op : WorldOp κ C) : Decidable (op.Meets w) := by
  unfold WorldOp.Meets
  split <;> infer_instance

variable [DecidableEq κ]

theorem World.Inv.step {op : WorldOp κ C} (h : w.Inv) (hmeets : op.Meets w)
    (hw : w.step op = some w') : w'.Inv := by
  cases op with
  | addEntity =>
    obtain ⟨⟨e, w''⟩, hadd, rfl⟩ := Option.map_eq_some_iff.mp hw
    exact h.addEntity hadd
  | addComponent e c => exact h.addComponent hmeets hw
  | setComponent e c => exact h.setComponent hw
  | removeComponent k e => exact h.removeComponent hw
  | removeEntity e => exact h.removeEntity hmeets hw

/-- The hook of a layer and the operations of its flush meet the condition. -/
def Layer.Meets (w : World κ C) (layer : Layer κ C) : Prop :=
  match w.runSystems layer.systems with
  | none => True
  | some (w, ctxs) =>
    Guarded World.step WorldOp.Meets w (layer.hook ++ ctxs.flatMap WorldContext.flush)

instance [Fintype κ] (w : World κ C) (layer : Layer κ C) : Decidable (layer.Meets w) := by
  unfold Layer.Meets
  split <;> infer_instance

/-- What user code does to a world. -/
inductive Op (κ : Type*) (C : κ → Type*) where
  | world (op : WorldOp κ C)
  | run (layers : List (Layer κ C))

def Op.step (w : World κ C) : Op κ C → Option (World κ C)
  | .world op => w.step op
  | .run layers => w.run layers

def Op.Meets (w : World κ C) : Op κ C → Prop
  | .world op => op.Meets w
  | .run layers => Guarded World.runLayer (fun w layer => layer.Meets w) w layers

instance [Fintype κ] (w : World κ C) (op : Op κ C) : Decidable (op.Meets w) := by
  unfold Op.Meets
  split <;> infer_instance

/-! ## Every state of a run -/

/-- A call of a system changes the world by an operation that meets its condition, if at all. -/
theorem WorldContext.call_cases {ctx ctx' : WorldContext κ C} {call : Call κ C}
    (hcall : WorldContext.call (w, ctx) call = some (w', ctx')) :
    w' = w ∨ ∃ op : WorldOp κ C, op.Meets w ∧ w.step op = some w' := by
  have hrecord {e : Entity} {action : DeferredAction κ C}
      (hrec : ctx.record w e action = some (w', ctx')) : w' = w := by
    unfold WorldContext.record at hrec
    split at hrec
    · cases hrec
      rfl
    · cases hrec
  cases call with
  | addEntity =>
    obtain ⟨⟨e, w''⟩, hadd, heq⟩ := Option.map_eq_some_iff.mp hcall
    cases heq
    exact Or.inr ⟨.addEntity, trivial, by rw [World.step, hadd]; rfl⟩
  | addComponent e c =>
    simp only [WorldContext.call, WorldContext.addComponent] at hcall
    split at hcall
    · cases hcall
      exact Or.inl rfl
    · exact Or.inl (hrecord hcall)
  | removeComponent k e => exact Or.inl (hrecord hcall)
  | destroyEntity e => exact Or.inl (hrecord hcall)
  | setComponent e c =>
    obtain ⟨w'', hset, heq⟩ := Option.map_eq_some_iff.mp hcall
    cases heq
    exact Or.inr ⟨.setComponent e c, trivial, hset⟩

namespace World

theorem runSystems_preserves {I : World κ C → Prop}
    (hI : ∀ w (op : WorldOp κ C) w', I w → op.Meets w → w.step op = some w' → I w')
    {systems : List (List (Call κ C))} {ctxs : List (WorldContext κ C)} (h : I w)
    (hw : w.runSystems systems = some (w', ctxs)) : I w' := by
  induction systems generalizing w ctxs with
  | nil =>
    cases hw
    exact h
  | cons calls systems ih =>
    obtain ⟨⟨w₁, ctx⟩, hcalls, hrest⟩ := Option.bind_eq_some_iff.mp hw
    obtain ⟨⟨w₂, ctxs'⟩, hsystems, heq⟩ := Option.map_eq_some_iff.mp hrest
    cases heq
    refine ih (run_preserves (I := fun p => I p.1) ?_ h hcalls) hsystems
    intro ⟨w, ctx⟩ call ⟨w', ctx'⟩ hw hcall
    rcases WorldContext.call_cases hcall with rfl | ⟨op, hmeets, hstep⟩
    · exact hw
    · exact hI w op w' hw hmeets hstep

theorem Inv.runSystems {systems : List (List (Call κ C))} {ctxs : List (WorldContext κ C)}
    (h : w.Inv) (hw : w.runSystems systems = some (w', ctxs)) : w'.Inv :=
  runSystems_preserves (fun _ _ _ hI hok hstep => hI.step hok hstep) h hw

theorem Inv.runLayer {layer : Layer κ C} (h : w.Inv) (hmeets : layer.Meets w)
    (hw : w.runLayer layer = some w') : w'.Inv := by
  obtain ⟨⟨w₁, ctxs⟩, hsystems, hrest⟩ := Option.bind_eq_some_iff.mp hw
  rw [Layer.Meets, hsystems] at hmeets
  exact run_induction (fun _ _ _ hI hok hstep => hI.step hok hstep) (h.runSystems hsystems) hmeets
    (run_append.trans hrest)

end World

/-- What every operation keeps, a run of the layers keeps as well. -/
theorem Op.step_preserves {I : World κ C → Prop}
    (hI : ∀ w (op : WorldOp κ C) w', I w → w.step op = some w' → I w') {op : Op κ C} (h : I w)
    (hw : op.step w = some w') : I w' := by
  cases op with
  | world op => exact hI w op w' h hw
  | run layers =>
    apply run_preserves (I := I) _ h hw
    intro w layer w' h hw
    obtain ⟨⟨w₁, ctxs⟩, hsystems, hrest⟩ := Option.bind_eq_some_iff.mp hw
    obtain ⟨w₂, hhook, hflush⟩ := Option.bind_eq_some_iff.mp hrest
    have h₁ := World.runSystems_preserves (fun w op w' h _ => hI w op w' h) h hsystems
    exact run_preserves hI (run_preserves hI h₁ hhook) hflush

theorem Op.step_inv {op : Op κ C} (h : w.Inv) (hmeets : op.Meets w) (hw : op.step w = some w') :
    w'.Inv := by
  cases op with
  | world op => exact h.step hmeets hw
  | run layers =>
    exact run_induction (fun _ _ _ hI hok hstep => hI.runLayer hok hstep) h hmeets hw

omit [DecidableEq κ] in
/-- After `remove_entity(e)` no set contains the id of `e`, and no view yields it. -/
theorem World.Inv.gone {e : Entity} (h : w.Inv)
    (hbare : ∀ k, (w.components k).contains e ≠ some true) (hw : w.removeEntity e = some w') :
    (∀ k, (w'.components k).contains e ≠ some true) ∧
      ∀ k ks, ∀ x ∈ View.yields w'.components k ks, x.id ≠ e.id := by
  have hcomp := (removeEntity_cases hw).1
  rw [hcomp]
  refine ⟨hbare, ?_⟩
  intro k ks x hx hid
  refine hbare k ((h.rep k).contains_iff.mpr ?_)
  rw [← hid]
  exact (h.rep k).contains_iff.mp (View.contains_of_mem_yields hx)

/-- In a run whose operations meet the condition, every recorded entity is alive, and a
removed entity is in no set and no view. -/
theorem run_noGhosts (ops : List (Op κ C)) (hrun : run Op.step .init ops = some w)
    (hmeets : Guarded Op.step (fun w op => op.Meets w) .init ops) :
    w.NoGhosts ∧ ∀ e w', (∀ k, (w.components k).contains e ≠ some true) →
      w.removeEntity e = some w' →
      (∀ k, (w'.components k).contains e ≠ some true) ∧
        ∀ k ks, ∀ x ∈ View.yields w'.components k ks, x.id ≠ e.id := by
  have hinv : w.Inv := run_induction (fun _ _ _ hI hok hstep => Op.step_inv hI hok hstep)
    World.init_inv hmeets hrun
  exact ⟨hinv.noGhosts, fun e w' hbare hw => hinv.gone hbare hw⟩

/-- Two entities; a system gives the first one a component and destroys the second one. -/
def oneLayer : List (Op Unit fun _ => Nat) :=
  [.world .addEntity, .world .addEntity,
    .run [⟨[[.addComponent ⟨0, 0⟩ ⟨(), 7⟩, .destroyEntity ⟨1, 0⟩]], []⟩]]

theorem run_noGhosts_oneLayer : ∃ w, run Op.step .init oneLayer = some w ∧
    (w.components ()).entities = [⟨0, 0⟩] ∧ w.NoGhosts :=
  ⟨_, rfl, rfl, (run_noGhosts oneLayer rfl (by decide +kernel)).1⟩

/-- The component of a removed entity stays in its set, and a view still yields it. -/
theorem noGhosts_fails : ∃ w : World Unit fun _ => Nat,
    run Op.step .init [.world .addEntity, .world (.addComponent ⟨0, 0⟩ ⟨(), 7⟩),
      .world (.removeEntity ⟨0, 0⟩)] = some w ∧
    ¬ w.NoGhosts ∧ (w.components ()).contains ⟨0, 0⟩ = some true ∧
    View.yields w.components () [] = [⟨0, 0⟩] :=
  ⟨_, rfl, by decide +kernel, by decide +kernel, by decide +kernel⟩

end Csics.Ecs
