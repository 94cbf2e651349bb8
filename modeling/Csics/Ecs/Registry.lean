import Csics.Ecs.Entries

/-!
# The entities of a world

Which entities are alive depends on the additions and removals of a run alone. `registry` forgets
the components, and a run goes through exactly if its additions and removals do and no id is out
of range.

An `add_entity` behind a `remove_entity` gives the removed id out again (`exists_of_reissue`). A run
without one does the same as the run that adds first and removes then.
-/

namespace Csics.Ecs

open Base

variable {κ : Type*} {C : κ → Type*} {w w' : World κ C} {e : Entity}

/-- The operations on entities, as operations on a world without component types. -/
def WorldOp.registered? : WorldOp κ C → Option (WorldOp Empty fun _ => Empty)
  | .addEntity => some .addEntity
  | .removeEntity e => some (.removeEntity e)
  | _ => none

namespace World

/-- The world without its components. -/
def registry (w : World κ C) : World Empty fun _ => Empty :=
  ⟨fun k => k.elim, w.entities, w.deadEntities, w.generations⟩

theorem registry_addEntity (w : World κ C) :
    w.registry.addEntity = w.addEntity.map fun p => (p.1, p.2.registry) := by
  unfold addEntity registry
  dsimp only
  cases w.deadEntities.getLast? with
  | none => rfl
  | some id =>
    dsimp only
    cases w.generations[id.toNat]? with
    | none => rfl
    | some generation => rfl

theorem registry_removeEntity (w : World κ C) (e : Entity) :
    w.registry.removeEntity e = (w.removeEntity e).map registry := by
  have hfound : w.registry.hasEntity e = w.hasEntity e := rfl
  unfold removeEntity
  rw [hfound]
  by_cases hmem : w.hasEntity e = true
  · rw [if_pos hmem, if_pos hmem, Option.map_some]
    congr 1
  · rw [if_neg hmem, if_neg hmem, Option.map_none]

variable [DecidableEq κ]

theorem registry_of_components {op : WorldOp κ C} (hop : op.registered? = none)
    (hw : w.step op = some w') : w'.registry = w.registry := by
  cases op with
  | addEntity => cases hop
  | removeEntity e => cases hop
  | addComponent e c =>
    obtain ⟨s, -, rfl⟩ := Option.map_eq_some_iff.mp hw
    rfl
  | setComponent e c =>
    have hset : w.setComponent e c = some w' := hw
    unfold setComponent at hset
    split at hset
    · obtain ⟨s, -, rfl⟩ := Option.map_eq_some_iff.mp hset
      rfl
    · cases hset
  | removeComponent k e =>
    obtain ⟨s, -, rfl⟩ := Option.map_eq_some_iff.mp hw
    rfl

/-- An operation on entities does the same without the components. -/
theorem step_registry {op : WorldOp κ C} {op' : WorldOp Empty fun _ => Empty}
    (hop : op.registered? = some op') (w : World κ C) :
    w.registry.step op' = (w.step op).map registry := by
  cases op with
  | addEntity =>
    cases hop
    rw [step, step, registry_addEntity, Option.map_map, Option.map_map]
    rfl
  | removeEntity e =>
    cases hop
    exact registry_removeEntity w e
  | addComponent e c => cases hop
  | setComponent e c => cases hop
  | removeComponent k e => cases hop

theorem run_registry {ops : List (WorldOp κ C)} (hw : Base.run step w ops = some w') :
    Base.run step w.registry (ops.filterMap WorldOp.registered?) = some w'.registry := by
  induction ops generalizing w with
  | nil =>
    cases hw
    rfl
  | cons op ops ih =>
    obtain ⟨w₁, hstep, hrest⟩ := run_cons_eq_some.mp hw
    cases hop : op.registered? with
    | none =>
      rw [List.filterMap_cons_none hop, ← registry_of_components hop hstep]
      exact ih hrest
    | some op' =>
      rw [List.filterMap_cons_some hop, run_cons, step_registry hop, hstep]
      exact ih hrest

/-- An operation on components that is in range is defined. -/
theorem exists_step {op : WorldOp κ C} (h : w.Sound) (hflushed : op.Flushed)
    (hop : op.registered? = none) (hrange : op.inRange = true) : ∃ w', w.step op = some w' := by
  cases op with
  | addEntity => cases hop
  | removeEntity e => cases hop
  | setComponent e c => cases hflushed
  | addComponent e c =>
    obtain ⟨s, hins⟩ := (h.rep c.1).exists_insert (of_decide_eq_true hrange) c.2
    exact ⟨_, by rw [step, addComponent, hins, Option.map_some]⟩
  | removeComponent k e =>
    obtain ⟨s, hrem⟩ := (h.rep k).exists_remove e
    exact ⟨_, by rw [step, removeComponent, hrem, Option.map_some]⟩

/-- A run goes through if its operations on entities do. -/
theorem exists_run {ops : List (WorldOp κ C)} {r : World Empty fun _ => Empty} (h : w.Sound)
    (hops : ∀ op ∈ ops, op.registered? = none → op.Flushed ∧ op.inRange = true)
    (hr : Base.run step w.registry (ops.filterMap WorldOp.registered?) = some r) :
    ∃ w', Base.run step w ops = some w' ∧ w'.registry = r := by
  induction ops generalizing w with
  | nil => exact ⟨w, rfl, Option.some.inj hr⟩
  | cons op ops ih =>
    have hrest : ∀ op ∈ ops, op.registered? = none → op.Flushed ∧ op.inRange = true :=
      fun op hmem => hops op (List.mem_cons_of_mem _ hmem)
    cases hop : op.registered? with
    | none =>
      obtain ⟨hflushed, hrange⟩ := hops op List.mem_cons_self hop
      obtain ⟨w₁, hstep⟩ := exists_step h hflushed hop hrange
      rw [List.filterMap_cons_none hop, ← registry_of_components hop hstep] at hr
      obtain ⟨w', hrun, hreg⟩ := ih (h.step hstep) hrest hr
      exact ⟨w', by rw [run_cons, hstep]; exact hrun, hreg⟩
    | some op' =>
      rw [List.filterMap_cons_some hop, run_cons, step_registry hop] at hr
      obtain ⟨r₁, hmap, hr₁⟩ := Option.bind_eq_some_iff.mp hr
      obtain ⟨w₁, hstep, rfl⟩ := Option.map_eq_some_iff.mp hmap
      obtain ⟨w', hrun, hreg⟩ := ih (h.step hstep) hrest hr₁
      exact ⟨w', by rw [run_cons, hstep]; exact hrun, hreg⟩

/-- How many entities a run without additions removes under an id. -/
theorem countId_of_run {ops : List (WorldOp κ C)} (hops : ∀ op ∈ ops, op ≠ .addEntity)
    (hw : Base.run step w ops = some w') (id : UInt32) :
    w.countId id = w'.countId id + (removedIds ops).count id := by
  induction ops generalizing w with
  | nil =>
    cases hw
    rfl
  | cons op ops ih =>
    obtain ⟨w₁, hstep, hrest⟩ := run_cons_eq_some.mp hw
    have hcount := ih (fun op hmem => hops op (List.mem_cons_of_mem _ hmem)) hrest
    cases hop : op.registered? with
    | none =>
      have hremoved : op.removed? = none := by
        cases op with
        | removeEntity e => cases hop
        | addEntity | addComponent _ _ | setComponent _ _ | removeComponent _ _ => rfl
      have hsame : w₁.countId id = w.countId id :=
        congrArg (fun r => r.countId id) (registry_of_components hop hstep)
      rw [← hsame, hcount]
      unfold removedIds
      rw [List.filterMap_cons_none hremoved]
    | some op' =>
      cases op with
      | addEntity => exact absurd rfl (hops _ List.mem_cons_self)
      | addComponent _ _ => cases hop
      | setComponent _ _ => cases hop
      | removeComponent _ _ => cases hop
      | removeEntity e =>
        have hone := countId_removeEntity hstep id
        unfold removedIds at hcount ⊢
        rw [List.filterMap_cons_some (show (WorldOp.removeEntity e).removed? = some e.id from rfl),
          List.count_cons, hone, hcount]
        simp only [beq_iff_eq]
        omega

end World

/-! ## The order of additions and removals -/

/-- The operation adds an entity. -/
def WorldOp.isAdd : WorldOp κ C → Bool
  | .addEntity => true
  | _ => false

/-- No addition comes behind a removal. -/
def Settled (ops : List (WorldOp κ C)) : Prop :=
  ops.Pairwise fun a b => ∀ e, a = .removeEntity e → b ≠ .addEntity

/-- Operations on entities in their order are the additions, and then the rest. -/
theorem eq_of_settled {ops : List (WorldOp κ C)}
    (hops : ∀ op ∈ ops, op = .addEntity ∨ ∃ e, op = .removeEntity e) (h : Settled ops) :
    ops = ops.filter WorldOp.isAdd ++ ops.filter fun op => !op.isAdd := by
  induction ops with
  | nil => rfl
  | cons op ops ih =>
    obtain ⟨hfirst, hrest⟩ := List.pairwise_cons.mp h
    have hsplit := ih (fun op hmem => hops op (List.mem_cons_of_mem _ hmem)) hrest
    rcases hops op List.mem_cons_self with rfl | ⟨e, rfl⟩
    · rw [List.filter_cons_of_pos rfl, List.filter_cons_of_neg (by simp [WorldOp.isAdd]),
        List.cons_append, ← hsplit]
    · have hnone : ops.filter WorldOp.isAdd = [] := by
        rw [List.filter_eq_nil_iff]
        intro op hmem hadd
        have hne := hfirst op hmem e rfl
        cases op with
        | addEntity => exact hne rfl
        | removeEntity _ | addComponent _ _ | setComponent _ _ | removeComponent _ _ => cases hadd
      rw [hnone, List.nil_append] at hsplit
      rw [List.filter_cons_of_neg (by simp [WorldOp.isAdd]), List.filter_cons_of_pos rfl, hnone,
        List.nil_append, ← hsplit]

/-- Otherwise some addition comes right behind a removal. -/
theorem exists_of_not_settled {ops : List (WorldOp κ C)}
    (hops : ∀ op ∈ ops, op = .addEntity ∨ ∃ e, op = .removeEntity e) (h : ¬ Settled ops) :
    ∃ before e after, ops = before ++ .removeEntity e :: .addEntity :: after := by
  induction ops with
  | nil => exact absurd List.Pairwise.nil h
  | cons op ops ih =>
    have hrest : ∀ op ∈ ops, op = .addEntity ∨ ∃ e, op = .removeEntity e :=
      fun op hmem => hops op (List.mem_cons_of_mem _ hmem)
    by_cases hsettled : Settled ops
    · rcases hops op List.mem_cons_self with rfl | ⟨e, rfl⟩
      · refine absurd (List.pairwise_cons.mpr ⟨?_, hsettled⟩) h
        intro b _ e heq
        cases heq
      · -- the operations behind the removal begin with an addition
        cases ops with
        | nil => exact absurd (List.pairwise_singleton _ _) h
        | cons op' ops =>
          rcases hrest op' List.mem_cons_self with rfl | ⟨e', rfl⟩
          · exact ⟨[], e, ops, rfl⟩
          · refine absurd (List.pairwise_cons.mpr ⟨?_, hsettled⟩) h
            intro b hb _ _ hadd
            rcases List.mem_cons.mp hb with rfl | hb
            · cases hadd
            · exact (List.pairwise_cons.mp hsettled).1 b hb e' rfl hadd
    · obtain ⟨before, e, after, heq⟩ := ih hrest hsettled
      exact ⟨op :: before, e, after, by rw [heq]; rfl⟩

namespace World

variable [DecidableEq κ]

/-- Removals of other ids leave an entity alive. -/
theorem mem_entities_of_run {ops : List (WorldOp κ C)} (hops : e.id ∉ removedIds ops)
    (hmem : e ∈ w.entities) (hw : Base.run step w ops = some w') : e ∈ w'.entities := by
  induction ops generalizing w with
  | nil =>
    cases hw
    exact hmem
  | cons op ops ih =>
    obtain ⟨w₁, hstep, hrest⟩ := run_cons_eq_some.mp hw
    have hsub : e.id ∉ removedIds ops := by
      intro hin
      refine hops ?_
      unfold removedIds at hin ⊢
      cases hremoved : op.removed? with
      | none => rwa [List.filterMap_cons_none hremoved]
      | some id =>
        rw [List.filterMap_cons_some hremoved]
        exact List.mem_cons_of_mem _ hin
    refine ih hsub ?_ hrest
    cases hop : op.registered? with
    | none =>
      have hsame := congrArg World.entities (registry_of_components hop hstep)
      show e ∈ w₁.registry.entities
      rw [hsame]
      exact hmem
    | some op' =>
      cases op with
      | addEntity =>
        obtain ⟨⟨x, w₂⟩, hadd, rfl⟩ := Option.map_eq_some_iff.mp hstep
        obtain ⟨-, hent⟩ := addEntity_cases hadd
        show e ∈ w₂.entities
        rw [hent]
        exact List.mem_append_left _ hmem
      | removeEntity x =>
        obtain ⟨-, hent, -⟩ := removeEntity_cases hstep
        rw [hent, List.mem_eraseP_of_neg]
        · exact hmem
        · intro hid
          refine hops ?_
          unfold removedIds
          rw [List.filterMap_cons_some
            (show (WorldOp.removeEntity x).removed? = some x.id from rfl)]
          rw [of_decide_eq_true hid]
          exact List.mem_cons_self
      | addComponent _ _ => cases hop
      | setComponent _ _ => cases hop
      | removeComponent _ _ => cases hop

/-- An addition right behind a removal gives the id out again. If nothing else removes it, an
entity of that id is alive at the end. -/
theorem exists_of_reissue {before after : List (WorldOp κ C)} (hafter : e.id ∉ removedIds after)
    (hw : Base.run step w (before ++ .removeEntity e :: .addEntity :: after) = some w') :
    ∃ x ∈ w'.entities, x.id = e.id := by
  rw [run_append] at hw
  obtain ⟨w₁, -, hw₁⟩ := Option.bind_eq_some_iff.mp hw
  obtain ⟨w₂, hremove, hw₂⟩ := run_cons_eq_some.mp hw₁
  obtain ⟨w₃, hadd, hrest⟩ := run_cons_eq_some.mp hw₂
  obtain ⟨-, -, hdead, -⟩ := removeEntity_cases hremove
  obtain ⟨⟨x, w₄⟩, hnew, rfl⟩ := Option.map_eq_some_iff.mp hadd
  obtain ⟨-, hent⟩ := addEntity_cases hnew
  have hid : x.id = e.id := by
    unfold addEntity at hnew
    rw [hdead, List.getLast?_concat] at hnew
    obtain ⟨generation, -, heq⟩ := Option.map_eq_some_iff.mp hnew
    cases heq
    rfl
  refine ⟨x, mem_entities_of_run (hid ▸ hafter) ?_ hrest, hid⟩
  rw [hent]
  exact List.mem_append_right _ List.mem_cons_self

end World

end Csics.Ecs
