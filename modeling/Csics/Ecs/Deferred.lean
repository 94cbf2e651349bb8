import Csics.Ecs.Layers

/-!
# Deferred operations and their order

A layer agrees with the operations that its calls ask for, one after the other in the order of the
calls, in two respects. The entities are the same if and only if no `add_entity` comes behind a
`destroy_entity`, which would give the id out again if the entity were gone already. The component
of an entity is the same if and only if the last touch of its entry leaves the same in both orders
(`LayerRun.component?_eq_iff`).
-/

namespace Csics.Ecs

open Base

variable {κ : Type*} {C : κ → Type*} [DecidableEq κ] {w w₁ w' v : World κ C}
  {systems : List (List (Call κ C))} {ctxs : List (WorldContext κ C)}

/-! ## The order -/

/-- The same entities are alive, and they have the same components. -/
structure World.Agree (w v : World κ C) : Prop where
  entities : ∀ x, x ∈ w.entities ↔ x ∈ v.entities
  components : ∀ x ∈ w.entities, ∀ k, w.component? k x = v.component? k x

/-- No `add_entity` comes behind a `destroy_entity`. -/
def NoAddBehindDestroy (calls : List (Call κ C)) : Prop :=
  calls.Pairwise fun a b => ∀ e, a = .destroyEntity e → b ≠ .addEntity

/-! ## Flushes -/

/-- What a run performs is in range. -/
theorem WorldOp.inRange_of_run {ops : List (WorldOp κ C)}
    (hw : run World.step w ops = some w') : ∀ op ∈ ops, op.Flushed → op.inRange = true := by
  induction ops generalizing w with
  | nil =>
    intro op hop
    cases hop
  | cons op ops ih =>
    obtain ⟨w₂, hstep, hrest⟩ := run_cons_eq_some.mp hw
    intro op' hop' hflushed
    rcases List.mem_cons.mp hop' with rfl | hop'
    · cases op' with
      | addComponent e c =>
        obtain ⟨s, hins, -⟩ := Option.map_eq_some_iff.mp hstep
        refine decide_eq_true ?_
        by_contra hid
        rw [SparseSet.insert, dif_neg hid] at hins
        cases hins
      | removeComponent k e => rfl
      | removeEntity e => rfl
      | addEntity => cases hflushed
      | setComponent e c => cases hflushed
    · exact ih hrest op' hop' hflushed

/-- Only additions make ids. -/
theorem generations_of_run {ops : List (WorldOp κ C)} (hops : ∀ op ∈ ops, op.Flushed)
    (hw : run World.step w ops = some w') : w'.generations = w.generations := by
  induction ops generalizing w with
  | nil =>
    cases hw
    rfl
  | cons op ops ih =>
    obtain ⟨w₂, hstep, hrest⟩ := run_cons_eq_some.mp hw
    rw [ih (fun op hop => hops op (List.mem_cons_of_mem _ hop)) hrest]
    cases hop : op.registered? with
    | none =>
      show w₂.registry.generations = w.registry.generations
      rw [World.registry_of_components hop hstep]
    | some op' =>
      cases op with
      | addEntity => exact absurd (hops _ List.mem_cons_self) id
      | removeEntity e => exact (World.removeEntity_cases hstep).2.2.2
      | addComponent _ _ => cases hop
      | setComponent _ _ => cases hop
      | removeComponent _ _ => cases hop

omit [DecidableEq κ] in
theorem flushed_of_mem_layerFlush {op : WorldOp κ C} (h : op ∈ layerFlush ctxs) : op.Flushed := by
  obtain ⟨ctx, -, hctx⟩ := List.mem_flatMap.mp h
  exact WorldContext.flushed_of_mem hctx

/-! ## Operations on entities -/

/-- The operations on entities that the calls ask for. -/
def entityOps (calls : List (Call κ C)) : List (WorldOp Empty fun _ => Empty) :=
  (directs calls).filterMap WorldOp.registered?

omit [DecidableEq κ] in
theorem entityOps_eq (calls : List (Call κ C)) :
    entityOps calls = calls.filterMap fun call => call.direct.registered? := List.filterMap_map

omit [DecidableEq κ] in
theorem mem_entityOps {calls : List (Call κ C)} {op : WorldOp Empty fun _ => Empty}
    (h : op ∈ entityOps calls) : op = .addEntity ∨ ∃ e, op = .removeEntity e := by
  obtain ⟨op', -, hop'⟩ := List.mem_filterMap.mp h
  cases op' with
  | addEntity =>
    cases hop'
    exact Or.inl rfl
  | removeEntity e =>
    cases hop'
    exact Or.inr ⟨e, rfl⟩
  | addComponent _ _ => cases hop'
  | setComponent _ _ => cases hop'
  | removeComponent _ _ => cases hop'

omit [DecidableEq κ] in
/-- The additions among them are those of the systems, the rest those of the flush. -/
theorem filter_entityOps (calls : List (Call κ C)) :
    (entityOps calls).filter WorldOp.isAdd = calls.filterMap Call.added? ∧
      ((entityOps calls).filter fun op => !op.isAdd) = calls.filterMap Call.removed? := by
  rw [entityOps_eq, List.filter_filterMap, List.filter_filterMap]
  constructor
  · congr 1
    ext call : 1
    cases call <;> rfl
  · congr 1
    ext call : 1
    cases call <;> rfl

omit [DecidableEq κ] in
theorem settled_entityOps_iff (calls : List (Call κ C)) :
    Settled (entityOps calls) ↔ NoAddBehindDestroy calls := by
  unfold Settled NoAddBehindDestroy
  rw [entityOps_eq, List.pairwise_filterMap]
  refine ⟨fun h => h.imp ?_, fun h => h.imp ?_⟩
  · rintro a b hab e rfl rfl
    exact hab (.removeEntity e) rfl .addEntity rfl e rfl rfl
  · rintro a b hab op hop op' hop' e rfl rfl
    cases a with
    | destroyEntity x =>
      cases b with
      | addEntity => exact hab x rfl rfl
      | destroyEntity _ => cases hop'
      | addComponent _ _ => cases hop'
      | removeComponent _ _ => cases hop'
      | setComponent _ _ => cases hop'
    | addEntity => cases hop
    | addComponent _ _ => cases hop
    | removeComponent _ _ => cases hop
    | setComponent _ _ => cases hop

omit [DecidableEq κ] in
/-- The removed ids of a run are those of its operations on entities. -/
theorem removedIds_registered (ops : List (WorldOp κ C)) :
    removedIds (ops.filterMap WorldOp.registered?) = removedIds ops := by
  unfold removedIds
  rw [List.filterMap_filterMap]
  congr 1
  ext op : 1
  cases op <;> rfl

omit [DecidableEq κ] in
theorem removedIds_removed (calls : List (Call κ C)) :
    removedIds (calls.filterMap Call.removed?) = removedIds (entityOps calls) := by
  unfold removedIds
  rw [entityOps_eq, List.filterMap_filterMap, List.filterMap_filterMap]
  congr 1
  ext call : 1
  cases call <;> rfl

/-- A flush only removes entities. -/
theorem entities_subset_of_run {ops : List (WorldOp κ C)} (hops : ∀ op ∈ ops, op.Flushed)
    (hw : run World.step w ops = some w') : w'.entities ⊆ w.entities := by
  induction ops generalizing w with
  | nil =>
    cases hw
    exact List.Subset.refl _
  | cons op ops ih =>
    obtain ⟨w₂, hstep, hrest⟩ := run_cons_eq_some.mp hw
    refine List.Subset.trans (ih (fun op hop => hops op (List.mem_cons_of_mem _ hop)) hrest) ?_
    cases hop : op.registered? with
    | none =>
      show w₂.registry.entities ⊆ w.registry.entities
      rw [World.registry_of_components hop hstep]
      exact List.Subset.refl _
    | some op' =>
      cases op with
      | addEntity => exact absurd (hops _ List.mem_cons_self) id
      | removeEntity e =>
        rw [(World.removeEntity_cases hstep).2.1]
        exact List.eraseP_subset
      | addComponent _ _ => cases hop
      | setComponent _ _ => cases hop
      | removeComponent _ _ => cases hop

/-! ## The run of a layer -/

/-- A layer about living entities in a sound world, its systems, and its flush. -/
structure LayerRun (w : World κ C) (systems : List (List (Call κ C))) (w₁ : World κ C)
    (ctxs : List (WorldContext κ C)) (w' : World κ C) : Prop where
  sound : w.Sound
  living : LivingCalls w systems
  systems : w.runSystems systems = some (w₁, ctxs)
  flush : run World.step w₁ (layerFlush ctxs) = some w'
  nodup : (w₁.entities.map Entity.id).Nodup

theorem exists_layerRun (hsound : w.Sound) (hliving : LivingCalls w systems)
    (hlayer : w.runLayer ⟨systems, []⟩ = some w') (hlen : w'.generations.length ≤ 2 ^ 32) :
    ∃ w₁ ctxs, LayerRun w systems w₁ ctxs w' := by
  obtain ⟨⟨w₁, ctxs⟩, hsystems, hrest⟩ := Option.bind_eq_some_iff.mp hlayer
  obtain ⟨w₂, hhook, hflush⟩ := Option.bind_eq_some_iff.mp hrest
  cases hhook
  have hsound₁ : w₁.Sound := World.runSystems_preserves (fun _ _ _ hs _ hstep => hs.step hstep)
    hsound hsystems
  rw [generations_of_run (fun op hop => flushed_of_mem_layerFlush hop) hflush] at hlen
  exact ⟨w₁, ctxs, hsound, hliving, hsystems, hflush, hsound₁.numbered.nodup hlen⟩

namespace LayerRun

variable (h : LayerRun w systems w₁ ctxs w') {e x : Entity} {k : κ} {ops : List (WorldOp κ C)}

include h

theorem replayed : Replayed w systems w₁ ctxs := replayed_of_run h.living h.systems h.nodup

theorem sound₁ : w₁.Sound :=
  World.runSystems_preserves (fun _ _ _ hs _ hstep => hs.step hstep) h.sound h.systems

/-- The handle of a call is alive when the flush begins. -/
theorem mem_of_handle {call : Call κ C} (hcall : call ∈ systems.flatten)
    (he : call.handle? = some e) : e ∈ w₁.entities := (h.replayed.living call hcall).mem he

theorem eq_of_id (he : e ∈ w₁.entities) (hx : x ∈ w₁.entities) (hid : e.id = x.id) : e = x :=
  List.inj_on_of_nodup_map h.nodup he hx hid

/-- All additions first, and then all removals, make the entities. -/
theorem registry : run World.step w.registry
    ((entityOps systems.flatten).filter WorldOp.isAdd ++
      (entityOps systems.flatten).filter fun op => !op.isAdd) = some w'.registry := by
  have hflush := World.run_registry h.flush
  rw [h.replayed.removed] at hflush
  rw [(filter_entityOps _).1, (filter_entityOps _).2, run_append, h.replayed.registry]
  exact hflush

/-- Of each id there was one entity, or none, and what is removed is gone. -/
theorem countId_eq (id : UInt32) :
    w'.countId id + (removedIds (entityOps systems.flatten)).count id = w₁.countId id ∧
      w₁.countId id ≤ 1 := by
  constructor
  · have hops : ∀ op ∈ layerFlush ctxs, op ≠ .addEntity := by
      rintro op hop rfl
      exact flushed_of_mem_layerFlush hop
    rw [World.countId_of_run hops h.flush id, ← removedIds_registered (layerFlush ctxs),
      h.replayed.removed, removedIds_removed]
  · exact List.nodup_iff_count_le_one.mp h.nodup id

/-- What is not destroyed stays alive. -/
theorem mem_iff (he : e ∈ w₁.entities) :
    e ∈ w'.entities ↔ .destroyEntity e ∉ systems.flatten := by
  constructor
  · intro hmem hdestroy
    have hremoved : e.id ∈ removedIds (entityOps systems.flatten) := by
      unfold removedIds
      rw [entityOps_eq, List.filterMap_filterMap]
      exact List.mem_filterMap.mpr ⟨_, hdestroy, rfl⟩
    have hcount := h.countId_eq e.id
    have hpos := List.count_pos_iff.mpr hremoved
    have halive : 0 < w'.countId e.id := List.count_pos_iff.mpr (List.mem_map_of_mem hmem)
    omega
  · intro hnot
    refine World.mem_entities_of_run ?_ he h.flush
    rw [← removedIds_registered, h.replayed.removed]
    intro hremoved
    obtain ⟨op, hop, hid⟩ := List.mem_filterMap.mp hremoved
    obtain ⟨call, hcall, hcallop⟩ := List.mem_filterMap.mp hop
    cases call with
    | destroyEntity y =>
      cases hcallop
      obtain rfl := h.eq_of_id (h.mem_of_handle hcall rfl) he (Option.some.inj hid)
      exact hnot hcall
    | addEntity => cases hcallop
    | addComponent _ _ => cases hcallop
    | removeComponent _ _ => cases hcallop
    | setComponent _ _ => cases hcallop

theorem subset : w'.entities ⊆ w₁.entities :=
  entities_subset_of_run (fun _ hop => flushed_of_mem_layerFlush hop) h.flush

/-- With an addition behind a removal the order shows in the entities. -/
theorem settled_of_agree (hops : ops.filterMap WorldOp.registered? = entityOps systems.flatten)
    (hv : run World.step w ops = some v) (hagree : w'.Agree v) :
    Settled (entityOps systems.flatten) := by
  by_contra hnot
  obtain ⟨before, e, after, hsplit⟩ :=
    exists_of_not_settled (fun _ hop => mem_entityOps hop) hnot
  have hcount := h.countId_eq e.id
  have hremoved : removedIds (entityOps systems.flatten) =
      removedIds before ++ e.id :: removedIds after := by
    unfold removedIds
    rw [hsplit, List.filterMap_append]
    rfl
  rw [hremoved, List.count_append, List.count_cons_self] at hcount
  have hafter : e.id ∉ removedIds after := by
    intro hmem
    have hpos := List.count_pos_iff.mpr hmem
    omega
  have hregistry := World.run_registry hv
  rw [hops, hsplit] at hregistry
  obtain ⟨x, hx, hid⟩ := World.exists_of_reissue hafter hregistry
  have halive : x ∈ w'.entities := (hagree.entities x).mpr hx
  have hpos : 0 < w'.countId e.id :=
    List.count_pos_iff.mpr (hid ▸ List.mem_map_of_mem halive)
  omega

theorem touches_flush (k : κ) (id : UInt32) :
    touches k id (layerFlush ctxs) = flushTouches k id w systems :=
  touches_layerFlush k id h.living h.systems h.nodup

theorem entry_eq (k : κ) (id : UInt32) :
    w'.entry k id = (flushTouches k id w systems).foldl Touch.apply (w.entry k id) := by
  have hsame : w₁.entry k id = w.entry k id := by
    rw [World.entry, h.replayed.components, World.entry]
  rw [World.entry_of_run h.sound₁ h.flush, hsame, h.touches_flush]

/-- Every component that the calls add is added in the flush, so that its id is in range. -/
theorem inRange_of_add {c : Component κ C} (hmem : .addComponent e c ∈ systems.flatten) :
    e.id.toNat < maxEntities := by
  have hdirect : .write e c ∈ touches c.1 e.id (layerDirects systems) :=
    List.mem_filterMap.mpr ⟨_, List.mem_map_of_mem hmem, WorldOp.touch?_addComponent_self e c⟩
  rw [← mem_flushTouches_iff h.systems, ← h.touches_flush] at hdirect
  obtain ⟨op, hop, hopt⟩ := List.mem_filterMap.mp hdirect
  have hrange := WorldOp.inRange_of_run h.flush op hop (flushed_of_mem_layerFlush hop)
  cases op with
  | addComponent x a =>
    have hite : (if a.1 = c.1 ∧ x.id = e.id then some (Touch.write x a) else none) =
      some (.write e c) := hopt
    split at hite
    · cases hite
      exact of_decide_eq_true hrange
    · cases hite
  | setComponent x a => exact absurd (flushed_of_mem_layerFlush hop) id
  | removeComponent k x =>
    have hite : (if k = c.1 ∧ x.id = e.id then some Touch.clear else none) =
      some (.write e c) := hopt
    split at hite <;> cases hite
  | addEntity => cases hopt
  | removeEntity x => cases hopt

/-- Where no addition comes behind a removal, the operations in their order make the same
entities. -/
theorem exists_run_of_settled
    (hops : ops.filterMap WorldOp.registered? = entityOps systems.flatten)
    (hrange : ∀ op ∈ ops, op.registered? = none → op.Flushed ∧ op.inRange = true)
    (hsettled : Settled (entityOps systems.flatten)) :
    ∃ v, run World.step w ops = some v ∧ v.entities = w'.entities := by
  have hregistry := h.registry
  rw [← eq_of_settled (fun _ hop => mem_entityOps hop) hsettled, ← hops] at hregistry
  obtain ⟨v, hv, heq⟩ := World.exists_run h.sound hrange hregistry
  refine ⟨v, hv, ?_⟩
  show v.registry.entities = w'.registry.entities
  rw [heq]

/-- Calls about living entities write the components of an entity through its handle. -/
theorem through {calls : List (Call κ C)} (he : e ∈ w₁.entities)
    (hcalls : ∀ call ∈ calls, ∀ x, call.handle? = some x → x ∈ w₁.entities) :
    Touch.Through e (touches k e.id (directs calls)) := by
  intro x a hmem
  obtain ⟨op, hop, htouch⟩ := List.mem_filterMap.mp hmem
  obtain ⟨call, hcall, rfl⟩ := List.mem_map.mp hop
  obtain ⟨hx, hid⟩ := Call.handle_of_write htouch
  exact h.eq_of_id (hcalls call hcall x hx) he hid

/-- Two orders leave the same component of a living entity if and only if the last touch leaves the
same, or it does not show. -/
theorem component?_eq_iff (hv : run World.step w ops = some v)
    (hthrough : Touch.Through e (flushTouches k e.id w systems))
    (hthrough' : Touch.Through e (touches k e.id ops))
    (hclear : .clear ∈ flushTouches k e.id w systems ↔ .clear ∈ touches k e.id ops) :
    w'.component? k e = v.component? k e ↔
      (Touch.Shows e (w.entry k e.id) (touches k e.id ops) →
        Touch.lastComponent (w.entry k e.id) (flushTouches k e.id w systems) =
          Touch.lastComponent (w.entry k e.id) (touches k e.id ops)) := by
  have hentry := h.entry_eq k e.id
  have hentry' : v.entry k e.id = (touches k e.id ops).foldl Touch.apply (w.entry k e.id) :=
    World.entry_of_run h.sound hv
  have hshows : Touch.Shows e (w.entry k e.id) (flushTouches k e.id w systems) ↔
      Touch.Shows e (w.entry k e.id) (touches k e.id ops) := or_congr_left hclear
  by_cases hs : Touch.Shows e (w.entry k e.id) (touches k e.id ops)
  · have hinj : Function.Injective (Sigma.mk k : C k → Component κ C) := sigma_mk_injective
    rw [imp_iff_right hs, ← Touch.map_foldl, ← Touch.map_foldl, ← hentry, ← hentry',
      ← World.map_component? (hentry ▸ Touch.foldl_of_shows hthrough (hshows.mpr hs)),
      ← World.map_component? (hentry' ▸ Touch.foldl_of_shows hthrough' hs),
      (Option.map_injective hinj).eq_iff]
  · obtain ⟨x, c, hx, hfold⟩ := Touch.foldl_of_not_shows (mt hshows.mp hs)
    obtain ⟨y, d, hy, hfold'⟩ := Touch.foldl_of_not_shows hs
    have hsound' : w'.Sound := run_preserves (fun _ _ _ hs hstep => hs.step hstep) h.sound₁ h.flush
    have hsoundV : v.Sound := run_preserves (fun _ _ _ hs hstep => hs.step hstep) h.sound hv
    refine iff_of_true ?_ fun hshow => absurd hshow hs
    rw [World.component?_of_ne hsound' (hentry.trans hfold) hx,
      World.component?_of_ne hsoundV (hentry'.trans hfold') hy]

end LayerRun

end Csics.Ecs
