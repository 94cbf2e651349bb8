import Csics.Ecs.Registry

/-!
# What a context records

A `WorldContext` has two buffers. The components of the entities that its system has added are in
one of them, everything else in the other one, and the flush goes through the first and then
through the second. For an entity that was there when the system began this is the order of the
calls. For a new one it is not: all components are written before any is removed
(`Recorded.touches_new`).

`Recorded` follows a system call by call.
-/

namespace Csics.Ecs

open Base

variable {κ : Type*} {C : κ → Type*}

/-! ## Calls -/

namespace Call

/-- The operation that does at once what the call asks for. -/
def direct : Call κ C → WorldOp κ C
  | .addEntity => .addEntity
  | .addComponent e c => .addComponent e c
  | .removeComponent k e => .removeComponent k e
  | .destroyEntity e => .removeEntity e
  | .setComponent e c => .setComponent e c

/-- The entity the call is about. -/
def handle? : Call κ C → Option Entity
  | .addEntity => none
  | .addComponent e _ | .removeComponent _ e | .destroyEntity e | .setComponent e _ => some e

/-- One of the four calls of a context, about an entity that is alive. -/
def Living (w : World κ C) : Call κ C → Prop
  | .addEntity => True
  | .addComponent e _ | .removeComponent _ e | .destroyEntity e => e ∈ w.entities
  | .setComponent _ _ => False

theorem Living.mem {w : World κ C} {call : Call κ C} {e : Entity} (h : call.Living w)
    (he : call.handle? = some e) : e ∈ w.entities := by
  cases call with
  | addEntity => cases he
  | setComponent x c => exact absurd h id
  | addComponent x c | removeComponent k x | destroyEntity x =>
    cases he
    exact h

theorem Living.mono {w w' : World κ C} {call : Call κ C} (h : call.Living w)
    (hsub : w.entities ⊆ w'.entities) : call.Living w' := by
  cases call with
  | addEntity => trivial
  | setComponent x c => exact h
  | addComponent x c | removeComponent k x | destroyEntity x => exact hsub h

/-- The addition that is made at once. -/
def added? : Call κ C → Option (WorldOp Empty fun _ => Empty)
  | .addEntity => some .addEntity
  | _ => none

/-- The removal that is made in the flush. -/
def removed? : Call κ C → Option (WorldOp Empty fun _ => Empty)
  | .destroyEntity e => some (.removeEntity e)
  | _ => none

end Call

/-- All that the calls ask for. -/
def directs (calls : List (Call κ C)) : List (WorldOp κ C) := calls.map Call.direct

namespace WorldContext

/-- The entities that the context has added. -/
def created (ctx : WorldContext κ C) : List Entity := ctx.deferredEntities.map DeferredEntity.entity

/-- The first part of the flush. -/
def additions (ctx : WorldContext κ C) : List (WorldOp κ C) :=
  ctx.deferredEntities.flatMap fun d => d.components.map (.addComponent d.entity)

/-- The second part. -/
def actions (ctx : WorldContext κ C) : List (WorldOp κ C) := ctx.deferredActions.map flushAction

theorem flush_eq (ctx : WorldContext κ C) : ctx.flush = ctx.additions ++ ctx.actions := rfl

variable {e : Entity} {c : Component κ C} {ds ds' : List (DeferredEntity κ C)}

/-- The component goes to the first entity with the id. -/
theorem emplaceDeferred_cases (h : emplaceDeferred e c ds = some ds') :
    ∃ before d after, ds = before ++ d :: after ∧ d.entity.id = e.id ∧
      ds' = before ++ { d with components := d.components ++ [c] } :: after := by
  induction ds generalizing ds' with
  | nil => cases h
  | cons d ds ih =>
    unfold emplaceDeferred at h
    split at h
    · rename_i hid
      cases h
      exact ⟨[], d, ds, rfl, hid, rfl⟩
    · obtain ⟨ds'', hds, rfl⟩ := Option.map_eq_some_iff.mp h
      obtain ⟨before, d', after, rfl, hid, rfl⟩ := ih hds
      exact ⟨d :: before, d', after, rfl, hid, rfl⟩

/-- Without such an entity there is no place for it. -/
theorem notMem_of_emplaceDeferred (h : emplaceDeferred e c ds = none) :
    e.id ∉ ds.map fun d => d.entity.id := by
  induction ds with
  | nil => exact List.not_mem_nil
  | cons d ds ih =>
    unfold emplaceDeferred at h
    split at h
    · cases h
    · rename_i hne
      rw [List.map_cons, List.mem_cons, not_or]
      exact ⟨Ne.symm hne, ih (Option.map_eq_none_iff.mp h)⟩

end WorldContext

/-! ## Touches of calls -/

variable [DecidableEq κ] {w w' : World κ C} {ctx ctx' : WorldContext κ C}

/-- What a call asks for concerns its handle. -/
theorem Call.handle_of_touch {call : Call κ C} {k : κ} {id : UInt32}
    (h : call.direct.touch? k id ≠ none) : ∃ e, call.handle? = some e ∧ e.id = id := by
  cases call with
  | addEntity => exact absurd rfl h
  | destroyEntity e => exact absurd rfl h
  | addComponent e c | setComponent e c | removeComponent k' e =>
    refine ⟨e, rfl, ?_⟩
    by_contra hid
    exact h (if_neg fun hand => hid hand.2)

theorem Call.handle_of_write {call : Call κ C} {k : κ} {id : UInt32} {x : Entity}
    {c : Component κ C} (h : call.direct.touch? k id = some (.write x c)) :
    call.handle? = some x ∧ x.id = id := by
  cases call with
  | addEntity | destroyEntity e => cases h
  | removeComponent k' e =>
    have hite : (if k' = k ∧ e.id = id then some Touch.clear else none) = some (.write x c) := h
    split at hite <;> cases hite
  | addComponent e a | setComponent e a =>
    have hite : (if a.1 = k ∧ e.id = id then some (Touch.write e a) else none) =
      some (.write x c) := h
    split at hite
    · rename_i hand
      cases hite
      exact ⟨rfl, hand.2⟩
    · cases hite

/-- Components of other entities do not touch an id. -/
theorem touches_of_id_ne {e : Entity} {k : κ} {id : UInt32} (h : e.id ≠ id)
    (cs : List (Component κ C)) : touches k id (cs.map (.addComponent e)) = [] := by
  unfold touches
  rw [List.filterMap_map, List.filterMap_eq_nil_iff]
  intro c _
  exact if_neg fun hand => h hand.2

theorem touches_singleton (op : WorldOp κ C) (k : κ) (id : UInt32) :
    touches k id [op] = (op.touch? k id).toList := by
  unfold touches
  cases h : op.touch? k id with
  | none => rw [List.filterMap_cons_none h]; rfl
  | some t => rw [List.filterMap_cons_some h]; rfl

theorem touches_eq_nil_iff {ops : List (WorldOp κ C)} {k : κ} {id : UInt32} :
    touches k id ops = [] ↔ ∀ op ∈ ops, op.touch? k id = none := List.filterMap_eq_nil_iff

/-- Calls about living entities do not touch an id that is not in use. -/
theorem touches_directs_of_notMem {calls : List (Call κ C)} {k : κ} {id : UInt32}
    (hliving : ∀ call ∈ calls, call.Living w) (hid : id ∉ w.entities.map Entity.id) :
    touches k id (directs calls) = [] := by
  rw [touches_eq_nil_iff]
  intro op hop
  obtain ⟨call, hcall, rfl⟩ := List.mem_map.mp hop
  by_contra htouch
  obtain ⟨e, he, rfl⟩ := call.handle_of_touch htouch
  exact hid (List.mem_map_of_mem ((hliving call hcall).mem he))

/-- An added component is written, or it is one of another entry. -/
theorem touch?_addComponent_cases (e : Entity) (c : Component κ C) (k : κ) (id : UInt32) :
    (WorldOp.addComponent e c).touch? k id = none ∨
      e.id = id ∧ (WorldOp.addComponent e c).touch? k id = some (.write e c) := by
  by_cases hand : c.1 = k ∧ e.id = id
  · exact Or.inr ⟨hand.2, if_pos hand⟩
  · exact Or.inl (if_neg hand)

omit [DecidableEq κ] in
/-- What writes nothing is kept by the second part of a deferred list alone. -/
theorem filter_toList_of_ne_write {touch? : Option (Touch κ C)}
    (h : ∀ x a, touch? ≠ some (.write x a)) :
    touch?.toList.filter Touch.isWrite = [] ∧
      (touch?.toList.filter fun t => !t.isWrite) = touch?.toList := by
  cases touch? with
  | none => exact ⟨rfl, rfl⟩
  | some t =>
    cases t with
    | clear => exact ⟨rfl, rfl⟩
    | write x a => exact absurd rfl (h x a)

/-! ## The first buffer -/

namespace WorldContext

variable {e : Entity} {c : Component κ C} {ds before after : List (DeferredEntity κ C)}
  {d : DeferredEntity κ C} {k : κ} {id : UInt32}

omit [DecidableEq κ] in
/-- The first buffer adds and removes no entity. -/
theorem registered_additions (ctx : WorldContext κ C) :
    ctx.additions.filterMap WorldOp.registered? = [] := by
  rw [List.filterMap_eq_nil_iff]
  intro op hop
  obtain ⟨d, -, hop⟩ := List.mem_flatMap.mp hop
  obtain ⟨a, -, rfl⟩ := List.mem_map.mp hop
  rfl

/-- Deferred entities with other ids do not touch an id. -/
theorem touches_of_ids_ne (h : ∀ d ∈ ds, d.entity.id ≠ id) :
    touches k id (ds.flatMap fun d => d.components.map (.addComponent d.entity)) = [] := by
  induction ds with
  | nil => rfl
  | cons d ds ih =>
    have hrest := ih fun d' hd' => h d' (List.mem_cons_of_mem _ hd')
    rw [List.flatMap_cons, touches_append, touches_of_id_ne (h d List.mem_cons_self), hrest,
      List.append_nil]

/-- One more component of a deferred entity comes behind those that its id has. -/
theorem touches_emplace (hafter : ∀ d' ∈ after, d'.entity.id ≠ d.entity.id) :
    touches k id (additions { ctx with deferredEntities :=
        before ++ { d with components := d.components ++ [c] } :: after }) =
      touches k id (additions { ctx with deferredEntities := before ++ d :: after }) ++
        ((WorldOp.addComponent d.entity c).touch? k id).toList := by
  simp only [additions, List.flatMap_append, List.flatMap_cons, List.map_append,
    List.map_singleton, touches_append, touches_singleton, List.append_assoc]
  rcases touch?_addComponent_cases d.entity c k id with hnone | ⟨rfl, -⟩
  · rw [hnone, Option.toList_none, List.append_nil, List.nil_append]
  · rw [touches_of_ids_ne hafter, List.append_nil, List.nil_append]

end WorldContext

/-! ## One system -/

/-- What a context has recorded when its system has made the calls. -/
structure Recorded (w₀ : World κ C) (calls : List (Call κ C)) (w : World κ C)
    (ctx : WorldContext κ C) : Prop where
  components : w.components = w₀.components
  entities : w.entities = w₀.entities ++ ctx.created
  registry : run World.step w₀.registry (calls.filterMap Call.added?) = some w.registry
  removed : ctx.flush.filterMap WorldOp.registered? = calls.filterMap Call.removed?
  living : ∀ call ∈ calls, call.Living w
  additions : ∀ k id, touches k id ctx.additions =
    if id ∈ ctx.created.map Entity.id then (touches k id (directs calls)).filter Touch.isWrite
    else []
  actions : ∀ k id, touches k id ctx.actions =
    if id ∈ ctx.created.map Entity.id then
      (touches k id (directs calls)).filter fun t => !t.isWrite
    else touches k id (directs calls)

namespace Recorded

variable {w₀ : World κ C} {calls : List (Call κ C)} {e : Entity} {c : Component κ C}

theorem init (w : World κ C) : Recorded w [] w .init := by
  refine ⟨rfl, (List.append_nil _).symm, rfl, rfl, ?_, fun k id => rfl, fun k id => rfl⟩
  intro call hcall
  cases hcall

/-- An id that is not in use has not been touched. -/
theorem touches_of_notMem (h : Recorded w₀ calls w ctx) {k : κ} {id : UInt32}
    (hid : id ∉ w.entities.map Entity.id) : touches k id (directs calls) = [] :=
  touches_directs_of_notMem h.living hid

/-- A call that adds its action to the second buffer. -/
theorem record (h : Recorded w₀ calls w ctx) {call : Call κ C} {action : DeferredAction κ C}
    (hliving : call.Living w)
    (hdirect : WorldContext.flushAction action = call.direct) (hadded : call.added? = none)
    (hregistered : (WorldContext.flushAction action).registered? = call.removed?)
    (hwrite : ∀ k id x a, call.direct.touch? k id = some (.write x a) →
      id ∉ ctx.created.map Entity.id) :
    Recorded w₀ (calls ++ [call]) w
      { ctx with deferredActions := ctx.deferredActions ++ [action] } := by
  have hactions : WorldContext.actions
      { ctx with deferredActions := ctx.deferredActions ++ [action] } =
        ctx.actions ++ [call.direct] := by
    unfold WorldContext.actions
    rw [List.map_append, List.map_singleton, hdirect]
  have hdirects : directs (calls ++ [call]) = directs calls ++ [call.direct] := by
    unfold directs
    rw [List.map_append, List.map_singleton]
  refine ⟨h.components, h.entities, ?_, ?_, ?_, ?_, ?_⟩
  · rw [List.filterMap_append, List.filterMap_cons_none hadded, List.filterMap_nil,
      List.append_nil]
    exact h.registry
  · rw [WorldContext.flush_eq, hactions, ← List.append_assoc, List.filterMap_append,
      List.filterMap_append (l := calls)]
    show (ctx.flush).filterMap _ ++ _ = _
    rw [h.removed, ← hdirect]
    congr 1
    cases hr : call.removed? with
    | none =>
      rw [List.filterMap_cons_none (hregistered.trans hr), List.filterMap_cons_none hr]
      rfl
    | some op =>
      rw [List.filterMap_cons_some (hregistered.trans hr), List.filterMap_cons_some hr]
      rfl
  · intro call' hcall'
    rcases List.mem_append.mp hcall' with hcall' | hcall'
    · exact h.living call' hcall'
    · rw [List.mem_singleton.mp hcall']
      exact hliving
  · intro k id
    have hadditions := h.additions k id
    show touches k id ctx.additions = _
    rw [hadditions, hdirects, touches_append, touches_singleton, List.filter_append]
    by_cases hid : id ∈ ctx.created.map Entity.id
    · have hkept := filter_toList_of_ne_write fun x a htouch => hwrite k id x a htouch hid
      rw [if_pos hid, hkept.1, List.append_nil]
      show _ = if id ∈ ctx.created.map Entity.id then _ else _
      rw [if_pos hid]
    · rw [if_neg hid]
      show _ = if id ∈ ctx.created.map Entity.id then _ else _
      rw [if_neg hid]
  · intro k id
    have hold := h.actions k id
    rw [hactions, touches_append, hold, hdirects, touches_append, touches_singleton,
      List.filter_append]
    by_cases hid : id ∈ ctx.created.map Entity.id
    · have hkept := filter_toList_of_ne_write fun x a htouch => hwrite k id x a htouch hid
      rw [if_pos hid, hkept.2]
      show _ = if id ∈ ctx.created.map Entity.id then _ else _
      rw [if_pos hid]
    · rw [if_neg hid]
      show _ = if id ∈ ctx.created.map Entity.id then _ else _
      rw [if_neg hid]

/-- A new entity. Its id has not been touched yet. -/
theorem addEntity (h : Recorded w₀ calls w ctx) (hw : w.addEntity = some (e, w'))
    (hnodup : (w'.entities.map Entity.id).Nodup) :
    Recorded w₀ (calls ++ [.addEntity]) w'
      { ctx with deferredEntities := ctx.deferredEntities ++ [⟨e, []⟩] } := by
  obtain ⟨hcomp, hent⟩ := World.addEntity_cases hw
  have hfresh : e.id ∉ w.entities.map Entity.id := by
    rw [hent, List.map_append, List.nodup_append] at hnodup
    intro hmem
    exact hnodup.2.2 e.id hmem e.id List.mem_cons_self rfl
  have hcreated : WorldContext.created
      { ctx with deferredEntities := ctx.deferredEntities ++ [⟨e, []⟩] } = ctx.created ++ [e] :=
    List.map_append
  have hadditions : WorldContext.additions
      { ctx with deferredEntities := ctx.deferredEntities ++ [⟨e, []⟩] } = ctx.additions := by
    unfold WorldContext.additions
    rw [List.flatMap_append]
    exact List.append_nil _
  have hdirects : ∀ k id, touches k id (directs (calls ++ [.addEntity])) =
      touches k id (directs calls) := by
    intro k id
    unfold directs
    rw [List.map_append, touches_append]
    exact List.append_nil _
  have hids : ∀ id, id ∈ (ctx.created ++ [e]).map Entity.id ↔
      id ∈ ctx.created.map Entity.id ∨ id = e.id := by
    intro id
    rw [List.map_append, List.mem_append, List.map_singleton, List.mem_singleton]
  refine ⟨hcomp.trans h.components, ?_, ?_, ?_, ?_, ?_, ?_⟩
  · rw [hent, h.entities, hcreated, List.append_assoc]
  · rw [List.filterMap_append, run_append, h.registry]
    show (w.registry.addEntity.map Prod.snd).bind _ = _
    rw [World.registry_addEntity, hw]
    rfl
  · rw [List.filterMap_append, ← h.removed, WorldContext.flush_eq, hadditions]
    exact (List.append_nil _).symm
  · intro call hcall
    rcases List.mem_append.mp hcall with hcall | hcall
    · refine (h.living call hcall).mono ?_
      rw [hent]
      exact List.subset_append_left _ _
    · rw [List.mem_singleton.mp hcall]
      trivial
  · intro k id
    have hold := h.additions k id
    rw [hadditions, hold, hcreated, hdirects]
    by_cases hid : id = e.id
    · subst hid
      rw [h.touches_of_notMem hfresh]
      split <;> split <;> rfl
    · refine if_congr ?_ rfl rfl
      rw [hids, or_iff_left hid]
  · intro k id
    have hold := h.actions k id
    show touches k id ctx.actions = _
    rw [hold, hcreated, hdirects]
    by_cases hid : id = e.id
    · subst hid
      rw [h.touches_of_notMem hfresh]
      split <;> split <;> rfl
    · refine if_congr ?_ rfl rfl
      rw [hids, or_iff_left hid]

/-- A component of an entity that the context has added. -/
theorem emplace (h : Recorded w₀ calls w ctx) (hnodup : (w.entities.map Entity.id).Nodup)
    (he : e ∈ w.entities) {ds : List (DeferredEntity κ C)}
    (hds : WorldContext.emplaceDeferred e c ctx.deferredEntities = some ds) :
    Recorded w₀ (calls ++ [.addComponent e c]) w { ctx with deferredEntities := ds } := by
  obtain ⟨before, d, after, hsplit, hid, rfl⟩ := WorldContext.emplaceDeferred_cases hds
  have hctx : ctx = { ctx with deferredEntities := before ++ d :: after } := by
    rw [← hsplit]
  have hcreated : WorldContext.created { ctx with deferredEntities :=
      before ++ { d with components := d.components ++ [c] } :: after } = ctx.created := by
    unfold WorldContext.created
    rw [hsplit, List.map_append, List.map_append, List.map_cons, List.map_cons]
  have hmem : d.entity ∈ ctx.created := by
    unfold WorldContext.created
    rw [hsplit, List.map_append, List.map_cons]
    exact List.mem_append_right _ List.mem_cons_self
  -- the deferred entity is the one of the call
  have hentity : d.entity = e := by
    have hd : d.entity ∈ w.entities := by
      rw [h.entities]
      exact List.mem_append_right _ hmem
    exact List.inj_on_of_nodup_map hnodup hd he hid
  have hids : e.id ∈ ctx.created.map Entity.id := hid ▸ List.mem_map_of_mem hmem
  have hdirects : directs (calls ++ [.addComponent e c]) = directs calls ++ [.addComponent e c] :=
    List.map_append
  have hafter : ∀ d' ∈ after, d'.entity.id ≠ d.entity.id := by
    rw [h.entities, List.map_append, List.nodup_append] at hnodup
    have hcreated_nodup := hnodup.2.1
    unfold WorldContext.created at hcreated_nodup
    rw [hsplit, List.map_append, List.map_append, List.map_cons, List.map_cons,
      List.nodup_middle, List.nodup_cons, ← List.map_append, ← List.map_append] at hcreated_nodup
    intro d' hd' heq
    refine hcreated_nodup.1 ?_
    rw [← heq]
    exact List.mem_map_of_mem (List.mem_map_of_mem (List.mem_append_right _ hd'))
  refine ⟨h.components, ?_, ?_, ?_, ?_, ?_, ?_⟩
  · rw [hcreated]
    exact h.entities
  · rw [List.filterMap_append]
    exact (congrArg (run World.step w₀.registry) (List.append_nil _)).trans h.registry
  · have hremoved := h.removed
    rw [WorldContext.flush_eq, List.filterMap_append, WorldContext.registered_additions] at hremoved
    rw [WorldContext.flush_eq, List.filterMap_append, WorldContext.registered_additions,
      List.filterMap_append]
    exact hremoved.trans (List.append_nil _).symm
  · intro call hcall
    rcases List.mem_append.mp hcall with hcall | hcall
    · exact h.living call hcall
    · rw [List.mem_singleton.mp hcall]
      exact he
  · intro k id
    have hold := h.additions k id
    rw [WorldContext.touches_emplace hafter, ← hctx, hold, hcreated, hdirects, touches_append,
      touches_singleton, List.filter_append, hentity]
    rcases touch?_addComponent_cases e c k id with hnone | ⟨rfl, hwrite⟩
    · rw [hnone]
      split <;> exact (List.append_nil _).trans (List.append_nil _).symm
    · rw [if_pos hids, if_pos hids, hwrite]
      rfl
  · intro k id
    have hold := h.actions k id
    show touches k id ctx.actions = _
    rw [hold, hcreated, hdirects, touches_append, touches_singleton, List.filter_append]
    rcases touch?_addComponent_cases e c k id with hnone | ⟨rfl, hwrite⟩
    · rw [hnone]
      split <;> exact (List.append_nil _).symm
    · rw [if_pos hids, if_pos hids, hwrite]
      exact (List.append_nil _).symm

end Recorded

omit [DecidableEq κ] in
/-- A recorded action leaves the world alone. -/
theorem WorldContext.record_eq_some {e : Entity} {action : DeferredAction κ C}
    (h : ctx.record w e action = some (w', ctx')) :
    w' = w ∧ ctx' = { ctx with deferredActions := ctx.deferredActions ++ [action] } := by
  unfold WorldContext.record at h
  split at h
  · cases h
    exact ⟨rfl, rfl⟩
  · cases h

/-- A system about living entities, while ids are distinct, leaves its context recorded. -/
theorem recorded_of_run {w₀ : World κ C} {calls : List (Call κ C)}
    (hliving : Guarded WorldContext.call (fun p call => call.Living p.1) (w₀, .init) calls)
    (hrun : run WorldContext.call (w₀, .init) calls = some (w, ctx))
    (hnodup : (w.entities.map Entity.id).Nodup) : Recorded w₀ calls w ctx := by
  induction calls using List.reverseRecOn generalizing w ctx with
  | nil =>
    cases hrun
    exact Recorded.init w₀
  | append_singleton calls call ih =>
    obtain ⟨hbefore, hlast⟩ := guarded_append.mp hliving
    rw [run_append] at hrun
    obtain ⟨⟨w₁, ctx₁⟩, hrun₁, hrest⟩ := Option.bind_eq_some_iff.mp hrun
    have halive : call.Living w₁ := (hlast _ hrun₁).1
    obtain ⟨⟨w₂, ctx₂⟩, hcall, hnil⟩ := run_cons_eq_some.mp hrest
    cases hnil
    cases call with
    | addEntity =>
      obtain ⟨⟨e, w'⟩, hadd, heq⟩ := Option.map_eq_some_iff.mp hcall
      cases heq
      have hnodup₁ : (w₁.entities.map Entity.id).Nodup := by
        rw [(World.addEntity_cases hadd).2, List.map_append] at hnodup
        exact hnodup.of_append_left
      exact (ih hbefore hrun₁ hnodup₁).addEntity hadd hnodup
    | addComponent e c =>
      have hadd : ctx₁.addComponent w₁ e c = some (w, ctx) := hcall
      unfold WorldContext.addComponent at hadd
      split at hadd
      · rename_i ds hds
        cases hadd
        exact (ih hbefore hrun₁ hnodup).emplace hnodup halive hds
      · rename_i hnone
        obtain ⟨rfl, rfl⟩ := WorldContext.record_eq_some hadd
        refine (ih hbefore hrun₁ hnodup).record halive rfl rfl rfl ?_
        intro k id x a htouch
        obtain ⟨y, hy, rfl⟩ := Call.handle_of_touch (htouch ▸ Option.some_ne_none _)
        cases hy
        rw [WorldContext.created, List.map_map]
        exact WorldContext.notMem_of_emplaceDeferred hnone
    | removeComponent k e =>
      obtain ⟨rfl, rfl⟩ := WorldContext.record_eq_some (show ctx₁.record w₁ e _ = _ from hcall)
      refine (ih hbefore hrun₁ hnodup).record halive rfl rfl rfl ?_
      intro k' id x a htouch
      have hite : (if k = k' ∧ e.id = id then some Touch.clear else none) =
        some (.write x a) := htouch
      split at hite <;> cases hite
    | destroyEntity e =>
      obtain ⟨rfl, rfl⟩ := WorldContext.record_eq_some (show ctx₁.record w₁ e _ = _ from hcall)
      refine (ih hbefore hrun₁ hnodup).record halive rfl rfl rfl ?_
      intro k' id x a htouch
      cases htouch
    | setComponent e c => exact absurd halive id

namespace Recorded

variable {w₀ : World κ C} {calls : List (Call κ C)} {k : κ} {id : UInt32}

/-- For an entity from before, the flush has the order of the calls. -/
theorem touches_old (h : Recorded w₀ calls w ctx) (hnodup : (w.entities.map Entity.id).Nodup)
    (hid : id ∈ w₀.entities.map Entity.id) :
    touches k id ctx.flush = touches k id (directs calls) := by
  have hnot : id ∉ ctx.created.map Entity.id := by
    rw [h.entities, List.map_append, List.nodup_append] at hnodup
    intro hmem
    exact hnodup.2.2 id hid id hmem rfl
  rw [WorldContext.flush_eq, touches_append, h.additions, h.actions, if_neg hnot, if_neg hnot,
    List.nil_append]

/-- For an entity of the system itself, it has the components first. -/
theorem touches_new (h : Recorded w₀ calls w ctx) (hid : id ∉ w₀.entities.map Entity.id) :
    touches k id ctx.flush = Touch.deferred (touches k id (directs calls)) := by
  by_cases hcreated : id ∈ ctx.created.map Entity.id
  · rw [WorldContext.flush_eq, touches_append, h.additions, h.actions, if_pos hcreated,
      if_pos hcreated]
    rfl
  · have hnot : id ∉ w.entities.map Entity.id := by
      rw [h.entities, List.map_append, List.mem_append, not_or]
      exact ⟨hid, hcreated⟩
    rw [WorldContext.flush_eq, touches_append, h.additions, h.actions, if_neg hcreated,
      if_neg hcreated, h.touches_of_notMem hnot]
    rfl

end Recorded

end Csics.Ecs
