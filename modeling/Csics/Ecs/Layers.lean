import Csics.Ecs.Contexts

/-!
# What the contexts of a layer record

The systems of a layer run one after the other, and so do the flushes of their contexts. Only for
an entity that a system adds and touches itself does the flush depart from the order of the calls,
and only within this system (`touches_layerFlush`).
-/

namespace Csics.Ecs

open Base

variable {κ : Type*} {C : κ → Type*} [DecidableEq κ] {w₀ w v : World κ C}

/-- All calls of the systems are about entities that are alive. -/
def LivingCalls : World κ C → List (List (Call κ C)) → Prop
  | _, [] => True
  | w, calls :: systems =>
    Guarded WorldContext.call (fun p call => call.Living p.1) (w, .init) calls ∧
      ∀ w' ctx, run WorldContext.call (w, .init) calls = some (w', ctx) → LivingCalls w' systems

/-- All that a layer performs in its flush. -/
def layerFlush (ctxs : List (WorldContext κ C)) : List (WorldOp κ C) :=
  ctxs.flatMap WorldContext.flush

/-- What the contexts of a layer have recorded. -/
structure Replayed (w₀ : World κ C) (systems : List (List (Call κ C))) (w : World κ C)
    (ctxs : List (WorldContext κ C)) : Prop where
  components : w.components = w₀.components
  entities : ∃ new, w.entities = w₀.entities ++ new
  registry : run World.step w₀.registry (systems.flatten.filterMap Call.added?) = some w.registry
  removed : (layerFlush ctxs).filterMap WorldOp.registered? =
    systems.flatten.filterMap Call.removed?
  living : ∀ call ∈ systems.flatten, call.Living w

variable {systems before after : List (List (Call κ C))} {calls : List (Call κ C)}
  {ctxs : List (WorldContext κ C)} {k : κ} {id : UInt32}

/-- Systems about living entities, while ids are distinct, leave their contexts recorded. -/
theorem replayed_of_run (hliving : LivingCalls w₀ systems)
    (hrun : w₀.runSystems systems = some (w, ctxs))
    (hnodup : (w.entities.map Entity.id).Nodup) : Replayed w₀ systems w ctxs := by
  induction systems generalizing w₀ ctxs with
  | nil =>
    cases hrun
    refine ⟨rfl, ⟨[], (List.append_nil _).symm⟩, rfl, rfl, ?_⟩
    intro call hcall
    cases hcall
  | cons calls systems ih =>
    obtain ⟨⟨w₁, ctx⟩, hcalls, hrest⟩ := Option.bind_eq_some_iff.mp hrun
    obtain ⟨⟨w', ctxs'⟩, hsystems, heq⟩ := Option.map_eq_some_iff.mp hrest
    cases heq
    have hreplayed := ih (hliving.2 w₁ ctx hcalls) hsystems
    obtain ⟨new, hnew⟩ := hreplayed.entities
    have hnodup₁ : (w₁.entities.map Entity.id).Nodup := by
      rw [hnew, List.map_append] at hnodup
      exact hnodup.of_append_left
    have hrecorded := recorded_of_run hliving.1 hcalls hnodup₁
    refine ⟨hreplayed.components.trans hrecorded.components, ?_, ?_, ?_, ?_⟩
    · rw [hnew, hrecorded.entities, List.append_assoc]
      exact ⟨_, rfl⟩
    · rw [List.flatten_cons, List.filterMap_append, run_append, hrecorded.registry]
      exact hreplayed.registry
    · have hflush : layerFlush (ctx :: ctxs') = ctx.flush ++ layerFlush ctxs' := rfl
      rw [hflush, List.filterMap_append, hrecorded.removed, hreplayed.removed,
        List.flatten_cons, List.filterMap_append]
    · intro call hcall
      rcases List.mem_append.mp (List.flatten_cons ▸ hcall) with hcall | hcall
      · refine (hrecorded.living call hcall).mono ?_
        rw [hnew]
        exact List.subset_append_left _ _
      · exact hreplayed.living call hcall

/-- What the systems of a layer ask for. -/
def layerDirects (systems : List (List (Call κ C))) : List (WorldOp κ C) := directs systems.flatten

omit [DecidableEq κ] in
theorem layerDirects_cons (calls : List (Call κ C)) (systems : List (List (Call κ C))) :
    layerDirects (calls :: systems) = directs calls ++ layerDirects systems := by
  unfold layerDirects directs
  rw [List.flatten_cons, List.map_append]

/-! ## The order of the flush -/

/-- The worlds around the first system. -/
theorem exists_recorded (hliving : LivingCalls w₀ (calls :: systems))
    (hrun : w₀.runSystems (calls :: systems) = some (w, ctxs))
    (hnodup : (w.entities.map Entity.id).Nodup) :
    ∃ w₁ ctx ctxs', run WorldContext.call (w₀, .init) calls = some (w₁, ctx) ∧
      w₁.runSystems systems = some (w, ctxs') ∧ ctxs = ctx :: ctxs' ∧
      (w₁.entities.map Entity.id).Nodup ∧ LivingCalls w₁ systems ∧
      Recorded w₀ calls w₁ ctx := by
  obtain ⟨⟨w₁, ctx⟩, hcalls, hrest⟩ := Option.bind_eq_some_iff.mp hrun
  obtain ⟨⟨w', ctxs'⟩, hsystems, heq⟩ := Option.map_eq_some_iff.mp hrest
  cases heq
  have hliving₁ := hliving.2 w₁ ctx hcalls
  obtain ⟨new, hnew⟩ := (replayed_of_run hliving₁ hsystems hnodup).entities
  have hnodup₁ : (w₁.entities.map Entity.id).Nodup := by
    rw [hnew, List.map_append] at hnodup
    exact hnodup.of_append_left
  exact ⟨w₁, ctx, ctxs', hcalls, hsystems, rfl, hnodup₁, hliving₁,
    recorded_of_run hliving.1 hcalls hnodup₁⟩

/-- What the calls do to an entry, in the order of the flush: a system touches its new entities with
all components first. -/
def flushTouches (k : κ) (id : UInt32) : World κ C → List (List (Call κ C)) → List (Touch κ C)
  | _, [] => []
  | w, calls :: systems =>
    (if id ∈ w.entities.map Entity.id then touches k id (directs calls)
      else Touch.deferred (touches k id (directs calls))) ++
      match run WorldContext.call (w, .init) calls with
      | none => []
      | some (w', _) => flushTouches k id w' systems

theorem touches_layerFlush (k : κ) (id : UInt32) (hliving : LivingCalls w₀ systems)
    (hrun : w₀.runSystems systems = some (w, ctxs))
    (hnodup : (w.entities.map Entity.id).Nodup) :
    touches k id (layerFlush ctxs) = flushTouches k id w₀ systems := by
  induction systems generalizing w₀ ctxs with
  | nil =>
    cases hrun
    rfl
  | cons calls systems ih =>
    obtain ⟨w₁, ctx, ctxs', hcalls, hsystems, rfl, hnodup₁, hliving₁, hrecorded⟩ :=
      exists_recorded hliving hrun hnodup
    have hflush : layerFlush (ctx :: ctxs') = ctx.flush ++ layerFlush ctxs' := rfl
    rw [hflush, touches_append, ih hliving₁ hsystems, flushTouches, hcalls]
    by_cases hid : id ∈ w₀.entities.map Entity.id
    · rw [if_pos hid, hrecorded.touches_old hnodup₁ hid]
    · rw [if_neg hid, hrecorded.touches_new hid]

/-- The flush does to an entry what the calls ask for, in some order. -/
theorem mem_flushTouches_iff {t : Touch κ C} (hrun : w₀.runSystems systems = some (w, ctxs)) :
    t ∈ flushTouches k id w₀ systems ↔ t ∈ touches k id (layerDirects systems) := by
  induction systems generalizing w₀ ctxs with
  | nil => rfl
  | cons calls systems ih =>
    obtain ⟨⟨w₁, ctx⟩, hcalls, hrest⟩ := Option.bind_eq_some_iff.mp hrun
    obtain ⟨⟨w', ctxs'⟩, hsystems, heq⟩ := Option.map_eq_some_iff.mp hrest
    cases heq
    have hsystem : t ∈ (if id ∈ w₀.entities.map Entity.id then touches k id (directs calls)
        else Touch.deferred (touches k id (directs calls))) ↔ t ∈ touches k id (directs calls) := by
      split
      · rfl
      · exact Touch.mem_deferred_iff
    rw [flushTouches, hcalls, List.mem_append, hsystem, layerDirects_cons, touches_append,
      List.mem_append]
    exact or_congr_right (ih hsystems)

end Csics.Ecs
