import Csics.Ecs.Deferred

/-!
# The arguments of a deferred component

`add_component<C>(e, args...)` of a world makes `C(args...)`. A context defers it. For an entity
that it has added it records `args...` in the variant of all component types, whose constructor
selects the alternative, and for another one it records `C{args...}`. So the flush may add another
component than the call asks for, or one of another type.

The flush agrees with the calls in their order if and only if no entity is added behind a
`destroy_entity`, and for every entity that stays and every component type the last call is the last
one in the order of the flush too, or leaves the same (`inOrder_iff_last`).
-/

namespace Csics.Ecs

open Base

variable {κ : Type*} {C : κ → Type*}

/-- What the arguments of `add_component<C>` make. -/
structure ComponentArgs (κ : Type*) (C : κ → Type*) where
  /-- `C(args...)` -/
  parens : Component κ C
  /-- `C{args...}` -/
  braced : C parens.1
  /-- What `std::variant<Components...>(args...)` holds. -/
  variant : Component κ C

/-- A call of a system on its context. -/
inductive ContextCall (κ : Type*) (C : κ → Type*) where
  | addEntity
  | addComponent (e : Entity) (args : ComponentArgs κ C)
  | removeComponent (k : κ) (e : Entity)
  | destroyEntity (e : Entity)

namespace ContextCall

/-- What the call asks for. -/
def asked : ContextCall κ C → Call κ C
  | .addEntity => .addEntity
  | .addComponent e args => .addComponent e args.parens
  | .removeComponent k e => .removeComponent k e
  | .destroyEntity e => .destroyEntity e

/-- What is recorded, for an entity that the context has added or for another one. -/
def recorded (added : Bool) : ContextCall κ C → Call κ C
  | .addEntity => .addEntity
  | .addComponent e args =>
    .addComponent e (if added = true then args.variant else ⟨args.parens.1, args.braced⟩)
  | .removeComponent k e => .removeComponent k e
  | .destroyEntity e => .destroyEntity e

end ContextCall

/-! ## The code -/

namespace WorldContext

/-- `add_component<C>(e, args...)`. -/
def addComponentArgs (ctx : WorldContext κ C) (w : World κ C) (e : Entity)
    (args : ComponentArgs κ C) : Option (World κ C × WorldContext κ C) :=
  match emplaceDeferred e args.variant ctx.deferredEntities with
  | some ds => some (w, { ctx with deferredEntities := ds })
  | none => ctx.record w e (.addComponent e ⟨args.parens.1, args.braced⟩)

/-- One call of a system. -/
def contextCall : World κ C × WorldContext κ C → ContextCall κ C →
    Option (World κ C × WorldContext κ C)
  | (w, ctx), .addEntity => ctx.addEntity w
  | (w, ctx), .addComponent e args => ctx.addComponentArgs w e args
  | (w, ctx), .removeComponent k e => ctx.removeComponent w k e
  | (w, ctx), .destroyEntity e => ctx.destroyEntity w e

end WorldContext

namespace World

/-- The systems of a layer, one after the other, each with a context of its own. -/
def runContextSystems : World κ C → List (List (ContextCall κ C)) →
    Option (World κ C × List (WorldContext κ C))
  | w, [] => some (w, [])
  | w, calls :: systems =>
    (Base.run WorldContext.contextCall (w, .init) calls).bind fun (w, ctx) =>
      (runContextSystems w systems).map fun (w, ctxs) => (w, ctx :: ctxs)

variable [DecidableEq κ]

/-- One layer without a hook: its systems, and the flush of the contexts in order. -/
def runContextLayer (w : World κ C) (systems : List (List (ContextCall κ C))) :
    Option (World κ C) :=
  (w.runContextSystems systems).bind fun (w, ctxs) =>
    Base.run step w (ctxs.flatMap WorldContext.flush)

end World

/-! ## What a system records -/

variable [DecidableEq κ] {w w₁ w' : World κ C} {ctx : WorldContext κ C} {call : ContextCall κ C}
  {calls : List (ContextCall κ C)} {systems : List (List (ContextCall κ C))}
  {ctxs : List (WorldContext κ C)} {e : Entity} {k : κ} {id : UInt32}

/-- The context has added an entity with the id of the call. -/
def ContextCall.onAdded (ctx : WorldContext κ C) : ContextCall κ C → Bool
  | .addComponent e _ => decide (e.id ∈ ctx.created.map Entity.id)
  | _ => false

/-- The calls with the components that are recorded. -/
def resolve : World κ C × WorldContext κ C → List (ContextCall κ C) → List (Call κ C)
  | _, [] => []
  | s, call :: calls =>
    call.recorded (call.onAdded s.2) ::
      match WorldContext.contextCall s call with
      | none => []
      | some s' => resolve s' calls

def resolveSystems : World κ C → List (List (ContextCall κ C)) → List (List (Call κ C))
  | _, [] => []
  | w, calls :: systems =>
    resolve (w, .init) calls ::
      match run WorldContext.contextCall (w, .init) calls with
      | none => []
      | some (w', _) => resolveSystems w' systems

omit [DecidableEq κ] in
theorem emplaceDeferred_eq_none_iff {c : Component κ C} {ds : List (DeferredEntity κ C)} :
    WorldContext.emplaceDeferred e c ds = none ↔ e.id ∉ ds.map fun d => d.entity.id := by
  constructor
  · exact WorldContext.notMem_of_emplaceDeferred
  · intro hid
    by_contra hne
    obtain ⟨ds', hds⟩ := Option.ne_none_iff_exists'.mp hne
    obtain ⟨before, d, after, rfl, hd, -⟩ := WorldContext.emplaceDeferred_cases hds
    refine hid ?_
    rw [← hd, List.map_append, List.map_cons]
    exact List.mem_append_right _ List.mem_cons_self

/-- A call does what it does with the component that is recorded. -/
theorem contextCall_eq (s : World κ C × WorldContext κ C) (call : ContextCall κ C) :
    WorldContext.contextCall s call = WorldContext.call s (call.recorded (call.onAdded s.2)) := by
  obtain ⟨w, ctx⟩ := s
  cases call with
  | addEntity => rfl
  | removeComponent k e => rfl
  | destroyEntity e => rfl
  | addComponent e args =>
    have hcreated : ctx.created.map Entity.id = ctx.deferredEntities.map fun d => d.entity.id := by
      rw [WorldContext.created, List.map_map]
      rfl
    have hcall : ∀ b, ContextCall.recorded b (.addComponent e args) =
      .addComponent e (if b = true then args.variant else ⟨args.parens.1, args.braced⟩) :=
        fun b => rfl
    show ctx.addComponentArgs w e args = _
    by_cases hid : e.id ∈ ctx.created.map Entity.id
    · have hon : ContextCall.onAdded ctx (.addComponent e args) = true := decide_eq_true hid
      rw [hon, hcall, if_pos rfl]
      show _ = ctx.addComponent w e args.variant
      unfold WorldContext.addComponentArgs WorldContext.addComponent
      rw [hcreated] at hid
      cases hds : WorldContext.emplaceDeferred e args.variant ctx.deferredEntities with
      | none => exact absurd hid (emplaceDeferred_eq_none_iff.mp hds)
      | some ds => rfl
    · have hon : ContextCall.onAdded ctx (.addComponent e args) = false := decide_eq_false hid
      rw [hon, hcall, if_neg Bool.false_ne_true]
      show _ = ctx.addComponent w e ⟨args.parens.1, args.braced⟩
      unfold WorldContext.addComponentArgs WorldContext.addComponent
      rw [hcreated] at hid
      rw [emplaceDeferred_eq_none_iff.mpr hid, emplaceDeferred_eq_none_iff.mpr hid]

theorem run_resolve {s t : World κ C × WorldContext κ C}
    (h : run WorldContext.contextCall s calls = some t) :
    run WorldContext.call s (resolve s calls) = some t := by
  induction calls generalizing s with
  | nil => exact h
  | cons call calls ih =>
    obtain ⟨s', hs', hrest⟩ := run_cons_eq_some.mp h
    rw [resolve, hs']
    rw [contextCall_eq] at hs'
    exact run_cons_eq_some.mpr ⟨s', hs', ih hrest⟩

theorem runSystems_resolve (h : w.runContextSystems systems = some (w₁, ctxs)) :
    w.runSystems (resolveSystems w systems) = some (w₁, ctxs) := by
  induction systems generalizing w ctxs with
  | nil => exact h
  | cons calls systems ih =>
    obtain ⟨⟨w₂, ctx⟩, hcalls, hrest⟩ := Option.bind_eq_some_iff.mp h
    obtain ⟨⟨w₃, ctxs'⟩, hsystems, heq⟩ := Option.map_eq_some_iff.mp hrest
    cases heq
    rw [resolveSystems, hcalls, World.runSystems, run_resolve hcalls]
    show (w₂.runSystems (resolveSystems w₂ systems)).map _ = _
    rw [ih hsystems]
    rfl

omit [DecidableEq κ] in
/-- Apart from the components, what is recorded is what the calls ask for. -/
theorem filterMap_resolve {β : Type*} {f : Call κ C → Option β}
    (hf : ∀ call b, f (ContextCall.recorded b call) = f call.asked)
    {s t : World κ C × WorldContext κ C} (h : run WorldContext.contextCall s calls = some t) :
    (resolve s calls).filterMap f = (calls.map ContextCall.asked).filterMap f := by
  induction calls generalizing s with
  | nil => rfl
  | cons call calls ih =>
    obtain ⟨s', hs', hrest⟩ := run_cons_eq_some.mp h
    rw [resolve, hs', List.map_cons, List.filterMap_cons, List.filterMap_cons, hf, ih hrest]

omit [DecidableEq κ] in
theorem filterMap_resolveSystems {β : Type*} {f : Call κ C → Option β}
    (hf : ∀ call b, f (ContextCall.recorded b call) = f call.asked)
    (h : w.runContextSystems systems = some (w₁, ctxs)) :
    (resolveSystems w systems).flatten.filterMap f =
      (systems.flatten.map ContextCall.asked).filterMap f := by
  induction systems generalizing w ctxs with
  | nil => rfl
  | cons calls systems ih =>
    obtain ⟨⟨w₂, ctx⟩, hcalls, hrest⟩ := Option.bind_eq_some_iff.mp h
    obtain ⟨⟨w₃, ctxs'⟩, hsystems, heq⟩ := Option.map_eq_some_iff.mp hrest
    cases heq
    rw [resolveSystems, hcalls, List.flatten_cons, List.flatten_cons, List.filterMap_append,
      List.map_append, List.filterMap_append, filterMap_resolve hf hcalls, ih hsystems]

omit [DecidableEq κ] in
/-- A call of the systems with a property that is not about components is recorded. -/
theorem exists_resolve_iff {P : Call κ C → Prop}
    (hP : ∀ call b, P (ContextCall.recorded b call) ↔ P call.asked)
    (h : w.runContextSystems systems = some (w₁, ctxs)) :
    (∃ call ∈ (resolveSystems w systems).flatten, P call) ↔
      ∃ call ∈ systems.flatten, P call.asked := by
  classical
  have hmem : ∀ calls : List (Call κ C), (∃ call ∈ calls, P call) ↔
      () ∈ calls.filterMap fun call => if P call then some () else none := by
    intro calls
    rw [List.mem_filterMap]
    refine exists_congr fun call => and_congr_right fun _ => ?_
    rw [Option.ite_none_right_eq_some, and_iff_left rfl]
  rw [hmem, filterMap_resolveSystems (fun call b => by rw [hP]) h, ← hmem]
  simp only [List.mem_map, exists_exists_and_eq_and]

/-! ## Living entities -/

/-- All calls of the systems are about entities that are alive. -/
def LivingContextCalls : World κ C → List (List (ContextCall κ C)) → Prop
  | _, [] => True
  | w, calls :: systems =>
    Guarded WorldContext.contextCall (fun p call => call.asked.Living p.1) (w, .init) calls ∧
      ∀ w' ctx, run WorldContext.contextCall (w, .init) calls = some (w', ctx) →
        LivingContextCalls w' systems

omit [DecidableEq κ] in
theorem living_recorded (b : Bool) : (call.recorded b).Living w ↔ call.asked.Living w := by
  cases call with
  | addEntity | addComponent e args | removeComponent k e | destroyEntity e => rfl

theorem guarded_resolve {s : World κ C × WorldContext κ C}
    (h : Guarded WorldContext.contextCall (fun p call => call.asked.Living p.1) s calls) :
    Guarded WorldContext.call (fun p call => call.Living p.1) s (resolve s calls) := by
  induction calls generalizing s with
  | nil => trivial
  | cons call calls ih =>
    refine ⟨(living_recorded _).mpr h.1, ?_⟩
    intro s' hs'
    rw [← contextCall_eq] at hs'
    rw [hs']
    exact ih (h.2 s' hs')

theorem living_resolve (hliving : LivingContextCalls w systems)
    (h : w.runContextSystems systems = some (w₁, ctxs)) :
    LivingCalls w (resolveSystems w systems) := by
  induction systems generalizing w ctxs with
  | nil => trivial
  | cons calls systems ih =>
    obtain ⟨⟨w₂, ctx⟩, hcalls, hrest⟩ := Option.bind_eq_some_iff.mp h
    obtain ⟨⟨w₃, ctxs'⟩, hsystems, heq⟩ := Option.map_eq_some_iff.mp hrest
    cases heq
    refine ⟨guarded_resolve hliving.1, ?_⟩
    intro w' ctx' hrun
    cases (run_resolve hcalls).symm.trans hrun
    rw [hcalls]
    exact ih (hliving.2 w₂ ctx hcalls) hsystems

/-! ## The order of the flush -/

/-- What the calls do to an entry as they are recorded, in the order of the flush. -/
def flushOrder (k : κ) (id : UInt32) : World κ C → List (List (ContextCall κ C)) → List (Touch κ C)
  | _, [] => []
  | w, calls :: systems =>
    (if id ∈ w.entities.map Entity.id then
        touches k id (directs (calls.map (ContextCall.recorded false)))
      else Touch.deferred (touches k id (directs (calls.map (ContextCall.recorded true))))) ++
      match run WorldContext.contextCall (w, .init) calls with
      | none => []
      | some (w', _) => flushOrder k id w' systems

omit [DecidableEq κ] in
/-- The entities that a call adds are those that its context records. -/
theorem created_of_contextCall {s s' : World κ C × WorldContext κ C}
    (h : WorldContext.contextCall s call = some s') :
    ∃ new, s'.1.entities = s.1.entities ++ new ∧ s'.2.created = s.2.created ++ new := by
  obtain ⟨w, ctx⟩ := s
  obtain ⟨w', ctx'⟩ := s'
  have hrecord : ∀ {e : Entity} {action : DeferredAction κ C},
      ctx.record w e action = some (w', ctx') →
        ∃ new, w'.entities = w.entities ++ new ∧ ctx'.created = ctx.created ++ new := by
    intro e action hrecord
    obtain ⟨rfl, rfl⟩ := WorldContext.record_eq_some hrecord
    exact ⟨[], (List.append_nil _).symm, (List.append_nil _).symm⟩
  cases call with
  | addEntity =>
    obtain ⟨⟨e, w''⟩, hadd, heq⟩ := Option.map_eq_some_iff.mp h
    cases heq
    refine ⟨[e], (World.addEntity_cases hadd).2, ?_⟩
    unfold WorldContext.created
    rw [List.map_append]
    rfl
  | addComponent e args =>
    have hadd : ctx.addComponentArgs w e args = some (w', ctx') := h
    unfold WorldContext.addComponentArgs at hadd
    split at hadd
    · rename_i ds hds
      cases hadd
      obtain ⟨before, d, after, hsplit, -, rfl⟩ := WorldContext.emplaceDeferred_cases hds
      refine ⟨[], (List.append_nil _).symm, ?_⟩
      unfold WorldContext.created
      rw [hsplit, List.append_nil, List.map_append, List.map_append]
      rfl
    · exact hrecord hadd
  | removeComponent k e => exact hrecord h
  | destroyEntity e => exact hrecord h

omit [DecidableEq κ] in
theorem entities_of_run {s t : World κ C × WorldContext κ C}
    (h : run WorldContext.contextCall s calls = some t) :
    ∃ new, t.1.entities = s.1.entities ++ new := by
  refine run_preserves (I := fun p => ∃ new, p.1.entities = s.1.entities ++ new) ?_
    ⟨[], (List.append_nil _).symm⟩ h
  rintro p call p' ⟨new, hnew⟩ hcall
  obtain ⟨new', hnew', -⟩ := created_of_contextCall hcall
  exact ⟨new ++ new', by rw [hnew', hnew, List.append_assoc]⟩

/-- A component is recorded for a new entity of the system, or for one from before it. -/
theorem touches_resolve (k : κ) (id : UInt32) {old : List Entity}
    {s t : World κ C × WorldContext κ C}
    (hentities : s.1.entities = old ++ s.2.created)
    (hliving : Guarded WorldContext.contextCall (fun p call => call.asked.Living p.1) s calls)
    (hrun : run WorldContext.contextCall s calls = some t)
    (hnodup : (t.1.entities.map Entity.id).Nodup) :
    touches k id (directs (resolve s calls)) = touches k id
      (directs (calls.map (ContextCall.recorded (decide (id ∉ old.map Entity.id))))) := by
  induction calls generalizing s with
  | nil => rfl
  | cons call calls ih =>
    obtain ⟨s', hs', hrest⟩ := run_cons_eq_some.mp hrun
    obtain ⟨new, hnew, hcreated⟩ := created_of_contextCall hs'
    have hentities' : s'.1.entities = old ++ s'.2.created := by
      rw [hnew, hcreated, hentities, List.append_assoc]
    have hhead : (call.recorded (call.onAdded s.2)).direct.touch? k id =
        (call.recorded (decide (id ∉ old.map Entity.id))).direct.touch? k id := by
      cases call with
      | addEntity | removeComponent k e | destroyEntity e => rfl
      | addComponent e args =>
        by_cases hid : e.id = id
        · subst hid
          have hnodup' : ((old ++ s.2.created).map Entity.id).Nodup := by
            obtain ⟨later, hlater⟩ := entities_of_run hrun
            rw [hlater, hentities, List.map_append] at hnodup
            exact hnodup.of_append_left
          have halive : e ∈ old ++ s.2.created := hentities ▸ hliving.1
          have hiff : e.id ∈ s.2.created.map Entity.id ↔ e.id ∉ old.map Entity.id := by
            rw [List.map_append] at hnodup'
            constructor
            · exact fun hmem hold => List.disjoint_of_nodup_append hnodup' hold hmem
            · intro hold
              have hmem := List.mem_map_of_mem (f := Entity.id) halive
              rw [List.map_append] at hmem
              exact (List.mem_append.mp hmem).resolve_left hold
          have hon : ContextCall.onAdded s.2 (.addComponent e args) =
            decide (e.id ∉ old.map Entity.id) := decide_eq_decide.mpr hiff
          rw [hon]
        · exact (if_neg fun hand => hid hand.2).trans (if_neg fun hand => hid hand.2).symm
    have htail := ih hentities' (hliving.2 s' hs') hrest
    rw [resolve, hs', List.map_cons]
    unfold touches directs at htail ⊢
    rw [List.map_cons, List.map_cons, List.filterMap_cons, List.filterMap_cons, hhead, htail]

/-- So the flush has the order of the recorded calls. -/
theorem flushTouches_resolve (hliving : LivingContextCalls w systems)
    (h : w.runContextSystems systems = some (w₁, ctxs))
    (hnodup : (w₁.entities.map Entity.id).Nodup) :
    flushTouches k id w (resolveSystems w systems) = flushOrder k id w systems := by
  induction systems generalizing w ctxs with
  | nil => rfl
  | cons calls systems ih =>
    have hrun := runSystems_resolve h
    have hliving' := living_resolve hliving h
    obtain ⟨⟨w₂, ctx⟩, hcalls, hrest⟩ := Option.bind_eq_some_iff.mp h
    obtain ⟨⟨w₃, ctxs'⟩, hsystems, heq⟩ := Option.map_eq_some_iff.mp hrest
    cases heq
    rw [resolveSystems] at hrun hliving'
    obtain ⟨w₂', ctx', ctxs₂, hcalls', -, -, hnodup₂, -, -⟩ := exists_recorded hliving' hrun hnodup
    cases hcalls'.symm.trans (run_resolve hcalls)
    have htouches := touches_resolve k id (List.append_nil w.entities).symm hliving.1 hcalls
      hnodup₂
    rw [resolveSystems, flushTouches, flushOrder, run_resolve hcalls, hcalls, htouches]
    dsimp only
    rw [ih (hliving.2 w₂ ctx hcalls) hsystems]
    by_cases hid : id ∈ w.entities.map Entity.id
    · rw [if_pos hid, if_pos hid, decide_eq_false (not_not.mpr hid)]
    · rw [if_neg hid, if_neg hid, decide_eq_true hid]

/-! ## Where the order is kept -/

/-- The operations that the calls ask for, in the order of the calls. -/
def askedDirects (systems : List (List (ContextCall κ C))) : List (WorldOp κ C) :=
  directs (systems.flatten.map ContextCall.asked)

/-- The world `w'` is what the calls make of `w` when each takes effect at once. -/
def InOrder (w : World κ C) (systems : List (List (ContextCall κ C))) (w' : World κ C) : Prop :=
  ∃ v, run World.step w (askedDirects systems) = some v ∧ w'.Agree v

/-- For every entity that is not destroyed, and every component type of it that shows, the last of
the recorded calls in the order of the flush leaves the component that the last call asks for. -/
def LastKept (w : World κ C) (systems : List (List (ContextCall κ C))) : Prop :=
  ∀ w₁ ctxs, w.runContextSystems systems = some (w₁, ctxs) → ∀ e ∈ w₁.entities,
    .destroyEntity e ∉ systems.flatten → ∀ k,
      Touch.Shows e (w.entry k e.id) (touches k e.id (askedDirects systems)) →
        Touch.lastComponent (w.entry k e.id) (flushOrder k e.id w systems) =
          Touch.lastComponent (w.entry k e.id) (touches k e.id (askedDirects systems))

omit [DecidableEq κ] in
theorem entityOps_resolve (h : w.runContextSystems systems = some (w₁, ctxs)) :
    entityOps (resolveSystems w systems).flatten =
      entityOps (systems.flatten.map ContextCall.asked) := by
  rw [entityOps_eq, entityOps_eq]
  refine filterMap_resolveSystems (fun call b => ?_) h
  cases call with
  | addEntity | addComponent e args | removeComponent k e | destroyEntity e => rfl

namespace LayerRun

variable (h : LayerRun w (resolveSystems w systems) w₁ ctxs w')
  (hsystems : w.runContextSystems systems = some (w₁, ctxs))

include h hsystems

/-- The handle of a call is alive when the flush begins. -/
theorem mem_of_asked {call : Call κ C} (hcall : call ∈ systems.flatten.map ContextCall.asked)
    (he : call.handle? = some e) : e ∈ w₁.entities := by
  obtain ⟨asked, hasked, rfl⟩ := List.mem_map.mp hcall
  obtain ⟨call', hcall', he'⟩ := (exists_resolve_iff (P := fun call => call.handle? = some e)
    (fun call b => by cases call <;> rfl) hsystems).mpr ⟨asked, hasked, he⟩
  exact h.mem_of_handle hcall' he'

theorem mem_iff_asked (he : e ∈ w₁.entities) :
    e ∈ w'.entities ↔ .destroyEntity e ∉ systems.flatten := by
  have hdestroy := exists_resolve_iff (P := fun call => call = .destroyEntity e)
    (fun call b => by cases call <;> simp [ContextCall.recorded, ContextCall.asked]) hsystems
  have hasked : (∃ call ∈ systems.flatten, call.asked = .destroyEntity e) ↔
      .destroyEntity e ∈ systems.flatten := by
    constructor
    · rintro ⟨call, hcall, heq⟩
      cases call with
      | destroyEntity x =>
        cases heq
        exact hcall
      | addEntity | addComponent x args | removeComponent k x => cases heq
    · exact fun hcall => ⟨_, hcall, rfl⟩
  rw [h.mem_iff he, ← hasked, ← hdestroy]
  simp only [exists_eq_right]

theorem inRange_of_asked {op : WorldOp κ C} (hop : op ∈ askedDirects systems)
    (hnone : op.registered? = none) : op.Flushed ∧ op.inRange = true := by
  obtain ⟨call, hcall, rfl⟩ := List.mem_map.mp hop
  obtain ⟨call, hmem, rfl⟩ := List.mem_map.mp hcall
  cases call with
  | addComponent e args =>
    obtain ⟨call', hcall', c, rfl⟩ :=
      (exists_resolve_iff (P := fun call => ∃ c, call = .addComponent e c)
        (fun call b => by cases call <;> simp [ContextCall.recorded, ContextCall.asked])
        hsystems).mpr ⟨.addComponent e args, hmem, args.parens, rfl⟩
    exact ⟨trivial, decide_eq_true (h.inRange_of_add hcall')⟩
  | removeComponent k e => exact ⟨trivial, rfl⟩
  | addEntity => cases hnone
  | destroyEntity e => cases hnone

/-- The removals of an entry are recorded as they are. -/
theorem clear_mem_iff : .clear ∈ flushTouches k id w (resolveSystems w systems) ↔
    .clear ∈ touches k id (askedDirects systems) := by
  have htouches : ∀ calls : List (Call κ C), .clear ∈ touches k id (directs calls) ↔
      ∃ call ∈ calls, call.direct.touch? k id = some .clear := by
    intro calls
    unfold touches directs
    rw [List.filterMap_map, List.mem_filterMap]
    rfl
  rw [mem_flushTouches_iff h.systems, layerDirects, askedDirects, htouches, htouches,
    exists_resolve_iff (fun call b => ?_) hsystems]
  · simp only [List.mem_map, exists_exists_and_eq_and]
  · cases call with
    | addEntity | removeComponent j e | destroyEntity e => rfl
    | addComponent e args =>
      have hnot : ∀ c : Component κ C,
          (Call.addComponent e c).direct.touch? k id ≠ some .clear := by
        intro c htouch
        have hite : (if c.1 = k ∧ e.id = id then some (Touch.write e c) else none) =
          some .clear := htouch
        split at hite <;> cases hite
      exact iff_of_false (hnot _) (hnot _)

end LayerRun

/-- The flush has made what the calls in their order would make exactly if no entity is added
behind a `destroy_entity`, and the last call on every component is kept. -/
theorem inOrder_iff_last {ops : List (Op κ C)} (systems : List (List (ContextCall κ C)))
    (hrun : run Op.step .init ops = some w) (hliving : LivingContextCalls w systems)
    (hlayer : w.runContextLayer systems = some w') (hlen : w'.generations.length ≤ 2 ^ 32) :
    InOrder w systems w' ↔
      NoAddBehindDestroy (systems.flatten.map ContextCall.asked) ∧ LastKept w systems := by
  obtain ⟨⟨w₁, ctxs⟩, hsystems, hflush⟩ := Option.bind_eq_some_iff.mp hlayer
  have hlayer' : w.runLayer ⟨resolveSystems w systems, []⟩ = some w' := by
    rw [World.runLayer, runSystems_resolve hsystems]
    exact hflush
  obtain ⟨w₂, ctxs₂, h⟩ := exists_layerRun (World.sound_of_run hrun)
    (living_resolve hliving hsystems) hlayer' hlen
  cases (runSystems_resolve hsystems).symm.trans h.systems
  have hregistered : (askedDirects systems).filterMap WorldOp.registered? =
      entityOps (resolveSystems w systems).flatten := (entityOps_resolve hsystems).symm
  have hcomponent : ∀ v, run World.step w (askedDirects systems) = some v → ∀ e ∈ w₁.entities,
      ∀ k, w'.component? k e = v.component? k e ↔
        (Touch.Shows e (w.entry k e.id) (touches k e.id (askedDirects systems)) →
          Touch.lastComponent (w.entry k e.id) (flushOrder k e.id w systems) =
            Touch.lastComponent (w.entry k e.id) (touches k e.id (askedDirects systems))) := by
    intro v hv e he k
    have hflushThrough : Touch.Through e (flushTouches k e.id w (resolveSystems w systems)) :=
      fun x c hmem => h.through he (fun call hcall y hy => h.mem_of_handle hcall hy) x c
        ((mem_flushTouches_iff h.systems).mp hmem)
    rw [← flushTouches_resolve hliving hsystems h.nodup]
    exact h.component?_eq_iff hv hflushThrough
      (h.through he fun call hcall y hy => h.mem_of_asked hsystems hcall hy)
      (h.clear_mem_iff hsystems)
  rw [← settled_entityOps_iff, ← entityOps_resolve hsystems]
  constructor
  · rintro ⟨v, hv, hagree⟩
    refine ⟨h.settled_of_agree hregistered hv hagree, ?_⟩
    intro w₂ ctxs₂ hsystems₂ e he hdestroy k
    cases hsystems.symm.trans hsystems₂
    have halive := (h.mem_iff_asked hsystems he).mpr hdestroy
    exact (hcomponent v hv e he k).mp (hagree.components e halive k)
  · rintro ⟨hsettled, hlast⟩
    obtain ⟨v, hv, hentities⟩ := h.exists_run_of_settled hregistered
      (fun op hop hnone => h.inRange_of_asked hsystems hop hnone) hsettled
    refine ⟨v, hv, fun x => by rw [hentities], ?_⟩
    intro e halive k
    have he := h.subset halive
    exact (hcomponent v hv e he k).mpr
      (hlast w₁ ctxs hsystems e he ((h.mem_iff_asked hsystems he).mp halive) k)

/-- The component types of a small world, an alternative each. -/
inductive Scalar where
  | int
  | double
  deriving DecidableEq

/-- `add_component<double>(e, 2.0)`. -/
def twoArgs : ComponentArgs Scalar fun _ => Int := ⟨⟨.double, 2⟩, 2, ⟨.double, 2⟩⟩

/-- `add_component<double>(e)`: a variant without arguments holds the first alternative. -/
def noArgs : ComponentArgs Scalar fun _ => Int := ⟨⟨.double, 0⟩, 0, ⟨.int, 0⟩⟩

/-- A system adds an entity and gives it a component. -/
theorem inOrder_iff_last_added : ∃ w' : World Scalar fun _ => Int,
    InOrder .init [[.addEntity, .addComponent ⟨0, 0⟩ twoArgs]] w' ∧
      w'.component? .double ⟨0, 0⟩ = some 2 := by
  have hrun : run Op.step (.init : World Scalar fun _ => Int) [] = some .init := rfl
  refine ⟨_, (inOrder_iff_last [[.addEntity, .addComponent ⟨0, 0⟩ twoArgs]] hrun ?_ rfl
    (by decide)).mpr ⟨?_, ?_⟩, rfl⟩
  · refine ⟨⟨trivial, ?_⟩, fun _ _ _ => trivial⟩
    intro p hp
    cases hp
    exact ⟨List.mem_cons_self, fun _ _ => trivial⟩
  · refine List.Pairwise.imp_of_mem ?_ (List.pairwise_of_forall fun _ _ => trivial)
    intro a b ha _ _ e hdestroy
    subst hdestroy
    simp [ContextCall.asked] at ha
  · intro w₁ ctxs hsystems e he _ k _
    cases hsystems
    cases List.mem_singleton.mp he
    cases k with
    | int => rfl
    | double => rfl

/-- Without arguments, the entity gets an `int` where the call asks for a `double`. -/
theorem not_inOrder_default : ∃ w' : World Scalar fun _ => Int,
    World.init.runContextLayer [[.addEntity, .addComponent ⟨0, 0⟩ noArgs]] = some w' ∧
      w'.component? .double ⟨0, 0⟩ = none ∧ w'.component? .int ⟨0, 0⟩ = some 0 ∧
      ¬ InOrder .init [[.addEntity, .addComponent ⟨0, 0⟩ noArgs]] w' := by
  refine ⟨_, rfl, rfl, rfl, ?_⟩
  rintro ⟨v, hv, hagree⟩
  have hcomponent := hagree.components ⟨0, 0⟩ List.mem_cons_self .double
  cases hv
  exact absurd hcomponent (by decide)

end Csics.Ecs
