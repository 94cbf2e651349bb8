import Csics.Ecs.Allocation
import Csics.Ecs.FiniteMap
import Csics.Ecs.Iteration

/-!
# What a world is for

A `Store` is a set of entities with at most one component of each type, and nothing else: entities
do not share ids, and what is not alive has no component. `Store.Run` is what the operations are
meant to do to it.

A world is not a store, for `remove_entity` leaves the components behind. But if every operation is
about a living entity, and the components of an entity are removed before the entity, then a world
does what a store does, in every run, and its views show the store (`run_represents`).
-/

namespace Csics.Ecs

open Base

variable {κ : Type*} {C : κ → Type*}

/-! ## Stores -/

structure Store (κ : Type*) (C : κ → Type*) where
  living : Set Entity
  component : ∀ k, Entity → Option (C k)
  ids_inj : ∀ e ∈ living, ∀ x ∈ living, e.id = x.id → e = x
  owned : ∀ k e, component k e ≠ none → e ∈ living

namespace Store

def empty : Store κ C where
  living := ∅
  component _ _ := none
  ids_inj := by rintro e ⟨⟩
  owned _ _ h := absurd rfl h

/-- A new entity, without components. -/
def add (s : Store κ C) (e : Entity) (he : ∀ x ∈ s.living, x.id ≠ e.id) : Store κ C where
  living := insert e s.living
  component := s.component
  ids_inj := by
    rintro x (rfl | hx) y (rfl | hy) hid
    · rfl
    · exact absurd hid.symm (he y hy)
    · exact absurd hid (he x hx)
    · exact s.ids_inj x hx y hy hid
  owned k x h := Set.mem_insert_of_mem e (s.owned k x h)

/-- The entity with all its components. -/
def remove (s : Store κ C) (e : Entity) : Store κ C where
  living := s.living \ {e}
  component k := Function.update (s.component k) e none
  ids_inj x hx y hy := s.ids_inj x hx.1 y hy.1
  owned k x h := by
    by_cases hx : x = e
    · rw [hx, Function.update_self] at h
      exact absurd rfl h
    · rw [Function.update_of_ne hx] at h
      exact ⟨s.owned k x h, hx⟩

variable [DecidableEq κ]

/-- One component of a living entity, or none. -/
def set (s : Store κ C) (e : Entity) (he : e ∈ s.living) (k : κ) (c : Option (C k)) :
    Store κ C where
  living := s.living
  component := Function.update s.component k (Function.update (s.component k) e c)
  ids_inj := s.ids_inj
  owned j x h := by
    by_cases hx : x = e
    · rw [hx]
      exact he
    · refine s.owned j x ?_
      by_cases hj : j = k
      · subst hj
        rwa [Function.update_self, Function.update_of_ne hx] at h
      · rwa [Function.update_of_ne hj] at h

/-- What an operation is meant to do. -/
inductive Step (s : Store κ C) : WorldOp κ C → Store κ C → Prop where
  | addEntity (e : Entity) (he : ∀ x ∈ s.living, x.id ≠ e.id) : Step s .addEntity (s.add e he)
  | addComponent (e : Entity) (he : e ∈ s.living) (c : Component κ C) :
      Step s (.addComponent e c) (s.set e he c.1 (some c.2))
  | setComponent (e : Entity) (he : e ∈ s.living) (c : Component κ C)
      (hc : s.component c.1 e ≠ none) : Step s (.setComponent e c) (s.set e he c.1 (some c.2))
  | removeComponent (k : κ) (e : Entity) (he : e ∈ s.living) :
      Step s (.removeComponent k e) (s.set e he k none)
  | removeEntity (e : Entity) (he : e ∈ s.living) : Step s (.removeEntity e) (s.remove e)

inductive Run : Store κ C → List (WorldOp κ C) → Store κ C → Prop where
  | nil (s : Store κ C) : Run s [] s
  | cons {s s' t : Store κ C} {op : WorldOp κ C} {ops : List (WorldOp κ C)} :
      Step s op s' → Run s' ops t → Run s (op :: ops) t

end Store

/-! ## Worlds that are stores -/

/-- The operation is about a living entity, and a removed entity has no components. A new id fits
into 32 bits. -/
def WorldOp.Careful (w : World κ C) : WorldOp κ C → Prop
  | .addEntity => w.deadEntities = [] → w.entities.length < 2 ^ 32
  | .addComponent e _ => e ∈ w.entities
  | .setComponent _ _ => True
  | .removeComponent _ e => e ∈ w.entities
  | .removeEntity e => e ∈ w.entities ∧ ∀ k, (w.components k).contains e ≠ some true

instance [Fintype κ] (w : World κ C) : (op : WorldOp κ C) → Decidable (op.Careful w)
  | .addEntity => inferInstanceAs (Decidable (w.deadEntities = [] → w.entities.length < 2 ^ 32))
  | .addComponent e _ | .removeComponent _ e => inferInstanceAs (Decidable (e ∈ w.entities))
  | .setComponent _ _ => isTrue trivial
  | .removeEntity e => inferInstanceAs
      (Decidable (e ∈ w.entities ∧ ∀ k, (w.components k).contains e ≠ some true))

namespace World

structure Represents (w : World κ C) (s : Store κ C) : Prop where
  sound : w.Sound
  fits : w.generations.length ≤ 2 ^ 32
  living : ∀ e, e ∈ w.entities ↔ e ∈ s.living
  component : ∀ k e c, (w.components k).entry e.id = some (e, c) ↔ s.component k e = some c

variable {w w' : World κ C} {s : Store κ C} {k : κ} {e x : Entity}

theorem mem_eraseP_iff {es : List Entity} (hnodup : (es.map Entity.id).Nodup) (he : e ∈ es) :
    x ∈ es.eraseP (fun y => y.id = e.id) ↔ x ∈ es ∧ x ≠ e := by
  by_cases hid : x.id = e.id
  · obtain ⟨y, before, after, -, hy, heq, herase⟩ :=
      List.exists_of_eraseP (p := fun y => y.id = e.id) he (decide_eq_true rfl)
    refine iff_of_false ?_ fun h => h.2 (List.inj_on_of_nodup_map hnodup h.1 he hid)
    rw [herase]
    intro hx
    rw [heq, List.map_append, List.map_cons, List.nodup_middle, List.nodup_cons,
      ← List.map_append] at hnodup
    refine hnodup.1 ?_
    rw [of_decide_eq_true hy, ← hid]
    exact List.mem_map_of_mem hx
  · rw [List.mem_eraseP_of_neg (by simpa using hid), and_iff_left]
    rintro rfl
    exact hid rfl

theorem init_represents : (init : World κ C).Represents .empty where
  sound := init_sound
  fits := Nat.zero_le _
  living e := iff_of_false List.not_mem_nil id
  component k e c := by
    have hentry : ((init : World κ C).components k).entry e.id = none := SparseSet.entry_init e.id
    rw [hentry]
    exact iff_of_false (Option.some_ne_none _).symm (Option.some_ne_none _).symm

namespace Represents

/-- Whoever is recorded is alive. -/
theorem mem_of_entry (h : w.Represents s) {id : UInt32} {c : C k}
    (hentry : (w.components k).entry id = some (x, c)) : x ∈ s.living ∧ x.id = id := by
  have hid := (h.sound.rep k).id_of_entry hentry
  subst hid
  refine ⟨s.owned k x ?_, rfl⟩
  rw [(h.component k x c).mp hentry]
  exact Option.some_ne_none c

/-- What `get_component` finds. -/
theorem component?_eq (h : w.Represents s) : w.component? k e = s.component k e := by
  ext c
  rw [component?, (h.sound.rep k).join_at?_eq_some_iff, h.component]

/-- `has_entity` finds who has the id, and does not look at the generation. -/
theorem hasEntity_iff (h : w.Represents s) :
    w.hasEntity e = true ↔ ∃ x ∈ s.living, x.id = e.id := by
  rw [hasEntity, List.any_eq_true]
  refine exists_congr fun x => and_congr (h.living x) ?_
  exact decide_eq_true_iff

variable [DecidableEq κ]

/-- The new set has the component for the entity, and is otherwise as before. -/
theorem set (h : w.Represents s) (he : e ∈ s.living) {t : SparseSet (C k) maxEntities}
    {c : Option (C k)} (hsound : (w.setSparseSet k t).Sound)
    (hentry : ∀ id, t.entry id = if e.id = id then c.map (e, ·) else (w.components k).entry id) :
    (w.setSparseSet k t).Represents (s.set e he k c) where
  sound := hsound
  fits := h.fits
  living := h.living
  component j x a := by
    show _ ↔ Function.update s.component k (Function.update (s.component k) e c) j x = some a
    by_cases hj : j = k
    · subst hj
      rw [components_setSparseSet_self, Function.update_self, hentry]
      by_cases hx : x = e
      · subst hx
        rw [if_pos rfl, Function.update_self, Option.map_eq_some_iff]
        constructor
        · rintro ⟨a, rfl, heq⟩
          cases heq
          rfl
        · intro hc
          exact ⟨a, hc, rfl⟩
      · rw [Function.update_of_ne hx, ← h.component]
        by_cases hid : e.id = x.id
        · rw [if_pos hid]
          refine iff_of_false ?_ ?_
          · intro hc
            obtain ⟨a, -, heq⟩ := Option.map_eq_some_iff.mp hc
            cases heq
            exact hx rfl
          · intro hc
            exact hx (s.ids_inj x (h.mem_of_entry hc).1 e he hid.symm)
        · rw [if_neg hid]
    · rw [components_setSparseSet_of_ne hj, Function.update_of_ne hj]
      exact h.component j x a

theorem addComponent (h : w.Represents s) (he : e ∈ s.living) {c : Component κ C}
    (hw : w.addComponent e c = some w') : w'.Represents (s.set e he c.1 (some c.2)) := by
  have hstep : w.step (.addComponent e c) = some w' := hw
  have hsound := h.sound.step hstep
  obtain ⟨t, ht, rfl⟩ := Option.map_eq_some_iff.mp hw
  refine h.set he hsound fun id => ?_
  rw [(h.sound.rep c.1).entry_insert ht]
  split
  · rename_i hid
    cases hold : (w.components c.1).entry id with
    | none => rfl
    | some p =>
      obtain ⟨hx, hxid⟩ := h.mem_of_entry hold
      rw [s.ids_inj e he p.1 hx (hid.trans hxid.symm)]
      rfl
  · rfl

theorem removeComponent (h : w.Represents s) (he : e ∈ s.living)
    (hw : w.removeComponent k e = some w') : w'.Represents (s.set e he k none) := by
  have hstep : w.step (.removeComponent k e) = some w' := hw
  have hsound := h.sound.step hstep
  obtain ⟨t, ht, rfl⟩ := Option.map_eq_some_iff.mp hw
  exact h.set he hsound fun id => (h.sound.rep k).entry_remove ht id

theorem addEntity (h : w.Represents s) (hcareful : (WorldOp.addEntity : WorldOp κ C).Careful w)
    (hw : w.addEntity = some (e, w')) :
    ∃ he : ∀ x ∈ s.living, x.id ≠ e.id, w'.Represents (s.add e he) := by
  have hstep : w.step .addEntity = some w' := by
    rw [World.step, hw]
    rfl
  have hfits : (WorldOp.addEntity : WorldOp κ C).Fits w := hcareful
  have hfresh := (fresh_addEntity_iff h.sound.numbered h.fits).mpr hfits e w' hw
  obtain ⟨hcomp, hent⟩ := addEntity_cases hw
  refine ⟨?_, h.sound.step hstep, length_generations_step h.sound h.fits hfits hstep, ?_, ?_⟩
  · intro x hx hid
    exact hfresh (hid ▸ List.mem_map_of_mem ((h.living x).mpr hx))
  · intro x
    rw [hent, List.mem_append, List.mem_singleton, or_comm, h.living]
    rfl
  · intro k x c
    rw [hcomp]
    exact h.component k x c

/-- Without components the entity leaves nothing behind. -/
theorem removeEntity (h : w.Represents s) (he : e ∈ s.living)
    (hbare : ∀ k, (w.components k).contains e ≠ some true) (hw : w.removeEntity e = some w') :
    w'.Represents (s.remove e) := by
  have hstep : w.step (.removeEntity e) = some w' := hw
  have hnodup := h.sound.numbered.nodup h.fits
  obtain ⟨hcomp, hent, -, hgen⟩ := removeEntity_cases hw
  refine ⟨h.sound.step hstep, hgen ▸ h.fits, ?_, ?_⟩
  · intro x
    rw [hent, mem_eraseP_iff hnodup ((h.living e).mpr he), h.living]
    rfl
  · intro k x c
    show _ ↔ Function.update (s.component k) e none x = some c
    rw [hcomp]
    by_cases hx : x = e
    · subst hx
      rw [Function.update_self]
      refine iff_of_false ?_ (Option.some_ne_none c).symm
      intro hentry
      have hmem := (h.sound.rep k).exists_entry_iff.mp ⟨_, hentry⟩
      exact hbare k ((h.sound.rep k).contains_iff.mpr hmem)
    · rw [Function.update_of_ne hx]
      exact h.component k x c

/-- A careful operation on a world is what it is meant to be. -/
theorem step (h : w.Represents s) {op : WorldOp κ C} (hcareful : op.Careful w)
    (hw : w.step op = some w') : ∃ s', s.Step op s' ∧ w'.Represents s' := by
  cases op with
  | addEntity =>
    obtain ⟨⟨e, w''⟩, hadd, rfl⟩ := Option.map_eq_some_iff.mp hw
    obtain ⟨he, h'⟩ := h.addEntity hcareful hadd
    exact ⟨_, .addEntity e he, h'⟩
  | addComponent e c =>
    have he := (h.living e).mp hcareful
    exact ⟨_, .addComponent e he c, h.addComponent he hw⟩
  | setComponent e c =>
    have hset : w.setComponent e c = some w' := hw
    unfold World.setComponent at hset
    split at hset
    · rename_i a ha
      have hc : s.component c.1 e = some a := by
        rw [← h.component?_eq, component?, ha]
        rfl
      have hne : s.component c.1 e ≠ none := by
        rw [hc]
        exact Option.some_ne_none a
      have he := s.owned c.1 e hne
      exact ⟨_, .setComponent e he c hne, h.addComponent he hset⟩
    · cases hset
  | removeComponent k e =>
    have he := (h.living e).mp hcareful
    exact ⟨_, .removeComponent k e he, h.removeComponent he hw⟩
  | removeEntity e =>
    have he := (h.living e).mp hcareful.1
    exact ⟨_, .removeEntity e he, h.removeEntity he hcareful.2 hw⟩

theorem run {ops : List (WorldOp κ C)} (h : w.Represents s)
    (hcareful : Guarded World.step (fun w op => op.Careful w) w ops)
    (hw : Base.run World.step w ops = some w') : ∃ s', s.Run ops s' ∧ w'.Represents s' := by
  induction ops generalizing w s with
  | nil =>
    cases hw
    exact ⟨s, .nil s, h⟩
  | cons op ops ih =>
    obtain ⟨w₁, hstep, hrest⟩ := run_cons_eq_some.mp hw
    obtain ⟨hop, hops⟩ := (guarded_cons_of_eq_some hstep).mp hcareful
    obtain ⟨s₁, hs₁, h₁⟩ := h.step hop hstep
    obtain ⟨s', hs', h'⟩ := ih h₁ hops hrest
    exact ⟨s', .cons hs₁ hs', h'⟩

omit [DecidableEq κ] in
/-- Dereferencing an iterator yields what the store has for the entity. -/
theorem components_eq_some_iff (h : w.Represents s) {ks : List κ} {cs : List (Component κ C)} :
    View.components w.components ks e = some cs ↔
      List.Forall₂ (fun j c => ∃ a, c = ⟨j, a⟩ ∧ s.component j e = some a) ks cs := by
  have hone (j : κ) (c : Component κ C) :
      (((w.components j).at? e).join.map (⟨j, ·⟩) = some c ↔
        ∃ a, c = ⟨j, a⟩ ∧ s.component j e = some a) := by
    rw [← h.component?_eq, component?, Option.map_eq_some_iff]
    constructor
    · rintro ⟨a, ha, rfl⟩
      exact ⟨a, rfl, ha⟩
    · rintro ⟨a, rfl, ha⟩
      exact ⟨a, ha, rfl⟩
  rw [View.components, mapM_eq_some_iff]
  simp only [hone]

omit [DecidableEq κ] in
theorem agree (h : w.Represents s) (k : κ) (ks : List κ) : View.Agree w.components k ks := by
  have hrecorded {j : κ} {id : UInt32} (hj : (w.components j).recorded? id ≠ none) :
      ∃ x, (w.components j).recorded? id = some x ∧ x ∈ s.living ∧ x.id = id := by
    obtain ⟨x, hx⟩ := Option.ne_none_iff_exists'.mp hj
    obtain ⟨⟨y, c⟩, hentry, rfl⟩ := Option.map_eq_some_iff.mp hx
    exact ⟨y, hx, h.mem_of_entry hentry⟩
  intro id hid j hj
  obtain ⟨x, hx, hxs, hxid⟩ := hrecorded (hid j (List.mem_cons_of_mem k hj))
  obtain ⟨y, hy, hys, hyid⟩ := hrecorded (hid k List.mem_cons_self)
  rw [hx, hy, s.ids_inj x hxs y hys (hxid.trans hyid.symm)]

omit [DecidableEq κ] in
/-- Every view of the world shows the store: the living entities that have all the components, each
once, with these components. -/
theorem view (h : w.Represents s) (k : κ) (ks : List κ) :
    ∃ rs, View.iterate w.components k ks (View.findSmallest w.components k ks).length
        (View.begin w.components k ks) = some rs ∧
      (rs.map Prod.fst).Nodup ∧
      ∀ e cs, (e, cs) ∈ rs ↔ e ∈ s.living ∧
        List.Forall₂ (fun j c => ∃ a, c = ⟨j, a⟩ ∧ s.component j e = some a) (k :: ks) cs := by
  have hrep : ∀ j ∈ k :: ks, (w.components j).Rep := fun j _ => h.sound.rep j
  obtain ⟨rs, hrs⟩ := (View.exists_iterate_iff hrep).mpr (h.agree k ks)
  have hpairs := hrs
  rw [View.iterate_begin le_rfl] at hpairs
  obtain ⟨hyields, hcomponents⟩ := mapM_pair_eq_some_iff.mp hpairs
  obtain ⟨i, hi, hsmall⟩ := View.exists_findSmallest w.components k ks
  refine ⟨rs, hrs, ?_, ?_⟩
  · rw [hyields, View.yields_eq_filter, hsmall]
    exact ((h.sound.rep i).nodup.of_map).filter _
  · intro e cs
    constructor
    · intro hmem
      have hall : List.Forall₂ (fun j c => ∃ a, c = ⟨j, a⟩ ∧ s.component j e = some a) (k :: ks)
          cs := h.components_eq_some_iff.mp (hcomponents (e, cs) hmem)
      refine ⟨?_, hall⟩
      cases hall with
      | cons hc _ =>
        obtain ⟨a, -, ha⟩ := hc
        exact s.owned k e (ha ▸ Option.some_ne_none a)
    · rintro ⟨-, hall⟩
      have hcs := h.components_eq_some_iff.mpr hall
      have hrecorded := (View.exists_components_iff hrep).mp ⟨cs, hcs⟩
      have hyielded : e ∈ View.yields w.components k ks := by
        refine (View.mem_yields_iff hrep hi hsmall).mpr ⟨hrecorded i hi, fun j hj => ?_⟩
        rw [hrecorded j hj]
        exact Option.some_ne_none e
      rw [← hyields] at hyielded
      obtain ⟨⟨x, cs'⟩, hmem, rfl⟩ := List.mem_map.mp hyielded
      have hsame : cs' = cs := Option.some.inj ((hcomponents _ hmem).symm.trans hcs)
      exact hsame ▸ hmem

end Represents

end World

/-! ## Runs of the layers -/

/-- What a call does at once. -/
def Call.immediate? : Call κ C → Option (WorldOp κ C)
  | .addEntity => some .addEntity
  | .setComponent e c => some (.setComponent e c)
  | .addComponent _ _ | .removeComponent _ _ | .destroyEntity _ => none

variable [DecidableEq κ]

/-- The operations that a layer performs, in order. -/
def Layer.performed (w : World κ C) (layer : Layer κ C) : List (WorldOp κ C) :=
  layer.systems.flatten.filterMap Call.immediate? ++ layer.hook ++
    match w.runSystems layer.systems with
    | none => []
    | some (_, ctxs) => ctxs.flatMap WorldContext.flush

def Op.performed (w : World κ C) : Op κ C → List (WorldOp κ C)
  | .world op => [op]
  | .run layers => expand World.runLayer Layer.performed w layers

section

variable {w w' : World κ C} {ctx ctx' : WorldContext κ C} {ctxs : List (WorldContext κ C)}

theorem WorldContext.call_immediate {call : Call κ C}
    (h : WorldContext.call (w, ctx) call = some (w', ctx')) :
    run World.step w call.immediate?.toList = some w' := by
  have hrecord {e : Entity} {action : DeferredAction κ C}
      (hrec : ctx.record w e action = some (w', ctx')) : w' = w := by
    obtain ⟨-, heq⟩ := Option.ite_none_right_eq_some.mp hrec
    cases heq
    rfl
  cases call with
  | addEntity =>
    obtain ⟨⟨e, w''⟩, hadd, heq⟩ := Option.map_eq_some_iff.mp h
    cases heq
    refine run_cons_eq_some.mpr ⟨w', ?_, rfl⟩
    rw [World.step, hadd]
    rfl
  | addComponent e c =>
    have hsame : w' = w := by
      simp only [WorldContext.call, WorldContext.addComponent] at h
      split at h
      · cases h
        rfl
      · exact hrecord h
    rw [hsame]
    rfl
  | removeComponent k e =>
    rw [hrecord h]
    rfl
  | destroyEntity e =>
    rw [hrecord h]
    rfl
  | setComponent e c =>
    obtain ⟨w'', hset, heq⟩ := Option.map_eq_some_iff.mp h
    cases heq
    exact run_cons_eq_some.mpr ⟨w', hset, rfl⟩

theorem WorldContext.run_immediate {calls : List (Call κ C)}
    (h : run WorldContext.call (w, ctx) calls = some (w', ctx')) :
    run World.step w (calls.filterMap Call.immediate?) = some w' := by
  induction calls generalizing w ctx with
  | nil =>
    cases h
    rfl
  | cons call calls ih =>
    obtain ⟨⟨w₁, ctx₁⟩, hcall, hrest⟩ := run_cons_eq_some.mp h
    have hstep := call_immediate hcall
    cases himmediate : call.immediate? with
    | none =>
      rw [himmediate] at hstep
      cases hstep
      rw [List.filterMap_cons_none himmediate]
      exact ih hrest
    | some op =>
      rw [himmediate] at hstep
      obtain ⟨w₂, hop, hnil⟩ := run_cons_eq_some.mp hstep
      cases hnil
      rw [List.filterMap_cons_some himmediate, run_cons, hop]
      exact ih hrest

theorem World.runSystems_immediate {systems : List (List (Call κ C))}
    (h : w.runSystems systems = some (w', ctxs)) :
    Base.run World.step w (systems.flatten.filterMap Call.immediate?) = some w' := by
  induction systems generalizing w ctxs with
  | nil =>
    cases h
    rfl
  | cons calls systems ih =>
    obtain ⟨⟨w₁, ctx⟩, hcalls, hrest⟩ := Option.bind_eq_some_iff.mp h
    obtain ⟨⟨w₂, ctxs'⟩, hsystems, heq⟩ := Option.map_eq_some_iff.mp hrest
    cases heq
    rw [List.flatten_cons, List.filterMap_append, run_append,
      WorldContext.run_immediate hcalls]
    exact ih hsystems

theorem Layer.run_performed {layer : Layer κ C} (h : w.runLayer layer = some w') :
    run World.step w (layer.performed w) = some w' := by
  obtain ⟨⟨w₁, ctxs⟩, hsystems, hrest⟩ := Option.bind_eq_some_iff.mp h
  rw [Layer.performed, hsystems, List.append_assoc, run_append,
    World.runSystems_immediate hsystems, Option.bind_some, run_append]
  exact hrest

theorem Op.run_performed {op : Op κ C} (h : op.step w = some w') :
    Base.run World.step w (op.performed w) = some w' := by
  cases op with
  | world op => exact run_cons_eq_some.mpr ⟨w', h, rfl⟩
  | run layers => exact run_expand (fun _ _ _ => Layer.run_performed) h

end

/-- In every run whose operations, also those that the layers perform, are careful the world is a
store that went through the same operations: `has_entity`, `get_component` and every view show
it. -/
theorem run_represents_store {w : World κ C} (ops : List (Op κ C))
    (hrun : run Op.step .init ops = some w)
    (hcareful : Guarded World.step (fun w op => op.Careful w) .init
      (expand Op.step (fun w op => op.performed w) .init ops)) :
    ∃ s, Store.Run .empty (expand Op.step (fun w op => op.performed w) .init ops) s ∧
      (∀ e, e ∈ w.entities ↔ e ∈ s.living) ∧
      (∀ e, w.hasEntity e = true ↔ ∃ x ∈ s.living, x.id = e.id) ∧
      (∀ k e, w.component? k e = s.component k e) ∧
      ∀ k ks, ∃ rs, View.iterate w.components k ks (View.findSmallest w.components k ks).length
          (View.begin w.components k ks) = some rs ∧
        (rs.map Prod.fst).Nodup ∧
        ∀ e cs, (e, cs) ∈ rs ↔ e ∈ s.living ∧
          List.Forall₂ (fun j c => ∃ a, c = ⟨j, a⟩ ∧ s.component j e = some a) (k :: ks) cs := by
  have hsmall : run World.step .init _ = some w := run_expand (fun _ _ _ => Op.run_performed) hrun
  obtain ⟨s, hs, h⟩ := World.init_represents.run hcareful hsmall
  exact ⟨s, hs, h.living, fun e => h.hasEntity_iff, fun k e => h.component?_eq, h.view⟩

/-- Two entities of which one is given up again, after its component; its id goes to a third one
that a system adds, and the system gives it a component. -/
def inherited : List (Op Unit fun _ => Nat) :=
  [.world .addEntity, .world .addEntity, .world (.addComponent ⟨0, 0⟩ ⟨(), 7⟩),
    .world (.addComponent ⟨1, 0⟩ ⟨(), 8⟩), .world (.removeComponent () ⟨0, 0⟩),
    .world (.removeEntity ⟨0, 0⟩), .run [⟨[[.addEntity, .addComponent ⟨0, 0⟩ ⟨(), 9⟩]], []⟩]]

theorem run_represents_store_inherited :
    ∃ (w : World Unit fun _ => Nat) (s : Store Unit fun _ => Nat),
    run Op.step .init inherited = some w ∧ ⟨0, 0⟩ ∈ s.living ∧
      s.component () ⟨0, 0⟩ = some 9 ∧ s.component () ⟨1, 0⟩ = some 8 := by
  obtain ⟨s, -, hliving, -, hcomponent, -⟩ := run_represents_store inherited rfl (by decide +kernel)
  refine ⟨_, s, rfl, (hliving _).mp (by decide +kernel), ?_, ?_⟩
  · rw [← hcomponent]
    rfl
  · rw [← hcomponent]
    rfl

end Csics.Ecs
