import Csics.Ecs.Handles

/-!
# Stale handles

A handle is stale when its id has been recycled: an entity with that id and another
generation is alive. The operations of a world compare the id only, so a stale handle acts on
the entity that is alive. `has_entity` finds it and `remove_entity` removes it; the two
operations on components leave it alone only where there is nothing to lose.
-/

namespace Csics.Ecs

open Base

/-! ## Sets -/

namespace SparseSet

variable {α : Type*} {N : Nat} {s t : SparseSet α N} {e x : Entity} {c : α}

/-- After a removal nothing is found under the id, whatever the generation. -/
theorem join_at?_remove (ht : s.remove e = some t) (hid : x.id = e.id) : (t.at? x).join = none := by
  unfold at?
  split
  · rename_i hN
    rw [hid] at hN
    rcases remove_cases ht with ⟨rfl, hnone⟩ | ⟨_, last, lastEntity, hl, -, -, -, -, rfl⟩
    · simp only [hid]
      rcases hnone hN with hnpos | hempty
      · simp [hnpos]
      · simp only [hempty, List.getElem?_nil]
        split
        · cases t.entities[t.sparse[e.id.toNat]]? <;> rfl
        · rfl
    · simp [hid]
  · rfl

/-- An insertion under the id of `x` with another generation replaces the component of `x`. -/
theorem Rep.join_at?_insert (h : s.Rep) (ht : s.insert e c = some t) (hid : x.id = e.id)
    (hgen : x.generation ≠ e.generation) : (t.at? x).join = (s.at? x).join.map fun _ => c := by
  unfold SparseSet.insert at ht
  split at ht
  · rename_i hN
    dsimp only at ht
    split at ht
    · -- nothing is recorded under the id, and `e` itself is recorded now
      rename_i hnpos
      cases ht
      simp only [at?, hid, hN, hnpos, dif_pos, Vector.getElem_set_self, ← h.length_eq]
      split
      · simp [hgen.symm, h.length_eq]
      · rfl
    · split at ht
      · rename_i hne hlt
        cases ht
        have hlt' : s.sparse[e.id.toNat] < s.entities.length := by rwa [h.length_eq]
        simp only [at?, hid, hN, dif_pos]
        rw [if_pos hne, if_pos hne, List.getElem?_eq_getElem hlt, List.getElem?_eq_getElem hlt',
          List.getElem?_set_self hlt]
        dsimp only
        split <;> rfl
      · cases ht
  · cases ht

/-- Where an insertion fails, nothing is found under the id. -/
theorem join_at?_of_insert_eq_none (hnone : s.insert e c = none) (hid : x.id = e.id) :
    (s.at? x).join = none := by
  unfold SparseSet.insert at hnone
  split at hnone
  · rename_i hN
    dsimp only at hnone
    split at hnone
    · cases hnone
    · rename_i hne
      split at hnone
      · cases hnone
      · rename_i hge
        simp only [at?, hid, hN, dif_pos]
        rw [if_pos hne, List.getElem?_eq_none (Nat.not_lt.mp hge)]
        cases s.entities[s.sparse[e.id.toNat]]? <;> rfl
  · rename_i hN
    simp [at?, hid, hN]

/-- A removal is defined. -/
theorem Rep.exists_remove (h : s.Rep) (e : Entity) : ∃ t, s.remove e = some t := by
  unfold SparseSet.remove
  split
  · rename_i hN
    dsimp only
    split
    · exact ⟨s, rfl⟩
    · rename_i hne
      obtain ⟨hnpos, hempty⟩ := not_or.mp hne
      have hget : s.sparse[e.id.toNat]? = some s.sparse[e.id.toNat] :=
        Vector.getElem?_eq_getElem hN
      have hlt := (List.getElem?_eq_some_iff.mp ((h.sparse_iff _ _).mp ⟨hget, hnpos⟩)).1
      rw [length_ids] at hlt
      have hentities : s.entities ≠ [] := List.ne_nil_of_length_pos (by omega)
      have hdense : s.dense ≠ [] := fun hnil => hempty (List.isEmpty_iff.mpr hnil)
      have hlast : (s.entities.getLast hentities).id.toNat < N :=
        h.lt_of_mem (List.mem_map_of_mem (List.getLast_mem hentities))
      rw [List.getLast?_eq_some_getLast hentities, List.getLast?_eq_some_getLast hdense]
      dsimp only
      rw [dif_pos ⟨hlast, h.length_eq ▸ hlt, hlt⟩]
      exact ⟨_, rfl⟩
  · exact ⟨s, rfl⟩

end SparseSet

variable {κ : Type*} {C : κ → Type*} {w w' : World κ C} {e h x : Entity}

/-! ## Worlds -/

namespace World

/-- The component of a type that `get_component` finds. -/
def component? (w : World κ C) (k : κ) (e : Entity) : Option (C k) := ((w.components k).at? e).join

/-- The ids that are in use or free are those that have been made, each once. -/
def Numbered (w : World κ C) : Prop :=
  (w.entities.map Entity.id ++ w.deadEntities).Perm
    ((List.range w.generations.length).map UInt32.ofNat)

/-- What every reachable world has. -/
structure Sound (w : World κ C) : Prop where
  rep : ∀ k, (w.components k).Rep
  numbered : w.Numbered

theorem init_sound : (init : World κ C).Sound := ⟨fun _ => SparseSet.init_rep, .refl _⟩

theorem Numbered.addEntity (hn : w.Numbered) (hw : w.addEntity = some (e, w')) : w'.Numbered := by
  unfold World.addEntity at hw
  split at hw
  · rename_i id hid
    obtain ⟨generation, -, heq⟩ := Option.map_eq_some_iff.mp hw
    cases heq
    obtain ⟨ids, hids⟩ := List.getLast?_eq_some_iff.mp hid
    rw [Numbered, hids] at hn
    refine List.Perm.trans ?_ (hn.trans (by rw [List.length_set]))
    rw [hids, List.dropLast_concat, List.map_append, List.append_assoc]
    exact List.Perm.append_left _ List.perm_append_comm
  · rename_i hdead
    cases hw
    rw [Numbered, List.getLast?_eq_none_iff.mp hdead, List.append_nil] at hn
    have hlen := hn.length_eq
    simp only [List.length_map, List.length_range] at hlen
    rw [Numbered, List.getLast?_eq_none_iff.mp hdead, List.append_nil, List.map_append,
      List.length_append, List.length_singleton, List.range_succ, List.map_append, hlen]
    exact hn.append_right _

theorem Numbered.removeEntity (hn : w.Numbered) (hw : w.removeEntity e = some w') :
    w'.Numbered := by
  obtain ⟨hmem, -⟩ := Option.ite_none_right_eq_some.mp hw
  obtain ⟨-, hent, hdead, hgen⟩ := removeEntity_cases hw
  obtain ⟨y, hy, hye⟩ := List.any_eq_true.mp hmem
  obtain ⟨a, before, after, -, ha, heq, herase⟩ :=
    List.exists_of_eraseP (p := fun y => y.id = e.id) hy hye
  rw [Numbered, heq] at hn
  rw [Numbered, hent, herase, hdead, hgen, ← of_decide_eq_true ha]
  refine List.Perm.trans ?_ hn
  rw [List.map_append, List.map_append, List.map_cons, List.append_assoc, List.append_assoc,
    List.cons_append]
  apply List.Perm.append_left
  rw [← List.append_assoc]
  exact List.perm_append_singleton _ _

/-- While ids do not wrap around, two living entities do not share one. -/
theorem Numbered.nodup (hn : w.Numbered) (hlen : w.generations.length ≤ 2 ^ 32) :
    (w.entities.map Entity.id).Nodup := by
  have hnodup := handles_nodup.mpr hlen
  have hhandles : handles w.generations.length =
      ((List.range w.generations.length).map UInt32.ofNat).map fun id => ⟨id, 0⟩ := by
    rw [handles, List.map_map]
    rfl
  rw [hhandles] at hnodup
  exact (hn.nodup_iff.mpr hnodup.of_map).of_append_left

variable [DecidableEq κ]

theorem Sound.step {op : WorldOp κ C} (hs : w.Sound) (hw : w.step op = some w') : w'.Sound := by
  have hadd {e : Entity} {c : Component κ C} (hw : w.addComponent e c = some w') : w'.Sound := by
    obtain ⟨s, hins, rfl⟩ := Option.map_eq_some_iff.mp hw
    exact ⟨rep_setSparseSet hs.rep ((hs.rep c.1).insert hins), hs.numbered⟩
  cases op with
  | addEntity =>
    obtain ⟨⟨e, w''⟩, hnew, rfl⟩ := Option.map_eq_some_iff.mp hw
    obtain ⟨hcomp, -⟩ := addEntity_cases hnew
    exact ⟨fun k => hcomp ▸ hs.rep k, hs.numbered.addEntity hnew⟩
  | addComponent e c => exact hadd hw
  | setComponent e c =>
    have hset : w.setComponent e c = some w' := hw
    unfold World.setComponent at hset
    split at hset
    · exact hadd hset
    · cases hset
  | removeComponent k e =>
    obtain ⟨s, hrem, rfl⟩ := Option.map_eq_some_iff.mp hw
    exact ⟨rep_setSparseSet hs.rep ((hs.rep k).remove hrem), hs.numbered⟩
  | removeEntity e =>
    obtain ⟨hcomp, -⟩ := removeEntity_cases hw
    exact ⟨fun k => hcomp ▸ hs.rep k, hs.numbered.removeEntity hw⟩

theorem sound_of_run {ops : List (Op κ C)} (hrun : Base.run Op.step .init ops = some w) :
    w.Sound :=
  run_preserves (fun _ _ _ hs hstep => Op.step_preserves (fun _ _ _ hs hw => hs.step hw) hs hstep)
    init_sound hrun

/-! ## What a stale handle does -/

/-- `x` is alive, and `h` has its id and another generation. -/
structure Stale (w : World κ C) (h x : Entity) : Prop where
  id_eq : x.id = h.id
  generation_ne : x.generation ≠ h.generation
  alive : x ∈ w.entities

/-- If the operation has an effect, `x` is alive as before and has the components it had. -/
def Untouched (w : World κ C) (x : Entity) (r : Option (World κ C)) : Prop :=
  ∀ w', r = some w' →
    (x ∈ w'.entities ↔ x ∈ w.entities) ∧ ∀ k, w'.component? k x = w.component? k x

/-- The handle `h` is not found, and what is done through it leaves `x` alone. -/
structure Inert (w : World κ C) (h x : Entity) : Prop where
  hasEntity : w.hasEntity h = false
  removeComponent : ∀ k, w.Untouched x (w.removeComponent k h)
  addComponent : ∀ c, w.Untouched x (w.addComponent h c)
  removeEntity : w.Untouched x (w.removeEntity h)

omit [DecidableEq κ] in
theorem Stale.hasEntity (hstale : w.Stale h x) : w.hasEntity h = true :=
  List.any_eq_true.mpr ⟨x, hstale.alive, decide_eq_true hstale.id_eq⟩

/-- One set is replaced; the entities are those from before. -/
theorem untouched_setSparseSet_iff {k : κ} {s : SparseSet (C k) maxEntities} :
    w.Untouched x (some (w.setSparseSet k s)) ↔ (s.at? x).join = w.component? k x := by
  unfold Untouched component?
  constructor
  · intro hun
    have hk := (hun _ rfl).2 k
    rwa [components_setSparseSet_self] at hk
  · intro hk w' hw'
    cases hw'
    refine ⟨Iff.rfl, ?_⟩
    intro j
    by_cases hj : j = k
    · subst hj
      rwa [components_setSparseSet_self]
    · rw [components_setSparseSet_of_ne hj]

theorem Stale.untouched_removeComponent_iff (hs : w.Sound) (hstale : w.Stale h x) (k : κ) :
    w.Untouched x (w.removeComponent k h) ↔ w.component? k x = none := by
  obtain ⟨s, hrem⟩ := (hs.rep k).exists_remove h
  rw [World.removeComponent, hrem, Option.map_some, untouched_setSparseSet_iff,
    SparseSet.join_at?_remove hrem hstale.id_eq, eq_comm]

theorem Stale.untouched_addComponent_iff (hs : w.Sound) (hstale : w.Stale h x)
    (c : Component κ C) :
    w.Untouched x (w.addComponent h c) ↔ ∀ c', w.component? c.1 x = some c' → c' = c.2 := by
  rw [World.addComponent]
  cases hins : (w.components c.1).insert h c.2 with
  | none =>
    rw [component?, SparseSet.join_at?_of_insert_eq_none hins hstale.id_eq]
    exact ⟨fun _ c' hc' => (nomatch hc'), fun _ w' hw' => (nomatch hw')⟩
  | some s =>
    have hjoin := (hs.rep c.1).join_at?_insert hins hstale.id_eq hstale.generation_ne
    rw [Option.map_some, untouched_setSparseSet_iff, hjoin]
    show (w.component? c.1 x).map _ = w.component? c.1 x ↔ _
    cases w.component? c.1 x with
    | none => simp
    | some c' => simp [eq_comm]

omit [DecidableEq κ] in
theorem Stale.not_untouched_removeEntity (hs : w.Sound) (hstale : w.Stale h x)
    (hlen : w.generations.length ≤ 2 ^ 32) : ¬ w.Untouched x (w.removeEntity h) := by
  intro hun
  have hmem := ((hun _ (if_pos hstale.hasEntity)).1.mpr hstale.alive)
  obtain ⟨a, before, after, hbefore, ha, heq, herase⟩ :=
    List.exists_of_eraseP (p := fun y => y.id = h.id) hstale.alive (decide_eq_true hstale.id_eq)
  have hnodup := hs.numbered.nodup hlen
  rw [heq] at hnodup
  replace hmem : x ∈ w.entities.eraseP fun y => y.id = h.id := hmem
  rw [herase] at hmem
  have hid : x.id = a.id := hstale.id_eq.trans (of_decide_eq_true ha).symm
  rcases List.mem_append.mp hmem with hx | hx
  · exact hbefore x hx (decide_eq_true hstale.id_eq)
  · rw [List.map_append, List.map_cons] at hnodup
    have hnot := (List.nodup_cons.mp hnodup.of_append_right).1
    rw [← hid] at hnot
    exact hnot (List.mem_map_of_mem hx)

end World

/-- No stale handle is inert. The operations on components leave the entity that is alive
alone only if it has no component of the type, or the same one. -/
theorem stale_laws [DecidableEq κ] (ops : List (Op κ C)) (hrun : run Op.step .init ops = some w)
    (hstale : w.Stale h x) :
    ¬ w.Inert h x ∧
      (∀ k, w.Untouched x (w.removeComponent k h) ↔ w.component? k x = none) ∧
      (∀ c, w.Untouched x (w.addComponent h c) ↔ ∀ c', w.component? c.1 x = some c' → c' = c.2) ∧
      (w.generations.length ≤ 2 ^ 32 → ¬ w.Untouched x (w.removeEntity h)) := by
  have hs := World.sound_of_run hrun
  refine ⟨?_, hstale.untouched_removeComponent_iff hs, hstale.untouched_addComponent_iff hs,
    hstale.not_untouched_removeEntity hs⟩
  intro hinert
  have hfound := hstale.hasEntity
  rw [hinert.hasEntity] at hfound
  cases hfound

/-- The id 0 is recycled twice, since the first time it keeps its generation, and the entity
that carries it then has a component. -/
def recycled : List (Op Unit fun _ => Nat) :=
  [.world .addEntity, .world (.removeEntity ⟨0, 0⟩), .world .addEntity,
    .world (.removeEntity ⟨0, 0⟩), .world .addEntity, .world (.addComponent ⟨0, 1⟩ ⟨(), 7⟩)]

theorem stale_laws_recycled : ∃ w, run Op.step .init recycled = some w ∧
    w.Stale ⟨0, 0⟩ ⟨0, 1⟩ ∧ ¬ w.Inert ⟨0, 0⟩ ⟨0, 1⟩ := by
  refine ⟨_, rfl, ⟨rfl, by decide, List.mem_cons_self⟩, ?_⟩
  exact (stale_laws (h := ⟨0, 0⟩) (x := ⟨0, 1⟩) recycled rfl
    ⟨rfl, by decide, List.mem_cons_self⟩).1

/-- The handle of the first entity is found, and through it the component of the third entity
is replaced, its component is removed, and so is the entity. -/
theorem stale_acts : ∃ w, run Op.step .init recycled = some w ∧
    w.Stale ⟨0, 0⟩ ⟨0, 1⟩ ∧ w.component? () ⟨0, 1⟩ = some 7 ∧ w.hasEntity ⟨0, 0⟩ = true ∧
    (w.addComponent ⟨0, 0⟩ ⟨(), 8⟩).map (fun w => w.component? () ⟨0, 1⟩) = some (some 8) ∧
    (w.removeComponent () ⟨0, 0⟩).map (fun w => w.component? () ⟨0, 1⟩) = some none ∧
    (w.removeEntity ⟨0, 0⟩).map World.entities = some [] ∧ ¬ w.Inert ⟨0, 0⟩ ⟨0, 1⟩ := by
  refine ⟨_, rfl, ⟨rfl, by decide, List.mem_cons_self⟩, by decide +kernel, rfl,
    by decide +kernel, by decide +kernel, rfl, ?_⟩
  exact fun hinert => Bool.noConfusion hinert.hasEntity

end Csics.Ecs
