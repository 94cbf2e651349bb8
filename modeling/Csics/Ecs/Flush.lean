import Csics.Ecs.Stale

/-!
# Entities in a flush

`destroy_entity` of a context checks that the entity is in the world, and `run` removes it later,
behind everything else that the systems of the layer and its hook do. `remove_entity` takes one
entity of the id out of `entities_`, so that the flush does not meet its assertion exactly if no
id is recorded for more removals than there are entities of that id when the flush begins
(`flush_found_iff`).

An insertion of an id that is not below `maxEntities` has no defined effect. What is recorded
behind it is not reached.
-/

namespace Csics.Ecs

open Base

variable {κ : Type*} {C : κ → Type*} {w w' : World κ C}

/-- The entity of a `remove_entity` is in `entities_`. -/
def WorldOp.Found (w : World κ C) (op : WorldOp κ C) : Prop :=
  ∀ e, op = .removeEntity e → w.hasEntity e = true

/-- The operation has a defined effect on the sets: it does not insert an id out of range. -/
def WorldOp.inRange : WorldOp κ C → Bool
  | .addComponent e _ => e.id.toNat < maxEntities
  | _ => true

/-- The id that the operation removes. -/
def WorldOp.removed? : WorldOp κ C → Option UInt32
  | .removeEntity e => some e.id
  | _ => none

/-- The ids that the operations remove, in order. -/
def removedIds (ops : List (WorldOp κ C)) : List UInt32 := ops.filterMap WorldOp.removed?

/-- The operations that a flush performs. -/
def WorldOp.Flushed : WorldOp κ C → Prop
  | .addComponent _ _ | .removeComponent _ _ | .removeEntity _ => True
  | _ => False

namespace WorldContext

theorem flushed_of_mem {ctx : WorldContext κ C} {op : WorldOp κ C} (h : op ∈ ctx.flush) :
    op.Flushed := by
  rcases List.mem_append.mp h with h | h
  · obtain ⟨d, -, hd⟩ := List.mem_flatMap.mp h
    obtain ⟨c, -, rfl⟩ := List.mem_map.mp hd
    trivial
  · obtain ⟨action, -, rfl⟩ := List.mem_map.mp h
    cases action <;> trivial

end WorldContext

/-! ## Single operations -/

namespace SparseSet

variable {α : Type*} {N : Nat} {s : SparseSet α N} {e : Entity}

/-- An insertion is defined for the ids below `N`. -/
theorem Rep.exists_insert (h : s.Rep) (hid : e.id.toNat < N) (c : α) :
    ∃ t, s.insert e c = some t := by
  unfold SparseSet.insert
  rw [dif_pos hid]
  dsimp only
  by_cases hnpos : s.sparse[e.id.toNat] = npos
  · rw [if_pos hnpos]
    exact ⟨_, rfl⟩
  · have hget : s.sparse[e.id.toNat]? = some s.sparse[e.id.toNat] :=
      Vector.getElem?_eq_getElem hid
    have hlt := (List.getElem?_eq_some_iff.mp ((h.sparse_iff _ _).mp ⟨hget, hnpos⟩)).1
    rw [length_ids, h.length_eq] at hlt
    rw [if_neg hnpos, if_pos hlt]
    exact ⟨_, rfl⟩

end SparseSet

namespace World

/-- How many entities have the id. -/
def countId (w : World κ C) (id : UInt32) : Nat := (w.entities.map Entity.id).count id

theorem hasEntity_iff_countId {e : Entity} : w.hasEntity e = true ↔ 0 < w.countId e.id := by
  unfold countId hasEntity
  rw [List.count_pos_iff, List.any_eq_true, List.mem_map]
  constructor
  · rintro ⟨x, hx, hid⟩
    exact ⟨x, hx, of_decide_eq_true hid⟩
  · rintro ⟨x, hx, hid⟩
    exact ⟨x, hx, decide_eq_true hid⟩

/-- A removal takes out one entity of the id. -/
theorem countId_removeEntity {e : Entity} (hw : w.removeEntity e = some w') (id : UInt32) :
    w.countId id = w'.countId id + if e.id = id then 1 else 0 := by
  obtain ⟨hmem, -⟩ := Option.ite_none_right_eq_some.mp hw
  obtain ⟨-, hent, -⟩ := removeEntity_cases hw
  obtain ⟨y, hy, hye⟩ := List.any_eq_true.mp hmem
  obtain ⟨a, before, after, -, ha, heq, herase⟩ :=
    List.exists_of_eraseP (p := fun y => y.id = e.id) hy hye
  have hid : a.id = e.id := of_decide_eq_true ha
  unfold countId
  rw [hent, herase, heq, List.map_append, List.map_append, List.map_cons, List.count_append,
    List.count_append, List.count_cons, hid]
  by_cases h : e.id = id
  · simp only [h, beq_self_eq_true, if_true]
    omega
  · simp only [h, beq_iff_eq, if_false]
    omega

variable [DecidableEq κ]

/-- A flush finds all its entities exactly if there are as many as it removes, up to the first
insertion that is not defined. -/
theorem found_iff {ops : List (WorldOp κ C)} (hs : w.Sound) (hflushed : ∀ op ∈ ops, op.Flushed) :
    Guarded World.step WorldOp.Found w ops ↔
      ∀ id, (removedIds (ops.takeWhile WorldOp.inRange)).count id ≤ w.countId id := by
  induction ops generalizing w with
  | nil => exact iff_of_true trivial fun id => Nat.zero_le _
  | cons op ops ih =>
    have hrest : ∀ op ∈ ops, op.Flushed := fun op hop => hflushed op (List.mem_cons_of_mem _ hop)
    cases op with
    | addEntity => exact absurd (hflushed _ List.mem_cons_self) id
    | setComponent e c => exact absurd (hflushed _ List.mem_cons_self) id
    | addComponent e c =>
      have hfound : WorldOp.Found w (.addComponent e c) := by
        intro e' h
        cases h
      by_cases hid : e.id.toNat < maxEntities
      · obtain ⟨s, hins⟩ := (hs.rep c.1).exists_insert hid c.2
        have hstep : w.step (.addComponent e c) = some (w.setSparseSet c.1 s) := by
          rw [World.step, World.addComponent, hins, Option.map_some]
        rw [guarded_cons_of_eq_some hstep, and_iff_right hfound,
          List.takeWhile_cons_of_pos (by exact decide_eq_true hid)]
        exact ih (hs.step hstep) hrest
      · have hstep : w.step (.addComponent e c) = none := by
          rw [World.step, World.addComponent, SparseSet.insert, dif_neg hid, Option.map_none]
        rw [guarded_cons_of_eq_none hstep,
          List.takeWhile_cons_of_neg (by simpa [WorldOp.inRange] using hid)]
        exact iff_of_true hfound fun id => Nat.zero_le _
    | removeComponent k e =>
      obtain ⟨s, hrem⟩ := (hs.rep k).exists_remove e
      have hstep : w.step (.removeComponent k e) = some (w.setSparseSet k s) := by
        rw [World.step, World.removeComponent, hrem, Option.map_some]
      have hfound : WorldOp.Found w (.removeComponent k e) := by
        intro e' h
        cases h
      rw [guarded_cons_of_eq_some hstep, and_iff_right hfound, List.takeWhile_cons_of_pos rfl]
      exact ih (hs.step hstep) hrest
    | removeEntity e =>
      have hremoved : removedIds ((WorldOp.removeEntity e :: ops).takeWhile WorldOp.inRange) =
          e.id :: removedIds (ops.takeWhile WorldOp.inRange) := by
        rw [List.takeWhile_cons_of_pos rfl]
        rfl
      rw [hremoved]
      cases hw : w.removeEntity e with
      | none =>
        -- the assertion fails
        have hnot : ¬ w.hasEntity e = true := by
          intro hmem
          rw [removeEntity, if_pos hmem] at hw
          cases hw
        refine iff_of_false (fun hguard => hnot (hguard.1 e rfl)) ?_
        intro hcount
        have hle := hcount e.id
        rw [List.count_cons_self] at hle
        exact hnot (hasEntity_iff_countId.mpr (by omega))
      | some w' =>
        have hstep : w.step (.removeEntity e) = some w' := hw
        have hfound : WorldOp.Found w (.removeEntity e) := by
          rintro e' h
          cases h
          exact (Option.ite_none_right_eq_some.mp hw).1
        have hids := countId_removeEntity hw
        have hcounts : (∀ id, (e.id :: removedIds (ops.takeWhile WorldOp.inRange)).count id ≤
              w.countId id) ↔
            ∀ id, (removedIds (ops.takeWhile WorldOp.inRange)).count id ≤ w'.countId id := by
          refine forall_congr' fun id => ?_
          have hid := hids id
          rw [List.count_cons, hid]
          simp only [beq_iff_eq]
          omega
        rw [hcounts, guarded_cons_of_eq_some hstep, and_iff_right hfound]
        exact ih (hs.step hstep) hrest

end World

/-! ## Layers -/

/-- The flush of a layer calls `remove_entity` only for entities in `entities_` exactly if no id is
recorded for more removals than there are entities of that id behind the hook. -/
theorem flush_found_iff [DecidableEq κ] {ops : List (Op κ C)} (layer : Layer κ C)
    {w₁ w₂ : World κ C} {ctxs : List (WorldContext κ C)} (hrun : run Op.step .init ops = some w)
    (hsystems : w.runSystems layer.systems = some (w₁, ctxs))
    (hhook : run World.step w₁ layer.hook = some w₂) :
    Guarded World.step WorldOp.Found w₂ (ctxs.flatMap WorldContext.flush) ↔
      ∀ id, (removedIds ((ctxs.flatMap WorldContext.flush).takeWhile WorldOp.inRange)).count id ≤
        w₂.countId id := by
  have h₁ : w₁.Sound := World.runSystems_preserves (fun _ _ _ hs _ hstep => hs.step hstep)
    (World.sound_of_run hrun) hsystems
  have h₂ : w₂.Sound := run_preserves (fun _ _ _ hs hstep => hs.step hstep) h₁ hhook
  refine World.found_iff h₂ ?_
  intro op hop
  obtain ⟨ctx, -, hctx⟩ := List.mem_flatMap.mp hop
  exact WorldContext.flushed_of_mem hctx

/-- The world with two entities. -/
def twoEntities : World Unit fun _ => Nat := fresh 2

theorem run_twoEntities :
    run Op.step .init [.world .addEntity, .world .addEntity] = some twoEntities := rfl

/-- Two systems destroy one entity each. -/
theorem flush_found_iff_each : Guarded World.step WorldOp.Found twoEntities
    ([⟨[.destroyEntity ⟨0, 0⟩], []⟩, ⟨[.destroyEntity ⟨1, 0⟩], []⟩].flatMap
      WorldContext.flush) := by
  refine (flush_found_iff ⟨[[.destroyEntity ⟨0, 0⟩], [.destroyEntity ⟨1, 0⟩]], []⟩
    run_twoEntities rfl rfl).mpr ?_
  intro id
  show ([0, 1] : List UInt32).count id ≤ ([0, 1] : List UInt32).count id
  exact Nat.le_refl _

/-- Both systems destroy the same entity. The check of the second one passes, since the entity is
removed later. -/
theorem not_found_twice : ∃ w w₁ : World Unit fun _ => Nat, ∃ ctxs,
    run Op.step .init [.world .addEntity, .world .addEntity] = some w ∧
      w.runSystems [[.destroyEntity ⟨0, 0⟩], [.destroyEntity ⟨0, 0⟩]] = some (w₁, ctxs) ∧
      ¬ Guarded World.step WorldOp.Found w₁ (ctxs.flatMap WorldContext.flush) := by
  refine ⟨_, _, _, run_twoEntities, rfl, ?_⟩
  rintro ⟨-, hguard⟩
  obtain ⟨hfound, -⟩ := hguard _ rfl
  have hmem := hfound ⟨0, 0⟩ rfl
  cases hmem

end Csics.Ecs
