import Csics.Ecs.Registry

/-!
# Allocation of ids

A new id is the number of living entities, and that it is new rests on the free list being empty:
then all ids that have been made are in use, and they are the numbers below the size of
`generations_`. An id has 32 bits, so this ends with the id `2 ^ 32`, which is `0`
(`allocated_iff`).
-/

namespace Csics.Ecs

open Base

variable {κ : Type*} {C : κ → Type*} {w w' : World κ C} {e : Entity}

namespace World

/-- The ids in use and the free ids are distinct, and together they are the numbers below the size
of `generations_`. -/
structure Allocated (w : World κ C) : Prop where
  entities_nodup : (w.entities.map Entity.id).Nodup
  dead_nodup : w.deadEntities.Nodup
  disjoint : ∀ id ∈ w.entities.map Entity.id, id ∉ w.deadEntities
  exactly : ∀ n, (∃ id, (id ∈ w.entities.map Entity.id ∨ id ∈ w.deadEntities) ∧ id.toNat = n) ↔
    n < w.generations.length

theorem Allocated.length_le (h : w.Allocated) : w.generations.length ≤ 2 ^ 32 := by
  by_contra hlt
  obtain ⟨id, -, hid⟩ := (h.exactly (2 ^ 32)).mpr (Nat.lt_of_not_le hlt)
  exact absurd id.toNat_lt (by rw [hid]; exact lt_irrefl _)

theorem Numbered.allocated (hn : w.Numbered) (hlen : w.generations.length ≤ 2 ^ 32) :
    w.Allocated := by
  have htoNat : ∀ i < w.generations.length, (UInt32.ofNat i).toNat = i := by
    intro i hi
    rw [UInt32.toNat_ofNat', Nat.mod_eq_of_lt (by omega)]
  have hnodup : ((List.range w.generations.length).map UInt32.ofNat).Nodup := by
    apply List.Nodup.map_on _ List.nodup_range
    intro i hi j hj hij
    rw [← htoNat i (List.mem_range.mp hi), hij, htoNat j (List.mem_range.mp hj)]
  obtain ⟨hentities, hdead, hdisjoint⟩ := List.nodup_append.mp (hn.nodup_iff.mpr hnodup)
  refine ⟨hentities, hdead, ?_, ?_⟩
  · intro id hid hfree
    exact hdisjoint id hid id hfree rfl
  · intro n
    have hmem : ∀ id, (id ∈ w.entities.map Entity.id ∨ id ∈ w.deadEntities) ↔
        ∃ i, i < w.generations.length ∧ UInt32.ofNat i = id := by
      intro id
      rw [← List.mem_append, hn.mem_iff, List.mem_map]
      simp only [List.mem_range]
    simp only [hmem]
    constructor
    · rintro ⟨id, ⟨i, hi, rfl⟩, rfl⟩
      rwa [htoNat i hi]
    · intro hn
      exact ⟨.ofNat n, ⟨n, hn, rfl⟩, htoNat n hn⟩

/-- With an empty free list all ids are in use. -/
theorem Numbered.length_entities (hn : w.Numbered) (hdead : w.deadEntities = []) :
    w.entities.length = w.generations.length := by
  rw [Numbered, hdead, List.append_nil] at hn
  have hlen := hn.length_eq
  rwa [List.length_map, List.length_map, List.length_range] at hlen

theorem length_generations_addEntity (hw : w.addEntity = some (e, w')) :
    w'.generations.length =
      if w.deadEntities = [] then w.generations.length + 1 else w.generations.length := by
  unfold addEntity at hw
  split at hw
  · rename_i id hid
    have hne : w.deadEntities ≠ [] := by
      intro hnil
      rw [hnil] at hid
      cases hid
    obtain ⟨generation, -, heq⟩ := Option.map_eq_some_iff.mp hw
    cases heq
    rw [if_neg hne, List.length_set]
  · rename_i hdead
    cases hw
    rw [if_pos (List.getLast?_eq_none_iff.mp hdead), List.length_append, List.length_singleton]

end World

/-- A new id fits into 32 bits. -/
def WorldOp.Fits (w : World κ C) : WorldOp κ C → Prop
  | .addEntity => w.deadEntities = [] → w.entities.length < 2 ^ 32
  | _ => True

instance (w : World κ C) : (op : WorldOp κ C) → Decidable (op.Fits w)
  | .addEntity => inferInstanceAs (Decidable (w.deadEntities = [] → w.entities.length < 2 ^ 32))
  | .removeEntity _ | .addComponent _ _ | .setComponent _ _ | .removeComponent _ _ => isTrue trivial

/-- The id that `add_entity` returns is not in use. -/
def WorldOp.Fresh (w : World κ C) : WorldOp κ C → Prop
  | .addEntity => ∀ e w', w.addEntity = some (e, w') → e.id ∉ w.entities.map Entity.id
  | _ => True

namespace World

theorem fresh_addEntity_iff (hn : w.Numbered) (hlen : w.generations.length ≤ 2 ^ 32) :
    (WorldOp.addEntity : WorldOp κ C).Fresh w ↔ (WorldOp.addEntity : WorldOp κ C).Fits w := by
  have hall := hn.allocated hlen
  unfold WorldOp.Fresh WorldOp.Fits addEntity
  by_cases hdead : w.deadEntities = []
  · have hsize := hn.length_entities hdead
    rw [hdead, List.getLast?_nil]
    dsimp only
    constructor
    · intro hfresh _
      by_contra hge
      obtain ⟨id, hid, hzero⟩ := (hall.exactly 0).mpr (by omega)
      rw [hdead, or_iff_left List.not_mem_nil] at hid
      apply hfresh _ _ rfl
      have hwrap : UInt32.ofNat w.entities.length = id := by
        apply UInt32.toNat_inj.mp
        rw [UInt32.toNat_ofNat', hzero, show w.entities.length = 2 ^ 32 by omega, Nat.mod_self]
      rwa [hwrap]
    · intro hfits e w' hw hmem
      cases hw
      have hlt := hfits rfl
      have hfree := (hall.exactly w.entities.length).mp
        ⟨_, Or.inl hmem, by rw [UInt32.toNat_ofNat', Nat.mod_eq_of_lt hlt]⟩
      omega
  · refine iff_of_true ?_ (fun hnil => absurd hnil hdead)
    rw [List.getLast?_eq_some_getLast hdead]
    intro e w' hw hmem
    obtain ⟨generation, -, heq⟩ := Option.map_eq_some_iff.mp hw
    cases heq
    exact hall.disjoint _ hmem (List.getLast_mem hdead)

variable [DecidableEq κ]

theorem length_generations_step {op : WorldOp κ C} (hs : w.Sound)
    (hlen : w.generations.length ≤ 2 ^ 32) (hfits : op.Fits w) (hw : w.step op = some w') :
    w'.generations.length ≤ 2 ^ 32 := by
  cases op with
  | addEntity =>
    obtain ⟨⟨e, w₁⟩, hadd, rfl⟩ := Option.map_eq_some_iff.mp hw
    show w₁.generations.length ≤ 2 ^ 32
    rw [length_generations_addEntity hadd]
    split
    · rename_i hdead
      have hlt := hfits hdead
      rw [hs.numbered.length_entities hdead] at hlt
      omega
    · exact hlen
  | removeEntity e =>
    obtain ⟨-, -, -, hgen⟩ := removeEntity_cases hw
    rwa [hgen]
  | addComponent e c =>
    have hgen := congrArg generations (registry_of_components rfl hw)
    exact hgen ▸ hlen
  | setComponent e c =>
    have hgen := congrArg generations (registry_of_components rfl hw)
    exact hgen ▸ hlen
  | removeComponent k e =>
    have hgen := congrArg generations (registry_of_components rfl hw)
    exact hgen ▸ hlen

end World

/-- The allocation is sound in every state of a run, and no `add_entity` returns an id in use,
exactly if every new id fits into 32 bits. -/
theorem allocated_iff [DecidableEq κ] (ops : List (WorldOp κ C))
    (hrun : run World.step .init ops = some w) :
    (Guarded World.step (fun w op => w.Allocated ∧ op.Fresh w) .init ops ∧ w.Allocated) ↔
      Guarded World.step (fun w op => op.Fits w) .init ops := by
  have hiff : ∀ (w : World κ C) (op : WorldOp κ C), w.Sound ∧ w.generations.length ≤ 2 ^ 32 →
      (op.Fits w ↔ w.Allocated ∧ op.Fresh w) := by
    rintro w op ⟨hs, hlen⟩
    rw [and_iff_right (hs.numbered.allocated hlen)]
    cases op with
    | addEntity => exact (World.fresh_addEntity_iff hs.numbered hlen).symm
    | removeEntity e => exact Iff.rfl
    | addComponent e c => exact Iff.rfl
    | setComponent e c => exact Iff.rfl
    | removeComponent k e => exact Iff.rfl
  have hstep : ∀ (w : World κ C) (op : WorldOp κ C) (w' : World κ C),
      w.Sound ∧ w.generations.length ≤ 2 ^ 32 → op.Fits w → w.step op = some w' →
        w'.Sound ∧ w'.generations.length ≤ 2 ^ 32 := by
    rintro w op w' ⟨hs, hlen⟩ hfits hw
    exact ⟨hs.step hw, World.length_generations_step hs hlen hfits hw⟩
  have hinit : (World.init : World κ C).Sound ∧
      (World.init : World κ C).generations.length ≤ 2 ^ 32 :=
    ⟨World.init_sound, Nat.zero_le _⟩
  rw [guarded_congr hiff hstep hinit]
  refine and_iff_left_of_imp ?_
  intro hguarded
  obtain ⟨hs, hlen⟩ := run_induction hstep hinit
    ((guarded_congr hiff hstep hinit).mpr hguarded) hrun
  exact hs.numbered.allocated hlen

/-- Three entities, with the id of the first one recycled. -/
def reused : List (WorldOp Unit fun _ => Nat) :=
  [.addEntity, .addEntity, .removeEntity ⟨0, 0⟩, .addEntity, .addEntity]

theorem allocated_iff_reused : ∃ w, run World.step .init reused = some w ∧ w.Allocated ∧
    w.entities.map Entity.id = [1, 0, 2] :=
  ⟨_, rfl, ((allocated_iff reused rfl).mpr (by decide)).2, rfl⟩

theorem run_replicate_addEntity [DecidableEq κ] (n m : Nat) :
    run World.step (fresh m : World κ C) (List.replicate n .addEntity) = some (fresh (m + n)) := by
  induction n generalizing m with
  | zero => rfl
  | succ n ih =>
    have hstep : (fresh m : World κ C).step .addEntity = some (fresh (m + 1)) := by
      rw [World.step, addEntity_fresh, Option.map_some]
    rw [List.replicate_succ, run_cons, hstep, Option.bind_some, ih, Nat.add_assoc, Nat.add_comm 1]

theorem mem_ids_fresh {n i : Nat} (hi : i < n) :
    UInt32.ofNat i ∈ (fresh n : World κ C).entities.map Entity.id := by
  have hmem : (⟨.ofNat i, 0⟩ : Entity) ∈ handles n := mem_handles.mpr ⟨i, hi, rfl⟩
  exact List.mem_map.mpr ⟨_, hmem, rfl⟩

/-- The entity with the number `2 ^ 32` gets the id of the first one. -/
theorem allocation_wraps : ∃ w w' : World Unit fun _ => Nat, ∃ e,
    run World.step .init (List.replicate (2 ^ 32) .addEntity) = some w ∧
      w.addEntity = some (e, w') ∧ e.id ∈ w.entities.map Entity.id ∧ ¬ w'.Allocated := by
  refine ⟨fresh (2 ^ 32), fresh (2 ^ 32 + 1), _, ?_, addEntity_fresh _, ?_, ?_⟩
  · have hrun := run_replicate_addEntity (κ := Unit) (C := fun _ => Nat) (2 ^ 32) 0
    rwa [Nat.zero_add] at hrun
  · have hwrap : UInt32.ofNat (2 ^ 32) = UInt32.ofNat 0 := by decide
    dsimp only
    rw [hwrap]
    exact mem_ids_fresh (Nat.two_pow_pos 32)
  · intro hall
    have hle := hall.length_le
    rw [fresh, List.length_replicate] at hle
    omega

end Csics.Ecs
