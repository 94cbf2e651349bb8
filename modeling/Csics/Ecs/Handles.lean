import Mathlib.Data.List.TakeWhile
import Csics.Ecs.Liveness

/-!
# Entity handles

`issue w ops` performs calls of `add_entity` and `remove_entity` and collects the handles
that `add_entity` returns. While nothing has been removed these are `(0, 0)`, `(1, 0)`, …;
the first call after a `remove_entity` takes an id from the free list with the generation
it had, so it returns a handle that is already out (`handles_nodup_iff`).
-/

namespace Csics.Ecs

variable {κ : Type*} {C : κ → Type*} {w w' : World κ C}

inductive HandleOp where
  | addEntity
  | removeEntity (e : Entity)
  deriving DecidableEq, Repr

/-- The call is `add_entity`. -/
def HandleOp.isAdd : HandleOp → Bool
  | .addEntity => true
  | .removeEntity _ => false

/-- The handles that the calls return, and the world after them. -/
def issue : World κ C → List HandleOp → Option (List Entity × World κ C)
  | w, [] => some ([], w)
  | w, .addEntity :: ops =>
    w.addEntity.bind fun (e, w) => (issue w ops).map fun (es, w) => (e :: es, w)
  | w, .removeEntity e :: ops => (w.removeEntity e).bind fun w => issue w ops

/-! ## Before the first removal -/

/-- The first `n` handles. -/
def handles (n : Nat) : List Entity := (List.range n).map fun i => ⟨.ofNat i, 0⟩

/-- The world after `n` calls of `add_entity`. -/
def fresh (n : Nat) : World κ C := ⟨fun _ => .init, handles n, [], .replicate n 0⟩

theorem mem_handles {n : Nat} {x : Entity} : x ∈ handles n ↔ ∃ i < n, x = ⟨.ofNat i, 0⟩ := by
  simp only [handles, List.mem_map, List.mem_range]
  constructor
  · rintro ⟨i, hi, rfl⟩
    exact ⟨i, hi, rfl⟩
  · rintro ⟨i, hi, rfl⟩
    exact ⟨i, hi, rfl⟩

theorem addEntity_fresh (n : Nat) :
    (fresh n : World κ C).addEntity = some (⟨.ofNat n, 0⟩, fresh (n + 1)) := by
  have hlen : (handles n).length = n := by simp [handles]
  simp only [World.addEntity, fresh, List.getLast?_nil, hlen]
  rw [handles, handles, List.range_succ, List.map_append, List.replicate_succ']
  rfl

theorem issue_replicate (m n : Nat) (ops : List HandleOp) :
    issue (fresh m : World κ C) (List.replicate n .addEntity ++ ops) =
      (issue (fresh (m + n)) ops).map fun (es, w) =>
        ((List.range' m n).map (fun i => ⟨.ofNat i, 0⟩) ++ es, w) := by
  induction n generalizing m with
  | zero => simp
  | succ n ih =>
    rw [List.replicate_succ, List.cons_append, issue, addEntity_fresh, Option.bind_some]
    dsimp only
    rw [ih, Option.map_map, List.range'_succ, Nat.add_assoc, Nat.add_comm 1 n]
    rfl

/-- Handles repeat only after `2^32` calls. -/
theorem handles_nodup {n : Nat} : (handles n).Nodup ↔ n ≤ 2 ^ 32 := by
  constructor
  · intro h
    by_contra hn
    have h0 : (handles n)[0]? = some ⟨.ofNat 0, 0⟩ := by
      simp only [handles, List.getElem?_map, List.getElem?_range (show 0 < n by omega)]
      rfl
    have h1 : (handles n)[2 ^ 32]? = some ⟨.ofNat (2 ^ 32), 0⟩ := by
      simp only [handles, List.getElem?_map, List.getElem?_range (show 2 ^ 32 < n by omega)]
      rfl
    have hlen : (handles n).length = n := by simp [handles]
    exact List.nodup_iff_getElem?_ne_getElem?.mp h 0 (2 ^ 32) (by omega) (by omega)
      (h0.trans h1.symm)
  · intro hn
    apply List.Nodup.map_on _ List.nodup_range
    intro i hi j hj heq
    have hij : UInt32.ofNat i = UInt32.ofNat j := congrArg Entity.id heq
    have hnat := congrArg UInt32.toNat hij
    rw [UInt32.toNat_ofNat', UInt32.toNat_ofNat'] at hnat
    have hi' := List.mem_range.mp hi
    have hj' := List.mem_range.mp hj
    omega

/-! ## After the first removal -/

/-- No id has been recycled: the generations are zero, and the ids in use or free are those
of the first `n` handles. -/
structure Unrecycled (n : Nat) (w : World κ C) : Prop where
  generations_eq : w.generations = List.replicate n 0
  entities : ∀ x ∈ w.entities, x ∈ handles n
  deadEntities : ∀ id ∈ w.deadEntities, ⟨id, 0⟩ ∈ handles n

namespace Unrecycled

variable {n : Nat} {e : Entity}

theorem fresh : Unrecycled n (fresh n : World κ C) where
  generations_eq := rfl
  entities _ hx := hx
  deadEntities id hid := by cases hid

/-- A removal frees the id of an issued handle. -/
theorem removeEntity (h : Unrecycled n w) (hw : w.removeEntity e = some w') :
    Unrecycled n w' ∧ w'.deadEntities ≠ [] := by
  obtain ⟨hmem, -⟩ := Option.ite_none_right_eq_some.mp hw
  obtain ⟨-, hent, hdead, hgen⟩ := World.removeEntity_cases hw
  refine ⟨⟨hgen.trans h.generations_eq, ?_, ?_⟩, by simp [hdead]⟩
  · intro x hx
    rw [hent] at hx
    exact h.entities x (List.mem_of_mem_eraseP hx)
  · intro id hid
    rw [hdead] at hid
    rcases List.mem_append.mp hid with hid | hid
    · exact h.deadEntities id hid
    · obtain ⟨x, hx, hxe⟩ := List.any_eq_true.mp hmem
      obtain ⟨i, hi, rfl⟩ := mem_handles.mp (h.entities x hx)
      rw [List.mem_singleton.mp hid, ← of_decide_eq_true hxe]
      exact mem_handles.mpr ⟨i, hi, rfl⟩

/-- The first recycled id is returned with generation zero. -/
theorem addEntity (h : Unrecycled n w) (hdead : w.deadEntities ≠ [])
    (hw : w.addEntity = some (e, w')) : e ∈ handles n := by
  unfold World.addEntity at hw
  rw [List.getLast?_eq_some_getLast hdead] at hw
  obtain ⟨generation, hgen, heq⟩ := Option.map_eq_some_iff.mp hw
  cases heq
  rw [h.generations_eq] at hgen
  have hzero : generation = 0 := (List.mem_replicate.mp (List.mem_of_getElem? hgen)).2
  rw [hzero]
  exact h.deadEntities _ (List.getLast_mem hdead)

/-- An `add_entity` after a removal returns an issued handle sooner or later. -/
theorem exists_mem_handles {ops : List HandleOp} {es : List Entity} (h : Unrecycled n w)
    (hdead : w.deadEntities ≠ []) (hissue : issue w ops = some (es, w'))
    (hadd : .addEntity ∈ ops) : ∃ x ∈ es, x ∈ handles n := by
  induction ops generalizing w es with
  | nil => cases hadd
  | cons op ops ih =>
    cases op with
    | addEntity =>
      obtain ⟨⟨e, w₁⟩, hw, hrest⟩ := Option.bind_eq_some_iff.mp hissue
      obtain ⟨⟨es', w₂⟩, -, heq⟩ := Option.map_eq_some_iff.mp hrest
      cases heq
      exact ⟨e, List.mem_cons_self, h.addEntity hdead hw⟩
    | removeEntity e =>
      obtain ⟨w₁, hw, hrest⟩ := Option.bind_eq_some_iff.mp hissue
      obtain ⟨h₁, hdead₁⟩ := h.removeEntity hw
      exact ih h₁ hdead₁ hrest (List.mem_of_ne_of_mem (by simp) hadd)

end Unrecycled

theorem issue_removes {ops : List HandleOp} {es : List Entity}
    (hissue : issue w ops = some (es, w')) (hadd : .addEntity ∉ ops) : es = [] := by
  induction ops generalizing w with
  | nil =>
    cases hissue
    rfl
  | cons op ops ih =>
    cases op with
    | addEntity => exact absurd List.mem_cons_self hadd
    | removeEntity e =>
      obtain ⟨w₁, -, hrest⟩ := Option.bind_eq_some_iff.mp hissue
      exact ih hrest fun h => hadd (List.mem_cons_of_mem _ h)

/-- The handles are distinct if and only if no `add_entity` follows a `remove_entity` and
there are at most `2^32` calls of `add_entity`. -/
theorem handles_nodup_iff (ops : List HandleOp) {es : List Entity}
    (hissue : issue (.init : World κ C) ops = some (es, w)) :
    es.Nodup ↔ .addEntity ∉ ops.dropWhile HandleOp.isAdd ∧
      (ops.takeWhile HandleOp.isAdd).length ≤ 2 ^ 32 := by
  obtain ⟨n, hn⟩ : ∃ n, (ops.takeWhile HandleOp.isAdd).length = n := ⟨_, rfl⟩
  have htake : ops.takeWhile HandleOp.isAdd = List.replicate n .addEntity := by
    refine List.eq_replicate_iff.mpr ⟨hn, ?_⟩
    intro op hop
    have hadd := List.mem_takeWhile_imp hop
    cases op with
    | addEntity => rfl
    | removeEntity e => cases hadd
  rw [← List.takeWhile_append_dropWhile (p := HandleOp.isAdd) (l := ops), htake] at hissue
  rw [hn]
  have hhandles : (List.range' 0 n).map (fun i => (⟨.ofNat i, 0⟩ : Entity)) = handles n := by
    rw [handles, List.range_eq_range']
  generalize hrest : ops.dropWhile HandleOp.isAdd = rest at hissue ⊢
  have hissue' := (issue_replicate 0 n rest).symm.trans hissue
  rw [hhandles, Nat.zero_add] at hissue'
  obtain ⟨⟨es', w₁⟩, htail, heq⟩ := Option.map_eq_some_iff.mp hissue'
  cases heq
  by_cases hadd : .addEntity ∈ rest
  · -- the rest starts with a removal, and a later call repeats a handle
    refine ⟨fun hnodup => ?_, fun h => absurd hadd h.1⟩
    cases rest with
    | nil => cases hadd
    | cons op rest =>
      have hhead := List.head?_dropWhile_not HandleOp.isAdd ops
      rw [hrest] at hhead
      cases op with
      | addEntity => cases hhead
      | removeEntity e =>
        obtain ⟨w₂, hw, htail'⟩ := Option.bind_eq_some_iff.mp htail
        obtain ⟨h₂, hdead⟩ := Unrecycled.fresh.removeEntity hw
        obtain ⟨x, hx, hxn⟩ := h₂.exists_mem_handles hdead htail'
          (List.mem_of_ne_of_mem (by simp) hadd)
        exact absurd hx (List.disjoint_of_nodup_append hnodup hxn)
  · rw [issue_removes htail hadd, List.append_nil, handles_nodup]
    exact ⟨fun h => ⟨hadd, h⟩, fun h => h.2⟩

theorem handles_nodup_iff_three : ∃ es, ∃ w : World Unit fun _ => Nat,
    issue .init [.addEntity, .addEntity, .removeEntity ⟨0, 0⟩] = some (es, w) ∧ es.Nodup :=
  ⟨_, _, rfl, (handles_nodup_iff [.addEntity, .addEntity, .removeEntity ⟨0, 0⟩] rfl).mpr
    (by decide)⟩

/-- Removing an entity and adding one gives the same handle again. -/
theorem handles_repeat : ∃ es, ∃ w : World Unit fun _ => Nat,
    issue .init [.addEntity, .removeEntity ⟨0, 0⟩, .addEntity] = some (es, w) ∧
      es = [⟨0, 0⟩, ⟨0, 0⟩] ∧ ¬ es.Nodup :=
  ⟨_, _, rfl, rfl, by decide⟩

end Csics.Ecs
