import Csics.Ecs.FiniteMap
import Csics.Ecs.Iteration

/-!
# Which entity a lookup is about

`contains` and `insert` look at the id of an entity, and `at` looks at the generation as well. What
`at` compares with is the `holder` of the id: the entity that was inserted first since the id was
removed last, since `insert` keeps the entity of an id it finds. So the three agree on an entity
exactly if it is the holder of its id, or nothing is, and the component that is inserted is not one
of the set itself that goes while it is inserted (`run_identifies_iff`).
-/

namespace Csics.Ecs

open Base Container

variable {α : Type} {β : Type*} {N : Nat}

/-- The holder of an id behind a call. -/
def SetOp.hold (id : UInt32) (x : Option Entity) : SetOp α β → Option Entity
  | .insert e _ | .emplace e _ | .emplaceOwn e _ _ _ =>
    if e.id = id then some (x.getD e) else x
  | .remove e => if e.id = id then none else x

/-- The entity that was inserted first under the id since the id was removed last. -/
def holder (ops : List (SetOp α β)) (id : UInt32) : Option Entity := ops.foldl (SetOp.hold id) none

namespace SparseSet

variable {s t : SparseSet α N} {e x : Entity} {c : α} {id : UInt32} {j : Nat}

theorem Rep.recorded?_insert (h : s.Rep) (ht : s.insert e c = some t) (id : UInt32) :
    t.recorded? id = if e.id = id then some ((s.recorded? id).getD e) else s.recorded? id := by
  rw [recorded?, h.entry_insert ht, recorded?]
  by_cases hid : e.id = id
  · rw [if_pos hid, if_pos hid, Option.map_some]
  · rw [if_neg hid, if_neg hid]

/-- Sets with the same entities have them under the same ids. -/
theorem Rep.recorded?_congr (hs : s.Rep) (ht : t.Rep) (h : t.entities = s.entities) :
    t.recorded? id = s.recorded? id := by
  refine Option.ext fun x => ?_
  rw [ht.recorded?_eq_some_iff, hs.recorded?_eq_some_iff, h]

theorem Rep.contains_iff_recorded? (h : s.Rep) :
    s.contains e = some true ↔ s.recorded? e.id ≠ none := by
  rw [h.contains_iff, h.recorded?_ne_none_iff]

theorem Rep.hold_of_contains (h : s.Rep) (hmem : s.contains e = some true) :
    (if e.id = id then some ((s.recorded? id).getD e) else s.recorded? id) = s.recorded? id := by
  split
  · rename_i hid
    subst hid
    obtain ⟨x, hx⟩ := Option.ne_none_iff_exists'.mp (h.contains_iff_recorded?.mp hmem)
    rw [hx, Option.getD_some]
  · rfl

theorem Rep.insertOwn {T : ElementType α} {capacity : Nat} {moves : Bool} (h : s.Rep)
    (ht : s.insertOwn T capacity e j moves = some t) (id : UInt32) :
    t.Rep ∧ t.recorded? id =
      if e.id = id then some ((s.recorded? id).getD e) else s.recorded? id := by
  rcases h.insertOwn_cases ht with ⟨c, hc⟩ | ⟨hmem, hrep, hentities⟩
  · exact ⟨h.insert hc, h.recorded?_insert hc id⟩
  · rw [h.hold_of_contains hmem]
    exact ⟨hrep, h.recorded?_congr hrep hentities⟩

end SparseSet

namespace Spaced

variable {T : ElementType α} {construct : β → α} {p q : Spaced α N} {op : SetOp α β} {e : Entity}
  {a : ComponentArg α} {m : Finmap fun _ : UInt32 => α}

/-- Every call keeps the arrays in order, and the entity of an id that it finds. -/
theorem rep_step (h : p.set.Rep) (hq : p.step T construct op = some q) (id : UInt32) :
    q.set.Rep ∧ q.set.recorded? id = op.hold id (p.set.recorded? id) := by
  cases op with
  | insert e a =>
    cases a with
    | outer c =>
      obtain ⟨t, ht, rfl⟩ := Option.map_eq_some_iff.mp hq
      exact ⟨h.insert ht, h.recorded?_insert ht id⟩
    | own j moves =>
      obtain ⟨t, ht, rfl⟩ := Option.map_eq_some_iff.mp hq
      exact h.insertOwn ht id
  | emplace e args =>
    obtain ⟨t, ht, rfl⟩ := Option.map_eq_some_iff.mp hq
    have ht : p.set.insert e (construct args) = some t := ht
    exact ⟨h.insert ht, h.recorded?_insert ht id⟩
  | emplaceOwn e j take left =>
    obtain ⟨t, ht, rfl⟩ := Option.map_eq_some_iff.mp hq
    obtain ⟨c, -, ht⟩ := SparseSet.exists_of_emplaceOwn ht
    have hleft : ({ p.set with dense := p.set.dense.set j (left c) } : SparseSet α N).Rep :=
      h.with_dense List.length_set
    refine ⟨hleft.insert ht, ?_⟩
    rw [Spaced.become, hleft.recorded?_insert ht, h.recorded?_congr hleft rfl, SetOp.hold]
  | remove e =>
    obtain ⟨t, ht, rfl⟩ := Option.map_eq_some_iff.mp hq
    refine ⟨h.remove ht, ?_⟩
    rw [Spaced.become, SparseSet.recorded?, h.entry_remove ht, SetOp.hold, SparseSet.recorded?]
    by_cases hid : e.id = id
    · rw [if_pos hid, if_pos hid, Option.map_none]
    · rw [if_neg hid, if_neg hid]

theorem rep_run {ops : List (SetOp α β)} (h : p.set.Rep)
    (hq : run (step T construct) p ops = some q) (id : UInt32) :
    q.set.Rep ∧ q.set.recorded? id = ops.foldl (SetOp.hold id) (p.set.recorded? id) := by
  induction ops generalizing p with
  | nil =>
    cases hq
    exact ⟨h, rfl⟩
  | cons op ops ih =>
    obtain ⟨p', hstep, hrest⟩ := run_cons_eq_some.mp hq
    obtain ⟨hrep, hrecorded⟩ := rep_step h hstep id
    rw [List.foldl_cons, ← hrecorded]
    exact ih hrep hrest

/-- A set that is a map has a map behind a call too. -/
theorem represents_step (h : p.set.Represents m) (hvalid : p.Valid op)
    (hq : p.step T construct op = some q) : ∃ m', q.set.Represents m' := by
  have hroom : p.Roomy op := by
    by_contra hroom
    rw [step_eq_none_of_not_roomy hroom] at hq
    cases hq
  obtain ⟨t, m', ht, hm', -⟩ := h.step_spec T construct hvalid hroom
  cases ht.symm.trans hq
  exact ⟨m', hm'⟩

/-- A run is possible if no call ends its own argument. -/
theorem exists_run_iff {ops : List (SetOp α β)}
    (hvalid : Guarded (step T construct) Valid (init : Spaced α N) ops) :
    (∃ q : Spaced α N, run (step T construct) init ops = some q) ↔
      Guarded (step T construct) Roomy (init : Spaced α N) ops := by
  refine exists_run_iff_guarded (I := fun p => ∃ m, p.set.Represents m) ?_ ?_
    ⟨∅, SparseSet.init_represents⟩ hvalid
  · rintro p op ⟨m, h⟩ hvalid
    constructor
    · rintro ⟨q, hq⟩
      by_contra hroom
      rw [step_eq_none_of_not_roomy hroom] at hq
      cases hq
    · intro hroom
      obtain ⟨t, m', ht, -⟩ := h.step_spec T construct hvalid hroom
      exact ⟨t, ht⟩
  · rintro p op q ⟨m, h⟩ hvalid hq
    exact represents_step h hvalid hq

/-! ## Lookups -/

/-- `contains` and `at` agree on `e`, and `at` finds what is inserted. -/
def Identifies (T : ElementType α) (p : Spaced α N) (e : Entity) (a : ComponentArg α) : Prop :=
  (p.set.contains e = some true ↔ ∃ c, p.set.at? e = some (some c)) ∧
    ∃ q c, p.insert T e a = some q ∧ a.component? p.set = some c ∧ q.set.at? e = some (some c)

/-- The argument is not one that goes while it is inserted: in a full `dense_`, or moved onto
itself. -/
def Survives (T : ElementType α) (p : Spaced α N) (e : Entity) : ComponentArg α → Prop
  | .outer _ => True
  | .own j moves =>
    p.Lasts e (.own j moves) ∧
      (moves = true → p.Holds j fun x c => x.id = e.id → T.selfMoved c = c)

/-- What is inserted is found if it is in the map and the entity is the one that is recorded. -/
theorem at?_iff {s t : SparseSet α N} {c : α} (h : t.Represents m)
    (hrecorded : t.recorded? e.id = some ((s.recorded? e.id).getD e))
    (hgetD : (s.recorded? e.id).getD e = e) :
    t.at? e = some (some c) ↔ m.lookup e.id = some c := by
  rw [← Option.join_eq_some_iff, h.rep.join_at?_eq_some_iff, h.lookup]
  rw [hgetD, SparseSet.recorded?] at hrecorded
  obtain ⟨⟨x, d⟩, hentry, rfl⟩ := Option.map_eq_some_iff.mp hrecorded
  rw [hentry, Option.map_some, Option.some.injEq, Option.some.injEq, Prod.mk.injEq,
    and_iff_right rfl]

theorem insert_iff (h : p.set.Represents m) (hN : e.id.toNat < N) (ha : p.Has a)
    (hgetD : (p.set.recorded? e.id).getD e = e) :
    (∃ q c, p.insert T e a = some q ∧ a.component? p.set = some c ∧
      q.set.at? e = some (some c)) ↔ p.Survives T e a := by
  cases a with
  | outer c =>
    obtain ⟨t, ht⟩ := h.rep.exists_insert hN c
    have hrecorded := (h.rep.recorded?_insert ht e.id).trans (if_pos rfl)
    refine iff_of_true ⟨p.become t, c, congrArg (Option.map p.become) ht, rfl, ?_⟩ trivial
    exact (at?_iff (h.insert ht) hrecorded hgetD).mpr (Finmap.lookup_insert m)
  | own j moves =>
    obtain ⟨x, c, hx, hc, -⟩ := h.exists_place ha
    have hsurvives : p.Survives T e (.own j moves) ↔ p.Lasts e (.own j moves) ∧
        (moves = true → x.id = e.id → T.selfMoved c = c) := by
      simp only [Survives, Holds, hx, hc, Option.mem_def, Option.some.injEq, forall_eq']
    rw [hsurvives]
    by_cases hlasts : p.Lasts e (.own j moves)
    · obtain ⟨t, ht, ht'⟩ := h.insertOwn (T := T) hN hx hc hlasts
      have hrecorded := (h.rep.insertOwn ht e.id).2.trans (if_pos rfl)
      have hat := at?_iff (c := c) ht' hrecorded hgetD
      have hmem : x.id = e.id → p.set.contains e = some true := by
        intro hid
        rw [h.rep.contains_iff, ← hid]
        exact List.mem_map_of_mem (List.mem_of_getElem? hx)
      rw [SparseSet.Represents.lookup_afterOwn_iff] at hat
      rw [and_iff_right hlasts]
      constructor
      · rintro ⟨q, d, hq, hd, hfound⟩ hmoves hid
        obtain ⟨t', ht', rfl⟩ := Option.map_eq_some_iff.mp hq
        cases ht.symm.trans ht'
        cases hc.symm.trans hd
        exact hat.mp hfound hmoves (hmem hid) hid
      · intro hself
        exact ⟨p.become t, c, congrArg (Option.map p.become) ht, hc,
          hat.mpr fun hmoves _ hid => hself hmoves hid⟩
    · have hnone : p.step T (id : α → α) (.insert e (.own j moves)) = none :=
        step_eq_none_of_not_roomy hlasts
      refine iff_of_false ?_ fun hboth => hlasts hboth.1
      rintro ⟨q, d, hq, -⟩
      cases hnone.symm.trans hq

theorem identifies_iff (h : p.set.Represents m) (hN : e.id.toNat < N) (ha : p.Has a) :
    p.Identifies T e a ↔
      (∀ x, p.set.recorded? e.id = some x → x.generation = e.generation) ∧ p.Survives T e a := by
  have hat : (∃ c, p.set.at? e = some (some c)) ↔ p.set.recorded? e.id = some e := by
    rw [← h.rep.exists_at?_iff]
    apply exists_congr
    intro c
    rw [Option.join_eq_some_iff]
  have hgen : (∀ x, p.set.recorded? e.id = some x → x.generation = e.generation) ↔
      (p.set.recorded? e.id).getD e = e := by
    cases hx : p.set.recorded? e.id with
    | none => exact iff_of_true (fun x hx => nomatch hx) rfl
    | some x =>
      have hid := (h.rep.recorded?_eq_some_iff.mp hx).2
      rw [Option.getD_some]
      constructor
      · intro hall
        have hxgen := hall x rfl
        cases x
        cases e
        exact congrArg₂ Entity.mk hid hxgen
      · rintro rfl y hy
        rw [Option.some.inj hy]
  rw [Identifies, h.rep.contains_iff_recorded?, hat, hgen]
  constructor
  · rintro ⟨hiff, hinsert⟩
    have hgetD : (p.set.recorded? e.id).getD e = e := by
      cases hx : p.set.recorded? e.id with
      | none => rfl
      | some x =>
        have he := hiff.mp (by rw [hx]; exact Option.some_ne_none x)
        rw [hx] at he
        exact Option.some.inj he
    exact ⟨hgetD, (insert_iff h hN ha hgetD).mp hinsert⟩
  · rintro ⟨hgetD, hsurvives⟩
    refine ⟨?_, (insert_iff h hN ha hgetD).mpr hsurvives⟩
    constructor
    · intro hne
      obtain ⟨x, hx⟩ := Option.ne_none_iff_exists'.mp hne
      rw [hx] at hgetD ⊢
      exact congrArg some hgetD
    · intro hsome
      rw [hsome]
      exact Option.some_ne_none e

end Spaced

variable {κ : Type*} {C : κ → Type} {B : κ → Type*}

/-- A run of calls is possible if and only if none of them ends its own argument. The sets behind
such runs identify an entity exactly if the holder of its id has the same generation, and the
argument of `insert` survives; and a view over them dereferences no null pointer exactly if every id
that they all have is held by the same entity in all of them. -/
theorem run_identifies_iff (T : ∀ k, ElementType (C k)) (construct : ∀ k, B k → C k)
    (ops : ∀ k, List (SetOp (C k) (B k)))
    (hvalid : ∀ k, Guarded (Spaced.step (N := N) (T k) (construct k)) Spaced.Valid .init (ops k)) :
    (∀ k, (∃ p, run (Spaced.step (N := N) (T k) (construct k)) .init (ops k) = some p) ↔
      Guarded (Spaced.step (N := N) (T k) (construct k)) Spaced.Roomy .init (ops k)) ∧
    ∀ sets : ∀ k, Spaced (C k) N,
      (∀ k, run (Spaced.step (T k) (construct k)) .init (ops k) = some (sets k)) →
      (∀ k e a, e.id.toNat < N → (sets k).Has a → ((sets k).Identifies (T k) e a ↔
        (∀ x, holder (ops k) e.id = some x → x.generation = e.generation) ∧
          (sets k).Survives (T k) e a)) ∧
      ∀ k ks, (∃ rs, View.iterate (fun j => (sets j).set) k ks
          (View.findSmallest (fun j => (sets j).set) k ks).length
          (View.begin (fun j => (sets j).set) k ks) = some rs) ↔
        ∀ id, (∀ j ∈ k :: ks, holder (ops j) id ≠ none) →
          ∀ j ∈ ks, holder (ops j) id = holder (ops k) id := by
  refine ⟨fun k => Spaced.exists_run_iff (hvalid k), ?_⟩
  intro sets hsets
  have hinit {k : κ} (id : UInt32) : (SparseSet.init : SparseSet (C k) N).recorded? id = none := by
    rw [SparseSet.recorded?, SparseSet.entry_init, Option.map_none]
  have hrecorded (k : κ) (id : UInt32) :
      (sets k).set.Rep ∧ (sets k).set.recorded? id = holder (ops k) id := by
    have hrun := Spaced.rep_run (T := T k) SparseSet.init_rep (hsets k) id
    rwa [show (Spaced.init : Spaced (C k) N).set.recorded? id = none from hinit id] at hrun
  have hrepresents (k : κ) : ∃ m, (sets k).set.Represents m := by
    refine run_induction (I := fun p : Spaced (C k) N => ∃ m, p.set.Represents m) ?_
      ⟨∅, SparseSet.init_represents⟩ (hvalid k) (hsets k)
    rintro p op q ⟨m, h⟩ hvalid hq
    exact Spaced.represents_step h hvalid hq
  refine ⟨?_, ?_⟩
  · intro k e a he ha
    obtain ⟨m, h⟩ := hrepresents k
    rw [Spaced.identifies_iff h he ha, (hrecorded k e.id).2]
  · intro k ks
    rw [View.exists_iterate_iff fun j _ => (hrecorded j 0).1, View.Agree]
    simp only [(hrecorded _ _).2]

/-- One set with two ids; the id 0 is removed and inserted with another generation. -/
def heldAnew : Bool → List (SetOp Nat Nat)
  | false => [.insert ⟨0, 0⟩ (.outer 7), .remove ⟨0, 0⟩, .emplace ⟨0, 1⟩ 8,
    .insert ⟨2, 0⟩ (.own 0 false)]
  | true => [.insert ⟨0, 1⟩ (.outer 9)]

theorem run_identifies_iff_heldAnew : ∃ sets : Bool → Spaced Nat 4,
    (∀ k, run (Spaced.step numberType id) .init (heldAnew k) = some (sets k)) ∧
      (sets false).Identifies numberType ⟨0, 1⟩ (.own 1 true) ∧
      ¬ (sets false).Identifies numberType ⟨2, 1⟩ (.outer 6) ∧
      ∃ rs, View.iterate (fun j => (sets j).set) false [true]
        (View.findSmallest (fun j => (sets j).set) false [true]).length
        (View.begin (fun j => (sets j).set) false [true]) = some rs := by
  have hvalid : ∀ k, Guarded (Spaced.step (N := 4) numberType id) Spaced.Valid .init
      (heldAnew k) := by
    intro k
    cases k <;> decide
  obtain ⟨hrun, hidentifies⟩ := run_identifies_iff (N := 4) (fun _ : Bool => numberType)
    (fun _ => id) heldAnew hvalid
  have hroom : ∀ k, Guarded (Spaced.step (N := 4) numberType id) Spaced.Roomy .init
      (heldAnew k) := by
    intro k
    cases k <;> decide
  choose sets hsets using fun k => (hrun k).mpr (hroom k)
  obtain ⟨hiff, hview⟩ := hidentifies sets hsets
  refine ⟨sets, hsets, ?_, ?_, ?_⟩
  · have hset : (run (Spaced.step (N := 4) numberType id) .init (heldAnew false)).map
        (fun p => (p.set.dense.length, p.set.contains ⟨0, 1⟩)) = some (2, some true) := by decide
    rw [hsets false, Option.map_some, Option.some.injEq, Prod.mk.injEq] at hset
    have hthere : (sets false).Has (.own 1 true) := Nat.one_lt_two.trans_eq hset.1.symm
    apply (hiff false ⟨0, 1⟩ (.own 1 true) (by decide) hthere).mpr
    exact ⟨by decide, Or.inl hset.2, fun _ _ _ _ _ _ => rfl⟩
  · intro h
    exact absurd (((hiff false ⟨2, 1⟩ (.outer 6) (by decide) trivial).mp h).1 ⟨2, 0⟩ rfl)
      (by decide)
  · apply (hview false [true]).mpr
    intro id hid j hj
    obtain rfl := List.mem_singleton.mp hj
    have hheld : holder (heldAnew true) id = if 0 = id then some ⟨0, 1⟩ else none := rfl
    by_cases h0 : 0 = id
    · rw [← h0]
      rfl
    · rw [if_neg h0] at hheld
      exact absurd hheld (hid true (List.mem_cons_of_mem _ List.mem_cons_self))

/-- The handle `⟨0, 1⟩` is contained and not found, also when a component is inserted with it, and a
view over two sets that know the id with two generations dereferences a null pointer. -/
theorem identifies_fails : ∃ s t : Spaced Nat 4,
    run (Spaced.step numberType (id : Nat → Nat)) .init [.insert ⟨0, 0⟩ (.outer 7)] = some s ∧
      run (Spaced.step numberType (id : Nat → Nat)) .init [.insert ⟨0, 1⟩ (.outer 9)] = some t ∧
      s.set.contains ⟨0, 1⟩ = some true ∧ s.set.at? ⟨0, 1⟩ = some none ∧
      (s.set.insert ⟨0, 1⟩ 8).bind (·.at? ⟨0, 1⟩) = some none ∧
      ¬ s.Identifies numberType ⟨0, 1⟩ (.outer 8) ∧
      View.yields (fun b : Bool => if b then t.set else s.set) false [true] = [⟨0, 0⟩] ∧
      t.set.at? ⟨0, 0⟩ = some none ∧
      View.iterate (fun b : Bool => if b then t.set else s.set) false [true] 1
        (View.begin (fun b : Bool => if b then t.set else s.set) false [true]) = none := by
  refine ⟨_, _, rfl, rfl, by decide, by decide, by decide, ?_, by decide, by decide, by decide⟩
  rintro ⟨hiff, -⟩
  obtain ⟨c, hc⟩ := hiff.mp (by decide)
  cases hc.symm.trans (show _ = some none by decide)

end Csics.Ecs
