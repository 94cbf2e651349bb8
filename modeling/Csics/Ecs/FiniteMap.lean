import Mathlib.Data.Finmap
import Csics.Ecs.SetCalls

/-!
# Sparse sets as finite maps

What a sparse set is for is a finite map from ids to components: `insert` and `emplace` write one
key and `remove` erases one. `Represents s m` says that `s` is the map `m`. Every call keeps this,
whichever entry a removal moves, unless it is given a component of the set itself that its own
`reallocate` ends (`Roomy`) or that it leaves as another one (`Keeps`): see `run_represents_iff`.
-/

namespace Csics.Ecs

open Base Container

variable {α : Type} {β : Type*} {N : Nat}

/-- The component that is given. -/
def ComponentArg.component? (s : SparseSet α N) : ComponentArg α → Option α
  | .outer c => some c
  | .own j _ => s.dense[j]?

/-- The call on a finite map, with the component that the set has been given. -/
def SetOp.apply (construct : β → α) (s : SparseSet α N) (m : Finmap fun _ : UInt32 => α) :
    SetOp α β → Finmap fun _ : UInt32 => α
  | .insert e a => (a.component? s).elim m (m.insert e.id)
  | .emplace e args => m.insert e.id (construct args)
  | .emplaceOwn e j take _ => s.dense[j]?.elim m fun c => m.insert e.id (take c)
  | .remove e => m.erase e.id

namespace Spaced

/-- A component of the set that is moved from is the one that is replaced, or as good as before. -/
def Keeps (T : ElementType α) (p : Spaced α N) : SetOp α β → Prop
  | .insert e (.own j true) =>
    p.set.contains e = some true →
      p.Holds j fun x c => if x.id = e.id then T.selfMoved c = c else T.movedFrom c = c
  | .emplaceOwn e j _ left => p.Holds j fun x c => x.id = e.id ∨ left c = c
  | _ => True

instance [DecidableEq α] (T : ElementType α) (p : Spaced α N) :
    (op : SetOp α β) → Decidable (p.Keeps T op)
  | .insert e (.own j true) => inferInstanceAs (Decidable (p.set.contains e = some true →
      p.Holds j fun x c => if x.id = e.id then T.selfMoved c = c else T.movedFrom c = c))
  | .emplaceOwn e j _ left =>
    inferInstanceAs (Decidable (p.Holds j fun x c => x.id = e.id ∨ left c = c))
  | .insert _ (.own _ false) | .insert _ (.outer _) | .emplace _ _ | .remove _ => isTrue trivial

end Spaced

namespace SparseSet

variable {s t : SparseSet α N} {m m' : Finmap fun _ : UInt32 => α}
  {op : SetOp α β} {e x : Entity} {id : UInt32} {c d : α} {j : Nat}

/-- The arrays are in order. -/
structure Ordered (s : SparseSet α N) : Prop where
  length_eq : s.dense.length = s.entities.length
  nodup : s.ids.Nodup
  place : ∀ id, ∀ hN : id < N, ∀ i,
    s.sparse[id] = i ∧ i < s.dense.length ↔ s.ids[i]? = some id
  sentinel : ∀ id, ∀ hN : id < N, id ∉ s.ids → s.sparse[id] = npos

/-- The component under each id is the one of the map. -/
structure Represents (s : SparseSet α N) (m : Finmap fun _ : UInt32 => α) : Prop where
  rep : s.Rep
  lookup : ∀ id, m.lookup id = (s.entry id).map Prod.snd

theorem init_represents : (init : SparseSet α N).Represents ∅ where
  rep := init_rep
  lookup id := by
    rw [Finmap.lookup_empty, entry_init]
    rfl

namespace Rep

/-- `sparse_` has the place of an id, and no other number that is below the size. -/
theorem sparse_eq_iff (h : s.Rep) {id : Nat} (hN : id < N) (i : Nat) :
    s.sparse[id] = i ∧ i < s.dense.length ↔ s.ids[i]? = some id := by
  have hget : s.sparse[id]? = some s.sparse[id] := Vector.getElem?_eq_getElem hN
  constructor
  · rintro ⟨rfl, hlt⟩
    refine (h.sparse_iff _ _).mp ⟨hget, ?_⟩
    have hlen := h.length_lt
    omega
  · intro hi
    obtain ⟨hsparse, -⟩ := (h.sparse_iff _ _).mpr hi
    have hlt := (List.getElem?_eq_some_iff.mp hi).1
    rw [length_ids, h.length_eq] at hlt
    exact ⟨Option.some.inj (hget.symm.trans hsparse), hlt⟩

theorem sparse_of_notMem (h : s.Rep) {id : Nat} (hN : id < N) (hid : id ∉ s.ids) :
    s.sparse[id] = npos := by
  by_contra hne
  exact hid (List.mem_of_getElem? ((h.sparse_iff _ _).mp ⟨Vector.getElem?_eq_getElem hN, hne⟩))

theorem ordered (h : s.Rep) : s.Ordered where
  length_eq := h.length_eq.symm
  nodup := h.nodup
  place _ hN := h.sparse_eq_iff hN
  sentinel _ hN := h.sparse_of_notMem hN

end Rep

namespace Represents

theorem mem_iff (h : s.Represents m) : id ∈ m ↔ id.toNat ∈ s.ids := by
  rw [Finmap.mem_iff, ← h.rep.exists_entry_iff]
  constructor
  · rintro ⟨c, hc⟩
    rw [h.lookup] at hc
    obtain ⟨p, hp, -⟩ := Option.map_eq_some_iff.mp hc
    exact ⟨p, hp⟩
  · rintro ⟨p, hp⟩
    refine ⟨p.2, ?_⟩
    rw [h.lookup, hp]
    rfl

theorem contains_eq (h : s.Represents m) (hN : e.id.toNat < N) :
    s.contains e = some (decide (e.id ∈ m)) := by
  have hiff := h.rep.contains_iff (e := e)
  rw [← h.mem_iff] at hiff
  unfold contains at hiff ⊢
  rw [dif_pos hN, Option.some.injEq] at hiff ⊢
  by_cases hmem : e.id ∈ m
  · rw [hiff.mpr hmem, decide_eq_true hmem]
  · rw [eq_false_of_ne_true (mt hiff.mp hmem), decide_eq_false hmem]

/-- The size is the number of keys. -/
theorem card_keys (h : s.Represents m) : m.keys.card = s.dense.length := by
  have hnodup : (s.entities.map Entity.id).Nodup := by
    apply List.Nodup.of_map UInt32.toNat
    rw [List.map_map]
    exact h.rep.nodup
  have hkeys : m.keys = (s.entities.map Entity.id).toFinset := by
    ext id
    rw [Finmap.mem_keys, h.mem_iff, List.mem_toFinset, ids, List.mem_map, List.mem_map]
    simp only [UInt32.toNat_inj]
  rw [hkeys, List.toFinset_card_of_nodup hnodup, List.length_map, h.rep.length_eq]

theorem insert (h : s.Represents m) (ht : s.insert e c = some t) :
    t.Represents (m.insert e.id c) where
  rep := h.rep.insert ht
  lookup id := by
    rw [h.rep.entry_insert ht]
    by_cases hid : e.id = id
    · subst hid
      rw [if_pos rfl, Finmap.lookup_insert]
      rfl
    · rw [if_neg hid, Finmap.lookup_insert_of_ne m (Ne.symm hid), h.lookup]

theorem remove (h : s.Represents m) (ht : s.remove e = some t) : t.Represents (m.erase e.id) where
  rep := h.rep.remove ht
  lookup id := by
    rw [h.rep.entry_remove ht]
    by_cases hid : e.id = id
    · subst hid
      rw [if_pos rfl, Finmap.lookup_erase]
      rfl
    · rw [if_neg hid, Finmap.lookup_erase_ne (Ne.symm hid), h.lookup]

/-- A set is one map. -/
theorem eq (h : s.Represents m) (h' : s.Represents m') : m = m' := by
  apply Finmap.ext_lookup
  intro id
  rw [h.lookup, h'.lookup]

theorem lookup_place (h : s.Represents m) (hx : s.entities[j]? = some x)
    (hc : s.dense[j]? = some c) : m.lookup x.id = some c := by
  rw [h.lookup, h.rep.entry_eq_some_iff.mpr ⟨j, hx, hc, rfl⟩, Option.map_some]

/-- The component of one entity is replaced. -/
theorem set_dense (h : s.Represents m) (hx : s.entities[j]? = some x) (d : α) :
    ({ s with dense := s.dense.set j d } : SparseSet α N).Represents (m.insert x.id d) :=
  h.insert (h.rep.insert_recorded hx d)

end Represents

/-- A key that has the value already. -/
theorem insert_eq_self_iff (hc : m.lookup id = some c) : m.insert id d = m ↔ d = c := by
  constructor
  · intro heq
    have hd : (m.insert id d).lookup id = some d := Finmap.lookup_insert m
    rw [heq, hc] at hd
    exact (Option.some.inj hd).symm
  · rintro rfl
    apply Finmap.ext_lookup
    intro id'
    by_cases hid : id' = id
    · subst hid
      rw [Finmap.lookup_insert, hc]
    · rw [Finmap.lookup_insert_of_ne m hid]

namespace Represents

variable {p : Spaced α N} {T : ElementType α} {construct : β → α}

/-- What a component of the set itself that is inserted makes of the map. `x` is its entity. -/
def afterOwn (T : ElementType α) (s : SparseSet α N) (m : Finmap fun _ : UInt32 => α) (e : Entity)
    (moves : Bool) (x : Entity) (c : α) : Finmap fun _ : UInt32 => α :=
  if moves = true ∧ s.contains e = some true then
    if x.id = e.id then m.insert e.id (T.selfMoved c)
    else (m.insert e.id c).insert x.id (T.movedFrom c)
  else m.insert e.id c

/-- If it is moved from, it is the component that is replaced, or another one. -/
theorem afterOwn_eq_iff (hx : m.lookup x.id = some c) {moves : Bool} :
    afterOwn T s m e moves x c = m.insert e.id c ↔ (moves = true → s.contains e = some true →
      if x.id = e.id then T.selfMoved c = c else T.movedFrom c = c) := by
  unfold afterOwn
  split
  · rename_i hmoved
    rw [forall_prop_of_true hmoved.1, forall_prop_of_true hmoved.2]
    split
    · rw [← insert_eq_self_iff (Finmap.lookup_insert m) (d := T.selfMoved c),
        Finmap.insert_insert]
    · rename_i hne
      apply insert_eq_self_iff
      rw [Finmap.lookup_insert_of_ne m hne, hx]
  · rename_i hmoved
    exact iff_of_true rfl fun hmoves hmem => absurd ⟨hmoves, hmem⟩ hmoved

/-- The map has the component under the id that is inserted, unless it is moved onto itself. -/
theorem lookup_afterOwn_iff {moves : Bool} : (afterOwn T s m e moves x c).lookup e.id = some c ↔
    (moves = true → s.contains e = some true → x.id = e.id → T.selfMoved c = c) := by
  unfold afterOwn
  split
  · rename_i hmoved
    rw [forall_prop_of_true hmoved.1, forall_prop_of_true hmoved.2]
    split
    · rename_i hid
      rw [Finmap.lookup_insert, Option.some.injEq, forall_prop_of_true hid]
    · rename_i hne
      rw [Finmap.lookup_insert_of_ne _ (Ne.symm hne)]
      exact iff_of_true (Finmap.lookup_insert m) fun hid => absurd hid hne
  · rename_i hmoved
    exact iff_of_true (Finmap.lookup_insert m) fun hmoves hmem => absurd ⟨hmoves, hmem⟩ hmoved

/-- An argument in the set itself is copied or moved from where its place is. -/
theorem insertOwn (h : s.Represents m) {capacity : Nat} {moves : Bool} (hN : e.id.toNat < N)
    (hx : s.entities[j]? = some x) (hc : s.dense[j]? = some c)
    (hlasts : (⟨s, capacity⟩ : Spaced α N).Lasts e (.own j moves)) :
    ∃ t, s.insertOwn T capacity e j moves = some t ∧
      t.Represents (afterOwn T s m e moves x c) := by
  unfold afterOwn
  by_cases hmem : s.contains e = some true
  · obtain ⟨i, y, hy, hyid, hi, hinsert⟩ := h.rep.insertOwn_recorded T capacity moves hN hc hmem
    have hassign := h.set_dense hy c
    rw [hyid] at hassign
    cases moves with
    | false =>
      rw [if_neg fun hmoved => Bool.noConfusion hmoved.1]
      exact ⟨_, hinsert, hassign⟩
    | true =>
      rw [if_pos ⟨rfl, hmem⟩]
      refine ⟨_, hinsert, ?_⟩
      by_cases hij : i = j
      · subst hij
        obtain rfl := Option.some.inj (hy.symm.trans hx)
        rw [if_pos hyid, assignOwn, if_neg Bool.noConfusion, if_pos rfl, ← hyid]
        exact h.set_dense hy (T.selfMoved c)
      · have hne : x.id ≠ e.id := by
          intro hxid
          exact hij (h.rep.place_unique hy hx (hyid.trans hxid.symm))
        rw [if_neg hne, assignOwn, if_neg Bool.noConfusion, if_neg hij]
        exact hassign.set_dense hx (T.movedFrom c)
  · have hroom : s.dense.length < capacity := hlasts.resolve_left hmem
    obtain ⟨t, ht⟩ := h.rep.exists_insert hN c
    rw [if_neg fun hmoved => hmem hmoved.2]
    exact ⟨t, (insertOwn_of_room hN hc hmem hroom).trans ht, h.insert ht⟩

/-- What is made of such an argument is inserted behind what is left of it. -/
theorem emplaceOwn (h : s.Represents m) (take left : α → α) (hN : e.id.toNat < N)
    (hx : s.entities[j]? = some x) (hc : s.dense[j]? = some c) :
    ∃ t, s.emplaceOwn e j take left = some t ∧
      t.Represents ((m.insert x.id (left c)).insert e.id (take c)) := by
  have hleft := h.set_dense hx (left c)
  obtain ⟨t, ht⟩ := hleft.rep.exists_insert hN (take c)
  refine ⟨t, ?_, hleft.insert ht⟩
  rw [SparseSet.emplaceOwn, hc]
  exact ht

theorem insert_left_eq_iff (hx : m.lookup x.id = some c) {take left : α → α} :
    (m.insert x.id (left c)).insert e.id (take c) = m.insert e.id (take c) ↔
      x.id = e.id ∨ left c = c := by
  by_cases hid : x.id = e.id
  · rw [hid, Finmap.insert_insert]
    exact iff_of_true rfl (Or.inl rfl)
  · rw [or_iff_right hid, Finmap.insert_insert_of_ne m hid]
    apply insert_eq_self_iff
    rw [Finmap.lookup_insert_of_ne m hid, hx]

/-- The entity and the component at a place. -/
theorem exists_place (h : s.Represents m) (hj : j < s.dense.length) :
    ∃ x c, s.entities[j]? = some x ∧ s.dense[j]? = some c ∧ m.lookup x.id = some c := by
  have hj' : j < s.entities.length := h.rep.length_eq ▸ hj
  have hx : s.entities[j]? = some s.entities[j] := List.getElem?_eq_getElem hj'
  have hc : s.dense[j]? = some s.dense[j] := List.getElem?_eq_getElem hj
  exact ⟨_, _, hx, hc, h.lookup_place hx hc⟩

/-- A call that has room is defined, and does to the map what it is for if and only if it keeps the
other components. -/
theorem step_spec (h : p.set.Represents m) (T : ElementType α) (construct : β → α)
    (hvalid : p.Valid op) (hroom : p.Roomy op) :
    ∃ t m', p.step T construct op = some t ∧ t.set.Represents m' ∧
      (m' = op.apply construct p.set m ↔ p.Keeps T op) := by
  cases op with
  | insert e a =>
    cases a with
    | outer c =>
      obtain ⟨t, ht⟩ := h.rep.exists_insert hvalid.1 c
      exact ⟨p.become t, _, congrArg (Option.map p.become) ht, h.insert ht,
        iff_of_true rfl trivial⟩
    | own j moves =>
      obtain ⟨x, c, hx, hc, hlookup⟩ := h.exists_place hvalid.2
      obtain ⟨t, ht, hafter⟩ := h.insertOwn (T := T) hvalid.1 hx hc hroom
      refine ⟨p.become t, _, congrArg (Option.map p.become) ht, hafter, ?_⟩
      rw [SetOp.apply, ComponentArg.component?, hc, Option.elim_some, afterOwn_eq_iff hlookup]
      cases moves with
      | false => exact iff_of_true (fun hmoves => Bool.noConfusion hmoves) trivial
      | true =>
        simp only [Spaced.Keeps, Spaced.Holds, hx, hc, Option.mem_def, Option.some.injEq,
          forall_eq', forall_const]
  | emplace e args =>
    obtain ⟨t, ht⟩ := h.rep.exists_insert hvalid (construct args)
    exact ⟨p.become t, _, congrArg (Option.map p.become) ht, h.insert ht, iff_of_true rfl trivial⟩
  | emplaceOwn e j take left =>
    obtain ⟨x, c, hx, hc, hlookup⟩ := h.exists_place hvalid.2
    obtain ⟨t, ht, hleft⟩ := h.emplaceOwn take left hvalid.1 hx hc
    refine ⟨p.become t, _, congrArg (Option.map p.become) ht, hleft, ?_⟩
    rw [SetOp.apply, hc, Option.elim_some, insert_left_eq_iff hlookup]
    simp only [Spaced.Keeps, Spaced.Holds, hx, hc, Option.mem_def, Option.some.injEq, forall_eq']
  | remove e =>
    obtain ⟨t, ht⟩ := h.rep.exists_remove e
    exact ⟨p.become t, _, congrArg (Option.map p.become) ht, h.remove ht, iff_of_true rfl trivial⟩

end Represents

end SparseSet

namespace Spaced

variable {p : Spaced α N} {T : ElementType α} {construct : β → α} {op : SetOp α β}

/-- An argument that the call ends itself is read. -/
theorem step_eq_none_of_not_roomy (hroom : ¬ p.Roomy op) : p.step T construct op = none := by
  cases op with
  | insert e a =>
    cases a with
    | outer c => exact absurd trivial hroom
    | own j moves =>
      obtain ⟨hnew, hfull⟩ := not_or.mp hroom
      have hnone : p.set.insertOwn T p.capacity e j moves = none :=
        SparseSet.insertOwn_eq_none hnew (Nat.le_of_not_lt hfull)
      exact congrArg (Option.map p.become) hnone
  | _ => exact absurd trivial hroom

section

variable (T construct)

/-- The call on the set, and on the finite map. -/
def both (p : Spaced α N × Finmap fun _ : UInt32 => α) (op : SetOp α β) :
    Option (Spaced α N × Finmap fun _ : UInt32 => α) :=
  (p.1.step T construct op).map fun t => (t, op.apply construct p.1.set p.2)

end

/-- A new set, and no key. -/
def start : Spaced α N × Finmap fun _ : UInt32 => α := (init, ∅)

/-- The arrays are in order, and the set is the map. -/
def Refines (p : Spaced α N × Finmap fun _ : UInt32 => α) : Prop :=
  p.1.set.Ordered ∧ p.1.set.Represents p.2

theorem both_refines_iff {p : Spaced α N × Finmap fun _ : UInt32 => α}
    (h : p.1.set.Represents p.2) (hvalid : p.1.Valid op) :
    (∃ p', both T construct p op = some p' ∧ Refines p') ↔ p.1.Roomy op ∧ p.1.Keeps T op := by
  constructor
  · rintro ⟨p', hp', -, hrepresents⟩
    obtain ⟨t, ht, rfl⟩ := Option.map_eq_some_iff.mp hp'
    have hroom : p.1.Roomy op := by
      by_contra hroom
      rw [step_eq_none_of_not_roomy hroom] at ht
      cases ht
    obtain ⟨t', m', ht', hm', hiff⟩ := h.step_spec T construct hvalid hroom
    cases ht.symm.trans ht'
    exact ⟨hroom, hiff.mp (hm'.eq hrepresents)⟩
  · rintro ⟨hroom, hkeeps⟩
    obtain ⟨t, m', ht, hm', hiff⟩ := h.step_spec T construct hvalid hroom
    refine ⟨(t, op.apply construct p.1.set p.2), ?_, hm'.rep.ordered, ?_⟩
    · rw [both, ht, Option.map_some]
    · rw [← hiff.mpr hkeeps]
      exact hm'

end Spaced

/-- In a run of calls on ids below `N` the arrays are in order behind every call, and the set is the
finite map that the calls make, if and only if no call is given a component of the set itself that
it ends or leaves as another one. -/
theorem run_represents_iff (T : ElementType α) (construct : β → α) (ops : List (SetOp α β))
    (hvalid : Guarded (Spaced.both (N := N) T construct) (fun p op => p.1.Valid op) Spaced.start
      ops) :
    Always (Spaced.both (N := N) T construct) Spaced.Refines Spaced.start ops ↔
      Guarded (Spaced.both (N := N) T construct) (fun p op => p.1.Roomy op ∧ p.1.Keeps T op)
        Spaced.start ops := by
  have hstart : (SparseSet.init : SparseSet α N).Represents ∅ := SparseSet.init_represents
  refine always_iff_guarded (I := fun p => p.1.set.Represents p.2) ?_ ?_ hstart
    ⟨hstart.rep.ordered, hstart⟩ hvalid
  · intro p op h hvalid
    exact Spaced.both_refines_iff h hvalid
  · intro p op p' h hvalid hok hp'
    obtain ⟨p'', hp'', hrefines⟩ := (Spaced.both_refines_iff h hvalid).mpr hok
    cases hp'.symm.trans hp''
    exact hrefines.2

/-- Numbers, which a move leaves. -/
def numberType : ElementType Nat where
  triviallyCopyable := true
  triviallyDestructible := true
  triviallyDefaultConstructible := true
  movedFrom v := v
  selfMoved v := v
  destructible_of_copyable _ := rfl
  destructible_of_default _ := rfl
  movedFrom_of_copyable _ _ := rfl
  selfMoved_of_copyable _ _ := rfl

/-- Two entities, of which the first is removed, so that the second takes its place; an id that
is out of range is removed, the component of the second is replaced, and a third one gets a copy. -/
def swapped : List (SetOp Nat Nat) :=
  [.insert ⟨0, 0⟩ (.outer 7), .emplace ⟨1, 0⟩ 8, .remove ⟨0, 3⟩, .remove ⟨5, 0⟩,
    .insert ⟨1, 1⟩ (.outer 9), .insert ⟨2, 0⟩ (.own 0 true), .emplaceOwn ⟨3, 0⟩ 1 (· + 1) id]

theorem run_represents_iff_swapped :
    Always (Spaced.both (N := 4) numberType (· + 1)) Spaced.Refines Spaced.start swapped :=
  (run_represents_iff (N := 4) numberType (· + 1) swapped (by decide)).mpr (by decide)

/-- Two components fill `dense_`, and the first of them is inserted under a third id. -/
theorem not_represents_own :
    Guarded (Spaced.both (N := 4) numberType (· + 1)) (fun p op => p.1.Valid op) Spaced.start
      [.insert ⟨0, 0⟩ (.outer 7), .insert ⟨1, 0⟩ (.outer 8), .insert ⟨2, 0⟩ (.own 0 false)] ∧
    ¬ Always (Spaced.both (N := 4) numberType (· + 1)) Spaced.Refines Spaced.start
      [.insert ⟨0, 0⟩ (.outer 7), .insert ⟨1, 0⟩ (.outer 8), .insert ⟨2, 0⟩ (.own 0 false)] := by
  refine ⟨by decide, ?_⟩
  intro h
  obtain ⟨p, hp, -⟩ := always_iff.mp h _ [] (List.append_nil _).symm
  cases hp

end Csics.Ecs
