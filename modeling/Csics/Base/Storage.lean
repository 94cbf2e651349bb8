import Mathlib.Data.List.Basic
import Mathlib.Tactic.Common

/-!
# Objects in storage

A storage is a row of slots, in which objects begin and end. Every object has a number of its own,
and `Lifetimes` tells how many have begun and which have ended. An operation on a slot out of range
is `none`, and so is reading, assigning or ending an object that is not there. Objects are either
quiet, and then their slot may be used again without ending them, or they are not.

`Held` says that a storage begins with given objects and has no others, unless they are quiet. The
lemmas about it tell for each operation which objects it leaves. What has begun is held or has ended
(`Conserves`).
-/

namespace Csics.Base

variable {α : Type*}

/-- An object: which one it is, and its value. -/
structure Object (α : Type*) where
  id : Nat
  value : α
  deriving DecidableEq, Repr

/-- How many objects have begun, and which have ended. -/
structure Lifetimes where
  begun : Nat
  ended : List Nat
  deriving DecidableEq, Repr

/-- A row of slots, each of them with an object or without. -/
abbrev Slots (α : Type*) := List (Option (Object α))

/-- Objects that begin one after another, with these values. -/
def number (n : Nat) : List α → List (Object α)
  | [] => []
  | v :: vs => ⟨n, v⟩ :: number (n + 1) vs

def values (os : List (Object α)) : List α := os.map Object.value

def ids (os : List (Object α)) : List Nat := os.map Object.id

/-- The same objects with other values. -/
def Object.become (f : α → α) (o : Object α) : Object α := { o with value := f o.value }

namespace Slots

/-- New storage has no objects. -/
def fresh (n : Nat) : Slots α := List.replicate n none

/-- The slots from `i` on are replaced. -/
def splice (s : Slots α) (i : Nat) (mid : Slots α) : Slots α :=
  s.take i ++ mid ++ s.drop (i + mid.length)

/-- The objects in `n` slots from `i` on. -/
def objects (s : Slots α) (i n : Nat) : Option (List (Object α)) :=
  if i + n ≤ s.length then ((s.drop i).take n).mapM id else none

/-- Their values. -/
def read (s : Slots α) (i n : Nat) : Option (List α) := (s.objects i n).map values

/-- Objects are there from `i` on, without any access. -/
def appear (s : Slots α) (i : Nat) (vs : List α) (life : Lifetimes) : Slots α × Lifetimes :=
  (s.splice i ((number life.begun vs).map some), { life with begun := life.begun + vs.length })

/-- Bytes are copied into the slots, and make up objects. -/
def copyBytes (s : Slots α) (i : Nat) (vs : List α) (life : Lifetimes) :
    Option (Slots α × Lifetimes) :=
  if i + vs.length ≤ s.length then some (s.appear i vs life) else none

/-- Objects begin in the slots, which are without one unless it is quiet. -/
def construct (quiet : Bool) (s : Slots α) (i : Nat) (vs : List α) (life : Lifetimes) :
    Option (Slots α × Lifetimes) :=
  if quiet = true ∨ ∀ o ∈ (s.drop i).take vs.length, o = none then s.copyBytes i vs life
  else none

/-- The objects in the slots end. -/
def destroy (s : Slots α) (i n : Nat) (life : Lifetimes) : Option (Slots α × Lifetimes) :=
  (s.objects i n).map fun os => (s.splice i (fresh n), { life with ended := life.ended ++ ids os })

/-- The objects in the slots are moved from: their values, and the slots behind it. -/
def moveOut (moved : α → α) (s : Slots α) (i n : Nat) : Option (List α × Slots α) :=
  (s.objects i n).map fun os => (values os, s.splice i (os.map fun o => some (o.become moved)))

/-- One object is assigned from another one, which is moved from, or from itself. -/
def moveAssign (moved selfMoved : α → α) (s : Slots α) (dst src : Nat) : Option (Slots α) :=
  match s[dst]?, s[src]? with
  | some (some d), some (some o) =>
    if dst = src then some (s.set dst (some (d.become selfMoved)))
    else some ((s.set dst (some { d with value := o.value })).set src (some (o.become moved)))
  | _, _ => none

end Slots

namespace Slots

/-- The numbers of all objects that are there. -/
def live (s : Slots α) : List Nat := s.filterMap (Option.map Object.id)

end Slots

/-! ## Objects and their numbers -/

variable {n i : Nat} {v : α} {vs : List α} {os as bs cs : List (Object α)}

@[simp] theorem length_number : (number n vs).length = vs.length := by
  induction vs generalizing n with
  | nil => rfl
  | cons v vs ih => simp [number, ih]

@[simp] theorem values_number : values (number n vs) = vs := by
  induction vs generalizing n with
  | nil => rfl
  | cons v vs ih =>
    have htail : values (number (n + 1) vs) = vs := ih
    rw [number, values, List.map_cons]
    exact congrArg _ htail

@[simp] theorem values_nil : values ([] : List (Object α)) = [] := rfl

@[simp] theorem values_singleton {o : Object α} : values [o] = [o.value] := rfl

@[simp] theorem values_append : values (as ++ bs) = values as ++ values bs := List.map_append

@[simp] theorem length_values : (values os).length = os.length := List.length_map _

@[simp] theorem ids_nil : ids ([] : List (Object α)) = [] := rfl

@[simp] theorem ids_append : ids (as ++ bs) = ids as ++ ids bs := List.map_append

@[simp] theorem values_become (f : α → α) :
    values (os.map (Object.become f)) = (values os).map f := by
  simp only [values, List.map_map]
  rfl

@[simp] theorem ids_become (f : α → α) : ids (os.map (Object.become f)) = ids os := by
  simp only [ids, List.map_map]
  rfl

theorem count_ids_number {k : Nat} :
    (ids (number n vs)).count k = if n ≤ k ∧ k < n + vs.length then 1 else 0 := by
  induction vs generalizing n with
  | nil =>
    rw [if_neg (by simp only [List.length_nil]; omega)]
    rfl
  | cons v vs ih =>
    have hcons : ids (number n (v :: vs)) = n :: ids (number (n + 1) vs) := rfl
    rw [hcons, List.count_cons, ih]
    simp only [List.length_cons, beq_iff_eq]
    split_ifs <;> omega

/-! ## What has begun is held or has ended -/

/-- Is this the number of an object that has begun? -/
def Lifetimes.issued (life : Lifetimes) (k : Nat) : Nat := if k < life.begun then 1 else 0

/-- From one state to another, no object that was held, or that has begun in between, is lost. -/
def Conserves (is : List Nat) (life : Lifetimes) (is' : List Nat) (life' : Lifetimes) : Prop :=
  ∀ k, is'.count k + life'.ended.count k + life.issued k =
    is.count k + life.ended.count k + life'.issued k

variable {is is' is'' : List Nat} {life life' life'' : Lifetimes}

theorem Conserves.refl : Conserves is life is life := fun _ => rfl

theorem Conserves.trans (h : Conserves is life is' life') (h' : Conserves is' life' is'' life'') :
    Conserves is life is'' life'' := by
  intro k
  have hk := h k
  have hk' := h' k
  omega

/-- What is held besides does not matter. -/
theorem Conserves.append (h : Conserves is life is' life') (js : List Nat) :
    Conserves (is ++ js) life (is' ++ js) life' := by
  intro k
  have hk := h k
  simp only [List.count_append]
  omega

theorem conserves_begun (is : List Nat) (life : Lifetimes) (vs : List α) :
    Conserves is life (is ++ ids (number life.begun vs))
      { life with begun := life.begun + vs.length } := by
  intro k
  simp only [List.count_append, count_ids_number, Lifetimes.issued]
  split_ifs <;> omega

theorem conserves_ended (is is' : List Nat) (life : Lifetimes) :
    Conserves (is ++ is') life is { life with ended := life.ended ++ is' } := by
  intro k
  simp only [List.count_append, Lifetimes.issued]
  omega

/-! ## Slots -/

namespace Slots

variable {s s' pre mid mid' post : Slots α} {quiet : Bool} {d o : Object α}
  {moved selfMoved : α → α}

@[simp] theorem length_fresh : (fresh n : Slots α).length = n := List.length_replicate

theorem splice_append (hi : i = pre.length) (hmid : mid'.length = mid.length) :
    splice (pre ++ mid ++ post) i mid' = pre ++ mid' ++ post := by
  subst hi
  rw [splice, hmid, List.append_assoc pre mid, List.take_left, ← List.append_assoc,
    ← List.length_append, List.drop_left]

theorem slice_append (hi : i = pre.length) (hn : n = mid.length) :
    ((pre ++ mid ++ post).drop i).take n = mid := by
  subst hi hn
  rw [List.append_assoc, List.drop_left, List.take_left]

theorem mapM_some (os : List (Object α)) : (os.map some).mapM id = some os := by
  induction os with
  | nil => rfl
  | cons o os ih =>
    rw [List.map_cons, List.mapM_cons, ih]
    rfl

theorem objects_append (hi : i = pre.length) (hn : n = os.length) :
    objects (pre ++ os.map some ++ post) i n = some os := by
  have hlength : (os.map some).length = os.length := List.length_map _
  have hle : i + n ≤ (pre ++ os.map some ++ post).length := by
    simp only [List.length_append, hlength]
    omega
  rw [objects, if_pos hle, slice_append hi (hn.trans hlength.symm), mapM_some]

/-! ### Storage that begins with given objects -/

/-- The first slots hold these objects, and the other ones none, unless objects are quiet. -/
def Held (quiet : Bool) (s : Slots α) (os : List (Object α)) : Prop :=
  ∃ rest, s = os.map some ++ rest ∧ (quiet = false → ∀ o ∈ rest, o = none)

theorem held_fresh (quiet : Bool) (n : Nat) : Held quiet (fresh n : Slots α) [] :=
  ⟨fresh n, rfl, fun _ _ ho => List.eq_of_mem_replicate ho⟩

theorem Held.length_le (h : Held quiet s os) : os.length ≤ s.length := by
  obtain ⟨rest, rfl, -⟩ := h
  simp

theorem Held.objects (h : Held quiet s (as ++ bs ++ cs)) :
    s.objects as.length bs.length = some bs := by
  obtain ⟨rest, rfl, -⟩ := h
  rw [List.map_append, List.map_append, List.append_assoc _ (cs.map some)]
  exact objects_append (List.length_map _).symm rfl

/-- The objects at the end of those that are held. -/
theorem Held.objects_end (h : Held quiet s (as ++ bs)) :
    s.objects as.length bs.length = some bs := by
  rw [← List.append_nil (as ++ bs)] at h
  exact h.objects

theorem Held.read (h : Held quiet s os) : s.read 0 os.length = some (values os) := by
  rw [← List.nil_append os] at h
  have hobjects : s.objects 0 os.length = some os := h.objects_end
  rw [Slots.read, hobjects]
  rfl

/-- The values of some of the objects that are held. -/
theorem Held.read_slice (h : Held quiet s os) (hle : i + n ≤ os.length) :
    s.read i n = some (((values os).drop i).take n) := by
  have hsplit : os = os.take i ++ (os.drop i).take n ++ (os.drop i).drop n := by
    rw [List.append_assoc, List.take_append_drop, List.take_append_drop]
  rw [hsplit] at h
  have hobjects := h.objects
  rw [List.length_take_of_le (by omega), List.length_take_of_le (by simp; omega)] at hobjects
  rw [Slots.read, hobjects, Option.map_some]
  simp only [values, List.map_take, List.map_drop]

/-- Objects in the place of the first ones. -/
theorem Held.overwrite (life : Lifetimes) (h : Held quiet s (as ++ bs))
    (hlength : vs.length = as.length) :
    ∃ s', s.copyBytes 0 vs life = some (s', { life with begun := life.begun + vs.length }) ∧
      Held quiet s' (number life.begun vs ++ bs) ∧ s'.length = s.length := by
  obtain ⟨rest, rfl, hrest⟩ := h
  have hroom : 0 + vs.length ≤ ((as ++ bs).map some ++ rest).length := by
    simp only [List.length_append, List.length_map]
    omega
  have hsplice : Slots.splice ((as ++ bs).map some ++ rest) 0 ((number life.begun vs).map some) =
      (number life.begun vs ++ bs).map some ++ rest := by
    have hcount : ((number life.begun vs).map some).length = (as.map some).length := by
      simp [hlength]
    rw [List.map_append, List.append_assoc, List.map_append, List.append_assoc]
    exact splice_append (List.length_nil (α := Option (Object α))).symm hcount
  refine ⟨_, if_pos hroom, ⟨rest, hsplice, hrest⟩, ?_⟩
  simp only [hsplice, List.length_append, List.length_map, length_number, hlength]

/-- Quiet objects may be left where they are. -/
theorem Held.forget (h : Held true s (as ++ bs)) : Held true s as := by
  obtain ⟨rest, rfl, -⟩ := h
  exact ⟨bs.map some ++ rest, by rw [List.map_append, List.append_assoc], nofun⟩

/-- Objects that come to be behind those that are held. -/
theorem Held.appear (life : Lifetimes) (h : Held quiet s os)
    (hroom : os.length + vs.length ≤ s.length) :
    Held quiet (s.appear os.length vs life).1 (os ++ number life.begun vs) ∧
      (s.appear os.length vs life).1.length = s.length := by
  obtain ⟨rest, rfl, hrest⟩ := h
  simp only [List.length_append, List.length_map] at hroom
  have hcut : rest = rest.take vs.length ++ rest.drop vs.length :=
    (List.take_append_drop _ _).symm
  have hlength : (rest.take vs.length).length = vs.length := by
    rw [List.length_take]
    omega
  have happear : (Slots.appear (os.map some ++ rest) os.length vs life).1 =
      os.map some ++ (number life.begun vs).map some ++ rest.drop vs.length := by
    rw [Slots.appear]
    conv_lhs => rw [hcut, ← List.append_assoc]
    exact splice_append (List.length_map _).symm (by simp [hlength])
  refine ⟨⟨rest.drop vs.length, ?_, ?_⟩, ?_⟩
  · rw [happear, List.map_append]
  · intro hquiet o ho
    exact hrest hquiet o (List.mem_of_mem_drop ho)
  · rw [happear]
    simp only [List.length_append, List.length_map, length_number, List.length_drop]
    omega

theorem Held.copyBytes (life : Lifetimes) (h : Held quiet s os)
    (hroom : os.length + vs.length ≤ s.length) :
    ∃ s', s.copyBytes os.length vs life =
        some (s', { life with begun := life.begun + vs.length }) ∧
      Held quiet s' (os ++ number life.begun vs) ∧ s'.length = s.length :=
  ⟨_, if_pos hroom, h.appear life hroom⟩

theorem Held.construct (life : Lifetimes) (h : Held quiet s os)
    (hroom : os.length + vs.length ≤ s.length) :
    ∃ s', s.construct quiet os.length vs life =
        some (s', { life with begun := life.begun + vs.length }) ∧
      Held quiet s' (os ++ number life.begun vs) ∧ s'.length = s.length := by
  have hfree : quiet = true ∨ ∀ o ∈ (s.drop os.length).take vs.length, o = none := by
    cases quiet with
    | true => exact Or.inl rfl
    | false =>
      obtain ⟨rest, rfl, hrest⟩ := h
      have hdrop : (os.map some ++ rest).drop os.length = rest :=
        List.drop_left' (List.length_map _)
      rw [hdrop]
      exact Or.inr fun o ho => hrest rfl o (List.mem_of_mem_take ho)
  rw [Slots.construct, if_pos hfree]
  exact h.copyBytes life hroom

/-- The objects at the end of those that are held end. -/
theorem Held.destroy (life : Lifetimes) (h : Held quiet s (as ++ bs)) :
    ∃ s', s.destroy as.length bs.length life =
        some (s', { life with ended := life.ended ++ ids bs }) ∧
      Held quiet s' as ∧ s'.length = s.length := by
  have hobjects := h.objects_end
  obtain ⟨rest, rfl, hrest⟩ := h
  have hsplice : splice ((as ++ bs).map some ++ rest) as.length (fresh bs.length) =
      as.map some ++ fresh bs.length ++ rest := by
    rw [List.map_append]
    exact splice_append (List.length_map _).symm (by simp)
  refine ⟨as.map some ++ fresh bs.length ++ rest, ?_, ?_, ?_⟩
  · rw [Slots.destroy, hobjects, Option.map_some, hsplice]
  · refine ⟨fresh bs.length ++ rest, List.append_assoc _ _ _, ?_⟩
    intro hquiet o ho
    rcases List.mem_append.mp ho with ho | ho
    · exact List.eq_of_mem_replicate ho
    · exact hrest hquiet o ho
  · simp

/-- An object among those that are held ends, and its slot is left without one. -/
theorem Held.destroy_inner (life : Lifetimes) (h : Held quiet s (as ++ o :: bs)) :
    ∃ s', s.destroy as.length 1 life = some (s', { life with ended := life.ended ++ [o.id] }) ∧
      s'[as.length]? = some none := by
  have hobjects : s.objects as.length 1 = some [o] := by
    have hcut : Held quiet s (as ++ [o] ++ bs) := by simpa using h
    exact hcut.objects
  obtain ⟨rest, rfl, -⟩ := h
  have hsplice : splice ((as ++ o :: bs).map some ++ rest) as.length (fresh 1) =
      as.map some ++ [none] ++ (bs.map some ++ rest) := by
    have hcut : (as ++ o :: bs).map some ++ rest =
        as.map some ++ [some o] ++ (bs.map some ++ rest) := by simp
    rw [hcut]
    exact splice_append (List.length_map _).symm rfl
  refine ⟨as.map some ++ [none] ++ (bs.map some ++ rest), ?_, by simp⟩
  rw [Slots.destroy, hobjects, Option.map_some, hsplice]
  rfl

/-- Some of the objects that are held are moved from. -/
theorem Held.moveOut_inner (moved : α → α) (h : Held quiet s (as ++ bs ++ cs)) :
    ∃ s', s.moveOut moved as.length bs.length = some (values bs, s') ∧
      Held quiet s' (as ++ bs.map (Object.become moved) ++ cs) ∧ s'.length = s.length := by
  have hobjects := h.objects
  obtain ⟨rest, rfl, hrest⟩ := h
  have hsplice : splice ((as ++ bs ++ cs).map some ++ rest) as.length
      (bs.map fun o => some (o.become moved)) =
      (as ++ bs.map (Object.become moved) ++ cs).map some ++ rest := by
    simp only [List.map_append, List.map_map, List.append_assoc _ (cs.map some)]
    exact splice_append (List.length_map _).symm (by simp)
  refine ⟨(as ++ bs.map (Object.become moved) ++ cs).map some ++ rest, ?_, ⟨rest, rfl, hrest⟩, ?_⟩
  · rw [Slots.moveOut, hobjects, Option.map_some, hsplice]
  · simp

/-- The objects at the end of those that are held are moved from. -/
theorem Held.moveOut (moved : α → α) (h : Held quiet s (as ++ bs)) :
    ∃ s', s.moveOut moved as.length bs.length = some (values bs, s') ∧
      Held quiet s' (as ++ bs.map (Object.become moved)) ∧ s'.length = s.length := by
  rw [← List.append_nil (as ++ bs)] at h
  have hout := h.moveOut_inner moved
  rwa [List.append_nil] at hout

theorem Held.getElem? (h : Held quiet s (as ++ o :: bs)) : s[as.length]? = some (some o) := by
  obtain ⟨rest, rfl, -⟩ := h
  simp

theorem Held.set (h : Held quiet s (as ++ o :: bs)) (d : Object α) :
    Held quiet (s.set as.length (some d)) (as ++ d :: bs) := by
  obtain ⟨rest, rfl, hrest⟩ := h
  refine ⟨rest, ?_, hrest⟩
  simp

/-- An object is assigned from another one behind it. -/
theorem Held.moveAssign (moved selfMoved : α → α) (h : Held quiet s (as ++ d :: bs ++ o :: cs)) :
    ∃ s', s.moveAssign moved selfMoved as.length (as.length + 1 + bs.length) = some s' ∧
      Held quiet s' (as ++ { d with value := o.value } :: bs ++ o.become moved :: cs) ∧
      s'.length = s.length := by
  have hdst : s[as.length]? = some (some d) := by
    rw [List.append_assoc] at h
    exact h.getElem?
  have hsrc : s[as.length + 1 + bs.length]? = some (some o) := by
    have hget := h.getElem?
    rwa [List.length_append, List.length_cons, ← Nat.add_assoc, Nat.add_right_comm] at hget
  have hne : as.length ≠ as.length + 1 + bs.length := by omega
  have hassign : s.moveAssign moved selfMoved as.length (as.length + 1 + bs.length) =
      some ((s.set as.length (some { d with value := o.value })).set
        (as.length + 1 + bs.length) (some (o.become moved))) := by
    rw [Slots.moveAssign, hdst, hsrc]
    exact if_neg hne
  refine ⟨_, hassign, ?_, ?_⟩
  · rw [List.append_assoc] at h
    have hset : Held quiet (s.set as.length (some { d with value := o.value }))
        (as ++ { d with value := o.value } :: bs ++ o :: cs) := by
      rw [List.append_assoc]
      exact h.set _
    have hset' := hset.set (o.become moved)
    rwa [List.length_append, List.length_cons, ← Nat.add_assoc, Nat.add_right_comm] at hset'
  · simp

theorem Held.moveAssign_self (moved selfMoved : α → α) (h : Held quiet s (as ++ d :: bs)) :
    ∃ s', s.moveAssign moved selfMoved as.length as.length = some s' ∧
      Held quiet s' (as ++ d.become selfMoved :: bs) ∧ s'.length = s.length := by
  have hassign : s.moveAssign moved selfMoved as.length as.length =
      some (s.set as.length (some (d.become selfMoved))) := by
    rw [Slots.moveAssign, h.getElem?]
    exact if_pos rfl
  exact ⟨_, hassign, h.set (d.become selfMoved), List.length_set⟩

/-- Nothing is assigned to an object that has ended. -/
theorem moveAssign_of_none {dst src : Nat} (h : s[dst]? = some none) :
    s.moveAssign moved selfMoved dst src = none := by
  rw [Slots.moveAssign, h]

/-! ### Which slots have an object -/

theorem Held.live_eq (h : Held false s os) : s.live = ids os := by
  obtain ⟨rest, rfl, hrest⟩ := h
  have hnone : rest.filterMap (Option.map Object.id) = [] := by
    rw [List.filterMap_eq_nil_iff]
    intro o ho
    rw [hrest rfl o ho]
    rfl
  have hsome : Option.map Object.id ∘ some = some ∘ (Object.id : Object α → Nat) := rfl
  rw [live, List.filterMap_append, hnone, List.append_nil, List.filterMap_map, hsome,
    List.filterMap_eq_map]
  rfl

theorem Held.exists_getElem?_iff (h : Held false s os) :
    (∃ o, s[i]? = some (some o)) ↔ i < os.length := by
  obtain ⟨rest, rfl, hrest⟩ := h
  constructor
  · rintro ⟨o, ho⟩
    by_contra hi
    have hi : (os.map some).length ≤ i := by simpa using hi
    rw [List.getElem?_append_right hi] at ho
    cases hrest rfl _ (List.mem_of_getElem? ho)
  · intro hi
    rw [List.getElem?_append_left (by simpa using hi), List.getElem?_map,
      List.getElem?_eq_getElem hi]
    exact ⟨_, rfl⟩

end Slots

end Csics.Base
