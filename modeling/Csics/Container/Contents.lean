import Csics.Container.Buffer

/-!
# What a buffer holds

`Holds` is the invariant of a buffer: its storage has the slots that `capacity()` tells, the first
`size()` of them hold its elements, and other objects are left only if `T` is trivially
destructible. A null pointer is a storage without slots, so that `size()` and `capacity()` are 0.

Every operation but two keeps it, and the lemmas tell the elements behind it (`Turns`). A non-empty
buffer that is moved from does not hold anything any more if `T` is trivially copyable, and
`swap_and_pop` at any position but the last assigns to an element that has been destroyed. An
argument in the buffer itself is read if there is room without `reallocate`.
-/

namespace Csics.Container

open Base

variable {α : Type} (T : ElementType α) (policy : CapacityPolicy)

/-- The elements of the buffer. -/
structure Buffer.Holds (b : Buffer α) (os : List (Object α)) : Prop where
  held : Slots.Held T.triviallyDestructible b.slots os
  size : b.size = os.length
  capacity : b.slots.length = b.capacity

/-- A buffer comes out that has elements with these values, and no object is lost. -/
def Turns (os : List (Object α)) (life : Lifetimes) (r : Option (Buffer α × Lifetimes))
    (vs : List α) : Prop :=
  ∃ b life' os', r = some (b, life') ∧ b.Holds T os' ∧ values os' = vs ∧
    (T.triviallyDestructible = false → Conserves (ids os) life (ids os') life')

/-- The same elements come out, in a buffer with room for `n`. -/
def Grows (os : List (Object α)) (life : Lifetimes) (r : Option (Buffer α × Lifetimes))
    (n : Nat) : Prop :=
  ∃ b life' os', r = some (b, life') ∧ b.Holds T os' ∧ values os' = values os ∧
    (T.triviallyDestructible = false → Conserves (ids os) life (ids os') life') ∧ n ≤ b.capacity

/-- Two buffers come out, and no object is lost. -/
def Parts (os : List (Object α)) (life : Lifetimes)
    (r : Option (Buffer α × Buffer α × Lifetimes)) (vs ws : List α) : Prop :=
  ∃ b other life' xs ys, r = some (b, other, life') ∧ b.Holds T xs ∧ other.Holds T ys ∧
    values xs = vs ∧ values ys = ws ∧
    (T.triviallyDestructible = false → Conserves (ids os) life (ids xs ++ ids ys) life')

/-! ## Operations on lists -/

/-- The elements from `first` on and before `last` are removed. -/
def eraseRange (l : List α) (first last : Nat) : List α := l.take first ++ l.drop last

/-- The last element takes the place of another one. -/
def replaceByLast (l : List α) (pos : Nat) : List α :=
  match l.getLast? with
  | none => l
  | some v => (l.set pos v).dropLast

/-- The first elements, and new ones up to the size. -/
def resized (l : List α) (newSize : Nat) (added : Nat → α) : List α :=
  l.take newSize ++ (List.range (newSize - l.length)).map added

variable {T policy} {b other : Buffer α} {s : Slots α} {os os' xs ys : List (Object α)}
  {vs ws : List α} {life life' : Lifetimes} {r : Option (Buffer α × Lifetimes)} {n : Nat}

/-! ## The invariant -/

theorem triviallyDestructible_of (h : T.triviallyCopyable = true) :
    T.triviallyDestructible = true := T.destructible_of_copyable h

@[simp] theorem Buffer.size_withSlots : (b.withSlots s).size = b.size := rfl

@[simp] theorem Buffer.capacity_withSlots : (b.withSlots s).capacity = b.capacity := rfl

/-- Slots are exchanged for as many. -/
theorem Buffer.slots_withSlots (h : s.length = b.slots.length) : (b.withSlots s).slots = s := by
  unfold Buffer.slots withSlots at *
  cases hbuf : b.buf with
  | none =>
    rw [hbuf] at h
    exact (List.eq_nil_of_length_eq_zero h).symm
  | some buf => rfl

theorem Buffer.Holds.withSlots (h : b.Holds T os) (hlength : s.length = b.slots.length)
    (hs : s.Held T.triviallyDestructible os') (hn : n = os'.length) :
    ({ b.withSlots s with size := n } : Buffer α).Holds T os' where
  held := by
    have hslots : ({ b.withSlots s with size := n } : Buffer α).slots = s := slots_withSlots hlength
    rw [hslots]
    exact hs
  size := hn
  capacity := by
    have hslots : ({ b.withSlots s with size := n } : Buffer α).slots = s := slots_withSlots hlength
    rw [hslots, hlength]
    exact h.capacity

theorem Buffer.holds_empty : (Buffer.empty : Buffer α).Holds T [] :=
  ⟨⟨[], rfl, fun _ _ ho => absurd ho List.not_mem_nil⟩, rfl, rfl⟩

theorem Buffer.Holds.size_le (h : b.Holds T os) : b.size ≤ b.capacity := by
  rw [h.size, ← h.capacity]
  exact h.held.length_le

theorem Buffer.Holds.elements (h : b.Holds T os) : b.elements = some (values os) := by
  rw [Buffer.elements, h.size]
  exact h.held.read

/-- Without storage there is nothing in the buffer, and no room. -/
theorem Buffer.Holds.of_null (h : b.Holds T os) (hnull : b.buf = none) :
    b.size = 0 ∧ b.capacity = 0 := by
  have hcapacity : b.capacity = 0 := by
    rw [← h.capacity, Buffer.slots, hnull]
    rfl
  have hsize := h.size_le
  exact ⟨by omega, hcapacity⟩

theorem Buffer.Holds.live_eq (h : b.Holds T os) (ht : T.triviallyDestructible = false) :
    b.slots.live = ids os := by
  have hheld := h.held
  rw [ht] at hheld
  exact hheld.live_eq

theorem Buffer.Holds.exists_getElem?_iff (h : b.Holds T os)
    (ht : T.triviallyDestructible = false) {i : Nat} :
    (∃ o, b.slots[i]? = some (some o)) ↔ i < b.size := by
  have hheld := h.held
  rw [ht] at hheld
  rw [h.size]
  exact hheld.exists_getElem?_iff

/-! ## Turns -/

theorem Buffer.Holds.turns (h : b.Holds T os) : Turns T os life (some (b, life)) (values os) :=
  ⟨b, life, os, rfl, h, rfl, fun _ => .refl⟩

theorem Grows.bind {f : Buffer α × Lifetimes → Option (Buffer α × Lifetimes)}
    (h : Grows T os life r n)
    (hf : ∀ b life' os', b.Holds T os' → values os' = values os → n ≤ b.capacity →
      Turns T os' life' (f (b, life')) ws) :
    Turns T os life (r >>= f) ws := by
  obtain ⟨b, life', os', rfl, hb, hvs, hconserves, hroom⟩ := h
  obtain ⟨b', life'', os'', hr, hb', hws, hconserves'⟩ := hf b life' os' hb hvs hroom
  exact ⟨b', life'', os'', hr, hb', hws, fun ht => (hconserves ht).trans (hconserves' ht)⟩

/-- The buffer with elements that are the same objects, and new ones behind them. -/
theorem Buffer.Holds.turns_behind (h : b.Holds T os) (hids : ids os' = ids os)
    (hlength : s.length = b.slots.length)
    (hs : s.Held T.triviallyDestructible (os' ++ number life.begun vs))
    (hn : n = os'.length + vs.length) :
    Turns T os life (some ({ b.withSlots s with size := n },
      { life with begun := life.begun + vs.length })) (values os' ++ vs) := by
  refine ⟨_, _, os' ++ number life.begun vs, rfl, h.withSlots hlength hs (by simpa using hn),
    by simp, ?_⟩
  intro _
  rw [ids_append, hids]
  exact conserves_begun _ _ _

/-- Elements have been put behind the last one. -/
theorem Buffer.Holds.turns_put (h : b.Holds T os) (hlength : s.length = b.slots.length)
    (hs : s.Held T.triviallyDestructible (os ++ number life.begun vs))
    (hn : n = os.length + vs.length) :
    Turns T os life (some ({ b.withSlots s with size := n },
      { life with begun := life.begun + vs.length })) (values os ++ vs) :=
  h.turns_behind rfl hlength hs hn

/-- The last elements have been destroyed. -/
theorem Buffer.Holds.turns_cut (h : b.Holds T os) (hids : ids os = ids (xs ++ ys))
    (hlength : s.length = b.slots.length) (hs : s.Held T.triviallyDestructible xs)
    (hn : n = xs.length)
    (hlife : T.triviallyDestructible = false →
      life' = { life with ended := life.ended ++ ids ys }) :
    Turns T os life (some ({ b.withSlots s with size := n }, life')) (values xs) := by
  refine ⟨_, _, xs, rfl, h.withSlots hlength hs hn, rfl, ?_⟩
  intro ht
  rw [hlife ht, hids, ids_append]
  exact conserves_ended _ _ _

/-! ## Elements -/

theorem held_uninitializedCopy (life : Lifetimes) (h : s.Held T.triviallyDestructible os)
    (hroom : os.length + vs.length ≤ s.length) :
    ∃ s', uninitializedCopy T s os.length vs life =
        some (s', { life with begun := life.begun + vs.length }) ∧
      s'.Held T.triviallyDestructible (os ++ number life.begun vs) ∧ s'.length = s.length := by
  unfold uninitializedCopy
  split
  · exact h.copyBytes life hroom
  · exact h.construct life hroom

/-- Values are copied into new storage. -/
theorem held_copyFresh (T : ElementType α) (life : Lifetimes) (hroom : vs.length ≤ n) :
    ∃ s, uninitializedCopy T (Slots.fresh n) 0 vs life =
        some (s, { life with begun := life.begun + vs.length }) ∧
      s.Held T.triviallyDestructible (number life.begun vs) ∧ s.length = n := by
  have hroom' : ([] : List (Object α)).length + vs.length ≤ (Slots.fresh n : Slots α).length := by
    simpa using hroom
  obtain ⟨s, hcopy, hs, hlength⟩ := held_uninitializedCopy life
    (Slots.held_fresh T.triviallyDestructible n) hroom'
  exact ⟨s, hcopy, hs, hlength.trans Slots.length_fresh⟩

/-- The elements behind the first ones are destroyed, or left if `T` is trivially destructible. -/
theorem held_destroyN (life : Lifetimes) (h : s.Held T.triviallyDestructible (xs ++ ys)) :
    ∃ s' life', destroyN T s xs.length ys.length life = some (s', life') ∧
      s'.Held T.triviallyDestructible xs ∧ s'.length = s.length ∧
      (T.triviallyDestructible = false →
        life' = { life with ended := life.ended ++ ids ys }) := by
  unfold destroyN
  split
  · rename_i ht
    rw [ht] at h ⊢
    exact ⟨s, life, rfl, h.forget, rfl, fun hfalse => Bool.noConfusion hfalse⟩
  · obtain ⟨s', hdestroy, hs', hlength⟩ := h.destroy life
    exact ⟨s', _, hdestroy, hs', hlength, fun _ => rfl⟩

/-- All elements are. -/
theorem held_destroyAll (life : Lifetimes) (h : s.Held T.triviallyDestructible os) :
    ∃ s' life', destroyN T s 0 os.length life = some (s', life') ∧
      s'.Held T.triviallyDestructible [] ∧ s'.length = s.length ∧
      (T.triviallyDestructible = false →
        life' = { life with ended := life.ended ++ ids os }) := by
  rw [← List.nil_append os] at h
  exact held_destroyN life h

theorem held_takeOut (h : s.Held T.triviallyDestructible os) :
    ∃ s', takeOut T s os.length = some (values os, s') ∧
      s'.Held T.triviallyDestructible (os.map (Object.become T.movedFrom)) ∧
      s'.length = s.length := by
  unfold takeOut
  split
  · rename_i ht
    refine ⟨s, ?_, ?_, rfl⟩
    · rw [h.read]
      rfl
    · have hsame : os.map (Object.become T.movedFrom) = os := by
        conv_rhs => rw [← List.map_id os]
        apply List.map_congr_left
        intro o _
        exact congrArg _ (T.movedFrom_of_copyable ht o.value)
      rw [hsame]
      exact h
  · rw [← List.nil_append os] at h
    have hout := h.moveOut T.movedFrom
    simpa using hout

/-! ## Construction -/

theorem turns_ofData (hlife : T.triviallyDestructible = false → Conserves (ids os) life [] life') :
    Turns T os life (Buffer.ofData T policy vs life') vs := by
  obtain ⟨s, hs, hheld, hlength⟩ := held_copyFresh T life' (policy.le_adjustCapacity vs.length)
  have hdata : Buffer.ofData T policy vs life' = some
      (⟨policy.adjustCapacity vs.length, vs.length, some s⟩,
        { life' with begun := life'.begun + vs.length }) := by
    rw [Buffer.ofData, hs]
    rfl
  refine ⟨_, _, number life'.begun vs, hdata, ⟨hheld, length_number.symm, hlength⟩,
    values_number, ?_⟩
  intro ht
  exact (hlife ht).trans (conserves_begun [] life' vs)

/-- The elements are there without being constructed. -/
theorem turns_ofSize {added : List α} (ht : T.triviallyCopyable = true) :
    Turns T [] life (some (Buffer.ofSize T policy added life)) added := by
  have hroom : ([] : List (Object α)).length + added.length ≤
      (Slots.fresh (policy.adjustCapacity added.length) : Slots α).length := by
    have hle := policy.le_adjustCapacity added.length
    simpa using hle
  obtain ⟨hheld, hlength⟩ := (Slots.held_fresh T.triviallyDestructible
    (policy.adjustCapacity added.length)).appear life hroom
  refine ⟨_, _, number life.begun added, congrArg some (if_pos ht),
    ⟨hheld, length_number.symm, hlength.trans Slots.length_fresh⟩, values_number, ?_⟩
  intro hfalse
  rw [triviallyDestructible_of ht] at hfalse
  cases hfalse

theorem turns_copyConstruct (h : other.Holds T xs) :
    Turns T [] life (other.copyConstruct T policy life) (values xs) := by
  have hread := h.elements
  have hslots : other.slots = other.buf.getD [] := rfl
  unfold Buffer.copyConstruct
  cases hbuf : other.buf with
  | none =>
    have hxs : xs = [] := List.eq_nil_of_length_eq_zero (h.size.symm.trans (h.of_null hbuf).1)
    subst hxs
    exact Buffer.holds_empty.turns
  | some buf =>
    rw [hbuf] at hslots
    rw [Buffer.elements, hslots, Option.getD_some] at hread
    simp only [hread]
    exact turns_ofData fun _ => .refl

theorem exists_destruct (life : Lifetimes) (h : b.Holds T os) :
    ∃ life', b.destruct T life = some life' ∧
      (T.triviallyDestructible = false → Conserves (ids os) life [] life') := by
  obtain ⟨s, life', hdestroy, -, -, hlife⟩ := held_destroyAll life h.held
  refine ⟨life', ?_, ?_⟩
  · rw [Buffer.destruct, h.size, hdestroy]
    rfl
  · intro ht
    rw [hlife ht]
    exact conserves_ended [] (ids os) life

theorem turns_copyAssign (h : b.Holds T os) (hother : other.Holds T xs) :
    Turns T os life (b.copyAssign T policy other life) (values xs) := by
  obtain ⟨life', hdestruct, hlife⟩ := exists_destruct life h
  have hread := hother.elements
  rw [Buffer.elements] at hread
  simp only [Buffer.copyAssign, hdestruct, hread, Option.bind_eq_bind, Option.bind_some]
  exact turns_ofData hlife

/-! ## Capacity -/

theorem grows_reallocate (h : b.Holds T os) (hn : b.size ≤ n) :
    Grows T os life (b.reallocate T policy n life) n := by
  have hle := policy.le_adjustCapacity n
  have hsize := h.size
  have hfresh := Slots.held_fresh (α := α) T.triviallyDestructible (policy.adjustCapacity n)
  unfold Buffer.reallocate Buffer.destroyAndCopyTo
  cases hbuf : b.buf with
  | none =>
    have hos : os = [] := List.eq_nil_of_length_eq_zero (h.size.symm.trans (h.of_null hbuf).1)
    subst hos
    exact ⟨_, life, [], rfl, ⟨hfresh, hsize, Slots.length_fresh⟩, rfl, fun _ => .refl, hle⟩
  | some buf =>
    have hslots : b.slots = buf := by
      rw [Buffer.slots, hbuf]
      rfl
    have hheld := h.held
    rw [hslots] at hheld
    obtain ⟨buf', hout, hmoved, -⟩ := held_takeOut hheld
    have hroom : (values os).length ≤ policy.adjustCapacity n := by
      rw [length_values]
      omega
    obtain ⟨s, hcopy, hs, hlength⟩ := held_copyFresh T life hroom
    obtain ⟨s', life', hdestroy, -, -, hlife⟩ := held_destroyAll
      { life with begun := life.begun + (values os).length } hmoved
    rw [List.length_map] at hdestroy
    simp only [hsize, hout, hcopy, hdestroy, Option.bind_eq_bind, Option.bind_some]
    refine ⟨_, life', number life.begun (values os), rfl,
      ⟨hs, by simp, hlength⟩, values_number, ?_, hle⟩
    intro ht
    rw [hlife ht, ids_become]
    intro k
    have hbegun := conserves_begun (ids os) life (values os) k
    simp only [List.count_append, Lifetimes.issued] at hbegun ⊢
    omega

theorem grows_addCapacityFor (h : b.Holds T os) :
    Grows T os life (b.addCapacityFor T policy n life) (os.length + n) := by
  rw [← h.size]
  unfold Buffer.addCapacityFor
  split
  · exact grows_reallocate h (Nat.le_add_right _ _)
  · rename_i hroom
    exact ⟨b, life, os, rfl, h, rfl, fun _ => .refl, by omega⟩

/-- There is room behind elements that are as many. -/
theorem Buffer.Holds.room (hb : b.Holds T os') (hvs : values os' = values os)
    (hroom : os.length + n ≤ b.capacity) : os'.length + n ≤ b.slots.length := by
  have hlength : os'.length = os.length := by simpa using congrArg List.length hvs
  rw [hb.capacity, hlength]
  exact hroom

/-! ## Operations -/

theorem turns_constructBack (h : b.Holds T os) (v : α) :
    Turns T os life (b.constructBack T policy v life) (values os ++ [v]) := by
  refine Grows.bind (grows_addCapacityFor h) ?_
  intro b life' os' hb hvs hroom
  have hslots : os'.length + [v].length ≤ b.slots.length := hb.room hvs hroom
  obtain ⟨s, hconstruct, hs, hlen⟩ := hb.held.construct life' hslots
  simp only [hb.size, hconstruct, Option.bind_eq_bind, Option.bind_some, ← hvs]
  exact hb.turns_put hlen hs rfl

theorem turns_append (h : b.Holds T os) (data : List α) :
    Turns T os life (b.append T policy data life) (values os ++ data) := by
  unfold Buffer.append
  split
  · rename_i hnil
    rw [hnil, List.append_nil]
    exact h.turns
  refine Grows.bind (grows_addCapacityFor h) ?_
  intro b life' os' hb hvs hroom
  have hslots : os'.length + data.length ≤ b.slots.length := hb.room hvs hroom
  obtain ⟨s, hcopy, hs, hlen⟩ := held_uninitializedCopy life' hb.held hslots
  simp only [hb.size, hcopy, Option.bind_eq_bind, Option.bind_some, ← hvs]
  exact hb.turns_put hlen hs rfl

theorem turns_appendUninitialized (h : b.Holds T os) (added : List α) :
    Turns T os life (b.appendUninitialized T policy added life) (values os ++ added) := by
  refine Grows.bind (grows_addCapacityFor h) ?_
  intro b life' os' hb hvs hroom
  have hslots : os'.length + added.length ≤ b.slots.length := hb.room hvs hroom
  obtain ⟨hs, hlen⟩ := hb.held.appear life' hslots
  simp only [hb.size, ← hvs]
  exact hb.turns_put hlen hs rfl

theorem turns_popBack (h : b.Holds T os) (hne : os ≠ []) :
    Turns T os life (b.popBack T life) (values os).dropLast := by
  obtain rfl | ⟨xs, o, rfl⟩ := List.eq_nil_or_concat' os
  · exact absurd rfl hne
  have hsize : b.size = xs.length + 1 := by simpa using h.size
  obtain ⟨s, hout, hs, hlen⟩ := h.held.moveOut T.movedFrom
  obtain ⟨s', life', hdestroy, hs', hlen', hlife⟩ := held_destroyN life hs
  have hout : b.slots.moveOut T.movedFrom xs.length 1 = some (values [o], s) := hout
  have hdestroy : destroyN T s xs.length 1 life = some (s', life') := hdestroy
  rw [ids_become] at hlife
  have hturns := h.turns_cut rfl (hlen'.trans hlen) hs' rfl hlife
  unfold Buffer.popBack
  rw [if_neg (show b.size ≠ 0 by omega), show b.size - 1 = xs.length by omega]
  simp only [hout, hdestroy, Option.bind_eq_bind, Option.bind_some]
  simpa using hturns

/-- What the loop of `erase` leaves: the elements behind the gap follow those before it. -/
theorem shift_gap {gap cs : List (Object α)} (hgap : gap ≠ [])
    (h : s.Held T.triviallyDestructible (xs ++ gap ++ cs)) :
    ∃ s' kept junk,
      Buffer.shift T s xs.length (xs.length + gap.length) cs.length = some s' ∧
      s'.Held T.triviallyDestructible (kept ++ junk) ∧ s'.length = s.length ∧
      values kept = values xs ++ values cs ∧ junk.length = gap.length ∧
      ids (kept ++ junk) = ids (xs ++ gap ++ cs) := by
  induction cs generalizing s xs gap with
  | nil =>
    rw [List.append_nil] at h ⊢
    exact ⟨s, xs, gap, rfl, h, rfl, (List.append_nil _).symm, rfl, rfl⟩
  | cons o cs ih =>
    obtain ⟨d, bs, rfl⟩ := List.exists_cons_of_ne_nil hgap
    obtain ⟨s₁, hassign, hs₁, hlen₁⟩ := h.moveAssign T.movedFrom T.selfMoved
    -- the element that is moved from is the last one of the new gap
    have hgap' : bs ++ [o.become T.movedFrom] ≠ [] := by simp
    have hs₁ : s₁.Held T.triviallyDestructible
        (xs ++ [{ d with value := o.value }] ++ (bs ++ [o.become T.movedFrom]) ++ cs) := by
      simpa using hs₁
    obtain ⟨s', kept, junk, hshift, hs', hlen', hvalues, hjunk, hids⟩ := ih hgap' hs₁
    refine ⟨s', kept, junk, ?_, hs', hlen'.trans hlen₁, ?_, ?_, ?_⟩
    · have hsrc : xs.length + (d :: bs).length = xs.length + 1 + bs.length := by
        rw [List.length_cons]
        omega
      rw [hsrc, List.length_cons, Buffer.shift, hassign, Option.bind_eq_bind, Option.bind_some]
      simpa [Nat.add_assoc] using hshift
    · rw [hvalues]
      simp [values]
    · rw [hjunk]
      simp
    · rw [hids]
      simp [ids, Object.become]

/-- With nothing to erase the loop moves every element onto itself. -/
theorem shift_self {cs : List (Object α)} (h : s.Held T.triviallyDestructible (xs ++ cs)) :
    ∃ s', Buffer.shift T s xs.length xs.length cs.length = some s' ∧
      s'.Held T.triviallyDestructible (xs ++ cs.map (Object.become T.selfMoved)) ∧
      s'.length = s.length := by
  induction cs generalizing s xs with
  | nil => exact ⟨s, rfl, h, rfl⟩
  | cons o cs ih =>
    obtain ⟨s₁, hassign, hs₁, hlen₁⟩ := h.moveAssign_self T.movedFrom T.selfMoved
    have hs₁ : s₁.Held T.triviallyDestructible (xs ++ [o.become T.selfMoved] ++ cs) := by
      simpa using hs₁
    obtain ⟨s', hshift, hs', hlen'⟩ := ih hs₁
    refine ⟨s', ?_, by simpa using hs', hlen'.trans hlen₁⟩
    rw [List.length_cons, Buffer.shift, hassign, Option.bind_eq_bind, Option.bind_some]
    simpa using hshift

/-- A range cuts a list into three. -/
theorem exists_range {β : Type*} {l : List β} {first last : Nat} (hfirst : first ≤ last)
    (hlast : last ≤ l.length) : ∃ xs gap ys, l = xs ++ gap ++ ys ∧ xs.length = first ∧
      xs.length + gap.length = last := by
  have hdrop : l.drop last = (l.drop first).drop (last - first) := by
    rw [List.drop_drop, Nat.add_sub_cancel' hfirst]
  have htake : (l.take first).length = first := by
    rw [List.length_take]
    omega
  have hgap : ((l.drop first).take (last - first)).length = last - first := by
    rw [List.length_take, List.length_drop]
    omega
  refine ⟨l.take first, (l.drop first).take (last - first), l.drop last, ?_, htake, by omega⟩
  rw [hdrop, List.append_assoc, List.take_append_drop, List.take_append_drop]

/-- `erase` removes the elements of the range, but an empty range makes all elements behind it
assign to themselves. -/
theorem turns_erase {first last : Nat} (h : b.Holds T os) (hfirst : first ≤ last)
    (hlast : last ≤ b.size) :
    Turns T os life (b.erase T first last life) ((values os).take first ++
      if first = last then ((values os).drop last).map T.selfMoved else (values os).drop last) := by
  have hsize := h.size
  obtain ⟨xs, gap, cs, rfl, rfl, rfl⟩ := exists_range hfirst (hsize ▸ hlast)
  simp only [List.length_append] at hsize
  have hbefore : (values (xs ++ gap ++ cs)).take xs.length = values xs := by
    rw [values_append, values_append, List.append_assoc]
    exact List.take_left' length_values
  have hbehind : (values (xs ++ gap ++ cs)).drop (xs.length + gap.length) = values cs := by
    rw [values_append, values_append]
    exact List.drop_left' (by simp)
  rw [hbefore, hbehind]
  unfold Buffer.erase
  rw [if_neg (by omega), show b.size - (xs.length + gap.length) = cs.length by omega,
    show xs.length + gap.length - xs.length = gap.length by omega,
    show b.size - gap.length = xs.length + cs.length by omega]
  by_cases hgap : gap = []
  · subst hgap
    have hall : b.slots.Held T.triviallyDestructible (xs ++ cs) := by simpa using h.held
    obtain ⟨s, hshift, hs, hlen⟩ := shift_self hall
    have hs : s.Held T.triviallyDestructible
        (xs ++ cs.map (Object.become T.selfMoved) ++ []) := by simpa using hs
    obtain ⟨s', life', hdestroy, hs', hlen', hlife⟩ := held_destroyN life hs
    simp only [List.length_append, List.length_map, List.length_nil] at hdestroy
    simp only [List.length_nil, Nat.add_zero, if_true]
    simp only [hshift, hdestroy, Option.bind_eq_bind, Option.bind_some]
    have hkept : xs.length + cs.length = (xs ++ cs.map (Object.become T.selfMoved)).length := by
      simp
    have hturns := h.turns_cut (by simp) (hlen'.trans hlen) hs' hkept hlife
    simpa using hturns
  · obtain ⟨s, kept, junk, hshift, hs, hlen, hvalues, hjunk, hids⟩ := shift_gap hgap h.held
    obtain ⟨s', life', hdestroy, hs', hlen', hlife⟩ := held_destroyN life hs
    have hkept : kept.length = xs.length + cs.length := by
      simpa using congrArg List.length hvalues
    have hne : xs.length ≠ xs.length + gap.length := by
      have hpos := List.length_pos_iff.mpr hgap
      omega
    rw [hkept, hjunk] at hdestroy
    rw [if_neg hne, ← hvalues]
    simp only [hshift, hdestroy, Option.bind_eq_bind, Option.bind_some]
    exact h.turns_cut hids.symm (hlen'.trans hlen) hs' hkept.symm hlife

theorem replaceByLast_concat {l : List α} {v : α} (h : n = l.length) :
    replaceByLast (l ++ [v]) n = l := by
  simp [replaceByLast, h]

theorem replaceByLast_append {l l' : List α} {v w : α} (h : n = l.length) :
    replaceByLast (l ++ v :: l' ++ [w]) n = l ++ w :: l' := by
  have hset : (l ++ v :: l' ++ [w]).set n w = l ++ w :: l' ++ [w] := by simp [h]
  rw [replaceByLast, List.getLast?_concat]
  dsimp only
  rw [hset, List.dropLast_concat]

/-- `swap_and_pop` takes the element out, at the last position or where nothing is destroyed. -/
theorem turns_swapAndPop {pos : Nat} (h : b.Holds T os) (hpos : pos < b.size)
    (hlast : pos + 1 = b.size ∨ T.triviallyDestructible = true) :
    Turns T os life (b.swapAndPop T pos life) (replaceByLast (values os) pos) := by
  have hsize := h.size
  obtain ⟨xs, gap, cs, rfl, rfl, hgap⟩ :=
    exists_range (Nat.le_succ pos) (show pos + 1 ≤ os.length by omega)
  obtain ⟨o, rfl⟩ := List.length_eq_one_iff.mp (show gap.length = 1 by omega)
  simp only [List.length_append, List.length_singleton] at hsize
  unfold Buffer.swapAndPop
  obtain rfl | ⟨bs, l, rfl⟩ := List.eq_nil_or_concat' cs
  · have hheld : b.slots.Held T.triviallyDestructible (xs ++ [o]) := by simpa using h.held
    obtain ⟨s, life', hdestroy, hs, hlen, hlife⟩ := held_destroyN life hheld
    rw [List.length_singleton] at hdestroy
    have hend : ¬ xs.length + 1 ≠ b.size := by simpa using hsize.symm
    simp only [hdestroy, Option.bind_eq_bind, Option.bind_some, if_neg hend]
    have hturns := h.turns_cut (by simp) hlen hs (show b.size - 1 = xs.length by simp [hsize]) hlife
    have hreplace : replaceByLast (values (xs ++ [o] ++ [])) xs.length = values xs := by
      rw [List.append_nil, values_append]
      exact replaceByLast_concat length_values.symm
    rw [hreplace]
    exact hturns
  · simp only [List.length_append, List.length_singleton] at hsize
    have ht : T.triviallyDestructible = true := hlast.resolve_left (by omega)
    have hheld : b.slots.Held T.triviallyDestructible (xs ++ o :: bs ++ l :: []) := by
      simpa using h.held
    obtain ⟨s, hassign, hs, hlen⟩ := hheld.moveAssign T.movedFrom T.selfMoved
    rw [ht] at hs
    have hdestroy : destroyN T b.slots xs.length 1 life = some (b.slots, life) := if_pos ht
    have hend : xs.length + 1 ≠ b.size := by omega
    have hsrc : b.size - 1 = xs.length + 1 + bs.length := by omega
    simp only [hdestroy, hsrc, hassign, Option.bind_eq_bind, Option.bind_some, if_pos hend]
    have hreplace : replaceByLast (values (xs ++ [o] ++ (bs ++ [l]))) xs.length =
        values (xs ++ { o with value := l.value } :: bs) := by
      have hvalues : values (xs ++ [o] ++ (bs ++ [l])) =
          values xs ++ o.value :: values bs ++ [l.value] := by simp [values]
      rw [hvalues, replaceByLast_append length_values.symm]
      simp [values]
    rw [hreplace]
    have hforget := hs.forget
    rw [← ht] at hforget
    refine ⟨_, _, _, rfl, h.withSlots hlen hforget ?_, rfl, ?_⟩
    · simp only [List.length_append, List.length_cons]
      omega
    · intro hfalse
      rw [ht] at hfalse
      cases hfalse

/-- At any other position it assigns to an element that has been destroyed. -/
theorem swapAndPop_eq_none {pos : Nat} (h : b.Holds T os) (hpos : pos + 1 < b.size)
    (ht : T.triviallyDestructible = false) : b.swapAndPop T pos life = none := by
  have hsize := h.size
  obtain ⟨xs, gap, cs, rfl, rfl, hgap⟩ :=
    exists_range (Nat.le_succ pos) (show pos + 1 ≤ os.length by omega)
  obtain ⟨o, rfl⟩ := List.length_eq_one_iff.mp (show gap.length = 1 by omega)
  have hheld : b.slots.Held T.triviallyDestructible (xs ++ o :: cs) := by simpa using h.held
  obtain ⟨s, hdestroy, hnone⟩ := hheld.destroy_inner life
  have hdestroyN : destroyN T b.slots xs.length 1 life = b.slots.destroy xs.length 1 life := by
    rw [destroyN, if_neg (by simp [ht])]
  have hassign : s.moveAssign T.movedFrom T.selfMoved xs.length (b.size - 1) = none :=
    Slots.moveAssign_of_none hnone
  have hend : xs.length + 1 ≠ b.size := by omega
  simp only [Buffer.swapAndPop, hdestroyN, hdestroy, hassign, Option.bind_eq_bind,
    Option.bind_some, if_pos hend, Option.bind_none]

/-- The elements from a position on are destroyed. -/
theorem turns_shrink (h : b.Holds T os) (hle : n ≤ b.size) :
    Turns T os life (do
      let (s, life) ← destroyN T b.slots n (b.size - n) life
      some ({ b.withSlots s with size := n }, life)) ((values os).take n) := by
  have hsize := h.size
  obtain ⟨xs, ys, gap, rfl, rfl, hgap⟩ := exists_range hle (Nat.le_of_eq hsize)
  have hgap : gap = [] := by
    simp only [List.length_append] at hsize hgap
    exact List.eq_nil_of_length_eq_zero (by omega)
  subst hgap
  rw [List.append_nil] at h hsize ⊢
  rw [List.length_append] at hsize
  obtain ⟨s, life', hdestroy, hs, hlen, hlife⟩ := held_destroyN life h.held
  have hcount : b.size - xs.length = ys.length := by omega
  rw [values_append, List.take_left' length_values]
  simp only [hcount, hdestroy, Option.bind_eq_bind, Option.bind_some]
  exact h.turns_cut rfl hlen hs rfl hlife

theorem turns_clear (h : b.Holds T os) : Turns T os life (b.clear T life) [] :=
  turns_shrink h (Nat.zero_le b.size)

/-- There is room for the new size. -/
theorem grows_resize (h : b.Holds T os) (n : Nat) : Grows T os life
    (if n > b.capacity then b.reallocate T policy n life else some (b, life)) n := by
  have hsize := h.size_le
  split
  · exact grows_reallocate h (by omega)
  · exact ⟨b, life, os, rfl, h, rfl, fun _ => .refl, by omega⟩

theorem turns_resize {newSize : Nat} {added : Nat → α} (h : b.Holds T os) :
    Turns T os life (b.resize T policy newSize added life)
      (resized (values os) newSize added) := by
  refine Grows.bind (grows_resize h newSize) ?_
  intro b life' os' hb hvs hroom
  have hsize := hb.size
  have hlength : (values os).length = b.size := by rw [← hvs, length_values, hsize]
  dsimp only
  by_cases hgrow : newSize > b.size
  · have hresized : resized (values os) newSize added =
        values os' ++ (List.range (newSize - b.size)).map added := by
      rw [resized, List.take_of_length_le (by omega), hlength, hvs]
    have hn : newSize = os'.length + ((List.range (newSize - b.size)).map added).length := by
      rw [List.length_map, List.length_range]
      omega
    have hslots : os'.length + ((List.range (newSize - b.size)).map added).length ≤
        b.slots.length := by
      rw [hb.capacity, ← hn]
      exact hroom
    rw [if_pos hgrow, hresized]
    split
    · obtain ⟨hs, hlen⟩ := hb.held.appear life' hslots
      rw [← hsize] at hs hlen
      exact hb.turns_put hlen hs hn
    · obtain ⟨s, hconstruct, hs, hlen⟩ := hb.held.construct life' hslots
      rw [← hsize] at hconstruct
      simp only [hconstruct, Option.bind_eq_bind, Option.bind_some]
      exact hb.turns_put hlen hs hn
  · have hresized : resized (values os) newSize added = (values os').take newSize := by
      rw [resized, hlength, Nat.sub_eq_zero_of_le (by omega), hvs]
      exact List.append_nil _
    rw [if_neg hgrow, hresized]
    exact turns_shrink hb (by omega)

/-! ## Arguments in the buffer itself -/

/-- If the buffer has room, the elements are read, and are the same objects as before. -/
theorem Buffer.Holds.arguments {i : Nat} (h : b.Holds T os) (moves : Bool) (hle : i + n ≤ os.length)
    (hroom : b.size + n ≤ b.capacity) :
    ∃ vs s os', b.arguments T moves i n = some (vs, s) ∧ s.Held T.triviallyDestructible os' ∧
      s.length = b.slots.length ∧ ids os' = ids os ∧ vs.length = n := by
  rw [Buffer.arguments, if_neg (Nat.not_lt.mpr hroom)]
  cases moves with
  | false =>
    refine ⟨((values os).drop i).take n, b.slots, os, ?_, h.held, rfl, rfl, ?_⟩
    · rw [if_neg Bool.false_ne_true, h.held.read_slice hle, Option.map_some]
    · rw [List.length_take, List.length_drop, length_values]
      omega
  | true =>
    have hsplit : os = os.take i ++ (os.drop i).take n ++ (os.drop i).drop n := by
      rw [List.append_assoc, List.take_append_drop, List.take_append_drop]
    have hheld := h.held
    rw [hsplit] at hheld
    obtain ⟨s, hout, hs, hlength⟩ := hheld.moveOut_inner T.movedFrom
    have hi : (os.take i).length = i := List.length_take_of_le (by omega)
    have hn : ((os.drop i).take n).length = n := by
      rw [List.length_take, List.length_drop]
      omega
    rw [hi, hn] at hout
    refine ⟨_, s, _, (if_pos rfl).trans hout, hs, hlength, ?_, ?_⟩
    · conv_rhs => rw [hsplit]
      simp only [ids_append, ids_become]
    · rw [length_values, hn]

theorem arguments_eq_none {i : Nat} {moves : Bool} (hroom : b.capacity < b.size + n) :
    b.arguments T moves i n = none := if_pos hroom

theorem exists_turns_constructBackOwn {i : Nat} (h : b.Holds T os) (moves : Bool) (f : α → α)
    (hi : i < b.size) (hroom : b.size < b.capacity) :
    ∃ vs, Turns T os life (b.constructBackOwn T moves i f life) vs := by
  have hsize := h.size
  obtain ⟨vs, s, os', harguments, hs, hlength, hids, hvs⟩ :=
    h.arguments (i := i) (n := 1) moves (by omega) hroom
  have hos' : os'.length = os.length := by simpa [ids] using congrArg List.length hids
  have hmap : (vs.map f).length = 1 := by rw [List.length_map, hvs]
  have hslots : os'.length + (vs.map f).length ≤ s.length := by
    rw [hlength, h.capacity, hmap]
    omega
  obtain ⟨s', hconstruct, hs', hlength'⟩ := hs.construct life hslots
  have hat : b.size = os'.length := by omega
  refine ⟨values os' ++ vs.map f, ?_⟩
  simp only [Buffer.constructBackOwn, harguments, hat, hconstruct, Option.bind_eq_bind,
    Option.bind_some]
  exact h.turns_behind hids (hlength'.trans hlength) hs' (by rw [hmap])

theorem exists_turns_appendOwn {offset count : Nat} (h : b.Holds T os)
    (hle : offset + count ≤ b.size) (hroom : count = 0 ∨ b.size + count ≤ b.capacity) :
    ∃ vs, Turns T os life (b.appendOwn T offset count life) vs := by
  unfold Buffer.appendOwn
  split
  · exact ⟨values os, h.turns⟩
  rename_i hne
  have hsize := h.size
  have hroom := hroom.resolve_left hne
  obtain ⟨vs, s, os', harguments, hs, hlength, hids, hvs⟩ :=
    h.arguments (i := offset) (n := count) false (by omega) hroom
  have hos' : os'.length = os.length := by simpa [ids] using congrArg List.length hids
  have hslots : os'.length + vs.length ≤ s.length := by
    rw [hlength, h.capacity, hvs]
    omega
  obtain ⟨s', hcopy, hs', hlength'⟩ := held_uninitializedCopy life hs hslots
  have hat : b.size = os'.length := by omega
  refine ⟨values os' ++ vs, ?_⟩
  simp only [harguments, hat, hcopy, Option.bind_eq_bind, Option.bind_some]
  exact h.turns_behind hids (hlength'.trans hlength) hs' (by rw [hvs])

theorem assignOwned_eq_none : b.assignOwned T life = none := by
  rw [Buffer.assignOwned]
  cases b.destruct T life with
  | none => rfl
  | some life' => rfl

/-! ## Moves -/

/-- The elements move into new storage, and are left in the other buffer as moves leave them. A
trivially copyable `T` requires that there is no room for any. -/
theorem parts_moveConstruct (h : other.Holds T xs)
    (hmove : T.triviallyCopyable = true → other.capacity = 0) :
    Parts T xs life (other.moveConstruct T life) (values xs) ((values xs).map T.movedFrom) := by
  have hsize := h.size
  have hle := h.size_le
  unfold Buffer.moveConstruct
  by_cases ht : T.triviallyCopyable = true
  · have hcapacity := hmove ht
    have hxs : xs = [] := List.eq_nil_of_length_eq_zero (by omega)
    subst hxs
    have hnew : (⟨other.capacity, other.size, other.buf⟩ : Buffer α).Holds T [] := h
    have hleft : ({ other with buf := none } : Buffer α).Holds T [] :=
      ⟨Buffer.holds_empty.held, hsize, hcapacity.symm⟩
    rw [if_pos ht]
    refine ⟨_, _, _, [], [], rfl, hnew, hleft, rfl, rfl, ?_⟩
    intro hfalse
    rw [triviallyDestructible_of ht] at hfalse
    cases hfalse
  · obtain ⟨s, hout, hs, hlen⟩ := held_takeOut h.held
    have hroom : (values xs).length ≤ other.capacity := by
      rw [length_values]
      omega
    obtain ⟨s', hcopy, hs', hlen'⟩ := held_copyFresh T life hroom
    rw [if_neg ht]
    simp only [hsize, hout, hcopy, Option.bind_eq_bind, Option.bind_some]
    refine ⟨_, _, _, number life.begun (values xs), xs.map (Object.become T.movedFrom), rfl,
      ⟨hs', by simp, hlen'⟩,
      h.withSlots hlen hs (by rw [List.length_map, hsize]), values_number, values_become _, ?_⟩
    intro _
    rw [ids_become]
    intro k
    have hbegun := conserves_begun (ids xs) life (values xs) k
    simp only [List.count_append] at hbegun ⊢
    omega

theorem parts_moveAssign (h : b.Holds T os) (hother : other.Holds T xs)
    (hmove : T.triviallyCopyable = true → other.capacity = 0) :
    Parts T (os ++ xs) life (b.moveAssign T other life) (values xs)
      ((values xs).map T.movedFrom) := by
  obtain ⟨life', hdestruct, hlife⟩ := exists_destruct life h
  have hmoved : Parts T xs life' (other.moveConstruct T life') (values xs)
      ((values xs).map T.movedFrom) := parts_moveConstruct hother hmove
  obtain ⟨new, left, life'', ys, zs, hparts, hnew, hleft, hys, hzs, hconserves⟩ := hmoved
  refine ⟨new, left, life'', ys, zs, ?_, hnew, hleft, hys, hzs, ?_⟩
  · simp only [Buffer.moveAssign, hdestruct, Option.bind_eq_bind, Option.bind_some, hparts]
  · intro ht
    have hframe := (hlife ht).append (ids xs)
    rw [ids_append]
    exact hframe.trans (hconserves ht)

/-- A buffer of a trivially copyable `T` that is moved from has no storage, and its sizes stay. -/
theorem moveConstruct_of_copyable (ht : T.triviallyCopyable = true) :
    other.moveConstruct T life =
      some (⟨other.capacity, other.size, other.buf⟩, { other with buf := none }, life) := if_pos ht

end Csics.Container
