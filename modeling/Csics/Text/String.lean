import Csics.Container.MovedFrom

/-!
# The string

`String` of `include/csics/String.hpp`: a `Buffer<char>` that keeps a terminator behind the
characters. A view is given as the bytes that it covers, unless it is one of the string itself.

The default constructor makes a buffer of one character and gives it no value. `append` takes the
terminator away, and puts one behind what it has appended.
-/

namespace Csics.Text

open Base Container Container.Buffers

/-- The policy of a `Buffer` that is given none. -/
def stringPolicy : CapacityPolicy := .fiftyPercent

/-- `buf_`. -/
abbrev String := Buffer UInt8

namespace String

/-- `String()`. `added` is the value that the character happens to have. -/
def init (added : UInt8) (life : Lifetimes) : String × Lifetimes :=
  Buffer.ofSize charType stringPolicy [added] life

/-- `buf_[index] = value`. -/
def assign (b : String) (index : Nat) (value : UInt8) : Option String :=
  match b.slots[index]? with
  | some (some o) => some (b.withSlots (b.slots.set index (some { o with value := value })))
  | _ => none

/-- `String(const StringView&)`. `added` are the values that `resize` leaves. -/
def ofView (v : List UInt8) (added : Nat → UInt8) (life : Lifetimes) :
    Option (String × Lifetimes) :=
  if v = [] then Buffer.empty.pushBack charType stringPolicy 0 life
  else do
    let (b, life) ← Buffer.empty.resize charType stringPolicy (v.length + 1) added life
    let (s, life) ← b.slots.copyBytes 0 v life
    let b ← assign (b.withSlots s) v.length 0
    some (b, life)

/-- The bytes of `StringView(data() + offset, length)`. -/
def bytes (b : String) (offset length : Nat) : Option (List UInt8) := b.slots.read offset length

/-- What `operator StringView` covers. `size() - 1` of an empty buffer is far out of range. -/
def view (b : String) : Option (List UInt8) := if b.size = 0 then none else b.bytes 0 (b.size - 1)

/-- `append`. -/
def append (b : String) (v : List UInt8) (life : Lifetimes) : Option (String × Lifetimes) :=
  if v = [] then some (b, life)
  else do
    let (b, life) ← b.popBack charType life
    let (b, life) ← Buffer.append charType stringPolicy b v life
    b.pushBack charType stringPolicy 0 life

/-- `append` of a view of the string itself. -/
def appendOwn (b : String) (offset length : Nat) (life : Lifetimes) :
    Option (String × Lifetimes) :=
  if length = 0 then some (b, life)
  else do
    let (b, life) ← b.popBack charType life
    -- `reallocate` ends the storage that the view is of
    if b.size + length > b.capacity then none
    else do
      let v ← String.bytes b offset length
      let (b, life) ← Buffer.append charType stringPolicy b v life
      b.pushBack charType stringPolicy 0 life

/-! ## What a string stores -/

/-- The bytes of the buffer, the terminator among them. -/
def Stores (b : String) (vs : List UInt8) : Prop := ∃ os, b.Holds charType os ∧ values os = vs

/-- A string comes out that stores the bytes. -/
def Makes (r : Option (String × Lifetimes)) (vs : List UInt8) : Prop :=
  ∃ b life, r = some (b, life) ∧ Stores b vs

variable {b : String} {vs ws : List UInt8} {c : UInt8} {life : Lifetimes}
  {r : Option (String × Lifetimes)} {os : List (Object UInt8)} {offset length : Nat}

theorem makes_of_turns (h : Turns charType os life r vs) : Makes r vs := by
  obtain ⟨b, life', os', hr, hb, hvs, -⟩ := h
  exact ⟨b, life', hr, os', hb, hvs⟩

theorem Makes.bind {f : String × Lifetimes → Option (String × Lifetimes)} (h : Makes r vs)
    (hf : ∀ b life, Stores b vs → Makes (f (b, life)) ws) : Makes (r >>= f) ws := by
  obtain ⟨b, life, rfl, hb⟩ := h
  exact hf b life hb

theorem stores_empty : Stores Buffer.empty [] := ⟨[], Buffer.holds_empty, rfl⟩

theorem Stores.size (h : Stores b vs) : b.size = vs.length := by
  obtain ⟨os, hb, rfl⟩ := h
  rw [hb.size, length_values]

theorem Stores.bytes (h : Stores b vs) (hle : offset + length ≤ vs.length) :
    b.bytes offset length = some ((vs.drop offset).take length) := by
  obtain ⟨os, hb, rfl⟩ := h
  rw [length_values] at hle
  exact hb.held.read_slice hle

theorem Stores.view (h : Stores b (vs ++ [c])) : b.view = some vs := by
  have hsize : b.size = vs.length + 1 := by simpa using h.size
  rw [String.view, if_neg (by omega), hsize, h.bytes (by simp)]
  simp

theorem makes_pushBack (h : Stores b vs) (c : UInt8) :
    Makes (b.pushBack charType stringPolicy c life) (vs ++ [c]) := by
  obtain ⟨os, hb, rfl⟩ := h
  exact makes_of_turns (turns_constructBack hb c)

theorem makes_bufferAppend (h : Stores b vs) (v : List UInt8) :
    Makes (Buffer.append charType stringPolicy b v life) (vs ++ v) := by
  obtain ⟨os, hb, rfl⟩ := h
  exact makes_of_turns (turns_append hb v)

/-- `pop_back` leaves the room as it is. -/
theorem exists_popBack (h : Stores b (vs ++ [c])) (life : Lifetimes) :
    ∃ b' life', b.popBack charType life = some (b', life') ∧ Stores b' vs ∧
      b'.capacity = b.capacity := by
  obtain ⟨os, hb, hvs⟩ := h
  have hne : os ≠ [] := by
    rintro rfl
    simp at hvs
  have hturns : Turns charType os life (b.popBack charType life) _ := turns_popBack hb hne
  obtain ⟨b', life', os', hpop, hb', hvs', -⟩ := hturns
  rw [hvs, List.dropLast_concat] at hvs'
  refine ⟨b', life', hpop, ⟨os', hb', hvs'⟩, ?_⟩
  unfold Buffer.popBack at hpop
  split at hpop
  · cases hpop
  obtain ⟨⟨_, s⟩, -, hpop⟩ := Option.bind_eq_some_iff.mp hpop
  obtain ⟨⟨s', life''⟩, -, hpop⟩ := Option.bind_eq_some_iff.mp hpop
  cases hpop
  rfl

/-! ## Operations -/

theorem makes_init (added : UInt8) (life : Lifetimes) :
    Makes (some (String.init added life)) [added] := makes_of_turns (turns_ofSize rfl)

theorem makes_ofView (v : List UInt8) (added : Nat → UInt8) (life : Lifetimes) :
    Makes (String.ofView v added life) (v ++ [0]) := by
  unfold String.ofView
  split
  · rename_i hnil
    rw [hnil]
    exact makes_pushBack stores_empty 0
  have hresize : Turns charType [] life
      (Buffer.empty.resize charType stringPolicy (v.length + 1) added life) _ :=
    turns_resize Buffer.holds_empty
  refine (makes_of_turns hresize).bind ?_
  intro b life' ⟨os, hb, hvs⟩
  have hlength : os.length = v.length + 1 := by
    rw [← length_values, hvs]
    simp [resized]
  obtain ⟨as, o, rfl⟩ : ∃ as o, os = as ++ [o] := by
    rcases List.eq_nil_or_concat' os with rfl | hconcat
    · cases hlength
    · exact hconcat
  have has : v.length = as.length := by simpa using hlength.symm
  obtain ⟨s, hcopy, hs, hslots⟩ := hb.held.overwrite life' has
  have hb' : (b.withSlots s).Holds charType (number life'.begun v ++ [o]) := by
    refine hb.withSlots hslots hs ?_
    rw [hb.size]
    simp [has]
  have hlast : (b.withSlots s).slots[v.length]? = some (some o) := by
    have hget := hb'.held.getElem?
    rwa [length_number] at hget
  have hset := hb'.held.set (⟨o.id, 0⟩ : Object UInt8)
  rw [length_number] at hset
  have hsize : (b.withSlots s).size =
      (number life'.begun v ++ [(⟨o.id, 0⟩ : Object UInt8)]).length := by
    rw [hb'.size]
    simp
  simp only [hcopy, Option.bind_eq_bind, Option.bind_some, String.assign, hlast]
  exact ⟨_, _, rfl, _, hb'.withSlots (by simp) hset hsize, by simp⟩

theorem makes_append (h : Stores b (vs ++ [c])) {v : List UInt8} (hv : v ≠ []) :
    Makes (String.append b v life) (vs ++ v ++ [0]) := by
  obtain ⟨b', life', hpop, hb', -⟩ := exists_popBack h life
  rw [String.append, if_neg hv, hpop, Option.bind_eq_bind, Option.bind_some]
  refine (makes_bufferAppend hb' v).bind ?_
  intro b'' life'' hb''
  exact makes_pushBack hb'' 0

/-- A view of the string itself is appended if there is room for it, and dangles if not. -/
theorem makes_appendOwn_iff (h : Stores b (vs ++ [c])) (hlength : length ≠ 0)
    (hle : offset + length ≤ vs.length) :
    (vs.length + length ≤ b.capacity → Makes (b.appendOwn offset length life)
      (vs ++ (vs.drop offset).take length ++ [0])) ∧
    (¬ vs.length + length ≤ b.capacity → b.appendOwn offset length life = none) := by
  obtain ⟨b', life', hpop, hb', hcapacity⟩ := exists_popBack h life
  have hsize := hb'.size
  rw [String.appendOwn, if_neg hlength, hpop, Option.bind_eq_bind, Option.bind_some]
  dsimp only
  rw [hsize, hcapacity]
  constructor
  · intro hroom
    rw [if_neg (Nat.not_lt.mpr hroom), hb'.bytes hle, Option.bind_eq_bind, Option.bind_some]
    refine (makes_bufferAppend hb' _).bind ?_
    intro b'' life'' hb''
    exact makes_pushBack hb'' 0
  · intro hroom
    rw [if_pos (Nat.lt_of_not_le hroom)]

/-! ## Copies and moves -/

variable {other : String}

theorem makes_copyConstruct (h : Stores other vs) :
    Makes (other.copyConstruct charType stringPolicy life) vs := by
  obtain ⟨os, hother, rfl⟩ := h
  exact makes_of_turns (turns_copyConstruct hother)

/-- Whatever the string has been. -/
theorem makes_copyAssign (b : String) (h : Stores other vs) :
    Makes (b.copyAssign charType stringPolicy other life) vs := by
  obtain ⟨os, hother, rfl⟩ := h
  have hread := hother.elements
  rw [Buffer.elements] at hread
  have hcopy : b.copyAssign charType stringPolicy other life =
      Buffer.ofData charType stringPolicy (values os) life := by
    rw [Buffer.copyAssign, hread]
    rfl
  have hturns : Turns charType [] life
      (Buffer.ofData charType stringPolicy (values os) life) (values os) :=
    turns_ofData fun htrivial => absurd htrivial (by decide)
  rw [hcopy]
  exact makes_of_turns hturns

theorem moveConstruct_char (other : String) (life : Lifetimes) :
    other.moveConstruct charType life = some (other, { other with buf := none }, life) := rfl

theorem moveAssign_char (b other : String) (life : Lifetimes) :
    b.moveAssign charType other life = some (other, { other with buf := none }, life) := rfl

theorem destruct_char (b : String) (life : Lifetimes) : b.destruct charType life = some life := rfl

end String

end Csics.Text
