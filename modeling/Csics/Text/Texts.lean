import Csics.Base.Run
import Csics.Text.String
import Mathlib.Logic.Function.Basic

/-!
# Strings refine texts

A program with any number of strings that it constructs, copies, moves, appends to and destroys.
`both` performs an operation on the strings and on the texts that they stand for. A string that is
moved from keeps its size but has no storage, and may only be destroyed or assigned.

A run goes through and the strings are the texts all the time, if and only if every string that a
view of itself is appended to has room for it (`shows_iff_guarded`).
-/

namespace Csics.Text

open Base Container Container.Buffers

/-- A text, and whether a terminator is known to be behind it. -/
structure Content where
  chars : List UInt8
  terminated : Bool
  deriving DecidableEq

/-- The strings by their names. -/
structure Strings where
  strings : Nat → Option String
  life : Lifetimes

/-- The texts of the strings by their names; `some none` is moved from. -/
abbrev Texts := Nat → Option (Option Content)

inductive StringOp where
  | init (name : Nat) (added : UInt8)
  | ofView (name : Nat) (v : List UInt8) (added : Nat → UInt8)
  | copyConstruct (name src : Nat)
  | moveConstruct (name src : Nat)
  | copyAssign (name src : Nat)
  | moveAssign (name src : Nat)
  | destruct (name : Nat)
  | append (name : Nat) (v : List UInt8)
  /-- `name.append(src_view(offset, length))`, with the view of `src`. -/
  | appendView (name src offset length : Nat)
  /-- `String name = src(offset, length)`. -/
  | slice (name src offset length : Nat) (added : Nat → UInt8)

/-! ## Steps -/

namespace Strings

def start : Strings := ⟨fun _ => none, ⟨0, []⟩⟩

def put (w : Strings) (name : Nat) (r : Option (String × Lifetimes)) : Option Strings :=
  r.map fun (b, life) => ⟨Function.update w.strings name (some b), life⟩

def moved (w : Strings) (name src : Nat) (r : Option (String × String × Lifetimes)) :
    Option Strings :=
  r.map fun (b, left, life) =>
    ⟨Function.update (Function.update w.strings src (some left)) name (some b), life⟩

def step (w : Strings) : StringOp → Option Strings
  | .init name added => w.put name (some (String.init added w.life))
  | .ofView name v added => w.put name (String.ofView v added w.life)
  | .copyConstruct name src => (w.strings src).bind fun other =>
    w.put name (other.copyConstruct charType stringPolicy w.life)
  | .moveConstruct name src => (w.strings src).bind fun other =>
    w.moved name src (other.moveConstruct charType w.life)
  | .copyAssign name src =>
    if name = src then some w
    else (w.strings name).bind fun b => (w.strings src).bind fun other =>
      w.put name (b.copyAssign charType stringPolicy other w.life)
  | .moveAssign name src =>
    if name = src then some w
    else (w.strings name).bind fun b => (w.strings src).bind fun other =>
      w.moved name src (b.moveAssign charType other w.life)
  | .destruct name => (w.strings name).bind fun b => (b.destruct charType w.life).map fun life =>
    ⟨Function.update w.strings name none, life⟩
  | .append name v => (w.strings name).bind fun b => w.put name (String.append b v w.life)
  | .appendView name src offset length => (w.strings name).bind fun b =>
    if name = src then w.put name (String.appendOwn b offset length w.life)
    else (w.strings src).bind fun other => (String.bytes other offset length).bind fun v =>
      w.put name (String.append b v w.life)
  | .slice name src offset length added => (w.strings src).bind fun other =>
    (String.bytes other offset length).bind fun v => w.put name (String.ofView v added w.life)

end Strings

/-- A text with another one behind it. -/
def Content.append (t : Content) (v : List UInt8) : Content :=
  if v = [] then t else ⟨t.chars ++ v, true⟩

/-- The part of a text that a view is of. -/
def Content.part (t : Content) (offset length : Nat) : List UInt8 :=
  (t.chars.drop offset).take length

namespace Texts

def start : Texts := fun _ => none

/-- The text of a string that is there and not moved from. -/
def get (ts : Texts) (name : Nat) : Content := ((ts name).getD none).getD ⟨[], false⟩

def set (ts : Texts) (name : Nat) (t : Content) : Texts := Function.update ts name (some (some t))

def move (ts : Texts) (name src : Nat) : Texts :=
  Texts.set (Function.update ts src (some none)) name (ts.get src)

def step (ts : Texts) : StringOp → Texts
  | .init name _ => ts.set name ⟨[], false⟩
  | .ofView name v _ => ts.set name ⟨v, true⟩
  | .copyConstruct name src => ts.set name (ts.get src)
  | .moveConstruct name src => ts.move name src
  | .copyAssign name src => if name = src then ts else ts.set name (ts.get src)
  | .moveAssign name src => if name = src then ts else ts.move name src
  | .destruct name => Function.update ts name none
  | .append name v => ts.set name ((ts.get name).append v)
  | .appendView name src offset length =>
    ts.set name ((ts.get name).append ((ts.get src).part offset length))
  | .slice name src offset length _ => ts.set name ⟨(ts.get src).part offset length, true⟩

/-- The string is there and not moved from. -/
def Has (ts : Texts) (name : Nat) : Prop := ∃ t, ts name = some (some t)

/-- Names are used as the program has them, no string is used that is moved from, and no view leaves
the text that it is of. -/
def Valid (ts : Texts) : StringOp → Prop
  | .init name _ | .ofView name _ _ => ts name = none
  | .copyConstruct name src | .moveConstruct name src => ts name = none ∧ ts.Has src
  | .copyAssign name src | .moveAssign name src => ts name ≠ none ∧ (name ≠ src → ts.Has src)
  | .destruct name => ts name ≠ none
  | .append name _ => ts.Has name
  | .appendView name src offset length =>
    ts.Has name ∧ ts.Has src ∧ offset + length ≤ (ts.get src).chars.length
  | .slice name src offset length _ =>
    ts name = none ∧ ts.Has src ∧ offset + length ≤ (ts.get src).chars.length

end Texts

/-- The operation on the strings, and on the texts. -/
def both (p : Strings × Texts) (op : StringOp) : Option (Strings × Texts) :=
  (p.1.step op).map fun w => (w, p.2.step op)

/-- A string that a view of itself is appended to has room for it. -/
def HasRoom (p : Strings × Texts) : StringOp → Prop
  | .appendView name src _ length => name = src → length ≠ 0 → ∀ b ∈ p.1.strings name,
    (p.2.get name).chars.length + length ≤ b.capacity
  | _ => True

instance (ts : Texts) (name : Nat) : Decidable (ts.Has name) :=
  match h : ts name with
  | some (some t) => isTrue ⟨t, h⟩
  | some none => isFalse (by simp [Texts.Has, h])
  | none => isFalse (by simp [Texts.Has, h])

instance (ts : Texts) : (op : StringOp) → Decidable (ts.Valid op)
  | .init name _ | .ofView name _ _ => inferInstanceAs (Decidable (ts name = none))
  | .copyConstruct name src | .moveConstruct name src =>
    inferInstanceAs (Decidable (ts name = none ∧ ts.Has src))
  | .copyAssign name src | .moveAssign name src =>
    inferInstanceAs (Decidable (ts name ≠ none ∧ (name ≠ src → ts.Has src)))
  | .destruct name => inferInstanceAs (Decidable (ts name ≠ none))
  | .append name _ => inferInstanceAs (Decidable (ts.Has name))
  | .appendView name src offset length => inferInstanceAs (Decidable
    (ts.Has name ∧ ts.Has src ∧ offset + length ≤ (ts.get src).chars.length))
  | .slice name src offset length _ => inferInstanceAs (Decidable
    (ts name = none ∧ ts.Has src ∧ offset + length ≤ (ts.get src).chars.length))

instance (p : Strings × Texts) : (op : StringOp) → Decidable (HasRoom p op)
  | .appendView name src _ length => inferInstanceAs (Decidable
    (name = src → length ≠ 0 → ∀ b ∈ p.1.strings name,
      (p.2.get name).chars.length + length ≤ b.capacity))
  | .init _ _ | .ofView _ _ _ | .copyConstruct _ _ | .moveConstruct _ _ | .copyAssign _ _
  | .moveAssign _ _ | .destruct _ | .append _ _ | .slice _ _ _ _ _ => isTrue trivial

/-! ## What the program sees -/

/-- The string has these characters, and a terminator if it is known to have one. -/
def String.Shows (b : String) (t : Content) : Prop :=
  b.view = some t.chars ∧ (t.terminated = true → b.bytes (b.size - 1) 1 = some [0])

/-- The string stores the text and a character behind it. -/
def String.Keeps (b : String) (t : Content) : Prop :=
  ∃ c, String.Stores b (t.chars ++ [c]) ∧ (t.terminated = true → c = 0)

/-- What is behind a name, in terms of what holds of a string for its text. -/
def Named (P : String → Content → Prop) (b : Option String) : Option (Option Content) → Prop
  | none => b = none
  | some none => b ≠ none
  | some (some t) => ∃ s, b = some s ∧ P s t

theorem named_some {P : String → Content → Prop} {b : String} {t : Content} (h : P b t) :
    Named P (some b) (some (some t)) := ⟨b, rfl, h⟩

theorem named_none {P : String → Content → Prop} : Named P none none := rfl

/-- The strings are the texts. -/
def Shows (p : Strings × Texts) : Prop :=
  ∀ name, Named String.Shows (p.1.strings name) (p.2 name)

/-- The invariant of the runs. -/
def Tracks (p : Strings × Texts) : Prop :=
  ∀ name, Named String.Keeps (p.1.strings name) (p.2 name)

variable {p p' : Strings × Texts} {op : StringOp} {b other : String} {t : Content}
  {name src : Nat} {r : Option (String × Lifetimes)}

theorem String.Keeps.shows (h : b.Keeps t) : b.Shows t := by
  obtain ⟨c, hstores, hc⟩ := h
  refine ⟨hstores.view, ?_⟩
  intro ht
  have hsize : b.size = t.chars.length + 1 := by simpa using hstores.size
  rw [hsize, Nat.add_sub_cancel, hstores.bytes (by simp), List.drop_left, hc ht]
  rfl

theorem Tracks.shows (h : Tracks p) : Shows p := by
  intro name
  have hname := h name
  cases hts : p.2 name with
  | none =>
    rw [hts] at hname
    exact hname
  | some slot =>
    rw [hts] at hname
    cases slot with
    | none => exact hname
    | some t =>
      obtain ⟨b, hb, hkeeps⟩ := hname
      exact ⟨b, hb, hkeeps.shows⟩

theorem tracks_start : Tracks (.start, .start) := fun _ => rfl

/-! ## One name -/

/-- Behind one name the string and the text are exchanged. -/
theorem Tracks.update (h : Tracks p) (name : Nat) {b : Option String} {x : Option (Option Content)}
    (hb : Named String.Keeps b x) (life : Lifetimes) :
    Tracks (⟨Function.update p.1.strings name b, life⟩, Function.update p.2 name x) := by
  intro name'
  by_cases hname : name' = name
  · subst hname
    simp only [Function.update_self]
    exact hb
  · simp only [Function.update_of_ne hname]
    exact h name'

theorem Tracks.put (h : Tracks p) {c : UInt8} (hmakes : String.Makes r (t.chars ++ [c]))
    (hc : t.terminated = true → c = 0) (name : Nat) :
    ∃ w, p.1.put name r = some w ∧ Tracks (w, p.2.set name t) := by
  obtain ⟨b, life, rfl, hb⟩ := hmakes
  exact ⟨_, rfl, h.update name (named_some ⟨c, hb, hc⟩) life⟩

/-- The string behind a name that has a text. -/
theorem Tracks.exists_keeps (h : Tracks p) (hhas : p.2.Has name) :
    ∃ b, p.1.strings name = some b ∧ b.Keeps (p.2.get name) := by
  obtain ⟨t, ht⟩ := hhas
  have hname := h name
  rw [ht] at hname
  obtain ⟨b, hb, hkeeps⟩ := hname
  refine ⟨b, hb, ?_⟩
  rw [Texts.get, ht]
  exact hkeeps

theorem Tracks.exists_string (h : Tracks p) (hne : p.2 name ≠ none) :
    ∃ b, p.1.strings name = some b := by
  have hname := h name
  cases hts : p.2 name with
  | none => exact absurd hts hne
  | some slot =>
    rw [hts] at hname
    cases slot with
    | none => exact Option.ne_none_iff_exists'.mp hname
    | some t =>
      obtain ⟨b, hb, -⟩ := hname
      exact ⟨b, hb⟩

/-- A string goes from one name to another one. -/
theorem Tracks.moved (h : Tracks p) (hb : other.Keeps (p.2.get src)) (name : Nat)
    (left : String) (life : Lifetimes) :
    ∃ w, p.1.moved name src (some (other, left, life)) = some w ∧
      Tracks (w, p.2.move name src) := by
  have hsrc := h.update src (b := some left) (x := some none) (Option.some_ne_none left) life
  exact ⟨_, rfl, hsrc.update name (named_some hb) life⟩

/-! ## Appending -/

/-- The text that a string stores with something appended to it. -/
theorem String.Keeps.makes_append (h : b.Keeps t) (v : List UInt8) (life : Lifetimes) :
    ∃ c, String.Makes (String.append b v life) ((t.append v).chars ++ [c]) ∧
      ((t.append v).terminated = true → c = 0) := by
  obtain ⟨c, hstores, hc⟩ := h
  by_cases hv : v = []
  · refine ⟨c, ?_, ?_⟩
    · rw [String.append, Content.append, if_pos hv, if_pos hv]
      exact ⟨b, life, rfl, hstores⟩
    · rw [Content.append, if_pos hv]
      exact hc
  · refine ⟨0, ?_, fun _ => rfl⟩
    rw [Content.append, if_neg hv]
    exact String.makes_append hstores hv

/-- The same for a part of the text itself. -/
theorem String.Keeps.makes_appendOwn (h : b.Keeps t) {offset length : Nat} (life : Lifetimes)
    (hle : offset + length ≤ t.chars.length)
    (hroom : length ≠ 0 → t.chars.length + length ≤ b.capacity) :
    ∃ c, String.Makes (String.appendOwn b offset length life)
        ((t.append (t.part offset length)).chars ++ [c]) ∧
      ((t.append (t.part offset length)).terminated = true → c = 0) := by
  obtain ⟨c, hstores, hc⟩ := h
  by_cases hlength : length = 0
  · have hpart : t.part offset length = [] := by rw [Content.part, hlength, List.take_zero]
    rw [hpart, Content.append, if_pos rfl]
    refine ⟨c, ?_, hc⟩
    rw [String.appendOwn, if_pos hlength]
    exact ⟨b, life, rfl, hstores⟩
  · have hpart : t.part offset length ≠ [] := by
      rw [Content.part, ← List.length_pos_iff, List.length_take, List.length_drop]
      omega
    refine ⟨0, ?_, fun _ => rfl⟩
    rw [Content.append, if_neg hpart]
    exact (String.makes_appendOwn_iff hstores hlength hle).1 (hroom hlength)

/-! ## Steps of both -/

/-- A valid operation with room goes through and keeps the invariant. -/
theorem Tracks.step (h : Tracks p) (hvalid : p.2.Valid op) (hroom : HasRoom p op) :
    ∃ w, p.1.step op = some w ∧ Tracks (w, p.2.step op) := by
  cases op with
  | init name added =>
    exact h.put (t := ⟨[], false⟩) (String.makes_init added p.1.life) nofun name
  | ofView name v added =>
    exact h.put (t := ⟨v, true⟩) (String.makes_ofView v added p.1.life) (fun _ => rfl) name
  | copyConstruct name src =>
    obtain ⟨other, hother, c, hstores, hc⟩ := h.exists_keeps hvalid.2
    simp only [Strings.step, hother, Option.bind_some]
    exact h.put (String.makes_copyConstruct hstores) hc name
  | moveConstruct name src =>
    obtain ⟨other, hother, hkeeps⟩ := h.exists_keeps hvalid.2
    simp only [Strings.step, hother, Option.bind_some, String.moveConstruct_char]
    exact h.moved hkeeps name _ _
  | copyAssign name src =>
    obtain ⟨b, hb⟩ := h.exists_string hvalid.1
    by_cases hne : name = src
    · exact ⟨p.1, if_pos hne, by simpa only [Texts.step, if_pos hne] using h⟩
    · obtain ⟨other, hother, c, hstores, hc⟩ := h.exists_keeps (hvalid.2 hne)
      simp only [Strings.step, Texts.step, if_neg hne, hb, hother, Option.bind_some]
      exact h.put (String.makes_copyAssign b hstores) hc name
  | moveAssign name src =>
    obtain ⟨b, hb⟩ := h.exists_string hvalid.1
    by_cases hne : name = src
    · exact ⟨p.1, if_pos hne, by simpa only [Texts.step, if_pos hne] using h⟩
    · obtain ⟨other, hother, hkeeps⟩ := h.exists_keeps (hvalid.2 hne)
      simp only [Strings.step, Texts.step, if_neg hne, hb, hother, Option.bind_some,
        String.moveAssign_char]
      exact h.moved hkeeps name _ _
  | destruct name =>
    obtain ⟨b, hb⟩ := h.exists_string hvalid
    simp only [Strings.step, hb, Option.bind_some, String.destruct_char, Option.map_some]
    exact ⟨_, rfl, h.update name named_none _⟩
  | append name v =>
    obtain ⟨b, hb, hkeeps⟩ := h.exists_keeps hvalid
    obtain ⟨c, hmakes, hc⟩ := hkeeps.makes_append v p.1.life
    simp only [Strings.step, hb, Option.bind_some]
    exact h.put hmakes hc name
  | appendView name src offset length =>
    obtain ⟨hname, hsrc, hle⟩ := hvalid
    obtain ⟨b, hb, hkeeps⟩ := h.exists_keeps hname
    by_cases hne : name = src
    · subst hne
      obtain ⟨c, hmakes, hc⟩ := hkeeps.makes_appendOwn p.1.life hle
        fun hlength => hroom rfl hlength b hb
      simp only [Strings.step, hb, Option.bind_some, if_true]
      exact h.put hmakes hc name
    · obtain ⟨other, hother, c', hstores, -⟩ := h.exists_keeps hsrc
      obtain ⟨c, hmakes, hc⟩ := hkeeps.makes_append ((p.2.get src).part offset length) p.1.life
      have hbytes : other.bytes offset length = some ((p.2.get src).part offset length) := by
        rw [hstores.bytes (by simp; omega), List.drop_append_of_le_length (by omega),
          List.take_append_of_le_length (by simp; omega)]
        rfl
      simp only [Strings.step, hb, hother, Option.bind_some, if_neg hne, hbytes]
      exact h.put hmakes hc name
  | slice name src offset length added =>
    obtain ⟨-, hsrc, hle⟩ := hvalid
    obtain ⟨other, hother, c', hstores, -⟩ := h.exists_keeps hsrc
    have hbytes : other.bytes offset length = some ((p.2.get src).part offset length) := by
      rw [hstores.bytes (by simp; omega), List.drop_append_of_le_length (by omega),
        List.take_append_of_le_length (by simp; omega)]
      rfl
    simp only [Strings.step, hother, Option.bind_some, hbytes]
    exact h.put (t := ⟨_, true⟩) (String.makes_ofView _ added p.1.life) (fun _ => rfl) name

/-- Without the room the view dangles. -/
theorem Tracks.step_eq_none (h : Tracks p) (hvalid : p.2.Valid op) (hroom : ¬ HasRoom p op) :
    p.1.step op = none := by
  cases op with
  | appendView name src offset length =>
    obtain ⟨hname, -, hle⟩ := hvalid
    obtain ⟨b, hb, c, hstores, -⟩ := h.exists_keeps hname
    simp only [HasRoom, not_forall] at hroom
    obtain ⟨rfl, hlength, b', hb', hfull⟩ := hroom
    cases hb.symm.trans hb'
    simp only [Strings.step, hb, Option.bind_some, if_true]
    rw [(String.makes_appendOwn_iff hstores hlength hle).2 hfull]
    rfl
  | _ => exact absurd trivial hroom

/-! ## Runs -/

theorem Tracks.shows_iff (h : Tracks p) (hvalid : p.2.Valid op) :
    (∃ p', both p op = some p' ∧ Shows p') ↔ HasRoom p op := by
  constructor
  · rintro ⟨p', hp', -⟩
    by_contra hroom
    rw [both, h.step_eq_none hvalid hroom] at hp'
    cases hp'
  · intro hroom
    obtain ⟨w, hstep, htracks⟩ := h.step hvalid hroom
    exact ⟨(w, p.2.step op), by rw [both, hstep, Option.map_some], htracks.shows⟩

/-- A run in which names, views and strings that are moved from are used as they may be goes
through, and the strings show the texts all the time, if and only if there is room wherever a string
is appended to itself. -/
theorem shows_iff_guarded (ops : List StringOp)
    (hvalid : Guarded both (fun p op => p.2.Valid op) (.start, .start) ops) :
    Always both Shows (.start, .start) ops ↔ Guarded both HasRoom (.start, .start) ops := by
  refine always_iff_guarded (I := Tracks) ?_ ?_ tracks_start tracks_start.shows hvalid
  · intro p op htracks hvalid
    exact htracks.shows_iff hvalid
  · intro p op p' htracks hvalid hroom hstep
    obtain ⟨w, hw, htracks'⟩ := htracks.step hvalid hroom
    rw [both, hw, Option.map_some] at hstep
    cases hstep
    exact htracks'

/-- The first string has room for one more character of its own, is moved and gets another text. -/
def sample : List StringOp :=
  [.ofView 0 [0x61, 0x62] (fun _ => 0xCD), .copyConstruct 1 0, .append 0 [0x63],
    .appendView 0 0 0 1, .moveConstruct 2 0, .copyAssign 0 1, .slice 3 2 1 2 (fun _ => 0),
    .appendView 3 2 0 4, .destruct 2]

theorem shows_iff_guarded_sample : Always both Shows (.start, .start) sample :=
  (shows_iff_guarded sample (by decide)).mpr (by decide)

/-- Two characters leave room for two more, and then there is none for four. -/
example : run both (.start, .start)
    [.ofView 0 [0x61, 0x62] (fun _ => 0), .appendView 0 0 0 2, .appendView 0 0 0 4] = none := rfl

end Csics.Text
