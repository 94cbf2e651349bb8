import Csics.Base.Run
import Csics.Json.Text

/-!
# Using a serializer again

A range or a map that returns because one of its members has no room leaves its state on the stack,
and the next call takes this for a container around its value. A struct does not return early, and
what its members leave behind stays below its own state. So a call that stays in its buffer leaves
the stack empty exactly if no member of a range or a map is stopped (`emit_fits`), and then the next
call starts as a new serializer does (`reusable_iff`).
-/

namespace Csics.Json

open Base Serialization

/-! ## Members that are stopped -/

mutual

/-- Each primitive that is a member of a range or a map has the room that its check asks for. `room`
is what is left where the value begins, and `member` says whether it is a member itself. -/
def fits (p : Platform) (member : Bool) (room : Nat) : Value → Bool
  | .primitive x => !member || !decide (Stops p room x)
  | .struct fields => fitsFields p (room - 1) fields
  | .range items => fitsItems p (room - 1) items
  | .map entries => fitsEntries p (room - 1) entries

def fitsFields (p : Platform) (room : Nat) : List (List UInt8 × Value) → Bool
  | [] => true
  | (name, field) :: fields =>
    fits p false (room - (keyText p name).length) field &&
      (emit p true (room - (keyText p name).length) field).elim true fun e =>
        fitsFields p (room - (keyText p name).length - e.out.length) fields

def fitsItems (p : Platform) (room : Nat) : List Value → Bool
  | [] => true
  | item :: items =>
    fits p true room item &&
      (emit p true room item).elim true fun e => fitsItems p (room - e.out.length) items

def fitsEntries (p : Platform) (room : Nat) : List (List UInt8 × Value) → Bool
  | [] => true
  | (name, entry) :: entries =>
    fits p true (room - (keyText p name).length) entry &&
      (emit p true (room - (keyText p name).length) entry).elim true fun e =>
        fitsEntries p (room - (keyText p name).length - e.out.length) entries

end

section

variable {p : Platform} {outer : Bool} {room : Nat} {e m : Emission} {opening closing : UInt8}
  {state : JSONState} {members : Option Emission}

/-- A container leaves nothing behind exactly if its members do not, and then it is all right. -/
theorem emitContainer_leftover (hm : members = some m)
    (h : emitContainer room opening closing state outer members = some e) :
    (e.leftover = [] ↔ m.status = .ok ∧ m.leftover = []) ∧ (e.leftover = [] → e.status = .ok) := by
  rw [emitContainer, hm, Option.bind_some] at h
  split at h
  · rename_i hne
    cases h
    refine ⟨iff_of_false ?_ fun hok => hne hok.1, ?_⟩
    · exact List.concat_ne_nil state m.leftover
    · exact fun hnil => absurd hnil (List.concat_ne_nil state m.leftover)
  · rename_i hok
    have hstatus := emitClose_ok h
    unfold emitClose at h
    split at h
    · cases h
      refine ⟨?_, fun _ => rfl⟩
      rw [and_iff_right (not_not.mp hok), ← List.length_eq_zero_iff, ← List.length_eq_zero_iff,
        List.length_tail, List.length_append, List.length_singleton, Nat.add_sub_cancel]
    · cases h

theorem container_fits {fitting : Bool}
    (hfits : ∀ m, members = some m → (fitting = true ↔ m.status = .ok ∧ m.leftover = []))
    (h : (if room = 0 then none
      else emitContainer room opening closing state outer members) = some e) :
    (fitting = true ↔ e.status = .ok ∧ e.leftover = []) ∧ (fitting = true ↔ e.leftover = []) := by
  split at h
  · cases h
  · obtain ⟨m, hm, -⟩ := Option.bind_eq_some_iff.mp h
    obtain ⟨hleftover, hstatus⟩ := emitContainer_leftover hm h
    rw [hfits m hm, ← hleftover]
    exact ⟨(and_iff_right_of_imp hstatus).symm, Iff.rfl⟩

theorem primitive_fits {x : Primitive} (h : emitPrimitive p room x = some e) :
    (fits p true room (.primitive x) = true ↔ e.status = .ok ∧ e.leftover = []) ∧
      (fits p false room (.primitive x) = true ↔ e.leftover = []) := by
  rw [fits, fits, Bool.not_true, Bool.false_or, Bool.not_false, Bool.true_or]
  by_cases hstops : Stops p room x
  · rw [emitPrimitive, if_pos hstops] at h
    cases h
    rw [decide_eq_true hstops]
    refine ⟨iff_of_false Bool.false_ne_true ?_, iff_of_true rfl rfl⟩
    rintro ⟨hok, -⟩
    cases hok
  · rw [emitPrimitive, if_neg hstops, emitText] at h
    split at h
    · cases h
      rw [decide_eq_false hstops]
      exact ⟨iff_of_true rfl ⟨rfl, rfl⟩, iff_of_true rfl rfl⟩
    · cases h

/-- What a member leaves behind is below what the rest does. -/
theorem after_fits {fitting : Bool} {out : List UInt8} {leftover : List JSONState}
    (hfits : fitting = true ↔ m.status = .ok ∧ m.leftover = []) :
    leftover = [] ∧ fitting = true ↔
      (m.after out leftover).status = .ok ∧ (m.after out leftover).leftover = [] := by
  rw [hfits, Emission.after, List.append_eq_nil_iff]
  constructor
  · rintro ⟨hleftover, hok, hrest⟩
    exact ⟨hok, hrest, hleftover⟩
  · rintro ⟨hok, hrest, hleftover⟩
    exact ⟨hleftover, hok, hrest⟩

end

mutual

theorem emit_fits (p : Platform) (outer : Bool) (room : Nat) (v : Value) {e : Emission}
    (h : emit p outer room v = some e) :
    (fits p true room v = true ↔ e.status = .ok ∧ e.leftover = []) ∧
      (fits p false room v = true ↔ e.leftover = []) := by
  cases v with
  | primitive x =>
    rw [emit] at h
    exact primitive_fits h
  | struct fields =>
    rw [emit] at h
    rw [fits, fits]
    exact container_fits (fun m hm => emitFields_fits p (room - 1) fields hm) h
  | range items =>
    rw [emit] at h
    rw [fits, fits]
    exact container_fits (fun m hm => emitItems_fits p (room - 1) items hm) h
  | map entries =>
    rw [emit] at h
    rw [fits, fits]
    exact container_fits (fun m hm => emitEntries_fits p (room - 1) entries hm) h

theorem emitFields_fits (p : Platform) (room : Nat) (fields : List (List UInt8 × Value))
    {e : Emission} (h : emitFields p room fields = some e) :
    fitsFields p room fields = true ↔ e.status = .ok ∧ e.leftover = [] := by
  cases fields with
  | nil =>
    rw [emitFields] at h
    cases h
    exact iff_of_true rfl ⟨rfl, rfl⟩
  | cons field fields =>
    obtain ⟨name, field⟩ := field
    rw [emitFields] at h
    split at h
    · cases h
    · obtain ⟨first, hfirst, h⟩ := Option.bind_eq_some_iff.mp h
      obtain ⟨rest, hrest, rfl⟩ := Option.map_eq_some_iff.mp h
      rw [fitsFields, hfirst, Option.elim_some, Bool.and_eq_true,
        (emit_fits p true _ field hfirst).2]
      exact after_fits (emitFields_fits p _ fields hrest)

theorem emitItems_fits (p : Platform) (room : Nat) (items : List Value) {e : Emission}
    (h : emitItems p room items = some e) :
    fitsItems p room items = true ↔ e.status = .ok ∧ e.leftover = [] := by
  cases items with
  | nil =>
    rw [emitItems] at h
    cases h
    exact iff_of_true rfl ⟨rfl, rfl⟩
  | cons item items =>
    rw [emitItems] at h
    obtain ⟨first, hfirst, h⟩ := Option.bind_eq_some_iff.mp h
    rw [fitsItems, hfirst, Option.elim_some, Bool.and_eq_true, (emit_fits p true _ item hfirst).1]
    split at h
    · rename_i hne
      cases h
      exact iff_of_false (fun hfits => hne hfits.1.1) fun hfits => hne hfits.1
    · rename_i hok
      obtain ⟨rest, hrest, rfl⟩ := Option.map_eq_some_iff.mp h
      rw [and_iff_right (not_not.mp hok)]
      exact after_fits (emitItems_fits p _ items hrest)

theorem emitEntries_fits (p : Platform) (room : Nat) (entries : List (List UInt8 × Value))
    {e : Emission} (h : emitEntries p room entries = some e) :
    fitsEntries p room entries = true ↔ e.status = .ok ∧ e.leftover = [] := by
  cases entries with
  | nil =>
    rw [emitEntries] at h
    cases h
    exact iff_of_true rfl ⟨rfl, rfl⟩
  | cons entry entries =>
    obtain ⟨name, entry⟩ := entry
    rw [emitEntries] at h
    split at h
    · cases h
    · obtain ⟨first, hfirst, h⟩ := Option.bind_eq_some_iff.mp h
      rw [fitsEntries, hfirst, Option.elim_some, Bool.and_eq_true,
        (emit_fits p true _ entry hfirst).1]
      split at h
      · rename_i hne
        cases h
        exact iff_of_false (fun hfits => hne hfits.1.1) fun hfits => hne hfits.1
      · rename_i hok
        obtain ⟨rest, hrest, rfl⟩ := Option.map_eq_some_iff.mp h
        rw [and_iff_right (not_not.mp hok)]
        exact after_fits (emitEntries_fits p _ entries hrest)

end

/-! ## Calls on one serializer -/

/-- A call of `serialize`. -/
structure Call where
  buf : View
  obj : Value

namespace Call

variable {p : Platform} {c : Call} {s s' : State}

/-- `serialize(s, buf, obj)`. -/
def serialize (p : Platform) (c : Call) (s : State) : Option (SerializationResult × State) :=
  (apply p c.buf c.obj c.buf).run s

/-- The serializer and the memory behind a call. -/
def step (p : Platform) (s : State) (c : Call) : Option State := (c.serialize p s).map Prod.snd

/-- The call returns, it returns and writes what it does with a new serializer, and it leaves the
stack empty. -/
def LikeNew (p : Platform) (s : State) (c : Call) : Prop :=
  ∃ result s', c.serialize p s = some (result, s') ∧ s'.stateStack = [] ∧
    (Json.serialize p c.buf c.obj s.mem).map (fun r => (r.1, r.2.mem)) = some (result, s'.mem)

/-- What is written without a check (brackets, braces, keys and commas) finds room, and no member
of a range or a map is stopped. -/
def Fits (p : Platform) (c : Call) : Prop :=
  emit p false c.buf.size c.obj ≠ none ∧ fits p false c.buf.size c.obj = true

theorem likeNew_iff (hs : s.stateStack = []) : c.LikeNew p s ↔ c.Fits p := by
  obtain ⟨mem, stack⟩ := s
  obtain rfl : stack = [] := hs
  have hrefines := refines_serialize p c.buf c.obj mem
  have hsame : c.serialize p ⟨mem, []⟩ = Json.serialize p c.buf c.obj mem := rfl
  rw [LikeNew, Fits, hsame]
  cases he : emit p false c.buf.size c.obj with
  | none =>
    rw [he] at hrefines
    have hnone : Json.serialize p c.buf c.obj mem = none := hrefines
    rw [hnone]
    refine iff_of_false ?_ fun hfits => hfits.1 rfl
    rintro ⟨result, s', hrun, -⟩
    cases hrun
  | some e =>
    rw [he] at hrefines
    obtain ⟨mem', hrun, -⟩ := hrefines
    rw [hrun, (emit_fits p false _ _ he).2, List.append_nil,
      and_iff_right (Option.some_ne_none e)]
    constructor
    · rintro ⟨result, s', hs', hnil, -⟩
      cases hs'
      exact hnil
    · intro hnil
      exact ⟨_, _, rfl, hnil, rfl⟩

theorem LikeNew.stateStack (h : c.LikeNew p s) (hstep : c.step p s = some s') :
    s'.stateStack = [] := by
  obtain ⟨result, t, hrun, hnil, -⟩ := h
  rw [step, hrun] at hstep
  cases hstep
  exact hnil

end Call

end Csics.Json
