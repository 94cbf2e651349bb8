import Csics.Json.Refinement

/-!
# JSON texts

The compact text of a value tree, written down without a buffer, and that the serializer
writes exactly this text when the buffer has room for it.
-/

namespace Csics.Json

open Base Serialization

/-! ## The text of a value -/

/-- The texts between two brackets, with single commas. -/
def enclosed (opening closing : UInt8) (texts : List (List UInt8)) : List UInt8 :=
  opening :: [comma].intercalate texts ++ [closing]

mutual

def text (p : Platform) : Value → List UInt8
  | .primitive x => token p x
  | .struct fields => enclosed lbrace rbrace (fieldTexts p fields)
  | .range items => enclosed lbracket rbracket (itemTexts p items)
  | .map entries => enclosed lbrace rbrace (fieldTexts p entries)

/-- Of fields, and of the entries of a map. -/
def fieldTexts (p : Platform) : List (List UInt8 × Value) → List (List UInt8)
  | [] => []
  | (name, field) :: fields => (keyText p name ++ text p field) :: fieldTexts p fields

def itemTexts (p : Platform) : List Value → List (List UInt8)
  | [] => []
  | item :: items => text p item :: itemTexts p items

end

example (p : Platform) :
    text p (.struct [([], .range [.primitive .null, .primitive (.bool true)]), ([], .map [])]) =
      "\x7b\x22\x22:[null,true],\x22\x22:\x7b\x7d\x7d".toUTF8.data.toList := rfl

/-! ## Texts with trailing commas -/

/-- The texts as the loops write them, each with a comma. -/
def trailed (texts : List (List UInt8)) : List UInt8 := texts.flatMap (· ++ [comma])

section

variable {p : Platform} {room : Nat} {texts : List (List UInt8)} {opening closing : UInt8}

@[simp] theorem trailed_nil : trailed [] = [] := rfl

@[simp] theorem trailed_cons (bs : List UInt8) (texts : List (List UInt8)) :
    trailed (bs :: texts) = bs ++ [comma] ++ trailed texts := List.flatMap_cons

theorem trailed_ne_nil (bs : List UInt8) (texts : List (List UInt8)) :
    trailed (bs :: texts) ≠ [] := by simp

/-- Without the last comma. -/
theorem dropLast_trailed (texts : List (List UInt8)) :
    (trailed texts).dropLast = [comma].intercalate texts := by
  induction texts with
  | nil => rfl
  | cons bs texts ih =>
    rw [trailed_cons]
    cases texts with
    | nil => rw [trailed_nil, List.append_nil, List.dropLast_concat, List.intercalate_singleton]
    | cons bs' texts =>
      rw [List.dropLast_append_of_ne_nil (trailed_ne_nil bs' texts), ih,
        List.intercalate_cons_cons]

theorem length_trailed_le (texts : List (List UInt8)) :
    (trailed texts).length ≤ ([comma].intercalate texts).length + 1 := by
  rw [← dropLast_trailed, List.length_dropLast]
  omega

theorem length_enclosed (opening closing : UInt8) (texts : List (List UInt8)) :
    (enclosed opening closing texts).length = ([comma].intercalate texts).length + 2 := by
  rw [enclosed, List.length_append, List.length_cons, List.length_singleton]

/-- The closing byte takes the place of the last comma. -/
theorem closeText_trailed (outer : Bool) (opening closing : UInt8) (texts : List (List UInt8)) :
    closeText outer opening closing (trailed texts) [] =
      enclosed opening closing texts ++ if outer then [comma] else [] := by
  have hopening : (if trailed texts = [] then [opening] else opening :: (trailed texts).dropLast) =
      opening :: [comma].intercalate texts := by
    rw [dropLast_trailed]
    split
    · rename_i hnil
      rw [← dropLast_trailed, hnil]
      rfl
    · rfl
  rw [closeText, hopening, enclosed, List.append_assoc, List.isEmpty_nil, Bool.not_true,
    Bool.or_false, List.singleton_append]

/-- A container whose members are written whole. -/
theorem emitContainer_trailed {outer : Bool} {state : JSONState}
    (h : (enclosed opening closing texts ++ if outer then [comma] else []).length ≤ room) :
    emitContainer room opening closing state outer (some ⟨.ok, trailed texts, []⟩) =
      some ⟨.ok, enclosed opening closing texts ++ if outer then [comma] else [], []⟩ := by
  rw [← closeText_trailed] at h ⊢
  exact if_pos h

/-- The room that the members have is enough for the last comma. -/
theorem trailed_fits {bs : List UInt8}
    (h : (enclosed opening closing texts ++ bs).length ≤ room) :
    room ≠ 0 ∧ (trailed texts).length ≤ room - 1 := by
  rw [List.length_append, length_enclosed] at h
  have hle := length_trailed_le texts
  omega

/-! ## A value that fits -/

theorem not_stops {x : Primitive} (h : (token p x).length < room) : ¬ Stops p room x := by
  have hnot : ¬ room ≤ (token p x).length := Nat.not_le.mpr h
  cases x with
  | null => exact hnot
  | bool value => exact hnot
  | int num => exact hnot
  | double num => exact Nat.not_lt.mpr (Nat.le_of_lt h)
  | string str =>
    have hlen : (token p (.string str)).length = (str.flatMap (escape p)).length + 2 := by
      rw [token, quoted, List.length_append, List.length_cons, List.length_singleton]
    show ¬ room < 2
    omega

theorem emitPrimitive_of_fits {x : Primitive} (h : (token p x).length < room) :
    emitPrimitive p room x = some ⟨.ok, token p x ++ [comma], []⟩ := by
  rw [emitPrimitive, if_neg (not_stops h), emitText, if_pos h]

theorem after_ok (bs cs : List UInt8) :
    Emission.after bs [] ⟨.ok, cs, []⟩ = ⟨.ok, bs ++ cs, []⟩ := rfl

end

mutual

/-- Inside of a container a value that fits with its comma is written whole. -/
theorem emit_of_fits (p : Platform) (room : Nat) (v : Value)
    (h : (text p v ++ [comma]).length ≤ room) :
    emit p true room v = some ⟨.ok, text p v ++ [comma], []⟩ := by
  cases v with
  | primitive x =>
    rw [List.length_append, List.length_singleton, text] at h
    exact emitPrimitive_of_fits h
  | struct fields =>
    obtain ⟨hroom, hmembers⟩ := trailed_fits h
    rw [emit, if_neg hroom, emitFields_of_fits p _ fields hmembers]
    exact emitContainer_trailed h
  | range items =>
    obtain ⟨hroom, hmembers⟩ := trailed_fits h
    rw [emit, if_neg hroom, emitItems_of_fits p _ items hmembers]
    exact emitContainer_trailed h
  | map entries =>
    obtain ⟨hroom, hmembers⟩ := trailed_fits h
    rw [emit, if_neg hroom, emitEntries_of_fits p _ entries hmembers]
    exact emitContainer_trailed h

theorem emitFields_of_fits (p : Platform) (room : Nat) (fields : List (List UInt8 × Value))
    (h : (trailed (fieldTexts p fields)).length ≤ room) :
    emitFields p room fields = some ⟨.ok, trailed (fieldTexts p fields), []⟩ := by
  cases fields with
  | nil => rfl
  | cons field fields =>
    obtain ⟨name, field⟩ := field
    rw [fieldTexts, trailed_cons] at h ⊢
    simp only [List.length_append, List.length_singleton] at h
    have hfield := emit_of_fits p (room - (keyText p name).length) field
      (by rw [List.length_append, List.length_singleton]; omega)
    rw [emitFields, if_neg (by omega), hfield, Option.bind_some,
      emitFields_of_fits p _ fields (by rw [List.length_append, List.length_singleton]; omega),
      Option.map_some, after_ok, List.append_assoc (keyText p name) (text p field)]

theorem emitItems_of_fits (p : Platform) (room : Nat) (items : List Value)
    (h : (trailed (itemTexts p items)).length ≤ room) :
    emitItems p room items = some ⟨.ok, trailed (itemTexts p items), []⟩ := by
  cases items with
  | nil => rfl
  | cons item items =>
    rw [itemTexts, trailed_cons] at h ⊢
    rw [List.length_append] at h
    rw [emitItems, emit_of_fits p room item (by omega), Option.bind_some, if_neg (not_not.mpr rfl),
      emitItems_of_fits p _ items (by dsimp only; omega), Option.map_some, after_ok]

theorem emitEntries_of_fits (p : Platform) (room : Nat) (entries : List (List UInt8 × Value))
    (h : (trailed (fieldTexts p entries)).length ≤ room) :
    emitEntries p room entries = some ⟨.ok, trailed (fieldTexts p entries), []⟩ := by
  cases entries with
  | nil => rfl
  | cons entry entries =>
    obtain ⟨name, entry⟩ := entry
    rw [fieldTexts, trailed_cons] at h ⊢
    simp only [List.length_append, List.length_singleton] at h
    have hentry := emit_of_fits p (room - (keyText p name).length) entry
      (by rw [List.length_append, List.length_singleton]; omega)
    rw [emitEntries, if_neg (by omega), hentry, Option.bind_some, if_neg (not_not.mpr rfl),
      emitEntries_of_fits p _ entries (by rw [List.length_append, List.length_singleton]; omega),
      Option.map_some, after_ok, List.append_assoc (keyText p name) (text p entry)]

end

/-! ## Whole runs -/

/-- The root is a struct, a range or a map. -/
def Value.IsContainer : Value → Prop
  | .primitive _ => False
  | .struct _ => True
  | .range _ => True
  | .map _ => True

theorem emit_root_of_fits {p : Platform} {room : Nat} {v : Value} (hroot : v.IsContainer)
    (h : (text p v).length ≤ room) : emit p false room v = some ⟨.ok, text p v, []⟩ := by
  rw [← List.append_nil (text p v)] at h ⊢
  cases v with
  | primitive x => exact hroot.elim
  | struct fields =>
    obtain ⟨hroom, hmembers⟩ := trailed_fits h
    rw [emit, if_neg hroom, emitFields_of_fits p _ fields hmembers]
    exact emitContainer_trailed h
  | range items =>
    obtain ⟨hroom, hmembers⟩ := trailed_fits h
    rw [emit, if_neg hroom, emitItems_of_fits p _ items hmembers]
    exact emitContainer_trailed h
  | map entries =>
    obtain ⟨hroom, hmembers⟩ := trailed_fits h
    rw [emit, if_neg hroom, emitEntries_of_fits p _ entries hmembers]
    exact emitContainer_trailed h

theorem refines_serialize (p : Platform) (buf : View) (v : Value) (mem : Mem) :
    Refines buf [] [] (fun status bv_ => written buf bv_ status) (emit p false buf.size v)
      (serialize p buf v mem) :=
  refines_apply p buf v [] (Holds.nil buf mem)

theorem written_cursor {buf : View} {n : Nat} (hn : 0 < n) (hle : n ≤ buf.size)
    (status : SerializationStatus) :
    written buf (cursor buf n) status = ⟨⟨buf.data, n⟩, status⟩ := by
  have hsize : buf.size - (cursor buf n).size = n := by
    rw [size_cursor]
    omega
  rw [written, hsize, View.subview_zero_of_pos hle hn]

theorem text_pos {p : Platform} {v : Value} (hroot : v.IsContainer) : 0 < (text p v).length := by
  cases v with
  | primitive x => exact hroot.elim
  | struct fields => exact Nat.succ_pos _
  | range items => exact Nat.succ_pos _
  | map entries => exact Nat.succ_pos _

/-- Into a buffer that is long enough a new serializer writes the text of the value, and nothing
else is written or read. -/
theorem serialize_exact (p : Platform) (buf : View) (v : Value) (mem : Mem)
    (hroot : v.IsContainer) (hsize : (text p v).length ≤ buf.size) :
    ∃ mem', serialize p buf v mem =
        some (⟨⟨buf.data, (text p v).length⟩, .ok⟩, ⟨mem', []⟩) ∧
      mem'.load buf.data (text p v).length = text p v := by
  have hrun := refines_serialize p buf v mem
  rw [emit_root_of_fits hroot hsize] at hrun
  obtain ⟨mem', hrun, hmem⟩ := hrun
  rw [List.nil_append] at hmem
  refine ⟨mem', ?_, hmem.load⟩
  rw [hrun, List.length_nil, Nat.zero_add]
  dsimp only
  rw [written_cursor (text_pos hroot) hsize, List.append_nil]

/-- Signed characters, and `1.5` for every double. -/
def onePointFive : Platform where
  charSigned := true
  toChars _ := [0x31, 0x2e, 0x35]
  spill _ _ := []
  length_spill_le _ _ := Nat.zero_le _

/-- `{"a":[1,-2],"b":{},"c":1.5}`. -/
def sample : Value :=
  .struct [([0x61], .range [.primitive (.int 1), .primitive (.int (-2))]), ([0x62], .map []),
    ([0x63], .primitive (.double 0x3ff8000000000000))]

theorem serialize_exact_sample :
    ∃ mem', serialize onePointFive ⟨4096, 27⟩ sample (fun _ => 0) =
        some (⟨⟨4096, 27⟩, .ok⟩, ⟨mem', []⟩) ∧
      mem'.load 4096 27 = text onePointFive sample :=
  serialize_exact onePointFive ⟨4096, 27⟩ sample (fun _ => 0) trivial (by decide)

end Csics.Json
