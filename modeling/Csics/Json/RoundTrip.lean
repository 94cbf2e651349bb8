import Csics.Base.Json
import Csics.Json.Strings

/-!
# What a JSON text says

The serializer against a reader of RFC 8259: what is written for a tree of values is read back to the
tree. A string has one character for each of its bytes, as in `decodesTo_quoted_iff`, and a double is
read to what its shortest text says; infinities and NaN have no such text.
-/

namespace Csics.Json

open Base StringLiteral Serialization
open Base.Json (Decimal Doc Reads Takes readNumber readMember readValue)

/-- Bytes as characters. -/
def chars (bs : List UInt8) : List Char := bs.map .ofUInt8

section

variable (dec : UInt64 → Decimal)

/-! ## The document of a value -/

/-- Doubles are read by `dec`. -/
def Primitive.document : Primitive → Doc
  | .null => .null
  | .bool value => .bool value
  | .int num => .number ⟨num.toInt, 0⟩
  | .double num => .number (dec num)
  | .string str => .string (chars str)

mutual

def document : Value → Doc
  | .primitive x => x.document dec
  | .struct fields => .object (members fields)
  | .range items => .array (documents items)
  | .map entries => .object (members entries)

/-- Of fields, and of the entries of a map. -/
def members : List (List UInt8 × Value) → List (List Char × Doc)
  | [] => []
  | (name, field) :: fields => (chars name, document field) :: members fields

def documents : List Value → List Doc
  | [] => []
  | item :: items => document item :: documents items

end

mutual

/-- The doubles in a value. -/
def doubles : Value → List UInt64
  | .primitive (.double num) => [num]
  | .primitive _ => []
  | .struct fields => fieldDoubles fields
  | .range items => itemDoubles items
  | .map entries => fieldDoubles entries

def fieldDoubles : List (List UInt8 × Value) → List UInt64
  | [] => []
  | (_, field) :: fields => doubles field ++ fieldDoubles fields

def itemDoubles : List Value → List UInt64
  | [] => []
  | item :: items => doubles item ++ itemDoubles items

end

theorem fieldTexts_eq_map (p : Platform) (fields : List (List UInt8 × Value)) :
    fieldTexts p fields = fields.map fun f => keyText p f.1 ++ text p f.2 := by
  induction fields with
  | nil => rfl
  | cons f fields ih => rw [fieldTexts, ih, List.map_cons]

theorem itemTexts_eq_map (p : Platform) (items : List Value) :
    itemTexts p items = items.map (text p) := by
  induction items with
  | nil => rfl
  | cons item items ih => rw [itemTexts, ih, List.map_cons]

theorem members_eq_map (fields : List (List UInt8 × Value)) :
    members dec fields = fields.map fun f => (chars f.1, document dec f.2) := by
  induction fields with
  | nil => rfl
  | cons f fields ih => rw [members, ih, List.map_cons]

theorem documents_eq_map (items : List Value) : documents dec items = items.map (document dec) := by
  induction items with
  | nil => rfl
  | cons item items ih => rw [documents, ih, List.map_cons]

end

/-! ## Tokens -/

section

variable {p : Platform} {n : Nat} {bs : List UInt8} {doc : Doc} {dec : UInt64 → Decimal}

/-- The bytes are ASCII, and say `doc`. -/
structure Denotes (n : Nat) (bs : List UInt8) (doc : Doc) : Prop where
  ascii : ∀ b ∈ bs, b < 0x80
  reads : Reads n (chars bs) doc

theorem lt_of_isNumberChar {c : Char} (h : Base.Json.isNumberChar c = true) : c.val < 0x80 := by
  have hcases : ((((c.isDigit ∨ c = '-') ∨ c = '+') ∨ c = '.') ∨ c = 'e') ∨ c = 'E' := by
    simpa [Base.Json.isNumberChar] using h
  rcases hcases with ((((hdigit | rfl) | rfl) | rfl) | rfl) | rfl
  · have hle : c.val ≤ 57 := by
      simp only [Char.isDigit, Bool.and_eq_true, decide_eq_true_iff] at hdigit
      exact hdigit.2
    rw [UInt32.le_iff_toNat_le] at hle
    exact UInt32.lt_iff_toNat_lt.mpr (Nat.lt_of_le_of_lt hle (by decide))
  all_goals decide

theorem ofUInt8_ascii {b : UInt8} (h : (Char.ofUInt8 b).val < 0x80) : b < 0x80 := by
  rw [UInt8.lt_iff_toNat_lt, ← UInt8.toNat_toUInt32]
  exact UInt32.lt_iff_toNat_lt.mp h

theorem denotes_number {value : Decimal} (h : readNumber (chars bs) = some value) :
    Denotes (n + 1) bs (.number value) where
  ascii _ hb := ofUInt8_ascii (lt_of_isNumberChar
    (Base.Json.isNumberChar_of_readNumber h _ (List.mem_map_of_mem hb)))
  reads := Base.Json.reads_number n h

theorem ofUInt8_ofNat {c : Char} (h : c.val < 0x80) : Char.ofUInt8 (.ofNat c.toNat) = c := by
  have hlt : c.toNat < 0x80 := UInt32.lt_iff_toNat_lt.mp h
  apply Char.ext
  show (UInt8.ofNat c.toNat).toUInt32 = c.val
  rw [← UInt32.toNat_inj, UInt8.toNat_toUInt32, UInt8.toNat_ofNat', Nat.mod_eq_of_lt (by omega)]
  rfl

/-- The digits of `%ld`. -/
theorem chars_decimal (num : Int) :
    chars (decimal num) = (if num < 0 then ['-'] else []) ++ Nat.toDigits 10 num.natAbs := by
  have hdigits : (Nat.toDigits 10 num.natAbs).map (fun digit => Char.ofUInt8 (.ofNat digit.toNat)) =
      Nat.toDigits 10 num.natAbs := by
    rw [List.map_congr_left (g := id), List.map_id]
    intro c hc
    have hdigit := Nat.isDigit_of_mem_toDigits (by decide) (by decide) hc
    exact ofUInt8_ofNat (lt_of_isNumberChar (by simp [Base.Json.isNumberChar, hdigit]))
  rw [chars, decimal, List.map_append, List.map_map]
  congr 1
  split
  · rfl
  · rfl

theorem quoted_ascii (hp : p.charSigned = true) (str : List UInt8) :
    ∀ b ∈ quoted p str, b < 0x80 := by
  intro b hb
  rw [quoted, List.mem_append, List.mem_cons, List.mem_singleton, List.mem_flatMap] at hb
  rcases hb with (rfl | ⟨c, -, hc⟩) | rfl
  · decide
  · exact escape_ascii hp c b hc
  · decide

/-- The literal of a string has one character for each byte. -/
theorem chars_quoted (hp : p.charSigned = true) (str : List UInt8) :
    ∃ text, chars (quoted p str) = '"' :: text ++ ['"'] ∧ Chars text (chars str) := by
  refine ⟨(str.flatMap (escape p)).map .ofUInt8, ?_, (chars_escape_iff_map hp str _).mpr rfl⟩
  rw [chars, quoted, List.map_append, List.map_cons]
  rfl

theorem denotes_primitive (hp : p.charSigned = true) (x : Primitive)
    (hdouble : ∀ num ∈ doubles (.primitive x), readNumber (chars (p.toChars num)) = some (dec num)) :
    Denotes (n + 1) (token p x) (x.document dec) := by
  cases x with
  | null => exact ⟨by simp [token, nullStr], Base.Json.reads_null n⟩
  | bool value =>
    cases value with
    | true => exact ⟨by simp [token, trueStr], Base.Json.reads_true n⟩
    | false => exact ⟨by simp [token, falseStr], Base.Json.reads_false n⟩
  | int num =>
    have hread := Base.Json.readNumber_toDigits num.toInt
    rw [← chars_decimal] at hread
    exact denotes_number hread
  | double num => exact denotes_number (hdouble num List.mem_cons_self)
  | string str =>
    obtain ⟨text, hquoted, hchars⟩ := chars_quoted hp str
    refine ⟨quoted_ascii hp str, ?_⟩
    rw [token, hquoted]
    exact Base.Json.reads_string n hchars

/-! ## Trees -/

theorem enclosed_ascii {opening closing : UInt8} {texts : List (List UInt8)} (ho : opening < 0x80)
    (hc : closing < 0x80) (h : ∀ t ∈ texts, ∀ b ∈ t, b < 0x80) :
    ∀ b ∈ enclosed opening closing texts, b < 0x80 := by
  rw [enclosed, List.forall_mem_append, List.forall_mem_cons, List.forall_mem_singleton]
  exact ⟨⟨ho, Base.Json.forall_mem_intercalate (by simp [comma]) h⟩, hc⟩

theorem chars_enclosed (opening closing : UInt8) (texts : List (List UInt8)) :
    chars (enclosed opening closing texts) =
      .ofUInt8 opening :: [','].intercalate (texts.map chars) ++ [.ofUInt8 closing] := by
  have hmap := Base.Json.map_intercalate Char.ofUInt8 [comma] texts
  rw [chars, enclosed, List.map_append, List.map_cons, hmap]
  rfl

/-- A text that stands between brackets has a level less. -/
theorem length_lt_of_mem {t : List UInt8} {texts : List (List UInt8)} {opening closing : UInt8}
    (ht : t ∈ texts) (h : (enclosed opening closing texts).length ≤ n + 1) : t.length ≤ n := by
  have hle : t.length ≤ ([comma].intercalate texts).length :=
    Base.Json.length_le_of_mem_intercalate ht
  rw [length_enclosed] at h
  omega

theorem denotes_range {items : List Value}
    (h : ∀ item ∈ items, Denotes n (text p item) (document dec item)) :
    Denotes (n + 1) (text p (.range items)) (document dec (.range items)) := by
  rw [text, document, itemTexts_eq_map, documents_eq_map]
  refine ⟨enclosed_ascii (by decide) (by decide) ?_, ?_⟩
  · exact List.forall_mem_map.mpr fun item hitem => (h item hitem).ascii
  · have harray := Base.Json.reads_array (n := n)
      (items.map fun item => (chars (text p item), document dec item))
      (List.forall_mem_map.mpr fun item hitem => (h item hitem).reads)
    rw [List.map_map, List.map_map] at harray
    rw [chars_enclosed, List.map_map]
    exact harray

/-- A struct, or a map. -/
theorem denotes_object (hp : p.charSigned = true) {fields : List (List UInt8 × Value)}
    (h : ∀ f ∈ fields, Denotes n (text p f.2) (document dec f.2)) :
    Denotes (n + 1) (enclosed lbrace rbrace (fieldTexts p fields))
      (.object (members dec fields)) := by
  rw [fieldTexts_eq_map, members_eq_map]
  refine ⟨enclosed_ascii (by decide) (by decide) ?_, ?_⟩
  · refine List.forall_mem_map.mpr fun f hf => ?_
    rw [keyText, List.forall_mem_append, List.forall_mem_append]
    exact ⟨⟨quoted_ascii hp f.1, by simp [colon]⟩, (h f hf).ascii⟩
  · have hmember : ∀ f ∈ fields, Takes (readMember (readValue n))
        (chars (keyText p f.1 ++ text p f.2)) (chars f.1, document dec f.2) := by
      intro f hf
      obtain ⟨value, hquoted, hchars⟩ := chars_quoted hp f.1
      have htakes := Base.Json.takes_member hchars (h f hf).reads
      have hkey : chars (keyText p f.1 ++ text p f.2) =
          '"' :: value ++ '"' :: ':' :: chars (text p f.2) := by
        rw [chars, keyText, List.map_append, List.map_append, ← chars, hquoted]
        simp only [List.append_assoc]
        rfl
      rw [hkey]
      exact htakes
    have hobject := Base.Json.reads_object (n := n)
      (fields.map fun f =>
        (chars (keyText p f.1 ++ text p f.2), (chars f.1, document dec f.2)))
      (List.forall_mem_map.mpr hmember)
    rw [List.map_map, List.map_map] at hobject
    rw [chars_enclosed, List.map_map]
    exact hobject

/-- No value is empty. -/
theorem Denotes.ne_nil (h : Denotes (n + 1) bs doc) (hbs : bs = []) : False := by
  subst hbs
  have hread : readValue (n + 1) [] = some (doc, []) := h.reads [] (by simp [Base.Json.Ends])
  cases hread

mutual

theorem denotes_text (hp : p.charSigned = true) (v : Value) {n : Nat}
    (hn : (text p v).length ≤ n)
    (hdouble : ∀ num ∈ doubles v, readNumber (chars (p.toChars num)) = some (dec num)) :
    Denotes n (text p v) (document dec v) := by
  cases v with
  | primitive x =>
    have hne := (denotes_primitive (n := 0) hp x hdouble).ne_nil
    cases n with
    | zero => exact (hne (List.eq_nil_of_length_eq_zero (Nat.le_zero.mp hn))).elim
    | succ n => exact denotes_primitive hp x hdouble
  | struct fields =>
    cases n with
    | zero => cases hn
    | succ n =>
      refine denotes_object hp (denotes_fieldTexts hp fields ?_ hdouble)
      exact fun t ht => length_lt_of_mem ht hn
  | range items =>
    cases n with
    | zero => cases hn
    | succ n =>
      refine denotes_range (denotes_itemTexts hp items ?_ hdouble)
      exact fun t ht => length_lt_of_mem ht hn
  | map entries =>
    cases n with
    | zero => cases hn
    | succ n =>
      refine denotes_object hp (denotes_fieldTexts hp entries ?_ hdouble)
      exact fun t ht => length_lt_of_mem ht hn

theorem denotes_fieldTexts (hp : p.charSigned = true) (fields : List (List UInt8 × Value)) {n : Nat}
    (hn : ∀ t ∈ fieldTexts p fields, t.length ≤ n)
    (hdouble : ∀ num ∈ fieldDoubles fields, readNumber (chars (p.toChars num)) = some (dec num)) :
    ∀ f ∈ fields, Denotes n (text p f.2) (document dec f.2) := by
  cases fields with
  | nil => nofun
  | cons f fields =>
    obtain ⟨name, field⟩ := f
    rw [fieldTexts] at hn
    obtain ⟨hfield, hfields⟩ := List.forall_mem_cons.mp hn
    obtain ⟨hd, hds⟩ := List.forall_mem_append.mp hdouble
    rw [List.length_append] at hfield
    refine List.forall_mem_cons.mpr ⟨?_, denotes_fieldTexts hp fields hfields hds⟩
    exact denotes_text hp field (Nat.le_of_add_left_le hfield) hd

theorem denotes_itemTexts (hp : p.charSigned = true) (items : List Value) {n : Nat}
    (hn : ∀ t ∈ itemTexts p items, t.length ≤ n)
    (hdouble : ∀ num ∈ itemDoubles items, readNumber (chars (p.toChars num)) = some (dec num)) :
    ∀ item ∈ items, Denotes n (text p item) (document dec item) := by
  cases items with
  | nil => nofun
  | cons item items =>
    rw [itemTexts] at hn
    obtain ⟨hitem, hitems⟩ := List.forall_mem_cons.mp hn
    obtain ⟨hd, hds⟩ := List.forall_mem_append.mp hdouble
    refine List.forall_mem_cons.mpr ⟨?_, denotes_itemTexts hp items hitems hds⟩
    exact denotes_text hp item hitem hd

end

/-! ## The serializer -/

end

end Csics.Json
