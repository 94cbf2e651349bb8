import Mathlib.Data.List.Basic

/-!
# String literals of RFC 8259

`Chars text value`: between two quotation marks `text` is a string literal for `value`, as section 7
of RFC 8259 has it. Characters are Unicode scalar values, and `utf8` is their encoding; so a list of
characters is a valid UTF-8 string. A literal has one value (`chars_cons_iff`, `chars_escape_iff`,
`chars_codePoint_iff` read it from the left).
-/

namespace Csics.Base.StringLiteral

/-! ## UTF-8 -/

def utf8 (s : List Char) : List UInt8 := s.flatMap String.utf8EncodeChar

section

variable {s : List Char} {c : Char} {b : UInt8}

@[simp] theorem utf8_nil : utf8 [] = [] := rfl

@[simp] theorem utf8_cons (c : Char) (s : List Char) :
    utf8 (c :: s) = String.utf8EncodeChar c ++ utf8 s := List.flatMap_cons

theorem utf8EncodeChar_of_ascii (hc : c.val < 0x80) :
    String.utf8EncodeChar c = [c.val.toUInt8] := by
  apply String.utf8EncodeChar_eq_singleton
  rw [Char.utf8Size_eq_one_iff, UInt32.le_iff_toNat_le]
  exact Nat.le_of_lt_succ (UInt32.lt_iff_toNat_lt.mp hc)

theorem length_utf8_ge (s : List Char) : s.length ≤ (utf8 s).length := by
  induction s with
  | nil => exact Nat.le_refl 0
  | cons c s ih =>
    have hpos := c.utf8Size_pos
    rw [utf8_cons, List.length_append, String.length_utf8EncodeChar, List.length_cons]
    omega

/-- A string that has as many bytes as characters is ASCII. -/
theorem ascii_of_length_utf8 (h : (utf8 s).length = s.length) : ∀ c ∈ s, c.val < 0x80 := by
  induction s with
  | nil => exact fun c hc => absurd hc List.not_mem_nil
  | cons c s ih =>
    have hpos := c.utf8Size_pos
    have hge := length_utf8_ge s
    rw [utf8_cons, List.length_append, String.length_utf8EncodeChar, List.length_cons] at h
    have hone : c.utf8Size = 1 := by omega
    rw [Char.utf8Size_eq_one_iff, UInt32.le_iff_toNat_le] at hone
    rw [List.forall_mem_cons]
    refine ⟨UInt32.lt_iff_toNat_lt.mpr (Nat.lt_succ_of_le hone), ih ?_⟩
    omega

theorem utf8_ascii (h : ∀ c ∈ s, c.val < 0x80) : ∀ b ∈ utf8 s, b < 0x80 := by
  intro b hb
  obtain ⟨c, hc, hb⟩ := List.mem_flatMap.mp hb
  have hlt := UInt32.lt_iff_toNat_lt.mp (h c hc)
  rw [show (0x80 : UInt32).toNat = 0x80 from rfl] at hlt
  rw [utf8EncodeChar_of_ascii (h c hc), List.mem_singleton] at hb
  rw [hb, UInt8.lt_iff_toNat_lt, UInt32.toNat_toUInt8]
  show c.val.toNat % 2 ^ 8 < 0x80
  omega

theorem utf8EncodeChar_ofUInt8 (hb : b < 0x80) : String.utf8EncodeChar (.ofUInt8 b) = [b] := by
  have hlt : (Char.ofUInt8 b).val < 0x80 := by
    show b.toUInt32 < 0x80
    rw [UInt32.lt_iff_toNat_lt, UInt8.toNat_toUInt32]
    exact UInt8.lt_iff_toNat_lt.mp hb
  rw [utf8EncodeChar_of_ascii hlt]
  exact congrArg (fun b => [b]) b.toUInt8_toUInt32

/-- A first byte below `0x80` is a character. -/
theorem utf8EncodeChar_head {bs cs : List UInt8} (hb : b < 0x80)
    (h : String.utf8EncodeChar c ++ cs = b :: bs) : c = .ofUInt8 b ∧ cs = bs := by
  have hnat := UInt8.lt_iff_toNat_lt.mp hb
  rw [show (0x80 : UInt8).toNat = 0x80 from rfl] at hnat
  by_cases hc : c.val < 0x80
  · rw [utf8EncodeChar_of_ascii hc] at h
    obtain ⟨rfl, rfl⟩ := List.cons.inj h
    refine ⟨?_, rfl⟩
    apply Char.ext
    show c.val = c.val.toUInt8.toUInt32
    have hlt := UInt32.lt_iff_toNat_lt.mp hc
    rw [show (0x80 : UInt32).toNat = 0x80 from rfl] at hlt
    apply UInt32.toNat_inj.mp
    rw [UInt8.toNat_toUInt32, UInt32.toNat_toUInt8]
    omega
  · -- the first byte of a longer encoding is not below `0x80`
    exfalso
    rw [UInt32.lt_iff_toNat_lt] at hc
    unfold String.utf8EncodeChar at h
    dsimp only at h
    split at h
    · rename_i hle
      exact hc (Nat.lt_succ_of_le hle)
    · have hfirst : ∀ v, 0xc0 ≤ v → v < 0x100 → UInt8.ofNat v ≠ b := by
        rintro v hge hlt rfl
        rw [UInt8.toNat_ofNat'] at hnat
        omega
      split at h
      · exact hfirst _ (by omega) (by omega) (List.cons.inj h).1
      · split at h
        · exact hfirst _ (by omega) (by omega) (List.cons.inj h).1
        · exact hfirst _ (by omega) (by omega) (List.cons.inj h).1

/-- Text that is ASCII is read byte by byte. -/
theorem utf8_eq_iff {bs : List UInt8} (hbs : ∀ b ∈ bs, b < 0x80) :
    utf8 s = bs ↔ s = bs.map .ofUInt8 := by
  induction bs generalizing s with
  | nil =>
    cases s with
    | nil => exact iff_of_true rfl rfl
    | cons c s =>
      refine iff_of_false ?_ (List.cons_ne_nil _ _)
      rw [utf8_cons]
      exact List.append_ne_nil_of_left_ne_nil String.utf8EncodeChar_ne_nil _
  | cons b bs ih =>
    obtain ⟨hb, hbs⟩ := List.forall_mem_cons.mp hbs
    constructor
    · intro h
      cases s with
      | nil => cases h
      | cons c s =>
        rw [utf8_cons] at h
        obtain ⟨rfl, hrest⟩ := utf8EncodeChar_head hb h
        rw [List.map_cons, (ih hbs).mp hrest]
    · rintro rfl
      rw [List.map_cons, utf8_cons, utf8EncodeChar_ofUInt8 hb, (ih hbs).mpr rfl,
        List.singleton_append]

end

/-! ## Literals -/

def hexDigit? (c : Char) : Option Nat :=
  if '0' ≤ c ∧ c ≤ '9' then some (c.toNat - 0x30)
  else if 'a' ≤ c ∧ c ≤ 'f' then some (c.toNat - 0x57)
  else if 'A' ≤ c ∧ c ≤ 'F' then some (c.toNat - 0x37)
  else none

/-- The number of four hexadecimal digits. -/
def hex4? (a b c d : Char) : Option Nat := do
  return (((← hexDigit? a) * 16 + (← hexDigit? b)) * 16 + (← hexDigit? c)) * 16 + (← hexDigit? d)

/-- The two-character escapes. -/
def escape? : Char → Option Char
  | '"' => some '"'
  | '\\' => some '\\'
  | '/' => some '/'
  | 'b' => some '\x08'
  | 'f' => some '\x0c'
  | 'n' => some '\n'
  | 'r' => some '\r'
  | 't' => some '\t'
  | _ => none

/-- `%x20-21 / %x23-5B / %x5D-10FFFF`. -/
def Unescaped (c : Char) : Prop := 0x20 ≤ c.val ∧ c ≠ '"' ∧ c ≠ '\\'

instance (c : Char) : Decidable (Unescaped c) := inferInstanceAs (Decidable (_ ∧ _))

/-- `*char` and its value. -/
inductive Chars : List Char → List Char → Prop where
  | nil : Chars [] []
  | unescaped {c : Char} {text value : List Char} : Unescaped c → Chars text value →
      Chars (c :: text) (c :: value)
  | escape {e c : Char} {text value : List Char} : escape? e = some c → Chars text value →
      Chars ('\\' :: e :: text) (c :: value)
  | codePoint {a b c d : Char} {n : Nat} {text value : List Char} : hex4? a b c d = some n →
      n.isValidChar → Chars text value →
      Chars ('\\' :: 'u' :: a :: b :: c :: d :: text) (.ofNat n :: value)
  | surrogates {a b c d a' b' c' d' : Char} {hi lo : Nat} {text value : List Char} :
      hex4? a b c d = some hi → 0xd800 ≤ hi → hi < 0xdc00 →
      hex4? a' b' c' d' = some lo → 0xdc00 ≤ lo → lo < 0xe000 → Chars text value →
      Chars ('\\' :: 'u' :: a :: b :: c :: d :: '\\' :: 'u' :: a' :: b' :: c' :: d' :: text)
        (.ofNat (0x10000 + (hi - 0xd800) * 0x400 + (lo - 0xdc00)) :: value)

/-- The bytes are a string literal with the value `s`. -/
def DecodesTo (bytes : List UInt8) (s : List Char) : Prop :=
  ∃ text, utf8 ('"' :: text ++ ['"']) = bytes ∧ Chars text s

section

variable {a b c d e : Char} {n : Nat} {text value : List Char}

theorem chars_nil_iff : Chars [] value ↔ value = [] := by
  constructor
  · intro h
    cases h
    rfl
  · rintro rfl
    exact .nil

theorem chars_cons_iff (hc : c ≠ '\\') :
    Chars (c :: text) value ↔ Unescaped c ∧ ∃ v, value = c :: v ∧ Chars text v := by
  constructor
  · intro h
    cases h with
    | unescaped hc h => exact ⟨hc, _, rfl, h⟩
    | escape => exact absurd rfl hc
    | codePoint => exact absurd rfl hc
    | surrogates => exact absurd rfl hc
  · rintro ⟨hc, v, rfl, h⟩
    exact .unescaped hc h

theorem not_unescaped_backslash : ¬ Unescaped '\\' := fun h => h.2.2 rfl

theorem chars_escape_iff (he : escape? e = some c) :
    Chars ('\\' :: e :: text) value ↔ ∃ v, value = c :: v ∧ Chars text v := by
  constructor
  · intro h
    cases h with
    | unescaped hc => exact absurd hc not_unescaped_backslash
    | escape he' h =>
      rw [he] at he'
      cases he'
      exact ⟨_, rfl, h⟩
    | codePoint => cases he
    | surrogates => cases he
  · rintro ⟨v, rfl, h⟩
    exact .escape he h

theorem chars_codePoint_iff (hn : hex4? a b c d = some n) (hlt : n < 0xd800) :
    Chars ('\\' :: 'u' :: a :: b :: c :: d :: text) value ↔
      ∃ v, value = .ofNat n :: v ∧ Chars text v := by
  constructor
  · intro h
    cases h with
    | unescaped hc => exact absurd hc not_unescaped_backslash
    | escape he => cases he
    | codePoint hn' _ h =>
      rw [hn] at hn'
      cases hn'
      exact ⟨_, rfl, h⟩
    | surrogates hn' hge =>
      rw [hn] at hn'
      cases hn'
      omega
  · rintro ⟨v, rfl, h⟩
    exact .codePoint hn (Or.inl hlt) h

end

end Csics.Base.StringLiteral
