import Csics.Base.StringLiteral
import Csics.Json.Text

/-!
# Strings in a JSON text

Where `char` is signed, `escape_char` takes a byte of a multi-byte character for a control character
and writes it as `\u00XX`. So the literal of a string has one character for each byte
(`decodesTo_quoted_iff`), which is the string itself exactly if it is ASCII.
-/

namespace Csics.Json

open Base StringLiteral Serialization

section

variable {p : Platform} {c e n : UInt8} {str : List UInt8} {s text value : List Char}

theorem isControl_of_signed (hp : p.charSigned = true) :
    p.isControl c = true ↔ c < 0x20 ∨ 0x80 ≤ c := by
  rw [Platform.isControl, hp, Bool.true_and, Bool.or_eq_true, decide_eq_true_iff,
    decide_eq_true_iff]

/-! ## Bytes -/

theorem hexDigit_lt (hn : n < 0x10) : hexDigit n < 0x80 := by
  obtain ⟨i, hi, rfl⟩ : ∃ i < 16, n = .ofNat i :=
    ⟨n.toNat, UInt8.lt_iff_toNat_lt.mp hn, UInt8.ofNat_toNat.symm⟩
  revert i
  decide

theorem hexDigit?_hexDigit (hn : n < 0x10) :
    hexDigit? (.ofUInt8 (hexDigit n)) = some n.toNat := by
  obtain ⟨i, hi, rfl⟩ : ∃ i < 16, n = .ofNat i :=
    ⟨n.toNat, UInt8.lt_iff_toNat_lt.mp hn, UInt8.ofNat_toNat.symm⟩
  revert i
  decide

theorem toNat_high (c : UInt8) : (c >>> 4).toNat = c.toNat / 16 := by
  rw [UInt8.toNat_shiftRight, Nat.shiftRight_eq_div_pow]
  rfl

theorem toNat_low (c : UInt8) : (c &&& 0xf).toNat = c.toNat % 16 := by
  rw [UInt8.toNat_and]
  exact Nat.and_two_pow_sub_one_eq_mod c.toNat 4

theorem high_lt (c : UInt8) : c >>> 4 < 0x10 := by
  have hlt := c.toNat_lt
  rw [UInt8.lt_iff_toNat_lt, toNat_high]
  show c.toNat / 16 < 16
  omega

theorem low_lt (c : UInt8) : c &&& 0xf < 0x10 := by
  rw [UInt8.lt_iff_toNat_lt, toNat_low]
  exact Nat.mod_lt _ (by decide)

/-- The digits of `\u00XX` are those of the byte. -/
theorem hex4?_longEscape (c : UInt8) :
    hex4? '0' '0' (.ofUInt8 (hexDigit (c >>> 4))) (.ofUInt8 (hexDigit (c &&& 0xf))) =
      some c.toNat := by
  have hzero : hexDigit? '0' = some 0 := by decide
  rw [hex4?, hzero, hexDigit?_hexDigit (high_lt c), hexDigit?_hexDigit (low_lt c), toNat_high,
    toNat_low]
  show some (((0 * 16 + 0) * 16 + c.toNat / 16) * 16 + c.toNat % 16) = some c.toNat
  congr 1
  omega

theorem escape?_shortEscape (h : shortEscape c = some e) :
    e < 0x80 ∧ escape? (.ofUInt8 e) = some (.ofUInt8 c) := by
  unfold shortEscape at h
  split_ifs at h with h1 h2 h3 h4 h5
  all_goals
    cases h
    subst c
    exact ⟨by decide, by decide⟩

theorem longEscape_ascii (c : UInt8) : ∀ b ∈ longEscape c, b < 0x80 := by
  intro b hb
  have hcases : b = backslash ∨ b = 0x75 ∨ b = 0x30 ∨ b = hexDigit (c >>> 4) ∨
      b = hexDigit (c &&& 0xf) := by
    simpa [longEscape] using hb
  rcases hcases with rfl | rfl | rfl | rfl | rfl
  · decide
  · decide
  · decide
  · exact hexDigit_lt (high_lt c)
  · exact hexDigit_lt (low_lt c)

/-- The bytes that stand for themselves are ASCII. -/
theorem lt_of_not_isControl (hp : p.charSigned = true) (hc : ¬ p.isControl c = true) :
    0x20 ≤ c ∧ c < 0x80 := by
  rw [isControl_of_signed hp, not_or] at hc
  exact ⟨UInt8.not_lt.mp hc.1, UInt8.not_le.mp hc.2⟩

theorem escape_ascii (hp : p.charSigned = true) (c : UInt8) : ∀ b ∈ escape p c, b < 0x80 := by
  unfold escape
  split
  · rename_i hc
    intro b hb
    have hcases : b = backslash ∨ b = c := by simpa using hb
    rcases hcases with rfl | rfl
    · decide
    · rcases hc with rfl | rfl
      · decide
      · decide
  · split
    · cases he : shortEscape c with
      | none => exact longEscape_ascii c
      | some e =>
        intro b hb
        have hcases : b = backslash ∨ b = e := by simpa using hb
        rcases hcases with rfl | rfl
        · decide
        · exact (escape?_shortEscape he).1
    · rename_i hc
      intro b hb
      rw [List.mem_singleton.mp hb]
      exact (lt_of_not_isControl hp hc).2

theorem unescaped_ofUInt8 (hge : 0x20 ≤ c) (hc : ¬ (c = backslash ∨ c = quote)) :
    Unescaped (.ofUInt8 c) := by
  have hinj {d : UInt8} (h : Char.ofUInt8 c = .ofUInt8 d) : c = d := by
    have hval : c.toUInt32 = d.toUInt32 := congrArg Char.val h
    rw [← UInt8.toNat_inj, ← UInt8.toNat_toUInt32, hval, UInt8.toNat_toUInt32]
  refine ⟨?_, ?_, ?_⟩
  · show 0x20 ≤ c.toUInt32
    rw [UInt32.le_iff_toNat_le, UInt8.toNat_toUInt32]
    exact UInt8.le_iff_toNat_le.mp hge
  · intro h
    exact hc (Or.inr (hinj (d := quote) h))
  · intro h
    exact hc (Or.inl (hinj (d := backslash) h))

/-- What is written for a byte is one character. -/
theorem chars_escape_byte_iff (hp : p.charSigned = true) (c : UInt8) :
    Chars ((escape p c).map .ofUInt8 ++ text) value ↔
      ∃ v, value = .ofUInt8 c :: v ∧ Chars text v := by
  unfold escape
  split
  · rename_i hc
    rcases hc with rfl | rfl
    · exact chars_escape_iff rfl
    · exact chars_escape_iff rfl
  · rename_i hne
    split
    · cases he : shortEscape c with
      | none =>
        have hofNat : Char.ofUInt8 c = .ofNat c.toNat := by
          rw [← Char.ofNat_toNat (.ofUInt8 c)]
          rfl
        have hlt := c.toNat_lt
        rw [hofNat]
        exact chars_codePoint_iff (hex4?_longEscape c) (by omega)
      | some e => exact chars_escape_iff (escape?_shortEscape he).2
    · rename_i hc
      have hun := unescaped_ofUInt8 (lt_of_not_isControl hp hc).1 hne
      exact (chars_cons_iff hun.2.2).trans (and_iff_right hun)

/-! ## Strings -/

theorem chars_escape_iff_map (hp : p.charSigned = true) (str : List UInt8) (value : List Char) :
    Chars ((str.flatMap (escape p)).map .ofUInt8) value ↔ value = str.map .ofUInt8 := by
  induction str generalizing value with
  | nil => exact chars_nil_iff
  | cons c str ih =>
    rw [List.flatMap_cons, List.map_append, chars_escape_byte_iff hp c, List.map_cons]
    simp only [ih, exists_eq_right]

/-- The literal of a string has one character for each byte. -/
theorem decodesTo_quoted_iff (hp : p.charSigned = true) :
    DecodesTo (quoted p str) s ↔ s = str.map .ofUInt8 := by
  have hascii : ∀ b ∈ quoted p str, b < 0x80 := by
    intro b hb
    rw [quoted, List.mem_append, List.mem_cons, List.mem_singleton, List.mem_flatMap] at hb
    rcases hb with (rfl | ⟨c, -, hc⟩) | rfl
    · decide
    · exact escape_ascii hp c b hc
    · decide
  have htext : ∀ text, utf8 ('"' :: text ++ ['"']) = quoted p str ↔
      text = (str.flatMap (escape p)).map .ofUInt8 := by
    intro text
    have hmap : (quoted p str).map Char.ofUInt8 =
        '"' :: (str.flatMap (escape p)).map .ofUInt8 ++ ['"'] := by
      rw [quoted, List.map_append, List.map_cons]
      rfl
    rw [utf8_eq_iff hascii, hmap, List.append_left_inj, List.cons_inj_right]
  unfold DecodesTo
  simp only [htext, exists_eq_left]
  exact chars_escape_iff_map hp str s

theorem eq_map_utf8_iff : s = (utf8 s).map .ofUInt8 ↔ ∀ c ∈ s, c.val < 0x80 := by
  constructor
  · intro h
    have hlen := congrArg List.length h
    rw [List.length_map] at hlen
    exact ascii_of_length_utf8 hlen.symm
  · intro h
    exact (utf8_eq_iff (utf8_ascii h)).mp rfl

end

/-- With room enough the literal that is written for a string, as a value and as a key, decodes to
the string exactly if the string is ASCII. -/
theorem string_decodes_iff (p : Platform) (hp : p.charSigned = true) (s : List Char) {buf : View}
    {text : List UInt8} {mem : Mem} (stack : List JSONState) (h : Holds buf text mem)
    (hends : EndsIn keyFollows text)
    (hroom : text.length + (quoted p (utf8 s)).length + 1 ≤ buf.size) :
    ∃ literal,
      (∃ mem', (writeString p buf (cursor buf text.length) (utf8 s)).run ⟨mem, stack⟩ =
          some ((.ok, cursor buf (text.length + (literal ++ [comma]).length)), ⟨mem', stack⟩) ∧
        Holds buf (text ++ (literal ++ [comma])) mem') ∧
      (∃ mem', (key p buf (cursor buf text.length) (utf8 s)).run ⟨mem, stack⟩ =
          some ((.ok, cursor buf (text.length + (literal ++ [colon]).length)), ⟨mem', stack⟩) ∧
        Holds buf (text ++ (literal ++ [colon])) mem') ∧
      (DecodesTo literal s ↔ ∀ c ∈ s, c.val < 0x80) := by
  have hsize : ¬ (cursor buf text.length).size < 2 := by
    have hquotes : 2 ≤ (quoted p (utf8 s)).length := by
      rw [quoted, List.length_append, List.length_cons, List.length_singleton]
      omega
    rw [size_cursor]
    omega
  have hlen (c : UInt8) : text.length + (quoted p (utf8 s) ++ [c]).length ≤ buf.size := by
    rwa [List.length_append, List.length_singleton, ← Nat.add_assoc]
  refine ⟨quoted p (utf8 s), ?_, ?_, ?_⟩
  · have happends : Appends buf text _ stack _ _ := appends_string p h (utf8 s)
    rw [Appends, if_pos (hlen comma)] at happends
    rw [writeString, if_neg hsize]
    exact happends
  · have happends : Appends buf text _ stack _ _ := appends_key p h hends (utf8 s)
    rw [Appends, keyText, if_pos (hlen colon)] at happends
    exact happends
  · rw [decodesTo_quoted_iff hp, eq_map_utf8_iff]

/-- `a"\t` behind an opening brace. -/
theorem string_decodes_iff_tab : ∃ literal mem',
    (key onePointFive ⟨4096, 64⟩ (cursor ⟨4096, 64⟩ 1) (utf8 ['a', '"', '\t'])).run
        ⟨fun _ => lbrace, [.object]⟩ =
      some ((.ok, cursor ⟨4096, 64⟩ (1 + (literal ++ [colon]).length)), ⟨mem', [.object]⟩) ∧
      DecodesTo literal ['a', '"', '\t'] := by
  have hinit : Holds ⟨4096, 64⟩ [lbrace] fun _ => lbrace := ⟨by decide, rfl⟩
  obtain ⟨literal, -, ⟨mem', hrun, -⟩, hdecodes⟩ := string_decodes_iff onePointFive rfl
    ['a', '"', '\t'] [.object] hinit ⟨[], lbrace, rfl, by decide⟩ (by decide)
  exact ⟨literal, mem', hrun, hdecodes.mpr (by simp)⟩

/-- `é` is written as `"\u00c3\u00a9"`, which is `Ã©`. -/
theorem not_decodesTo_accent : ∃ mem',
    (writeString onePointFive ⟨4096, 64⟩ ⟨4096, 64⟩ (utf8 ['\u00e9'])).run ⟨fun _ => 0, []⟩ =
      some ((.ok, cursor ⟨4096, 64⟩ 15), ⟨mem', []⟩) ∧
    mem'.load 4096 14 = [0x22, 0x5c, 0x75, 0x30, 0x30, 0x63, 0x33, 0x5c, 0x75, 0x30, 0x30, 0x61,
      0x39, 0x22] ∧
    ¬ DecodesTo (mem'.load 4096 14) ['\u00e9'] := by
  refine ⟨_, rfl, by decide, ?_⟩
  intro h
  have hliteral : DecodesTo (quoted onePointFive (utf8 ['\u00e9'])) ['\u00e9'] := h
  have heq := (decodesTo_quoted_iff rfl).mp hliteral
  revert heq
  decide

end Csics.Json
