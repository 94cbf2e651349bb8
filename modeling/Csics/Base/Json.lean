import Mathlib.Data.List.TakeDrop
import Mathlib.Data.List.TakeWhile
import Csics.Base.StringLiteral

/-!
# Reading JSON

A reader for the grammar of RFC 8259. `readValue n` reads a value of at most `n` levels from the
front of a text and returns what is behind it; `read` takes a whole text. A number is read to its
decimal value, so that `1.50` is `150` times ten to the power of `-2`, and a string by the escapes of
section 7.

`Reads n text doc` says that `readValue n` reads `text` to `doc`, whatever follows. Its rules
(`reads_number`, `reads_string`, `reads_array`, `reads_object`) put a text together from the texts of
its parts. A writer that has no spaces is verified with them alone.
-/

namespace Csics.Base.Json

open StringLiteral

/-! ## Documents -/

/-- `mantissa` times ten to the power of `exponent`. -/
structure Decimal where
  mantissa : Int
  exponent : Int
  deriving DecidableEq, Repr

inductive Doc where
  | null
  | bool (value : Bool)
  | number (value : Decimal)
  | string (value : List Char)
  | array (items : List Doc)
  | object (members : List (List Char × Doc))

/-! ## Numbers -/

/-- The characters of numbers. -/
def isNumberChar (c : Char) : Bool :=
  c.isDigit || c == '-' || c == '+' || c == '.' || c == 'e' || c == 'E'

/-- The sign at the front. -/
def readMinus : List Char → Bool × List Char
  | '-' :: cs => (true, cs)
  | cs => (false, cs)

/-- `int`: no zero at the front but `0` itself. -/
def readInt (cs : List Char) : Option (List Char × List Char) :=
  match cs.span Char.isDigit with
  | ([], _) => none
  | ('0' :: _ :: _, _) => none
  | (digits, rest) => some (digits, rest)

/-- `[ frac ]`. -/
def readFrac : List Char → Option (List Char × List Char)
  | '.' :: cs =>
    match cs.span Char.isDigit with
    | ([], _) => none
    | (digits, rest) => some (digits, rest)
  | cs => some ([], cs)

def readSign : List Char → Bool × List Char
  | '+' :: cs => (false, cs)
  | cs => readMinus cs

/-- `[ exp ]`, at the end of the text. -/
def readExp : List Char → Option Int
  | [] => some 0
  | c :: cs =>
    if c = 'e' ∨ c = 'E' then
      match (readSign cs).2.span Char.isDigit with
      | ([], _) => none
      | (digits, []) =>
        let n : Int := Nat.ofDigitChars 10 digits 0
        some (if (readSign cs).1 then -n else n)
      | (_, _ :: _) => none
    else none

/-- `number`. -/
def readNumber (cs : List Char) : Option Decimal := do
  let (minus, cs) := readMinus cs
  let (int, cs) ← readInt cs
  let (frac, cs) ← readFrac cs
  let exp ← readExp cs
  let n : Int := Nat.ofDigitChars 10 (int ++ frac) 0
  return ⟨if minus then -n else n, exp - frac.length⟩

/-! ## Strings -/

/-- The second half of a surrogate pair. -/
def readLow (hi : Nat) : List Char → Option (Char × List Char)
  | '\\' :: 'u' :: a :: b :: c :: d :: cs => do
    let lo ← hex4? a b c d
    if 0xdc00 ≤ lo ∧ lo < 0xe000 then
      some (.ofNat (0x10000 + (hi - 0xd800) * 0x400 + (lo - 0xdc00)), cs)
    else none
  | _ => none

/-- What follows a backslash. -/
def readEscape : List Char → Option (Char × List Char)
  | 'u' :: a :: b :: c :: d :: cs => do
    let n ← hex4? a b c d
    if n.isValidChar then some (.ofNat n, cs)
    else if n < 0xdc00 then readLow n cs
    else none
  | e :: cs => (escape? e).map fun c => (c, cs)
  | [] => none

/-- The characters of a string up to its closing quotation mark. The number bounds the text. -/
def readChars : Nat → List Char → Option (List Char × List Char)
  | 0, _ => none
  | _ + 1, [] => none
  | n + 1, c :: cs =>
    if c = '"' then some ([], cs)
    else if c = '\\' then
      (readEscape cs).bind fun (c, cs) => (readChars n cs).map fun (value, rest) => (c :: value, rest)
    else if Unescaped c then (readChars n cs).map fun (value, rest) => (c :: value, rest)
    else none

/-! ## Values -/

def isSpace (c : Char) : Bool := c == ' ' || c == '\t' || c == '\n' || c == '\r'

def skipSpace (cs : List Char) : List Char := cs.dropWhile isSpace

section

variable {α : Type*} (part : List Char → Option (α × List Char)) (closing : Char)

/-- Parts with commas between them, up to the closing bracket. -/
def readParts : Nat → List Char → Option (List α × List Char)
  | 0, _ => none
  | n + 1, cs =>
    (part cs).bind fun (x, cs) =>
      match skipSpace cs with
      | c :: cs =>
        if c = ',' then (readParts n cs).map fun (xs, rest) => (x :: xs, rest)
        else if c = closing then some ([x], cs)
        else none
      | [] => none

/-- What follows an opening bracket. -/
def readEnclosed (cs : List Char) : Option (List α × List Char) :=
  match skipSpace cs with
  | [] => none
  | c :: rest => if c = closing then some ([], rest) else readParts part closing cs.length cs

end

/-- A member of an object, by the reader of values. -/
def readMember (value : List Char → Option (Doc × List Char)) (cs : List Char) :
    Option ((List Char × Doc) × List Char) :=
  match skipSpace cs with
  | '"' :: cs =>
    (readChars cs.length cs).bind fun (name, cs) =>
      match skipSpace cs with
      | ':' :: cs => (value cs).map fun (doc, rest) => ((name, doc), rest)
      | _ => none
  | _ => none

/-- A value of at most so many levels, and the text behind it. -/
def readValue : Nat → List Char → Option (Doc × List Char)
  | 0, _ => none
  | n + 1, cs =>
    match skipSpace cs with
    | '\x7b' :: cs =>
      (readEnclosed (readMember (readValue n)) '\x7d' cs).map fun (ms, rest) => (.object ms, rest)
    | '[' :: cs => (readEnclosed (readValue n) ']' cs).map fun (xs, rest) => (.array xs, rest)
    | '"' :: cs => (readChars cs.length cs).map fun (value, rest) => (.string value, rest)
    | 't' :: 'r' :: 'u' :: 'e' :: cs => some (.bool true, cs)
    | 'f' :: 'a' :: 'l' :: 's' :: 'e' :: cs => some (.bool false, cs)
    | 'n' :: 'u' :: 'l' :: 'l' :: cs => some (.null, cs)
    | cs =>
      let (token, rest) := cs.span isNumberChar
      (readNumber token).map fun value => (.number value, rest)

/-- `JSON-text`. -/
def read (cs : List Char) : Option Doc :=
  (readValue cs.length cs).bind fun (doc, rest) => if skipSpace rest = [] then some doc else none

/-! ## What a number takes -/

section

variable {cs rest text value name : List Char} {n : Nat}

theorem span_append {p : Char → Bool} {xs ys : List Char} (hx : ∀ c ∈ xs, p c = true)
    (hy : ∀ c ∈ ys.head?, p c = false) : (xs ++ ys).span p = (xs, ys) := by
  rw [List.span_eq_takeWhile_dropWhile, List.takeWhile_append_of_pos hx,
    List.dropWhile_append_of_pos hx]
  cases ys with
  | nil => rw [List.takeWhile_nil, List.dropWhile_nil, List.append_nil]
  | cons y ys =>
    have hy := hy y rfl
    rw [List.takeWhile_cons_of_neg (by simp [hy]), List.dropWhile_cons_of_neg (by simp [hy]),
      List.append_nil]

/-- What is behind some characters of a number. -/
def Behind (cs rest : List Char) : Prop :=
  ∃ taken, cs = taken ++ rest ∧ ∀ c ∈ taken, isNumberChar c = true

theorem Behind.refl (cs : List Char) : Behind cs cs := ⟨[], rfl, nofun⟩

theorem Behind.cons {c : Char} (hc : isNumberChar c = true) (h : Behind cs rest) :
    Behind (c :: cs) rest := by
  obtain ⟨taken, rfl, htaken⟩ := h
  exact ⟨c :: taken, rfl, List.forall_mem_cons.mpr ⟨hc, htaken⟩⟩

theorem Behind.trans {mid : List Char} (h : Behind cs mid) (h' : Behind mid rest) :
    Behind cs rest := by
  obtain ⟨taken, rfl, htaken⟩ := h
  obtain ⟨taken', rfl, htaken'⟩ := h'
  refine ⟨taken ++ taken', (List.append_assoc _ _ _).symm, ?_⟩
  exact List.forall_mem_append.mpr ⟨htaken, htaken'⟩

theorem behind_span {digits : List Char} (h : cs.span Char.isDigit = (digits, rest)) :
    Behind cs rest := by
  rw [List.span_eq_takeWhile_dropWhile] at h
  cases h
  refine ⟨_, (List.takeWhile_append_dropWhile).symm, ?_⟩
  intro c hc
  have hdigit := List.mem_takeWhile_imp hc
  simp [isNumberChar, hdigit]

theorem behind_readMinus (cs : List Char) : Behind cs (readMinus cs).2 := by
  unfold readMinus
  split
  · exact (Behind.refl _).cons rfl
  · exact .refl _

theorem behind_readInt {digits : List Char} (h : readInt cs = some (digits, rest)) :
    Behind cs rest := by
  unfold readInt at h
  split at h
  · cases h
  · cases h
  · rename_i hspan
    cases h
    exact behind_span hspan

theorem behind_readFrac {digits : List Char} (h : readFrac cs = some (digits, rest)) :
    Behind cs rest := by
  unfold readFrac at h
  split at h
  · split at h
    · cases h
    · rename_i hspan
      cases h
      exact (behind_span hspan).cons rfl
  · cases h
    exact .refl _

theorem behind_readExp {e : Int} (h : readExp cs = some e) : Behind cs [] := by
  unfold readExp at h
  split at h
  · exact .refl _
  · rename_i c cs
    split at h
    · rename_i hc
      have hsign : Behind cs (readSign cs).2 := by
        unfold readSign
        split
        · exact (Behind.refl _).cons rfl
        · exact behind_readMinus _
      split at h
      · cases h
      · rename_i hspan
        refine (hsign.trans (behind_span hspan)).cons ?_
        rcases hc with rfl | rfl <;> rfl
      · cases h
    · cases h

/-- A text that is read to a number consists of characters of numbers. -/
theorem isNumberChar_of_readNumber {value : Decimal} (h : readNumber text = some value) :
    ∀ c ∈ text, isNumberChar c = true := by
  simp only [readNumber, Option.bind_eq_bind, Option.bind_eq_some_iff] at h
  obtain ⟨⟨int, cs⟩, hint, ⟨frac, cs'⟩, hfrac, exp, hexp, -⟩ := h
  obtain ⟨taken, htaken, hchars⟩ := (behind_readMinus text).trans
    ((behind_readInt hint).trans ((behind_readFrac hfrac).trans (behind_readExp hexp)))
  rw [htaken, List.append_nil]
  exact hchars

/-! ## Integers -/

/-- A number other than zero does not begin with the digit zero. -/
theorem head_toDigits_ne (h : n ≠ 0) : ∃ d ds, Nat.toDigits 10 n = d :: ds ∧ d ≠ '0' := by
  induction n using Nat.strongRecOn with
  | _ n ih =>
    rcases Nat.lt_or_ge n 10 with hlt | hge
    · have hdigit : ∀ n < 10, n ≠ 0 → Nat.digitChar n ≠ '0' := by decide
      exact ⟨n.digitChar, [], Nat.toDigits_of_lt_base hlt, hdigit n hlt h⟩
    · obtain ⟨d, ds, hdigits, hne⟩ := ih (n / 10) (by omega) (by omega)
      refine ⟨d, ds ++ [(n % 10).digitChar], ?_, hne⟩
      rw [Nat.toDigits_of_base_le (by omega) hge, hdigits, List.cons_append]

theorem readInt_toDigits (n : Nat) :
    readInt (Nat.toDigits 10 n) = some (Nat.toDigits 10 n, []) := by
  have hspan : (Nat.toDigits 10 n).span Char.isDigit = (Nat.toDigits 10 n, []) := by
    have happend : (Nat.toDigits 10 n ++ []).span Char.isDigit = (Nat.toDigits 10 n, []) :=
      span_append (fun c hc => Nat.isDigit_of_mem_toDigits (by omega) (by omega) hc) (by simp)
    rwa [List.append_nil] at happend
  rw [readInt, hspan]
  rcases Nat.eq_zero_or_pos n with rfl | hpos
  · rfl
  · obtain ⟨d, ds, hdigits, hne⟩ := head_toDigits_ne (Nat.ne_of_gt hpos)
    rw [hdigits]
    split
    · rename_i heq
      cases heq
    · rename_i heq
      cases heq
      exact absurd rfl hne
    · rename_i heq
      cases heq
      rfl

/-- The digits of an integer are read to it. -/
theorem readNumber_toDigits (i : Int) :
    readNumber ((if i < 0 then ['-'] else []) ++ Nat.toDigits 10 i.natAbs) = some ⟨i, 0⟩ := by
  have hdigits := Nat.ofDigitChars_ten_toDigits (n := i.natAbs)
  by_cases hi : i < 0
  · rw [if_pos hi, List.singleton_append]
    simp only [readNumber, readMinus, readInt_toDigits, Option.bind_eq_bind, Option.bind_some,
      readFrac, readExp, List.append_nil, hdigits]
    simp only [if_true, List.length_nil]
    congr 2
    omega
  · have hminus : readMinus (Nat.toDigits 10 i.natAbs) = (false, Nat.toDigits 10 i.natAbs) := by
      unfold readMinus
      split
      · rename_i heq
        have hd := Nat.isDigit_of_mem_toDigits (b := 10) (n := i.natAbs) (by omega) (by omega)
          (heq ▸ List.mem_cons_self)
        exact absurd hd (by decide)
      · rfl
    rw [if_neg hi, List.nil_append]
    simp only [readNumber, hminus, readInt_toDigits, Option.bind_eq_bind, Option.bind_some,
      readFrac, readExp, List.append_nil, hdigits]
    simp only [Bool.false_eq_true, if_false, List.length_nil]
    congr 2
    omega

/-! ## Strings -/

theorem readEscape_of_ne {e : Char} (h : e ≠ 'u') :
    readEscape (e :: cs) = (escape? e).map fun c => (c, cs) := by
  unfold readEscape
  split
  · rename_i heq
    exact absurd (List.cons.inj heq).1 h
  · rename_i heq
    obtain ⟨rfl, rfl⟩ := List.cons.inj heq
    rfl
  · rename_i heq
    cases heq

/-- A literal is read to its value. -/
theorem readChars_of_chars (h : Chars text value) (hn : text.length < n) (rest : List Char) :
    readChars n (text ++ '"' :: rest) = some (value, rest) := by
  induction h generalizing n with
  | nil =>
    obtain ⟨n, rfl⟩ := Nat.exists_eq_succ_of_ne_zero (Nat.ne_zero_of_lt hn)
    rfl
  | @unescaped c text value hc _ ih =>
    obtain ⟨n, rfl⟩ := Nat.exists_eq_succ_of_ne_zero (Nat.ne_zero_of_lt hn)
    rw [List.length_cons] at hn
    rw [List.cons_append, readChars, if_neg hc.2.1, if_neg hc.2.2, if_pos hc, ih (by omega)]
    rfl
  | @escape e c text value he _ ih =>
    obtain ⟨n, rfl⟩ := Nat.exists_eq_succ_of_ne_zero (Nat.ne_zero_of_lt hn)
    rw [List.length_cons, List.length_cons] at hn
    have hu : e ≠ 'u' := by
      rintro rfl
      cases he
    have hescape : readEscape (e :: (text ++ '"' :: rest)) = some (c, text ++ '"' :: rest) := by
      rw [readEscape_of_ne hu, he]
      rfl
    rw [List.cons_append, List.cons_append, readChars, if_neg (by decide), if_pos rfl, hescape,
      Option.bind_some]
    simp only [ih (Nat.lt_of_succ_lt (Nat.lt_of_succ_lt_succ hn)), Option.map_some]
  | @codePoint a b c d k text value hk hvalid _ ih =>
    obtain ⟨n, rfl⟩ := Nat.exists_eq_succ_of_ne_zero (Nat.ne_zero_of_lt hn)
    simp only [List.length_cons] at hn
    have hescape : readEscape ('u' :: a :: b :: c :: d :: (text ++ '"' :: rest)) =
        some (.ofNat k, text ++ '"' :: rest) := by
      simp only [readEscape, hk, Option.bind_eq_bind, Option.bind_some, if_pos hvalid]
    simp only [List.cons_append]
    rw [readChars, if_neg (by decide), if_pos rfl, hescape, Option.bind_some]
    simp only [ih (show text.length < n by omega), Option.map_some]
  | @surrogates a b c d a' b' c' d' hi lo text value hhi hge hlt hlo hge' hlt' _ ih =>
    obtain ⟨n, rfl⟩ := Nat.exists_eq_succ_of_ne_zero (Nat.ne_zero_of_lt hn)
    simp only [List.length_cons] at hn
    have hvalid : ¬ hi.isValidChar := by
      unfold Nat.isValidChar
      omega
    have hescape : readEscape ('u' :: a :: b :: c :: d :: '\\' :: 'u' :: a' :: b' :: c' :: d' ::
          (text ++ '"' :: rest)) =
        some (.ofNat (0x10000 + (hi - 0xd800) * 0x400 + (lo - 0xdc00)), text ++ '"' :: rest) := by
      simp only [readEscape, hhi, Option.bind_eq_bind, Option.bind_some, if_neg hvalid, if_pos hlt,
        readLow, hlo, if_pos (And.intro hge' hlt')]
    simp only [List.cons_append]
    rw [readChars, if_neg (by decide), if_pos rfl, hescape, Option.bind_some]
    simp only [ih (show text.length < n by omega), Option.map_some]

/-! ## Parts -/

/-- No number goes on behind its text. -/
def Ends (rest : List Char) : Prop := ∀ c ∈ rest.head?, isNumberChar c = false

/-- The reader takes the text for `x`, whatever follows. -/
def Takes {α : Type*} (part : List Char → Option (α × List Char)) (text : List Char) (x : α) :
    Prop := ∀ rest, Ends rest → part (text ++ rest) = some (x, rest)

section

variable {α : Type*} {part : List Char → Option (α × List Char)} {closing : Char}
  {parts : List (List Char × α)}

theorem ends_cons {c : Char} (hc : isNumberChar c = false) : Ends (c :: rest) := by
  rintro _ ⟨⟩
  exact hc

theorem skipSpace_cons {c : Char} (hc : isSpace c = false) : skipSpace (c :: cs) = c :: cs := by
  rw [skipSpace, List.dropWhile_cons_of_neg (by simp [hc])]

theorem length_le_intercalate (texts : List (List Char)) :
    texts.length ≤ ([','].intercalate texts).length + 1 := by
  induction texts with
  | nil => exact Nat.zero_le _
  | cons t texts ih =>
    cases texts with
    | nil => exact Nat.le_add_left _ _
    | cons t' texts =>
      rw [List.intercalate_cons_cons]
      simp only [List.length_append, List.length_cons] at ih ⊢
      omega

theorem length_le_of_mem_intercalate {β : Type*} {sep t : List β} {texts : List (List β)}
    (h : t ∈ texts) : t.length ≤ (sep.intercalate texts).length := by
  induction texts with
  | nil => cases h
  | cons t' texts ih =>
    cases texts with
    | nil =>
      rw [List.mem_singleton.mp h, List.intercalate_singleton]
    | cons t'' texts =>
      rw [List.intercalate_cons_cons, List.length_append, List.length_append]
      rcases List.mem_cons.mp h with rfl | h
      · omega
      · have hle := ih h
        omega

theorem forall_mem_intercalate {β : Type*} {P : β → Prop} {sep : List β} {texts : List (List β)}
    (hsep : ∀ b ∈ sep, P b) (h : ∀ t ∈ texts, ∀ b ∈ t, P b) : ∀ b ∈ sep.intercalate texts, P b := by
  induction texts with
  | nil => nofun
  | cons t texts ih =>
    obtain ⟨ht, htexts⟩ := List.forall_mem_cons.mp h
    cases texts with
    | nil =>
      rw [List.intercalate_singleton]
      exact ht
    | cons t' texts =>
      rw [List.intercalate_cons_cons, List.forall_mem_append, List.forall_mem_append]
      exact ⟨⟨ht, hsep⟩, ih htexts⟩

theorem map_intercalate {β γ : Type*} (f : β → γ) (sep : List β) (texts : List (List β)) :
    (sep.intercalate texts).map f = (sep.map f).intercalate (texts.map (List.map f)) := by
  induction texts with
  | nil => rfl
  | cons t texts ih =>
    cases texts with
    | nil => simp only [List.map_cons, List.map_nil, List.intercalate_singleton]
    | cons t' texts =>
      rw [List.map_cons] at ih
      rw [List.map_cons, List.map_cons, List.intercalate_cons_cons, List.intercalate_cons_cons,
        List.map_append, List.map_append, ih]

/-- Texts with commas between them are read to their values. -/
theorem readParts_intercalate (n : Nat) (rest : List Char) (hclosing : closing ≠ ',')
    (hspace : isSpace closing = false) (hnumber : isNumberChar closing = false) (hne : parts ≠ [])
    (hparts : ∀ p ∈ parts, Takes part p.1 p.2) (hn : parts.length ≤ n) :
    readParts part closing n ([','].intercalate (parts.map Prod.fst) ++ closing :: rest) =
      some (parts.map Prod.snd, rest) := by
  induction parts generalizing n with
  | nil => exact absurd rfl hne
  | cons p parts ih =>
    obtain ⟨n, rfl⟩ := Nat.exists_eq_succ_of_ne_zero (Nat.ne_zero_of_lt hn)
    obtain ⟨hp, hrest⟩ := List.forall_mem_cons.mp hparts
    cases parts with
    | nil =>
      simp only [List.map_cons, List.map_nil]
      rw [List.intercalate_singleton, readParts, hp _ (ends_cons hnumber), Option.bind_some]
      simp only [skipSpace_cons hspace, if_neg hclosing, if_pos]
    | cons p' parts =>
      have hcomma : isSpace ',' = false := by decide
      have htail := ih n (List.cons_ne_nil _ _) hrest (Nat.le_of_succ_le_succ hn)
      simp only [List.map_cons] at htail ⊢
      rw [List.intercalate_cons_cons, List.append_assoc, List.append_assoc, List.singleton_append,
        readParts, hp _ (ends_cons (by decide)), Option.bind_some]
      simp only [skipSpace_cons hcomma, if_pos]
      rw [htail]
      rfl

theorem readParts_of_none (h : part cs = none) : readParts part closing n cs = none := by
  cases n with
  | zero => rfl
  | succ n => rw [readParts, h, Option.bind_none]

/-- The same between brackets. A part does not begin with the closing bracket. -/
theorem readEnclosed_intercalate (closing : Char) (rest : List Char) (hclosing : closing ≠ ',')
    (hspace : isSpace closing = false) (hnumber : isNumberChar closing = false) (hparts : ∀ p ∈ parts, Takes part p.1 p.2)
    (hopen : ∀ cs, (∀ c ∈ (skipSpace cs).head?, c = closing) → part cs = none) :
    readEnclosed part closing ([','].intercalate (parts.map Prod.fst) ++ closing :: rest) =
      some (parts.map Prod.snd, rest) := by
  cases parts with
  | nil =>
    show readEnclosed part closing (closing :: rest) = _
    simp only [readEnclosed, skipSpace_cons hspace, if_pos]
    rfl
  | cons p parts =>
    have hread := readParts_intercalate ([','].intercalate ((p :: parts).map Prod.fst) ++
      closing :: rest).length rest hclosing hspace hnumber (List.cons_ne_nil p parts) hparts ?_
    · obtain ⟨text, htext⟩ : ∃ text, [','].intercalate ((p :: parts).map Prod.fst) ++
          closing :: rest = text := ⟨_, rfl⟩
      rw [htext] at hread ⊢
      unfold readEnclosed
      split
      · rename_i hnil
        have hnone := hopen text (by rw [hnil]; nofun)
        rw [readParts_of_none hnone] at hread
        cases hread
      · rename_i c cs hcons
        by_cases hc : c = closing
        · have hnone := hopen text (by rw [hcons]; rintro _ ⟨⟩; exact hc)
          rw [readParts_of_none hnone] at hread
          cases hread
        · rw [if_neg hc]
          exact hread
    · have hle := length_le_intercalate ((p :: parts).map Prod.fst)
      simp only [List.length_map, List.length_append, List.length_cons] at hle ⊢
      omega

end

/-! ## Values -/

/-- `text` is a value of at most `n` levels. -/
def Reads (n : Nat) (text : List Char) (doc : Doc) : Prop := Takes (readValue n) text doc

theorem reads_null (n : Nat) : Reads (n + 1) ['n', 'u', 'l', 'l'] .null := fun _ _ => rfl

theorem reads_true (n : Nat) : Reads (n + 1) ['t', 'r', 'u', 'e'] (.bool true) := fun _ _ => rfl

theorem reads_false (n : Nat) : Reads (n + 1) ['f', 'a', 'l', 's', 'e'] (.bool false) :=
  fun _ _ => rfl

/-- A quotation mark begins a literal. -/
theorem readChars_literal (h : Chars text value) (rest : List Char) :
    readChars (text ++ '"' :: rest).length (text ++ '"' :: rest) = some (value, rest) := by
  refine readChars_of_chars h ?_ rest
  rw [List.length_append, List.length_cons]
  omega

theorem reads_string (n : Nat) (h : Chars text value) :
    Reads (n + 1) ('"' :: text ++ ['"']) (.string value) := by
  intro rest _
  have hliteral := readChars_literal h rest
  rw [List.append_assoc, List.singleton_append, List.cons_append, readValue,
    skipSpace_cons (by decide)]
  simp only [hliteral, Option.map_some]

theorem not_isSpace_of_isNumberChar {c : Char} (hc : isNumberChar c = true) : isSpace c = false := by
  by_contra hspace
  rw [Bool.not_eq_false] at hspace
  have hcases : ((c = ' ' ∨ c = '\t') ∨ c = '\n') ∨ c = '\r' := by
    simpa [isSpace] using hspace
  rcases hcases with ((rfl | rfl) | rfl) | rfl
  all_goals cases hc

/-- What does not begin like another value is a number. -/
theorem readValue_of_isNumberChar {c : Char} (hc : isNumberChar c = true) (cs : List Char) :
    readValue (n + 1) (c :: cs) =
      (readNumber ((c :: cs).span isNumberChar).1).map fun value =>
        (.number value, ((c :: cs).span isNumberChar).2) := by
  rw [readValue, skipSpace_cons (not_isSpace_of_isNumberChar hc)]
  split
  case h_7 => rfl
  all_goals
    rename_i heq
    cases (List.cons.inj heq).1
    cases hc

theorem reads_number (n : Nat) {value : Decimal} (h : readNumber text = some value) :
    Reads (n + 1) text (.number value) := by
  intro rest hrest
  have hchars := isNumberChar_of_readNumber h
  have hspan := span_append hchars hrest
  cases text with
  | nil => cases h
  | cons c text =>
    rw [List.cons_append] at hspan ⊢
    rw [readValue_of_isNumberChar (hchars c List.mem_cons_self), hspan, h, Option.map_some]

/-- Neither a closing bracket nor the end of the text begins a value. -/
theorem readValue_of_closing (h : ∀ c ∈ (skipSpace cs).head?, c = ']') : readValue n cs = none := by
  cases n with
  | zero => rfl
  | succ n =>
    rw [readValue]
    generalize skipSpace cs = cs at h
    cases cs with
    | nil => rfl
    | cons c cs =>
      cases h c rfl
      rfl

theorem reads_array (parts : List (List Char × Doc)) (h : ∀ p ∈ parts, Reads n p.1 p.2) :
    Reads (n + 1) ('[' :: [','].intercalate (parts.map Prod.fst) ++ [']'])
      (.array (parts.map Prod.snd)) := by
  intro rest _
  have hparts := readEnclosed_intercalate ']' rest (by decide) (by decide) (by decide) h
    fun _ => readValue_of_closing
  rw [List.append_assoc, List.singleton_append, List.cons_append, readValue,
    skipSpace_cons (by decide)]
  simp only [hparts, Option.map_some]

theorem takes_member {doc : Doc} (hname : Chars value name) (h : Reads n text doc) :
    Takes (readMember (readValue n)) ('"' :: value ++ '"' :: ':' :: text) (name, doc) := by
  intro rest hrest
  have hliteral := readChars_literal hname (':' :: (text ++ rest))
  rw [List.append_assoc, List.cons_append, List.cons_append, List.cons_append, readMember,
    skipSpace_cons (by decide)]
  simp only [hliteral, Option.bind_some]
  rw [skipSpace_cons (by decide)]
  simp only [h rest hrest, Option.map_some]

theorem readMember_of_closing {reader : List Char → Option (Doc × List Char)}
    (h : ∀ c ∈ (skipSpace cs).head?, c = '\x7d') : readMember reader cs = none := by
  rw [readMember]
  generalize skipSpace cs = cs at h
  cases cs with
  | nil => rfl
  | cons c cs =>
    cases h c rfl
    rfl

theorem reads_object (parts : List (List Char × (List Char × Doc)))
    (h : ∀ p ∈ parts, Takes (readMember (readValue n)) p.1 p.2) :
    Reads (n + 1) ('\x7b' :: [','].intercalate (parts.map Prod.fst) ++ ['\x7d'])
      (.object (parts.map Prod.snd)) := by
  intro rest _
  have hparts := readEnclosed_intercalate '\x7d' rest (by decide) (by decide) (by decide) h
    fun _ => readMember_of_closing
  rw [List.append_assoc, List.singleton_append, List.cons_append, readValue,
    skipSpace_cons (by decide)]
  simp only [hparts, Option.map_some]

/-- A value is a whole text. -/
theorem read_of_reads {doc : Doc} (h : Reads text.length text doc) : read text = some doc := by
  have hread := h [] (by simp [Ends])
  rw [List.append_nil] at hread
  rw [read, hread, Option.bind_some]
  rfl

end

end Csics.Base.Json
