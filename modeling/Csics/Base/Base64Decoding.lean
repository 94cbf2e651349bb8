import Csics.Base.Base64

/-!
# Decoding Base64

The decoder of RFC 4648, section 4, at its strictest: padding is required, and the bits that fill up
the last digit are zero (section 3.5). So a text is accepted exactly if it is the encoding of what
is decoded (`decode_eq_some_iff`), and no two texts say the same.
-/

namespace Csics.Base.Base64

/-- The digit of a character. -/
def digit? (c : UInt8) : Option Nat :=
  if 0x41 ≤ c ∧ c ≤ 0x5A then some (c.toNat - 0x41)
  else if 0x61 ≤ c ∧ c ≤ 0x7A then some (c.toNat - 0x61 + 26)
  else if 0x30 ≤ c ∧ c ≤ 0x39 then some (c.toNat - 0x30 + 52)
  else if c = 0x2B then some 62
  else if c = 0x2F then some 63
  else none

/-- The bytes of a number, the highest first. -/
def threeBytes (n : Nat) : List UInt8 :=
  [.ofNat (n / 256 ^ 2), .ofNat (n / 256 % 256), .ofNat (n % 256)]

/-- A quantum without padding. -/
def decodeQuantum (w x y z : UInt8) : Option (List UInt8) := do
  return threeBytes ((((← digit? w) * 64 + (← digit? x)) * 64 + (← digit? y)) * 64 + (← digit? z))

/-- The last quantum. -/
def decodeLast (w x y z : UInt8) : Option (List UInt8) :=
  if z = pad then do
    let n := (← digit? w) * 64 + (← digit? x)
    if y = pad then if n % 16 = 0 then some [.ofNat (n / 16)] else none
    else
      let n := n * 64 + (← digit? y)
      if n % 4 = 0 then some [.ofNat (n / 4 / 256), .ofNat (n / 4 % 256)] else none
  else decodeQuantum w x y z

def decode : List UInt8 → Option (List UInt8)
  | [] => some []
  | [w, x, y, z] => decodeLast w x y z
  | w :: x :: y :: z :: rest =>
    (decodeQuantum w x y z).bind fun bs => (decode rest).map (bs ++ ·)
  | _ => none

section

variable {a b c w x y z : UInt8} {bs t rest : List UInt8} {i j k l n : Nat}

/-! ## Digits -/

theorem digit?_alphabet (h : n < 64) : digit? (alphabet n) = some n := by
  revert n
  decide

theorem alphabet_ne_pad (h : n < 64) : alphabet n ≠ pad := by
  revert n
  decide

theorem digit?_eq_some (h : digit? c = some n) : n < 64 ∧ alphabet n = c := by
  unfold digit? at h
  split_ifs at h with hupper hlower hdigit hplus hslash
  all_goals cases h
  · have hge : 0x41 ≤ c.toNat := UInt8.le_iff_toNat_le.mp hupper.1
    have hle : c.toNat ≤ 0x5A := UInt8.le_iff_toNat_le.mp hupper.2
    refine ⟨by omega, ?_⟩
    rw [alphabet, if_pos (by omega), Nat.add_sub_cancel' hge, UInt8.ofNat_toNat]
  · have hge : 0x61 ≤ c.toNat := UInt8.le_iff_toNat_le.mp hlower.1
    have hle : c.toNat ≤ 0x7A := UInt8.le_iff_toNat_le.mp hlower.2
    refine ⟨by omega, ?_⟩
    rw [alphabet, if_neg (by omega), if_pos (by omega), Nat.add_sub_cancel,
      Nat.add_sub_cancel' hge, UInt8.ofNat_toNat]
  · have hge : 0x30 ≤ c.toNat := UInt8.le_iff_toNat_le.mp hdigit.1
    have hle : c.toNat ≤ 0x39 := UInt8.le_iff_toNat_le.mp hdigit.2
    refine ⟨by omega, ?_⟩
    rw [alphabet, if_neg (by omega), if_neg (by omega), if_pos (by omega), Nat.add_sub_cancel,
      Nat.add_sub_cancel' hge, UInt8.ofNat_toNat]
  · exact ⟨by decide, hplus ▸ rfl⟩
  · exact ⟨by decide, hslash ▸ rfl⟩

/-! ## Quanta -/

theorem digits_eq (hi : i < 64) (hj : j < 64) (hk : k < 64) (hl : l < 64) :
    digits (((i * 64 + j) * 64 + k) * 64 + l) = [alphabet i, alphabet j, alphabet k, alphabet l] := by
  have h3 : (((i * 64 + j) * 64 + k) * 64 + l) / 64 ^ 3 % 64 = i := by omega
  have h2 : (((i * 64 + j) * 64 + k) * 64 + l) / 64 ^ 2 % 64 = j := by omega
  have h1 : (((i * 64 + j) * 64 + k) * 64 + l) / 64 % 64 = k := by omega
  have h0 : (((i * 64 + j) * 64 + k) * 64 + l) % 64 = l := by omega
  rw [digits, h3, h2, h1, h0]

/-- The digits of a number of 24 bits. -/
theorem exists_digits (h : n < 256 ^ 3) : ∃ i < 64, ∃ j < 64, ∃ k < 64, ∃ l < 64,
    n = ((i * 64 + j) * 64 + k) * 64 + l := by
  refine ⟨n / 64 ^ 3, ?_, n / 64 ^ 2 % 64, ?_, n / 64 % 64, ?_, n % 64, ?_, ?_⟩ <;> omega

theorem threeBytes_eq (a b c : UInt8) :
    threeBytes (a.toNat * 256 ^ 2 + b.toNat * 256 + c.toNat) = [a, b, c] := by
  have ha := a.toNat_lt
  have hb := b.toNat_lt
  have hc := c.toNat_lt
  have h2 : (a.toNat * 256 ^ 2 + b.toNat * 256 + c.toNat) / 256 ^ 2 = a.toNat := by omega
  have h1 : (a.toNat * 256 ^ 2 + b.toNat * 256 + c.toNat) / 256 % 256 = b.toNat := by omega
  have h0 : (a.toNat * 256 ^ 2 + b.toNat * 256 + c.toNat) % 256 = c.toNat := by omega
  rw [threeBytes, h2, h1, h0, UInt8.ofNat_toNat, UInt8.ofNat_toNat, UInt8.ofNat_toNat]

theorem encode_three (a b c : UInt8) : encode [a, b, c] = quantum a b c := List.append_nil _

/-- A quantum is decoded to the three bytes that it is the text of. -/
theorem decodeQuantum_eq_some_iff :
    decodeQuantum w x y z = some bs ↔ bs.length = 3 ∧ [w, x, y, z] = encode bs := by
  constructor
  · intro h
    simp only [decodeQuantum, Option.bind_eq_bind, Option.bind_eq_some_iff] at h
    obtain ⟨i, hw, j, hx, k, hy, l, hz, hbs⟩ := h
    obtain ⟨hi, rfl⟩ := digit?_eq_some hw
    obtain ⟨hj, rfl⟩ := digit?_eq_some hx
    obtain ⟨hk, rfl⟩ := digit?_eq_some hy
    obtain ⟨hl, rfl⟩ := digit?_eq_some hz
    generalize hn : ((i * 64 + j) * 64 + k) * 64 + l = n at hbs
    have hlt : n < 256 ^ 3 := by omega
    rw [← Option.some.inj hbs]
    refine ⟨rfl, ?_⟩
    rw [threeBytes, encode_three, quantum, UInt8.toNat_ofNat', UInt8.toNat_ofNat',
      UInt8.toNat_ofNat']
    have hsum : n / 256 ^ 2 % 2 ^ 8 * 256 ^ 2 + n / 256 % 256 % 2 ^ 8 * 256 + n % 256 % 2 ^ 8 =
        n := by omega
    rw [hsum, ← hn, digits_eq hi hj hk hl]
  · rintro ⟨hlen, htext⟩
    obtain ⟨a, b, c, rfl⟩ := List.length_eq_three.mp hlen
    have ha := a.toNat_lt
    have hb := b.toNat_lt
    have hc := c.toNat_lt
    obtain ⟨i, hi, j, hj, k, hk, l, hl, hn⟩ :=
      exists_digits (n := a.toNat * 256 ^ 2 + b.toNat * 256 + c.toNat) (by omega)
    rw [encode_three, quantum, hn, digits_eq hi hj hk hl] at htext
    cases htext
    simp only [decodeQuantum, digit?_alphabet hi, digit?_alphabet hj, digit?_alphabet hk,
      digit?_alphabet hl, Option.bind_eq_bind, Option.bind_some]
    rw [← hn, threeBytes_eq]
    rfl

/-! ## The last quantum -/

/-- The digits of one byte and four zero bits. -/
theorem lastQuantum_one (hi : i < 64) (hj : j < 64) (hn : a.toNat * 16 = i * 64 + j) :
    encode [a] = [alphabet i, alphabet j, pad, pad] := by
  have hdigits : a.toNat * 256 ^ 2 = ((i * 64 + j) * 64 + 0) * 64 + 0 := by omega
  show lastQuantum [a] = _
  rw [lastQuantum, hdigits, digits_eq hi hj (by decide) (by decide)]
  rfl

/-- The digits of two bytes and two zero bits. -/
theorem lastQuantum_two (hi : i < 64) (hj : j < 64) (hk : k < 64)
    (hn : (a.toNat * 256 + b.toNat) * 4 = (i * 64 + j) * 64 + k) :
    encode [a, b] = [alphabet i, alphabet j, alphabet k, pad] := by
  have hdigits : a.toNat * 256 ^ 2 + b.toNat * 256 = ((i * 64 + j) * 64 + k) * 64 + 0 := by omega
  show lastQuantum [a, b] = _
  rw [lastQuantum, hdigits, digits_eq hi hj hk (by decide)]
  rfl

theorem decodeLast_eq_some (h : decodeLast w x y z = some bs) :
    bs.length ≤ 3 ∧ [w, x, y, z] = encode bs := by
  unfold decodeLast at h
  split at h
  · rename_i hz
    simp only [Option.bind_eq_bind, Option.bind_eq_some_iff] at h
    obtain ⟨i, hw, j, hx, h⟩ := h
    obtain ⟨hi, rfl⟩ := digit?_eq_some hw
    obtain ⟨hj, rfl⟩ := digit?_eq_some hx
    split at h
    · rename_i hy
      split at h
      · cases h
        refine ⟨by simp, ?_⟩
        rw [lastQuantum_one hi hj (by rw [UInt8.toNat_ofNat']; omega), hy, hz]
      · cases h
    · obtain ⟨k, hy, hbytes⟩ := Option.bind_eq_some_iff.mp h
      obtain ⟨hk, rfl⟩ := digit?_eq_some hy
      split at hbytes
      · cases hbytes
        refine ⟨by simp, ?_⟩
        rw [lastQuantum_two hi hj hk (by rw [UInt8.toNat_ofNat', UInt8.toNat_ofNat']; omega), hz]
      · cases hbytes
  · obtain ⟨hlen, htext⟩ := decodeQuantum_eq_some_iff.mp h
    exact ⟨Nat.le_of_eq hlen, htext⟩

theorem decodeLast_of_encode (hlen : bs.length ≤ 3) (htext : [w, x, y, z] = encode bs) :
    decodeLast w x y z = some bs := by
  match bs, hlen with
  | [], _ => cases htext
  | [a], _ =>
    have ha := a.toNat_lt
    have hi : a.toNat / 4 < 64 := by omega
    have hj : a.toNat % 4 * 16 < 64 := by omega
    rw [lastQuantum_one hi hj (by omega)] at htext
    cases htext
    simp only [decodeLast, digit?_alphabet hi, digit?_alphabet hj, Option.bind_eq_bind,
      Option.bind_some]
    rw [if_pos trivial, if_pos trivial, if_pos (by omega)]
    have hbyte : (a.toNat / 4 * 64 + a.toNat % 4 * 16) / 16 = a.toNat := by omega
    rw [hbyte, UInt8.ofNat_toNat]
  | [a, b], _ =>
    have ha := a.toNat_lt
    have hb := b.toNat_lt
    have hi : a.toNat / 4 < 64 := by omega
    have hj : a.toNat % 4 * 16 + b.toNat / 16 < 64 := by omega
    have hk : b.toNat % 16 * 4 < 64 := by omega
    rw [lastQuantum_two hi hj hk (by omega)] at htext
    cases htext
    have hn : (a.toNat / 4 * 64 + (a.toNat % 4 * 16 + b.toNat / 16)) * 64 + b.toNat % 16 * 4 =
        (a.toNat * 256 + b.toNat) * 4 := by omega
    have h1 : (a.toNat * 256 + b.toNat) * 4 / 4 / 256 = a.toNat := by omega
    have h0 : (a.toNat * 256 + b.toNat) * 4 / 4 % 256 = b.toNat := by omega
    simp only [decodeLast, digit?_alphabet hi, digit?_alphabet hj, digit?_alphabet hk,
      Option.bind_eq_bind, Option.bind_some]
    rw [if_pos trivial, if_neg (alphabet_ne_pad hk), hn, if_pos (by omega), h1, h0,
      UInt8.ofNat_toNat, UInt8.ofNat_toNat]
  | [a, b, c], _ =>
    have hz : z ≠ pad := by
      rw [encode_three] at htext
      have hz : z = alphabet ((a.toNat * 256 ^ 2 + b.toNat * 256 + c.toNat) % 64) := by
        cases htext
        rfl
      rw [hz]
      exact alphabet_ne_pad (Nat.mod_lt _ (by decide))
    rw [decodeLast, if_neg hz]
    exact decodeQuantum_eq_some_iff.mpr ⟨rfl, htext⟩

/-! ## Texts -/

theorem encode_append_of_length (h : bs.length = 3) (rest : List UInt8) :
    encode (bs ++ rest) = encode bs ++ encode rest := by
  obtain ⟨a, b, c, rfl⟩ := List.length_eq_three.mp h
  rw [encode_three]
  rfl

theorem decode_cons (w x y z : UInt8) (h : rest ≠ []) :
    decode (w :: x :: y :: z :: rest) =
      (decodeQuantum w x y z).bind fun bs => (decode rest).map (bs ++ ·) := by
  rw [decode]
  exact h

theorem encode_ne_nil (h : bs ≠ []) : encode bs ≠ [] := by
  match bs, h with
  | [a], _ => exact List.cons_ne_nil _ _
  | [a, b], _ => exact List.cons_ne_nil _ _
  | a :: b :: c :: rest, _ => exact List.cons_ne_nil _ _

theorem encode_of_decode (h : decode t = some bs) : t = encode bs := by
  induction t using decode.induct generalizing bs with
  | case1 =>
    cases h
    rfl
  | case2 w x y z => exact (decodeLast_eq_some h).2
  | case3 w x y z rest hrest ih =>
    rw [decode_cons _ _ _ _ hrest] at h
    obtain ⟨bs, hquantum, h⟩ := Option.bind_eq_some_iff.mp h
    obtain ⟨bs', hdecode, rfl⟩ := Option.map_eq_some_iff.mp h
    obtain ⟨hlen, htext⟩ := decodeQuantum_eq_some_iff.mp hquantum
    rw [encode_append_of_length hlen, ← htext, ← ih hdecode]
    rfl
  | case4 t h1 h2 h3 =>
    rw [decode] at h
    cases h
    all_goals assumption

theorem decode_encode (bs : List UInt8) : decode (encode bs) = some bs := by
  induction bs using quanta_induction with
  | short bs h =>
    cases bs with
    | nil => rfl
    | cons a bs =>
      have hne := encode_ne_nil (List.cons_ne_nil a bs)
      have hlen : (encode (a :: bs)).length = 4 := by
        rw [encode_of_short h, length_lastQuantum h, if_neg (List.cons_ne_nil a bs)]
      obtain ⟨w, x, y, z, htext⟩ : ∃ w x y z, encode (a :: bs) = [w, x, y, z] := by
        match encode (a :: bs), hlen with
        | [w, x, y, z], _ => exact ⟨w, x, y, z, rfl⟩
      rw [htext]
      exact decodeLast_of_encode (Nat.le_of_lt h) htext.symm
  | quantum a b c rest ih =>
    by_cases hrest : rest = []
    · subst hrest
      exact decodeLast_of_encode (Nat.le_refl 3) rfl
    · obtain ⟨w, x, y, z, htext⟩ : ∃ w x y z, encode [a, b, c] = [w, x, y, z] := ⟨_, _, _, _, rfl⟩
      have hquantum : decodeQuantum w x y z = some [a, b, c] :=
        decodeQuantum_eq_some_iff.mpr ⟨rfl, htext.symm⟩
      show decode (encode ([a, b, c] ++ rest)) = some ([a, b, c] ++ rest)
      rw [encode_append_of_length rfl, htext, List.cons_append, List.cons_append, List.cons_append,
        List.singleton_append, decode_cons _ _ _ _ (encode_ne_nil hrest), hquantum,
        Option.bind_some, ih, Option.map_some]

/-- A text is decoded exactly if it is the encoding of what is decoded. -/
theorem decode_eq_some_iff : decode t = some bs ↔ t = encode bs :=
  ⟨encode_of_decode, fun h => h ▸ decode_encode bs⟩

end

end Csics.Base.Base64
