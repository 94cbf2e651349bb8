import Mathlib.Algebra.Order.Ring.Nat
import Mathlib.Data.List.Basic
import Mathlib.Tactic.Common

/-!
# The Base64 encoding

RFC 4648, section 4. Three bytes are a number of 24 bits, written as four digits to the
base 64. One or two bytes at the end are filled up with zero bits to the next digit, and
`=` pads the last quantum to four characters.

A text that is cut anywhere is encoded piece by piece: `quanta` is the text of the whole
quanta of a byte string and `leftover` are the fewer than three bytes behind them.
`quanta_append` and `leftover_append` say that the bytes left over by one piece belong in
front of the next one, and `encode_eq` that the whole text is the quanta and one padded
quantum.
-/

namespace Csics.Base.Base64

/-- The character of a digit to the base 64. -/
def alphabet (digit : Nat) : UInt8 :=
  if digit < 26 then UInt8.ofNat (0x41 + digit)
  else if digit < 52 then UInt8.ofNat (0x61 + (digit - 26))
  else if digit < 62 then UInt8.ofNat (0x30 + (digit - 52))
  else if digit = 62 then 0x2B
  else 0x2F

/-- `=`. -/
def pad : UInt8 := 0x3D

/-- The last four digits of a number, the highest first. -/
def digits (n : Nat) : List UInt8 :=
  [alphabet (n / 64 ^ 3 % 64), alphabet (n / 64 ^ 2 % 64), alphabet (n / 64 % 64),
    alphabet (n % 64)]

/-- The text of three bytes. -/
def quantum (a b c : UInt8) : List UInt8 :=
  digits (a.toNat * 256 ^ 2 + b.toNat * 256 + c.toNat)

/-- The text of the last one or two bytes: zero bits up to the next digit, then padding. -/
def lastQuantum : List UInt8 → List UInt8
  | [a] => (digits (a.toNat * 256 ^ 2)).take 2 ++ [pad, pad]
  | [a, b] => (digits (a.toNat * 256 ^ 2 + b.toNat * 256)).take 3 ++ [pad]
  | _ => []

/-- The Base64 text of a byte string. -/
def encode : List UInt8 → List UInt8
  | a :: b :: c :: rest => quantum a b c ++ encode rest
  | rest => lastQuantum rest

/-- The text of the whole quanta of a byte string. -/
def quanta : List UInt8 → List UInt8
  | a :: b :: c :: rest => quantum a b c ++ quanta rest
  | _ => []

/-- The bytes behind the whole quanta. -/
def leftover : List UInt8 → List UInt8
  | _ :: _ :: _ :: rest => leftover rest
  | rest => rest

@[simp] theorem length_quantum (a b c : UInt8) : (quantum a b c).length = 4 := rfl

@[simp] theorem lastQuantum_nil : lastQuantum [] = [] := rfl

@[simp] theorem quanta_cons (a b c : UInt8) (rest : List UInt8) :
    quanta (a :: b :: c :: rest) = quantum a b c ++ quanta rest := rfl

@[simp] theorem leftover_cons (a b c : UInt8) (rest : List UInt8) :
    leftover (a :: b :: c :: rest) = leftover rest := rfl

/-- Induction in steps of three bytes. -/
@[elab_as_elim] theorem quanta_induction {P : List UInt8 → Prop}
    (short : ∀ bs, bs.length < 3 → P bs)
    (quantum : ∀ a b c rest, P rest → P (a :: b :: c :: rest)) (bs : List UInt8) : P bs := by
  match bs with
  | [] => exact short [] (by simp)
  | [a] => exact short [a] (by simp)
  | [a, b] => exact short [a, b] (by simp)
  | a :: b :: c :: rest => exact quantum a b c rest (quanta_induction short quantum rest)

theorem quanta_of_short {bs : List UInt8} (h : bs.length < 3) : quanta bs = [] := by
  match bs, h with
  | [], _ => rfl
  | [_], _ => rfl
  | [_, _], _ => rfl

theorem leftover_of_short {bs : List UInt8} (h : bs.length < 3) : leftover bs = bs := by
  match bs, h with
  | [], _ => rfl
  | [_], _ => rfl
  | [_, _], _ => rfl

theorem encode_of_short {bs : List UInt8} (h : bs.length < 3) : encode bs = lastQuantum bs := by
  match bs, h with
  | [], _ => rfl
  | [_], _ => rfl
  | [_, _], _ => rfl

theorem length_leftover (bs : List UInt8) : (leftover bs).length = bs.length % 3 := by
  induction bs using quanta_induction with
  | short bs h => rw [leftover_of_short h, Nat.mod_eq_of_lt h]
  | quantum a b c rest ih =>
    rw [leftover_cons, ih]
    simp only [List.length_cons]
    omega

theorem length_quanta (bs : List UInt8) : (quanta bs).length = 4 * (bs.length / 3) := by
  induction bs using quanta_induction with
  | short bs h =>
    rw [quanta_of_short h, Nat.div_eq_of_lt h]
    rfl
  | quantum a b c rest ih =>
    rw [quanta_cons, List.length_append, ih]
    simp only [length_quantum, List.length_cons]
    omega

theorem length_leftover_lt (bs : List UInt8) : (leftover bs).length < 3 := by
  rw [length_leftover]
  exact Nat.mod_lt _ (by omega)

/-- What is left over by one piece is encoded with the next one. -/
theorem quanta_append (xs ys : List UInt8) :
    quanta (xs ++ ys) = quanta xs ++ quanta (leftover xs ++ ys) := by
  induction xs using quanta_induction with
  | short xs h => rw [quanta_of_short h, leftover_of_short h, List.nil_append]
  | quantum a b c rest ih =>
    simp only [List.cons_append, quanta_cons, leftover_cons, ih, List.append_assoc]

theorem leftover_append (xs ys : List UInt8) :
    leftover (xs ++ ys) = leftover (leftover xs ++ ys) := by
  induction xs using quanta_induction with
  | short xs h => rw [leftover_of_short h]
  | quantum a b c rest ih => simp only [List.cons_append, leftover_cons, ih]

/-- The text is the whole quanta and one padded quantum for what is left over. -/
theorem encode_eq (bs : List UInt8) : encode bs = quanta bs ++ lastQuantum (leftover bs) := by
  induction bs using quanta_induction with
  | short bs h => rw [encode_of_short h, quanta_of_short h, leftover_of_short h, List.nil_append]
  | quantum a b c rest ih => rw [encode, ih, quanta_cons, leftover_cons, List.append_assoc]

/-- The text of a message of two pieces. -/
theorem encode_append (xs ys : List UInt8) :
    encode (xs ++ ys) = quanta xs ++ encode (leftover xs ++ ys) := by
  rw [encode_eq, quanta_append, leftover_append, encode_eq (leftover xs ++ ys),
    List.append_assoc]

theorem leftover_of_dvd {bs : List UInt8} (h : 3 ∣ bs.length) : leftover bs = [] := by
  rw [← List.length_eq_zero_iff, length_leftover]
  exact Nat.mod_eq_zero_of_dvd h

/-- Whole quanta need no padding. -/
theorem encode_of_dvd {bs : List UInt8} (h : 3 ∣ bs.length) : encode bs = quanta bs := by
  rw [encode_eq, leftover_of_dvd h, lastQuantum_nil, List.append_nil]

/-- A byte string is its whole quanta and what is left over. -/
theorem exists_whole (bs : List UInt8) :
    ∃ whole, 3 ∣ whole.length ∧ whole ++ leftover bs = bs ∧ quanta bs = encode whole := by
  induction bs using quanta_induction with
  | short bs h =>
    refine ⟨[], by simp, ?_, ?_⟩
    · rw [leftover_of_short h, List.nil_append]
    · rw [quanta_of_short h]
      rfl
  | quantum a b c rest ih =>
    obtain ⟨whole, hdvd, hsplit, htext⟩ := ih
    refine ⟨a :: b :: c :: whole, ?_, ?_, ?_⟩
    · simp only [List.length_cons]
      omega
    · rw [leftover_cons, List.cons_append, List.cons_append, List.cons_append, hsplit]
    · rw [quanta_cons, encode, htext]

theorem length_lastQuantum {bs : List UInt8} (h : bs.length < 3) :
    (lastQuantum bs).length = if bs = [] then 0 else 4 := by
  match bs, h with
  | [], _ => rfl
  | [_], _ => rfl
  | [_, _], _ => rfl

end Csics.Base.Base64
