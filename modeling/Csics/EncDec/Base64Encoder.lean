import Csics.Base.Base64
import Csics.Serialization.View

/-!
# The Base64 encoder

`src/io/encdec/Base64Encoder.cpp`. `encode` writes the text of every whole quantum of
three bytes and holds over the one or two bytes behind them for the next call; `finish`
encodes the last piece and pads. Which of the three `encode_…_holdover` functions starts a
call depends on the number of bytes held over.

The input is a byte string, and `in += n` drops its first bytes; the output buffer is a
`View` of memory. The two do not overlap.

`Base64Encoder.encode_eq` and `Base64Encoder.finish_eq` say what a call does when the output
buffer has room for its text, in terms of `Base64.quanta` and `Base64.leftover`: the bytes
held over are those left over by everything encoded so far.
-/

namespace Csics.EncDec

open Base Serialization

/-- `EncodingStatus`. -/
inductive EncodingStatus where
  | ok
  | outputBufferFull
  | needsInput
  | needsFlush
  | invalidInput
  | fatalError
  deriving DecidableEq, Repr

structure EncodingResult where
  processed : Nat
  output : Nat
  status : EncodingStatus
  deriving DecidableEq, Repr

/-- `holdover_`. Its first byte, the number of bytes held over, is set to `in.size() % 3`,
`2` or `0` only. -/
structure Base64Encoder where
  count : Fin 3
  first : UInt8
  second : UInt8
  deriving DecidableEq, Repr

/-- What a call leaves behind. -/
structure Outcome where
  mem : Mem
  encoder : Base64Encoder
  result : EncodingResult

/-! ## The code -/

/-- `base64_table`. -/
def base64Table : List Char :=
  ['A', 'B', 'C', 'D', 'E', 'F', 'G', 'H', 'I', 'J', 'K', 'L', 'M',
    'N', 'O', 'P', 'Q', 'R', 'S', 'T', 'U', 'V', 'W', 'X', 'Y', 'Z',
    'a', 'b', 'c', 'd', 'e', 'f', 'g', 'h', 'i', 'j', 'k', 'l', 'm',
    'n', 'o', 'p', 'q', 'r', 's', 't', 'u', 'v', 'w', 'x', 'y', 'z',
    '0', '1', '2', '3', '4', '5', '6', '7', '8', '9', '+', '/']

/-- `base64_table[i]`. The table has 64 entries, and every index in the code is below 64
(`lookup_eq`). -/
def lookup (i : UInt8) : UInt8 := UInt8.ofNat (base64Table.getD i.toNat '=').toNat

/-- `get_4_chars`. -/
def get4Chars (in0 in1 in2 : UInt8) : List UInt8 :=
  [lookup (in0 >>> 2),
    lookup (((in0 &&& 0b00000011) <<< 4) ||| ((in1 &&& 0b11110000) >>> 4)),
    lookup (((in1 &&& 0b00001111) <<< 2) ||| ((in2 &&& 0b11000000) >>> 6)),
    lookup (in2 &&& 0b00111111)]

namespace Base64Encoder

/-- The constructor. -/
def init : Base64Encoder := ⟨0, 0, 0⟩

/-- The bytes behind the last quantum: `holdover[0] = leftover` and the copy loop. Slots
behind the bytes copied keep what they held. -/
def holdOver (e : Base64Encoder) : List UInt8 → Base64Encoder
  | [] => { e with count := 0 }
  | [b] => { e with count := 1, first := b }
  | b0 :: b1 :: _ => ⟨2, b0, b1⟩

/-- The loop of `encode_b64_no_holdover` and what follows it. `inSize` and `outPtr` are the
size of the input and the output pointer at the start of the function. -/
def noHoldoverLoop (inSize outPtr : Nat) (e : Base64Encoder) (mem : Mem) (out : View) :
    List UInt8 → Outcome
  | b0 :: b1 :: b2 :: rest =>
    if out.size < 4 then
      ⟨mem, e, ⟨(b0 :: b1 :: b2 :: rest).length, out.size, .outputBufferFull⟩⟩
    else
      noHoldoverLoop inSize outPtr e (mem.store out.data (get4Chars b0 b1 b2))
        (out.advance 4) rest
  | rest =>
    let leftover := rest.length % 3
    ⟨mem, e.holdOver (rest.take leftover),
      ⟨inSize - (rest.drop leftover).length, out.data - outPtr, .ok⟩⟩

/-- `encode_b64_no_holdover`. -/
def encodeB64NoHoldover (e : Base64Encoder) (mem : Mem) (inp : List UInt8) (out : View) :
    Outcome :=
  noHoldoverLoop inp.length out.data e mem out inp

/-- `encode_64_1_holdover`. `encode` calls it on a nonempty input. -/
def encode641Holdover (e : Base64Encoder) (mem : Mem) (out : View) :
    (inp : List UInt8) → inp ≠ [] → Outcome
  | [b], _ => ⟨mem, { e with count := 2, second := b }, ⟨1, 0, .ok⟩⟩
  | b0 :: b1 :: rest, _ =>
    if out.size < 4 then ⟨mem, e, ⟨0, 0, .outputBufferFull⟩⟩
    else
      let o := e.encodeB64NoHoldover (mem.store out.data (get4Chars e.first b0 b1)) rest
        (out.advance 4)
      { o with result := ⟨o.result.processed + 2, o.result.output + 4, o.result.status⟩ }

/-- `encode_64_2_holdover`. -/
def encode642Holdover (e : Base64Encoder) (mem : Mem) (out : View) : List UInt8 → Outcome
  | [] => ⟨mem, e, ⟨0, 0, .needsInput⟩⟩
  | b0 :: rest =>
    if out.size < 4 then ⟨mem, e, ⟨0, 0, .outputBufferFull⟩⟩
    else
      let o := e.encodeB64NoHoldover (mem.store out.data (get4Chars e.first e.second b0)) rest
        (out.advance 4)
      { o with result := ⟨o.result.processed + 1, o.result.output + 4, o.result.status⟩ }

/-- `Base64Encoder::encode`. -/
def encode (e : Base64Encoder) (mem : Mem) (inp : List UInt8) (out : View) : Outcome :=
  if h : inp = [] then ⟨mem, e, ⟨0, 0, .ok⟩⟩
  else
    match e.count with
    | 0 => e.encodeB64NoHoldover mem inp out
    | 1 => e.encode641Holdover mem out inp h
    | 2 => e.encode642Holdover mem out inp

/-- The text `finish` writes for the bytes held over. -/
def padding (e : Base64Encoder) : List UInt8 :=
  match e.count with
  | 0 => []
  | 1 => [lookup (e.first >>> 2), lookup ((e.first &&& 0b00000011) <<< 4), 0x3D, 0x3D]
  | 2 =>
    [lookup (e.first >>> 2),
      lookup (((e.first &&& 0b00000011) <<< 4) ||| ((e.second &&& 0b11110000) >>> 4)),
      lookup ((e.second &&& 0b00001111) <<< 2), 0x3D]

/-- `Base64Encoder::finish`. -/
def finish (e : Base64Encoder) (mem : Mem) (inp : List UInt8) (out : View) : Outcome :=
  let o := e.encode mem inp out
  if o.result.status = .outputBufferFull then o
  else
    let out' := out.advance o.result.output
    if o.encoder.count ≠ 0 ∧ out'.size < 4 then
      { o with result := { o.result with status := .outputBufferFull } }
    else
      ⟨o.mem.store out'.data o.encoder.padding, ⟨0, 0, 0⟩,
        ⟨o.result.processed, o.result.output + if o.encoder.count ≠ 0 then 4 else 0, .ok⟩⟩

end Base64Encoder

/-! ## The packing of three bytes -/

theorem lookup_eq {i : UInt8} {n : Nat} (h : i.toNat = n) (hn : n < 64) :
    lookup i = Base64.alphabet n := by
  have htable : ∀ k : Fin 64,
      UInt8.ofNat (base64Table.getD k.val '=').toNat = Base64.alphabet k.val := by decide
  rw [lookup, h]
  exact htable ⟨n, hn⟩

/-- The six high bits of a byte. -/
theorem toNat_high6 (a : UInt8) : (a >>> 2).toNat = a.toNat / 4 := by
  rw [UInt8.toNat_shiftRight]
  exact Nat.shiftRight_eq_div_pow _ 2

theorem toNat_low6 (c : UInt8) : (c &&& 0b00111111).toNat = c.toNat % 64 := by
  rw [UInt8.toNat_and]
  exact Nat.and_two_pow_sub_one_eq_mod c.toNat 6

/-- The two low bits of a byte in front of four zero bits. -/
theorem toNat_low2 (a : UInt8) : ((a &&& 0b00000011) <<< 4).toNat = a.toNat % 4 * 16 := by
  have h : (a &&& 0b00000011).toNat = a.toNat % 4 := by
    rw [UInt8.toNat_and]
    exact Nat.and_two_pow_sub_one_eq_mod a.toNat 2
  rw [UInt8.toNat_shiftLeft, h]
  show (a.toNat % 4) <<< 4 % 256 = _
  rw [Nat.shiftLeft_eq]
  omega

theorem toNat_low4 (b : UInt8) : ((b &&& 0b00001111) <<< 2).toNat = b.toNat % 16 * 4 := by
  have h : (b &&& 0b00001111).toNat = b.toNat % 16 := by
    rw [UInt8.toNat_and]
    exact Nat.and_two_pow_sub_one_eq_mod b.toNat 4
  rw [UInt8.toNat_shiftLeft, h]
  show (b.toNat % 16) <<< 2 % 256 = _
  rw [Nat.shiftLeft_eq]
  omega

theorem toNat_high4 (b : UInt8) : ((b &&& 0b11110000) >>> 4).toNat = b.toNat / 16 := by
  have hb := b.toNat_lt
  rw [UInt8.toNat_shiftRight, UInt8.toNat_and]
  show (b.toNat &&& 240) >>> 4 = _
  rw [Nat.shiftRight_and_distrib, Nat.shiftRight_eq_div_pow,
    show 240 >>> 4 = 2 ^ 4 - 1 from rfl, Nat.and_two_pow_sub_one_eq_mod]
  omega

theorem toNat_high2 (c : UInt8) : ((c &&& 0b11000000) >>> 6).toNat = c.toNat / 64 := by
  have hc := c.toNat_lt
  rw [UInt8.toNat_shiftRight, UInt8.toNat_and]
  show (c.toNat &&& 192) >>> 6 = _
  rw [Nat.shiftRight_and_distrib, Nat.shiftRight_eq_div_pow,
    show 192 >>> 6 = 2 ^ 2 - 1 from rfl, Nat.and_two_pow_sub_one_eq_mod]
  omega

/-- The bits of two numbers that do not overlap add up. -/
theorem toNat_or {x y : UInt8} {h l k : Nat} (hx : x.toNat = h * 2 ^ k) (hy : y.toNat = l)
    (hl : l < 2 ^ k) : (x ||| y).toNat = h * 2 ^ k + l := by
  rw [UInt8.toNat_or, hx, hy, ← Nat.shiftLeft_eq, Nat.shiftLeft_add_eq_or_of_lt hl]

theorem toNat_middle (a b : UInt8) :
    (((a &&& 0b00000011) <<< 4) ||| ((b &&& 0b11110000) >>> 4)).toNat =
      a.toNat % 4 * 16 + b.toNat / 16 := by
  have hb := b.toNat_lt
  exact toNat_or (k := 4) (toNat_low2 a) (toNat_high4 b) (by omega)

theorem toNat_middle' (b c : UInt8) :
    (((b &&& 0b00001111) <<< 2) ||| ((c &&& 0b11000000) >>> 6)).toNat =
      b.toNat % 16 * 4 + c.toNat / 64 := by
  have hc := c.toNat_lt
  exact toNat_or (k := 2) (toNat_low4 b) (toNat_high2 c) (by omega)

/-- `get_4_chars` writes a quantum. -/
theorem get4Chars_eq (a b c : UInt8) : get4Chars a b c = Base64.quantum a b c := by
  have ha := a.toNat_lt
  have hb := b.toNat_lt
  have hc := c.toNat_lt
  rw [get4Chars, lookup_eq (toNat_high6 a) (by omega), lookup_eq (toNat_middle a b) (by omega),
    lookup_eq (toNat_middle' b c) (by omega), lookup_eq (toNat_low6 c) (by omega),
    Base64.quantum, Base64.digits]
  simp only [List.cons.injEq, and_true]
  refine ⟨?_, ?_, ?_, ?_⟩
  all_goals
    congr 1
    omega

namespace Base64Encoder

/-! ## Calls with room for their text -/

/-- The bytes held over. -/
def held (e : Base64Encoder) : List UInt8 :=
  match e.count with
  | 0 => []
  | 1 => [e.first]
  | 2 => [e.first, e.second]

theorem length_held (e : Base64Encoder) : e.held.length = e.count.val := by
  unfold held
  split <;> simp [*]

theorem length_held_lt (e : Base64Encoder) : e.held.length < 3 := by
  rw [length_held]
  exact e.count.isLt

theorem held_eq_nil {e : Base64Encoder} : e.held = [] ↔ e.count = 0 := by
  rw [← List.length_eq_zero_iff, length_held]
  exact Fin.val_eq_zero_iff

theorem held_holdOver (e : Base64Encoder) {bs : List UInt8} (h : bs.length < 3) :
    (e.holdOver bs).held = bs := by
  match bs, h with
  | [], _ => rfl
  | [_], _ => rfl
  | [_, _], _ => rfl

/-- `finish` writes the padded quantum of the bytes held over. -/
theorem padding_eq (e : Base64Encoder) : e.padding = Base64.lastQuantum e.held := by
  have h1 := e.first.toNat_lt
  have h2 := e.second.toNat_lt
  unfold padding held
  split
  · rfl
  · rw [lookup_eq (toNat_high6 _) (by omega), lookup_eq (toNat_low2 _) (by omega),
      Base64.lastQuantum, Base64.digits]
    simp only [List.take_succ_cons, List.take_zero, List.cons_append, List.nil_append,
      List.cons.injEq, Base64.pad, and_true]
    constructor
    all_goals
      congr 1
      omega
  · rw [lookup_eq (toNat_high6 _) (by omega), lookup_eq (toNat_middle _ _) (by omega),
      lookup_eq (toNat_low4 _) (by omega), Base64.lastQuantum, Base64.digits]
    simp only [List.take_succ_cons, List.take_zero, List.cons_append, List.nil_append,
      List.cons.injEq, Base64.pad, and_true]
    refine ⟨?_, ?_, ?_⟩
    all_goals
      congr 1
      omega

variable {e : Base64Encoder} {mem : Mem} {out : View} {inp : List UInt8}

theorem noHoldoverLoop_of_short {inSize outPtr : Nat} (h : inp.length < 3) :
    noHoldoverLoop inSize outPtr e mem out inp =
      ⟨mem, e.holdOver inp, ⟨inSize, out.data - outPtr, .ok⟩⟩ := by
  match inp, h with
  | [], _ => rfl
  | [_], _ => rfl
  | [_, _], _ => rfl

/-- With room for every whole quantum the loop encodes all of them. -/
theorem noHoldoverLoop_eq {inSize outPtr : Nat} (hroom : 4 * (inp.length / 3) ≤ out.size) :
    noHoldoverLoop inSize outPtr e mem out inp =
      ⟨mem.store out.data (Base64.quanta inp), e.holdOver (Base64.leftover inp),
        ⟨inSize, out.data + (Base64.quanta inp).length - outPtr, .ok⟩⟩ := by
  induction inp using Base64.quanta_induction generalizing mem out with
  | short inp h =>
    rw [noHoldoverLoop_of_short h, Base64.quanta_of_short h, Base64.leftover_of_short h,
      Mem.store_nil]
    rfl
  | quantum b0 b1 b2 rest ih =>
    simp only [List.length_cons] at hroom
    have hsize : 4 ≤ out.size := by omega
    have hrest : 4 * (rest.length / 3) ≤ (out.advance 4).size := by
      rw [View.advance_of_le hsize]
      show _ ≤ out.size - 4
      omega
    rw [noHoldoverLoop, if_neg (by omega), ih hrest, View.advance_of_le hsize, get4Chars_eq,
      Base64.quanta_cons, Base64.leftover_cons]
    simp only [Outcome.mk.injEq, EncodingResult.mk.injEq, true_and, and_true, List.length_append,
      Base64.length_quantum]
    constructor
    · exact Mem.store_append mem out.data (Base64.quantum b0 b1 b2) (Base64.quanta rest)
    · omega

/-- A whole quantum of held and new bytes, then the loop. -/
theorem encodeB64NoHoldover_after {b0 b1 b2 : UInt8} (hsize : 4 ≤ out.size)
    (hroom : 4 * (inp.length / 3) + 4 ≤ out.size) :
    e.encodeB64NoHoldover (mem.store out.data (get4Chars b0 b1 b2)) inp (out.advance 4) =
      ⟨mem.store out.data (Base64.quanta (b0 :: b1 :: b2 :: inp)),
        e.holdOver (Base64.leftover inp), ⟨inp.length, (Base64.quanta inp).length, .ok⟩⟩ := by
  have hrest : 4 * (inp.length / 3) ≤ (out.advance 4).size := by
    rw [View.advance_of_le hsize]
    show _ ≤ out.size - 4
    omega
  rw [encodeB64NoHoldover, noHoldoverLoop_eq hrest, View.advance_of_le hsize, get4Chars_eq,
    Base64.quanta_cons]
  simp only [Outcome.mk.injEq, EncodingResult.mk.injEq, true_and, and_true]
  constructor
  · exact Mem.store_append mem out.data (Base64.quantum b0 b1 b2) (Base64.quanta inp)
  · omega

/-- `encode` with room for the whole quanta of held and new bytes. -/
theorem encode_eq (e : Base64Encoder) (mem : Mem)
    (hroom : 4 * ((e.held.length + inp.length) / 3) ≤ out.size) :
    ∃ e', e'.held = Base64.leftover (e.held ++ inp) ∧
      e.encode mem inp out = ⟨mem.store out.data (Base64.quanta (e.held ++ inp)), e',
        ⟨inp.length, (Base64.quanta (e.held ++ inp)).length, .ok⟩⟩ := by
  by_cases hinp : inp = []
  · subst hinp
    refine ⟨e, ?_, ?_⟩
    · rw [List.append_nil, Base64.leftover_of_short e.length_held_lt]
    · rw [List.append_nil, Base64.quanta_of_short e.length_held_lt, Mem.store_nil]
      rfl
  have hloop := Base64.length_leftover_lt
  obtain ⟨count, first, second⟩ := e
  match count with
  | 0 =>
    refine ⟨_, held_holdOver ⟨0, first, second⟩ (hloop inp), ?_⟩
    have h : 4 * (inp.length / 3) ≤ out.size := by simpa [held] using hroom
    rw [encode, dif_neg hinp, encodeB64NoHoldover, noHoldoverLoop_eq h]
    simp only [held, List.nil_append, Outcome.mk.injEq, EncodingResult.mk.injEq, true_and,
      and_true]
    omega
  | 1 =>
    match inp, hinp with
    | [b], _ =>
      refine ⟨⟨2, first, b⟩, rfl, ?_⟩
      simp [encode, encode641Holdover, held, Base64.quanta]
    | b0 :: b1 :: rest, _ =>
      refine ⟨_, held_holdOver ⟨1, first, second⟩ (hloop rest), ?_⟩
      simp only [held, List.length_cons, List.length_nil] at hroom
      rw [encode, dif_neg (by simp)]
      show encode641Holdover _ mem out (b0 :: b1 :: rest) _ = _
      rw [encode641Holdover, if_neg (by omega),
        encodeB64NoHoldover_after (by omega) (by omega)]
      simp only [held, List.cons_append, List.nil_append, Base64.quanta_cons, List.length_append,
        Base64.length_quantum, List.length_cons, Base64.leftover_cons, Nat.add_comm 4]
  | 2 =>
    match inp, hinp with
    | b0 :: rest, _ =>
      refine ⟨_, held_holdOver ⟨2, first, second⟩ (hloop rest), ?_⟩
      simp only [held, List.length_cons, List.length_nil] at hroom
      rw [encode, dif_neg (by simp)]
      show encode642Holdover _ mem out (b0 :: rest) = _
      rw [encode642Holdover, if_neg (by omega),
        encodeB64NoHoldover_after (by omega) (by omega)]
      simp only [held, List.cons_append, List.nil_append, Base64.quanta_cons, List.length_append,
        Base64.length_quantum, List.length_cons, Base64.leftover_cons, Nat.add_comm 4]

/-- `finish` with room for the padded text of held and new bytes. -/
theorem finish_eq (hroom : (Base64.encode (e.held ++ inp)).length ≤ out.size) :
    e.finish mem inp out = ⟨mem.store out.data (Base64.encode (e.held ++ inp)), init,
      ⟨inp.length, (Base64.encode (e.held ++ inp)).length, .ok⟩⟩ := by
  have htext := Base64.encode_eq (e.held ++ inp)
  have hlen := congrArg List.length htext
  rw [List.length_append] at hlen
  have hquanta := Base64.length_quanta (e.held ++ inp)
  rw [List.length_append] at hquanta
  obtain ⟨e', hheld, hencode⟩ := encode_eq e mem
    (show 4 * ((e.held.length + inp.length) / 3) ≤ out.size by omega)
  have hlast := Base64.length_lastQuantum (Base64.length_leftover_lt (e.held ++ inp))
  rw [← hheld] at hlast hlen
  simp only [held_eq_nil] at hlast
  have hadv : out.advance (Base64.quanta (e.held ++ inp)).length =
      ⟨out.data + (Base64.quanta (e.held ++ inp)).length,
        out.size - (Base64.quanta (e.held ++ inp)).length⟩ := View.advance_of_le (by omega)
  simp only [finish, hencode, hadv, reduceCtorEq, if_false]
  rw [if_neg, padding_eq, Mem.store_append, hheld, ← htext, hlen, hlast]
  · simp only [init, ite_not]
  · rintro ⟨hcount, hsize⟩
    rw [if_neg hcount] at hlast
    omega

/-! ## Calls without room -/

/-- Without room the loop reports the bytes of both buffers that are left when it stops. -/
theorem noHoldoverLoop_full (inSize outPtr : Nat) (e : Base64Encoder) (mem : Mem)
    (hfull : out.size < 4 * (inp.length / 3)) :
    ∃ mem', noHoldoverLoop inSize outPtr e mem out inp = ⟨mem', e,
      ⟨inp.length - 3 * (out.size / 4), out.size % 4, .outputBufferFull⟩⟩ := by
  induction inp using Base64.quanta_induction generalizing mem out with
  | short inp h => omega
  | quantum b0 b1 b2 rest ih =>
    simp only [List.length_cons] at hfull
    by_cases hsize : out.size < 4
    · refine ⟨mem, ?_⟩
      rw [noHoldoverLoop, if_pos hsize]
      simp only [List.length_cons, Outcome.mk.injEq, EncodingResult.mk.injEq, true_and, and_true]
      omega
    · have hadv : (out.advance 4).size = out.size - 4 := by rw [View.advance_of_le (by omega)]
      obtain ⟨mem', hloop⟩ := ih (mem.store out.data (get4Chars b0 b1 b2))
        (show (out.advance 4).size < 4 * (rest.length / 3) by omega)
      refine ⟨mem', ?_⟩
      rw [noHoldoverLoop, if_neg hsize, hloop, hadv]
      simp only [List.length_cons, Outcome.mk.injEq, EncodingResult.mk.injEq, true_and, and_true]
      omega

theorem encodeB64NoHoldover_after_full (e : Base64Encoder) (mem : Mem) (b0 b1 b2 : UInt8)
    (hsize : 4 ≤ out.size) (hfull : out.size < 4 * (inp.length / 3) + 4) :
    ∃ mem', e.encodeB64NoHoldover (mem.store out.data (get4Chars b0 b1 b2)) inp
      (out.advance 4) = ⟨mem', e,
        ⟨inp.length + 3 - 3 * (out.size / 4), out.size % 4, .outputBufferFull⟩⟩ := by
  have hadv : (out.advance 4).size = out.size - 4 := by rw [View.advance_of_le hsize]
  obtain ⟨mem', hloop⟩ := noHoldoverLoop_full inp.length (out.advance 4).data e
    (mem.store out.data (get4Chars b0 b1 b2))
    (show (out.advance 4).size < 4 * (inp.length / 3) by omega)
  refine ⟨mem', ?_⟩
  rw [encodeB64NoHoldover, hloop, hadv]
  simp only [Outcome.mk.injEq, EncodingResult.mk.injEq, true_and, and_true]
  omega

/-- The quantum of the bytes held over has no room: nothing is done. -/
theorem encode_full_of_held (mem : Mem) (hcount : e.count ≠ 0) (hsize : out.size < 4)
    (hfull : 3 ≤ e.held.length + inp.length) :
    e.encode mem inp out = ⟨mem, e, ⟨0, 0, .outputBufferFull⟩⟩ := by
  have hinp : inp ≠ [] := by
    rintro rfl
    have := e.length_held_lt
    simp only [List.length_nil] at hfull
    omega
  obtain ⟨count, first, second⟩ := e
  match count with
  | 0 => exact absurd rfl hcount
  | 1 =>
    match inp, hinp with
    | [b], _ => simp [held] at hfull
    | b0 :: b1 :: rest, _ => simp [encode, encode641Holdover, hsize]
  | 2 =>
    match inp, hinp with
    | b0 :: rest, _ => simp [encode, encode642Holdover, hsize]

/-- The loop runs out of room: `processed` and `output` count what is left of the input and
of the buffer, behind the quantum of the bytes held over, and the encoder still holds those. -/
theorem encode_full_of_loop (mem : Mem) {k : Nat} (hk : k = if e.count = 0 then 0 else 1)
    (hsize : 4 * k ≤ out.size) (hfull : out.size < 4 * ((e.held.length + inp.length) / 3)) :
    ∃ mem', e.encode mem inp out = ⟨mem', e,
      ⟨inp.length + 3 * k - 3 * (out.size / 4), out.size % 4 + 4 * k, .outputBufferFull⟩⟩ := by
  have hinp : inp ≠ [] := by
    rintro rfl
    have := e.length_held_lt
    simp only [List.length_nil] at hfull
    omega
  obtain ⟨count, first, second⟩ := e
  match count with
  | 0 =>
    have hk0 : k = 0 := hk
    simp only [held, List.length_nil, Nat.zero_add] at hfull
    obtain ⟨mem', hloop⟩ := noHoldoverLoop_full inp.length out.data ⟨0, first, second⟩ mem
      hfull
    refine ⟨mem', ?_⟩
    rw [encode, dif_neg hinp]
    show encodeB64NoHoldover _ mem inp out = _
    rw [encodeB64NoHoldover, hloop, hk0]
    simp only [Nat.mul_zero, Nat.add_zero]
  | 1 =>
    have hk1 : k = 1 := hk
    subst hk1
    match inp, hinp with
    | [b], _ => simp [held] at hfull
    | b0 :: b1 :: rest, _ =>
      simp only [held, List.length_cons, List.length_nil] at hfull
      obtain ⟨mem', hloop⟩ := encodeB64NoHoldover_after_full ⟨1, first, second⟩ mem first b0 b1
        hsize (show out.size < 4 * (rest.length / 3) + 4 by omega)
      refine ⟨mem', ?_⟩
      rw [encode, dif_neg (by simp)]
      show encode641Holdover _ mem out (b0 :: b1 :: rest) _ = _
      rw [encode641Holdover, if_neg (by omega), hloop]
      simp only [List.length_cons, Outcome.mk.injEq, EncodingResult.mk.injEq, true_and, and_true]
      omega
  | 2 =>
    have hk1 : k = 1 := hk
    subst hk1
    match inp, hinp with
    | b0 :: rest, _ =>
      simp only [held, List.length_cons, List.length_nil] at hfull
      obtain ⟨mem', hloop⟩ := encodeB64NoHoldover_after_full ⟨2, first, second⟩ mem first second
        b0 hsize (show out.size < 4 * (rest.length / 3) + 4 by omega)
      refine ⟨mem', ?_⟩
      rw [encode, dif_neg (by simp)]
      show encode642Holdover _ mem out (b0 :: rest) = _
      rw [encode642Holdover, if_neg (by omega), hloop]
      simp only [List.length_cons, Outcome.mk.injEq, EncodingResult.mk.injEq, true_and, and_true]
      omega

theorem length_encode (e : Base64Encoder) (inp : List UInt8) :
    (Base64.encode (e.held ++ inp)).length =
      4 * ((e.held.length + inp.length) / 3) +
        if Base64.leftover (e.held ++ inp) = [] then 0 else 4 := by
  rw [Base64.encode_eq, List.length_append, Base64.length_quanta, List.length_append,
    Base64.length_lastQuantum (Base64.length_leftover_lt _)]

/-- The quanta have room and the padded one does not: they are written and reported, and the
bytes behind them are held over. -/
theorem finish_full_of_padding (e : Base64Encoder) (mem : Mem)
    (hroom : 4 * ((e.held.length + inp.length) / 3) ≤ out.size)
    (hfull : out.size < (Base64.encode (e.held ++ inp)).length) :
    ∃ e', e'.held = Base64.leftover (e.held ++ inp) ∧
      e.finish mem inp out = ⟨mem.store out.data (Base64.quanta (e.held ++ inp)), e',
        ⟨inp.length, (Base64.quanta (e.held ++ inp)).length, .outputBufferFull⟩⟩ := by
  obtain ⟨e', hheld, hencode⟩ := encode_eq e mem hroom
  have hlen := Base64.length_quanta (e.held ++ inp)
  rw [List.length_append] at hlen
  rw [length_encode] at hfull
  have hcount : e'.count ≠ 0 := by
    intro h0
    rw [← hheld, if_pos (held_eq_nil.mpr h0)] at hfull
    omega
  rw [← hheld, if_neg fun h => hcount (held_eq_nil.mp h)] at hfull
  refine ⟨e', hheld, ?_⟩
  have hadv : (out.advance (Base64.quanta (e.held ++ inp)).length).size =
      out.size - (Base64.quanta (e.held ++ inp)).length := by
    rw [View.advance_of_le (by omega)]
  simp only [finish, hencode, hadv, reduceCtorEq, if_false]
  rw [if_pos ⟨hcount, by omega⟩]

theorem finish_full_of_encode {mem : Mem}
    (h : (e.encode mem inp out).result.status = .outputBufferFull) :
    e.finish mem inp out = e.encode mem inp out := if_pos h

/-- `encode` has no other status than `Ok` and `OutputBufferFull`. -/
theorem status_encode (e : Base64Encoder) (mem : Mem) (inp : List UInt8) (out : View) :
    (e.encode mem inp out).result.status =
      if 4 * ((e.held.length + inp.length) / 3) ≤ out.size then .ok else .outputBufferFull := by
  split
  · rename_i hroom
    obtain ⟨e', _, hencode⟩ := encode_eq e mem hroom
    rw [hencode]
  · rename_i hfull
    by_cases hheld : e.count ≠ 0 ∧ out.size < 4
    · rw [encode_full_of_held mem hheld.1 hheld.2 (by omega)]
    · have hsize : 4 * (if e.count = 0 then 0 else 1) ≤ out.size := by
        split <;> omega
      obtain ⟨mem', hencode⟩ := encode_full_of_loop mem rfl hsize (Nat.not_le.mp hfull)
      rw [hencode]

theorem status_finish (e : Base64Encoder) (mem : Mem) (inp : List UInt8) (out : View) :
    (e.finish mem inp out).result.status =
      if (Base64.encode (e.held ++ inp)).length ≤ out.size then .ok else .outputBufferFull := by
  split
  · rename_i hroom
    rw [finish_eq hroom]
  · rename_i hfull
    by_cases hquanta : 4 * ((e.held.length + inp.length) / 3) ≤ out.size
    · obtain ⟨e', _, hfinish⟩ := finish_full_of_padding e mem hquanta (Nat.not_le.mp hfull)
      rw [hfinish]
    · have hstatus := status_encode e mem inp out
      rw [if_neg hquanta] at hstatus
      rw [finish_full_of_encode hstatus, hstatus]

end Base64Encoder

end Csics.EncDec
