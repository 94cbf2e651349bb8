import Csics.Base.Memory

/-!
# Buffer views

`BasicBufferView<char>` of `include/csics/Buffer.hpp`: a pointer and a size. A pointer
is an address, and `nullptr` is address `0`.
-/

namespace Csics.Serialization

open Base

/-- `BufferView` and `MutableBufferView`. -/
structure View where
  data : Nat
  size : Nat
  deriving DecidableEq, Repr

/-- `nullptr`. -/
def nullptr : Nat := 0

namespace View

/-- The default constructor. -/
def empty : View := ⟨nullptr, 0⟩

/-- `subview(offset, length)` and `operator()`. -/
def subview (v : View) (offset length : Nat) : View :=
  if offset ≥ v.size then empty
  else if offset + length > v.size then ⟨v.data + offset, v.size - offset⟩
  else ⟨v.data + offset, length⟩

/-- `operator+=`. -/
def advance (v : View) (offset : Nat) : View :=
  if offset > v.size then empty else ⟨v.data + offset, v.size - offset⟩

/-- `operator++`. -/
def increment (v : View) : View := if v.size = 0 then v else ⟨v.data + 1, v.size - 1⟩

theorem advance_of_le {v : View} {n : Nat} (h : n ≤ v.size) :
    v.advance n = ⟨v.data + n, v.size - n⟩ := if_neg (Nat.not_lt.mpr h)

@[simp] theorem advance_zero (v : View) : v.advance 0 = v := rfl

theorem advance_advance {v : View} {m n : Nat} (h : m + n ≤ v.size) :
    (v.advance m).advance n = v.advance (m + n) := by
  rw [advance_of_le h, advance_of_le (show m ≤ v.size by omega),
    advance_of_le (by simpa using by omega)]
  simp only [mk.injEq]
  omega

/-- The first `n` bytes of a view. -/
theorem size_subview_zero {v : View} {n : Nat} (h : n ≤ v.size) : (v.subview 0 n).size = n := by
  unfold subview
  by_cases h0 : 0 ≥ v.size
  · rw [if_pos h0]
    simp only [empty]
    omega
  · rw [if_neg h0, if_neg (by omega)]

theorem subview_zero_of_pos {v : View} {n : Nat} (h : n ≤ v.size) (hpos : 0 < n) :
    v.subview 0 n = ⟨v.data, n⟩ := by
  rw [subview, if_neg (by omega), if_neg (by omega), Nat.add_zero]

end View

/-- `SerializationStatus`. -/
inductive SerializationStatus where
  | ok
  | bufferFull
  | nonFatalError
  | failed
  deriving DecidableEq, Repr

/-- `DeserializationStatus`. -/
inductive DeserializationStatus where
  | ok
  | bufferEmpty
  | invalidData
  deriving DecidableEq, Repr

structure SerializationResult where
  writtenView : View
  status : SerializationStatus
  deriving DecidableEq, Repr

end Csics.Serialization
