import Mathlib.Data.Nat.Bitwise
import Mathlib.Data.Nat.Size
import Mathlib.Order.Bounds.Basic

/-!
# Spreading the highest bit

`y` is `x` smeared over `k` bits when a bit of `y` is set exactly if one of the `k` bits of `x`
from there upwards is. `y ||| y >>> k` is then smeared over twice as many (`Smeared.double`), and
over all bits of `x` the smear is the number of ones that `x` has digits (`Smeared.eq`).
-/

namespace Csics.Base

/-- Bit `i` of `y` is set if one of the bits from `i` to `i + k - 1` of `x` is. -/
def Smeared (k x y : Nat) : Prop := ∀ i, y.testBit i ↔ ∃ j < k, x.testBit (i + j)

namespace Smeared

variable {k x y : Nat}

theorem refl (x : Nat) : Smeared 1 x x := by
  intro i
  constructor
  · intro h
    exact ⟨0, Nat.one_pos, h⟩
  · rintro ⟨j, hj, h⟩
    rwa [Nat.lt_one_iff.mp hj] at h

theorem double (h : Smeared k x y) : Smeared (k + k) x (y ||| y >>> k) := by
  intro i
  rw [Nat.testBit_or, Nat.testBit_shiftRight, Bool.or_eq_true, h, h]
  constructor
  · rintro (⟨j, hj, hbit⟩ | ⟨j, hj, hbit⟩)
    · exact ⟨j, by omega, hbit⟩
    · exact ⟨k + j, by omega, by rwa [show i + (k + j) = k + i + j by omega]⟩
  · rintro ⟨j, hj, hbit⟩
    by_cases hlow : j < k
    · exact Or.inl ⟨j, hlow, hbit⟩
    · exact Or.inr ⟨j - k, by omega, by rwa [show k + i + (j - k) = i + j by omega]⟩

/-- Smeared over all its bits, a number becomes the ones below its size. -/
theorem eq (h : Smeared k x y) (hx : x < 2 ^ k) : y = 2 ^ x.size - 1 := by
  apply Nat.eq_of_testBit_eq
  intro i
  rw [Nat.testBit_two_pow_sub_one, Bool.eq_iff_iff, h, decide_eq_true_iff, Nat.lt_size]
  constructor
  · rintro ⟨j, -, hbit⟩
    exact (Nat.pow_le_pow_right (by omega) (Nat.le_add_right i j)).trans
      (Nat.ge_two_pow_of_testBit hbit)
  · intro hle
    obtain ⟨n, hn, hbit⟩ := Nat.exists_ge_and_testBit_of_ge_two_pow hle
    have hlt : n < k := (Nat.pow_lt_pow_iff_right (by omega)).mp
      ((Nat.ge_two_pow_of_testBit hbit).trans_lt hx)
    exact ⟨n - i, by omega, by rwa [Nat.add_sub_cancel' hn]⟩

end Smeared

/-- The powers of two from `v` on begin with the one that has more digits than `v - 1`. -/
theorem isLeast_two_pow_size {v : Nat} (hv : 0 < v) :
    IsLeast {p | p.isPowerOfTwo ∧ v ≤ p} (2 ^ (v - 1).size) := by
  constructor
  · have hlt := Nat.lt_size_self (v - 1)
    exact ⟨⟨_, rfl⟩, by omega⟩
  · rintro p ⟨⟨k, rfl⟩, hle⟩
    have hsize : (v - 1).size ≤ k := Nat.size_le.mpr (by omega)
    exact Nat.pow_le_pow_right (by omega) hsize

end Csics.Base
