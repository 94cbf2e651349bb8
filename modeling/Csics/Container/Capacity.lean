import Mathlib.Algebra.Ring.Nat
import Mathlib.Data.Nat.Log

/-!
# Capacity policies

`CapacityPolicy` of `include/csics/Buffer.hpp`, and `Buffer::adjust_capacity`. The sizes are far
below `2^64`. A policy never gives less than what is requested (`le_adjustCapacity`).
-/

namespace Csics.Container

/-- `CapacityPolicy`. A line of `CacheAligned` has a size, and a function of `Custom` gives room for
what is requested, as `reallocate` asserts. -/
inductive CapacityPolicy where
  | exact
  | fiftyPercent
  | powerOfTwo
  | cacheAligned (lineSize : Nat) (pos : 0 < lineSize)
  | custom (func : Nat → Nat) (le_func : ∀ n, n ≤ func n)

/-- A natural number as a `float`: rounded to 24 bits, and to the even one of two that are equally
near. -/
def toFloat (n : Nat) : Nat :=
  let ulp := 2 ^ (Nat.log2 n + 1 - 24)
  let below := n / ulp
  if 2 * (n % ulp) > ulp ∨ 2 * (n % ulp) = ulp ∧ below % 2 = 1 then (below + 1) * ulp
  else below * ulp

/-- `std::ceil(requested_size * 1.5f)`. The product is a number of halves, and a `float` too. -/
def ceilFiftyPercent (requestedSize : Nat) : Nat := (toFloat (toFloat requestedSize * 3) + 1) / 2

/-- `std::bit_ceil`. -/
def bitCeil (n : Nat) : Nat := 2 ^ Nat.clog 2 n

/-- `Buffer::adjust_capacity`. -/
def CapacityPolicy.adjustCapacity (policy : CapacityPolicy) (requestedSize : Nat) : Nat :=
  match policy with
  | .exact => requestedSize
  | .powerOfTwo => bitCeil requestedSize
  | .cacheAligned lineSize _ => (requestedSize + lineSize - 1) / lineSize * lineSize
  | .custom func _ => func requestedSize
  | .fiftyPercent =>
    let newCapacity := ceilFiftyPercent requestedSize
    if newCapacity > requestedSize then newCapacity else requestedSize

theorem CapacityPolicy.le_adjustCapacity (policy : CapacityPolicy) (n : Nat) :
    n ≤ policy.adjustCapacity n := by
  cases policy with
  | exact => exact Nat.le_refl n
  | fiftyPercent =>
    unfold adjustCapacity
    dsimp only
    split <;> omega
  | powerOfTwo => exact Nat.le_pow_clog Nat.one_lt_two n
  | cacheAligned lineSize pos =>
    have hlt := Nat.lt_div_mul_add (a := n + lineSize - 1) pos
    simp only [adjustCapacity]
    omega
  | custom func le_func => exact le_func n

/-- Half as much again, and for `2^24 + 1`, which is no `float`, a bit less. -/
example : CapacityPolicy.fiftyPercent.adjustCapacity 11 = 17 ∧
    CapacityPolicy.fiftyPercent.adjustCapacity (2 ^ 24 + 1) = 3 * 2 ^ 23 := by decide

end Csics.Container
