import Mathlib.Algebra.Order.Field.Basic
import Mathlib.Algebra.Order.Floor.Ring
import Mathlib.Order.Interval.Set.LinearOrder

/-!
# Bins

The elements of an ordered field in bins of one width, from an origin on. The bins that intersect an
interval are those from the floor of its start on and before the ceiling of its end.
-/

namespace Csics.Base

open Set

variable {K : Type*} [Field K] [LinearOrder K]

/-- The elements of bin `i`. -/
def bin (origin width : K) (i : ℤ) : Set K :=
  Ico (origin + i * width) (origin + (i + 1) * width)

variable [IsStrictOrderedRing K] {origin width a b : K} {i : ℤ}

theorem bin_inter_Ico_nonempty (hwidth : 0 < width) (hab : a < b) :
    (bin origin width i ∩ Ico a b).Nonempty ↔
      a < origin + (i + 1) * width ∧ origin + i * width < b := by
  have hbin : origin + i * width < origin + (i + 1) * width := by
    rw [add_lt_add_iff_left, mul_lt_mul_iff_left₀ hwidth]
    exact lt_add_one _
  rw [bin, Ico_inter_Ico, nonempty_Ico, sup_lt_iff, lt_inf_iff, lt_inf_iff]
  constructor
  · rintro ⟨⟨-, hend⟩, hstart, -⟩
    exact ⟨hstart, hend⟩
  · rintro ⟨hstart, hend⟩
    exact ⟨⟨hbin, hend⟩, hstart, hab⟩

variable [FloorRing K]

theorem floor_le_iff (hwidth : 0 < width) :
    ⌊(a - origin) / width⌋ ≤ i ↔ a < origin + (i + 1) * width := by
  rw [← Int.lt_add_one_iff, Int.floor_lt, div_lt_iff₀ hwidth, sub_lt_iff_lt_add', Int.cast_add,
    Int.cast_one]

theorem lt_ceil_iff (hwidth : 0 < width) :
    i < ⌈(b - origin) / width⌉ ↔ origin + i * width < b := by
  rw [Int.lt_ceil, lt_div_iff₀ hwidth, lt_sub_iff_add_lt']

theorem le_floor_iff (hwidth : 0 < width) :
    i ≤ ⌊(a - origin) / width⌋ ↔ origin + i * width ≤ a := by
  rw [Int.le_floor, le_div_iff₀ hwidth, le_sub_iff_add_le']

theorem ceil_le_iff (hwidth : 0 < width) :
    ⌈(b - origin) / width⌉ ≤ i ↔ b ≤ origin + i * width := by
  rw [Int.ceil_le, div_le_iff₀ hwidth, sub_le_iff_le_add']

/-- No bin is intersected by an empty interval on an edge, and by no other one. -/
theorem floor_eq_ceil_iff (hwidth : 0 < width) (hab : a ≤ b) :
    ⌊(a - origin) / width⌋ = ⌈(b - origin) / width⌉ ↔
      a = b ∧ ∃ k : ℤ, a = origin + k * width := by
  constructor
  · intro heq
    have hfloor := (le_floor_iff hwidth).mp (le_refl ⌊(a - origin) / width⌋)
    have hceil := (ceil_le_iff hwidth).mp (le_refl ⌈(b - origin) / width⌉)
    rw [← heq] at hceil
    exact ⟨hab.antisymm (hceil.trans hfloor), _, (hab.trans hceil).antisymm hfloor⟩
  · intro h
    obtain ⟨rfl, k, rfl⟩ := h
    rw [add_sub_cancel_left, mul_div_cancel_right₀ _ hwidth.ne', Int.floor_intCast,
      Int.ceil_intCast]

/-- The bins that an interval intersects. -/
theorem bin_inter_Ico_nonempty_iff (hwidth : 0 < width) (hab : a < b) :
    (bin origin width i ∩ Ico a b).Nonempty ↔
      ⌊(a - origin) / width⌋ ≤ i ∧ i < ⌈(b - origin) / width⌉ := by
  rw [bin_inter_Ico_nonempty hwidth hab, floor_le_iff hwidth, lt_ceil_iff hwidth]

end Csics.Base
