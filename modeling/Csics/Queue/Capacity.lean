import Csics.Base.Bits
import Csics.Queue.Placement

/-!
# The capacity of a queue

The constructor of `SPSCQueue` rounds the requested capacity up to a power of two and takes a cache
line if that is more. `get_next_power_of_two` spreads the highest bit of `v - 1` over the lower
ones and adds one. For requests above `2^63` the sum wraps around to `0`, and the queue has one
cache line.
-/

namespace Csics.Queue

open Base

/-! ## `get_next_power_of_two` -/

/-- `v |= v >> n`. -/
def orShift (v n : UInt64) : UInt64 := v ||| v >>> n

/-- `get_next_power_of_two(v)`. -/
def getNextPowerOfTwo (v : UInt64) : UInt64 :=
  let v := v - 1
  let v := orShift v 1
  let v := orShift v 2
  let v := orShift v 4
  let v := orShift v 8
  let v := orShift v 16
  let v := orShift v 32
  v + 1

theorem smeared_orShift {k : Nat} {v w n : UInt64} (h : Smeared k v.toNat w.toNat)
    (hn : n.toNat % 64 = k) : Smeared (k + k) v.toNat (orShift w n).toNat := by
  rw [orShift, UInt64.toNat_or, UInt64.toNat_shiftRight, hn]
  exact h.double

/-- The least power of two that is more than `v - 1`, as a word. -/
theorem toNat_getNextPowerOfTwo (v : UInt64) :
    (getNextPowerOfTwo v).toNat = 2 ^ (v - 1).toNat.size % 2 ^ 64 := by
  have h1 : Smeared 1 (v - 1).toNat (v - 1).toNat := .refl _
  have h2 := smeared_orShift h1 (n := 1) rfl
  have h4 := smeared_orShift h2 (n := 2) rfl
  have h8 := smeared_orShift h4 (n := 4) rfl
  have h16 := smeared_orShift h8 (n := 8) rfl
  have h32 := smeared_orShift h16 (n := 16) rfl
  have h64 := (smeared_orShift h32 (n := 32) rfl).eq (UInt64.toNat_lt _)
  have hpos := Nat.two_pow_pos (v - 1).toNat.size
  simp only [getNextPowerOfTwo]
  rw [UInt64.toNat_add, h64, show UInt64.toNat 1 = 1 from rfl, Nat.sub_add_cancel hpos]

/-- The result is a power of two, or the sum has wrapped around. -/
theorem getNextPowerOfTwo_cases (v : UInt64) :
    getNextPowerOfTwo v = 0 ∨ ∃ k, (getNextPowerOfTwo v).toNat = 2 ^ k := by
  have heq := toNat_getNextPowerOfTwo v
  have hle : (v - 1).toNat.size ≤ 64 := Nat.size_le.mpr (UInt64.toNat_lt _)
  rcases hle.lt_or_eq with hlt | hsize
  · rw [Nat.mod_eq_of_lt (Nat.pow_lt_pow_right (by omega) hlt)] at heq
    exact Or.inr ⟨_, heq⟩
  · rw [hsize, Nat.mod_self] at heq
    exact Or.inl (UInt64.toNat.inj heq)

/-- Up to `2^63` nothing wraps around. -/
theorem isLeast_getNextPowerOfTwo {v : UInt64} (hpos : 0 < v.toNat) (hle : v.toNat ≤ 2 ^ 63) :
    IsLeast {p | p.isPowerOfTwo ∧ v.toNat ≤ p} (getNextPowerOfTwo v).toNat := by
  have hpred : (v - 1).toNat = v.toNat - 1 := by
    have hone : 1 ≤ v := UInt64.le_iff_toNat_le.mpr (Nat.succ_le_of_lt hpos)
    rw [UInt64.toNat_sub_of_le _ _ hone]
    rfl
  have hsize : (v.toNat - 1).size ≤ 63 := Nat.size_le.mpr (by omega)
  have hlt : 2 ^ (v.toNat - 1).size < 2 ^ 64 := Nat.pow_lt_pow_right (by omega) (by omega)
  rw [toNat_getNextPowerOfTwo, hpred, Nat.mod_eq_of_lt hlt]
  exact isLeast_two_pow_size hpos

/-- Above `2^63`, and for `0`, the sum wraps around. -/
theorem getNextPowerOfTwo_eq_zero_iff (v : UInt64) :
    getNextPowerOfTwo v = 0 ↔ v = 0 ∨ 2 ^ 63 < v.toNat := by
  constructor
  · intro hzero
    by_contra hnot
    obtain ⟨hne, hle⟩ := not_or.mp hnot
    have hpos : 0 < v.toNat := Nat.pos_of_ne_zero fun h => hne (UInt64.toNat.inj h)
    have hmem := (isLeast_getNextPowerOfTwo hpos (Nat.le_of_not_lt hle)).1.2
    rw [hzero, UInt64.toNat_zero] at hmem
    omega
  · intro hv
    have hlarge : 2 ^ 63 ≤ (v - 1).toNat := by
      rcases hv with rfl | hlt
      · decide
      · have hle : 1 ≤ v := UInt64.le_iff_toNat_le.mpr (Nat.succ_le_of_lt (by omega))
        rw [UInt64.toNat_sub_of_le _ _ hle]
        exact Nat.le_pred_of_lt hlt
    have hle : (v - 1).toNat.size ≤ 64 := Nat.size_le.mpr (UInt64.toNat_lt _)
    have hge : 63 < (v - 1).toNat.size := Nat.lt_size.mpr hlarge
    apply UInt64.toNat.inj
    rw [toNat_getNextPowerOfTwo, show (v - 1).toNat.size = 64 by omega, Nat.mod_self]
    rfl

/-! ## The constructor -/

/-- `SPSCQueue(capacity)`. -/
def SPSCQueue.make (kCacheLineSize capacity : UInt64) (buffer : Mem) : SPSCQueue :=
  .init (max kCacheLineSize (getNextPowerOfTwo capacity)) buffer

theorem toNat_max (a b : UInt64) : (max a b).toNat = max a.toNat b.toNat := by
  by_cases hle : a ≤ b
  · have hmax : max a b = b := if_pos hle
    rw [hmax, Nat.max_eq_right (UInt64.le_iff_toNat_le.mp hle)]
  · have hmax : max a b = a := if_neg hle
    have hlt : b.toNat < a.toNat := Nat.lt_of_not_le fun h => hle (UInt64.le_iff_toNat_le.mpr h)
    rw [hmax, Nat.max_eq_left hlt.le]

/-- The larger one is a power of two, for a wrapped sum is less than a cache line. -/
theorem exists_toNat_max {kCacheLineSize : UInt64} {k : Nat} (hline : kCacheLineSize.toNat = 2 ^ k)
    (v : UInt64) :
    ∃ j, k ≤ j ∧ (max kCacheLineSize (getNextPowerOfTwo v)).toNat = 2 ^ j := by
  rw [toNat_max, hline]
  rcases getNextPowerOfTwo_cases v with hzero | ⟨j, hj⟩
  · rw [hzero, UInt64.toNat_zero]
    exact ⟨k, le_rfl, Nat.max_eq_left (Nat.zero_le _)⟩
  · rw [hj]
    rcases le_total k j with hle | hle
    · exact ⟨j, hle, Nat.max_eq_right (Nat.pow_le_pow_right (by omega) hle)⟩
    · exact ⟨k, le_rfl, Nat.max_eq_left (Nat.pow_le_pow_right (by omega) hle)⟩

/-- The capacity of a queue is a power of two and at least a cache line. -/
theorem exists_config {kCacheLineSize : UInt64} {k : Nat} (hline : kCacheLineSize.toNat = 2 ^ k)
    (hk : 3 ≤ k) (capacity : UInt64) :
    ∃ c : Config, c.kCacheLineSize = kCacheLineSize ∧
      c.capacity = max kCacheLineSize (getNextPowerOfTwo capacity) := by
  obtain ⟨j, hkj, hj⟩ := exists_toNat_max hline capacity
  exact ⟨⟨kCacheLineSize, _, k, j, hline, hj, hk, hkj⟩, rfl, rfl⟩

/-- The capacity of a new queue is a power of two that neither the request nor a cache line
exceeds, and its mask reduces indices. -/
theorem SPSCQueue.capacity_make {kCacheLineSize v : UInt64}
    (hline : kCacheLineSize.toNat.isPowerOfTwo) (hpos : 1 ≤ v.toNat) (hle : v.toNat ≤ 2 ^ 63)
    (buffer : Mem) :
    IsLeast {p | p.isPowerOfTwo ∧ v.toNat ≤ p} (getNextPowerOfTwo v).toNat ∧
      (make kCacheLineSize v buffer).capacity.toNat.isPowerOfTwo ∧
      v ≤ (make kCacheLineSize v buffer).capacity ∧
      kCacheLineSize ≤ (make kCacheLineSize v buffer).capacity ∧
      ∀ index : UInt64, (index &&& ((make kCacheLineSize v buffer).capacity - 1)).toNat =
        index.toNat % (make kCacheLineSize v buffer).capacity.toNat := by
  obtain ⟨k, hk⟩ := hline
  obtain ⟨j, -, hj⟩ := exists_toNat_max hk v
  have hleast := isLeast_getNextPowerOfTwo hpos hle
  have hmax := toNat_max kCacheLineSize (getNextPowerOfTwo v)
  refine ⟨hleast, ⟨j, hj⟩, ?_, ?_, fun index => toNat_and_pred hj index⟩
  · apply UInt64.le_iff_toNat_le.mpr
    exact (hleast.1.2.trans (le_max_right _ _)).trans_eq hmax.symm
  · apply UInt64.le_iff_toNat_le.mpr
    exact (le_max_left _ _).trans_eq hmax.symm

/-- A request of 1000 bytes gets 1024. -/
theorem SPSCQueue.capacity_make_thousand :
    (make 64 1000 fun _ => 0).capacity = 1024 ∧
      ∀ index : UInt64, (index &&& ((make 64 1000 fun _ => 0).capacity - 1)).toNat =
        index.toNat % 1024 :=
  ⟨rfl, (capacity_make ⟨6, rfl⟩ (by decide) (by decide) _).2.2.2.2⟩

end Csics.Queue
