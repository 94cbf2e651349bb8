import Mathlib.Tactic.Ring
import Csics.Base.Memory

/-!
# Positions in a ring

A ring of `C` bytes is addressed by indices that only grow: index `i` is the byte
`i % C`. Two blocks of indices that lie within one revolution of each other occupy
disjoint bytes (`ringRegion_disjoint`), provided none of them runs over the end of the
ring.

`roundUp L x` is the least multiple of `L` that is at least `x`, and `lapEnd C i` is the
first index of the lap after the one of `i`. The last section reads both off 64-bit words,
where a power of two is a mask.
-/

namespace Csics.Base

/-! ## Rounding -/

/-- The least multiple of `L` that is at least `x`. -/
def roundUp (L x : Nat) : Nat := (x + L - 1) / L * L

theorem dvd_roundUp (L x : Nat) : L ∣ roundUp L x := ⟨_, Nat.mul_comm _ _⟩

theorem le_roundUp {L : Nat} (hL : 0 < L) (x : Nat) : x ≤ roundUp L x := by
  have h := Nat.div_add_mod (x + L - 1) L
  have hm := Nat.mod_lt (x + L - 1) hL
  rw [Nat.mul_comm] at h
  unfold roundUp
  omega

theorem roundUp_lt {L : Nat} (hL : 0 < L) (x : Nat) : roundUp L x < x + L := by
  have h := Nat.div_mul_le_self (x + L - 1) L
  unfold roundUp
  omega

/-- No multiple of `L` lies between `x` and `roundUp L x`. -/
theorem roundUp_le {L x y : Nat} (hL : 0 < L) (hy : L ∣ y) (h : x ≤ y) : roundUp L x ≤ y := by
  obtain ⟨k, rfl⟩ := hy
  unfold roundUp
  rw [Nat.mul_comm L k]
  apply Nat.mul_le_mul_right
  rw [Nat.div_le_iff_le_mul hL]
  have : L * k = k * L := Nat.mul_comm _ _
  omega

/-- Rounding leaves the multiples of `L` in a sum alone. -/
theorem roundUp_add {L x : Nat} (hL : 0 < L) (hx : L ∣ x) (y : Nat) :
    roundUp L (x + y) = x + roundUp L y := by
  obtain ⟨k, rfl⟩ := hx
  unfold roundUp
  rw [Nat.add_assoc, Nat.add_sub_assoc (by omega), Nat.mul_add_div hL, Nat.add_mul, Nat.mul_comm k]

theorem roundUp_mono {L x y : Nat} (hL : 0 < L) (h : x ≤ y) : roundUp L x ≤ roundUp L y :=
  roundUp_le hL (dvd_roundUp L y) (h.trans (le_roundUp hL y))

/-- Rounding commutes with a reduction modulo a multiple of `L`. -/
theorem roundUp_mod {L N : Nat} (hN : L ∣ N) (x : Nat) :
    (x + L - 1) % N / L * L = roundUp L x % N := by
  rcases Nat.eq_zero_or_pos L with rfl | hL
  · simp [roundUp]
  · obtain ⟨n, rfl⟩ := hN
    unfold roundUp
    rw [Nat.mod_mul_right_div_self, Nat.mul_comm L n, Nat.mul_mod_mul_right]

/-! ## Laps -/

/-- The first index of the lap after the lap of `i`. -/
def lapEnd (C i : Nat) : Nat := (i / C + 1) * C

theorem lapEnd_mod (C i : Nat) : lapEnd C i % C = 0 := Nat.mul_mod_left _ _

theorem lapEnd_eq {C : Nat} (hC : 0 < C) (i : Nat) : lapEnd C i = i + (C - i % C) := by
  have h := Nat.div_add_mod i C
  have hm := Nat.mod_lt i hC
  rw [Nat.mul_comm] at h
  rw [lapEnd, Nat.add_mul, Nat.one_mul]
  omega

/-- The bytes `[i, i + n)` of the ring; meant for blocks that stay in the lap of `i`. -/
def ringRegion (C i n : Nat) : Region := ⟨i % C, n⟩

/-- Blocks less than one revolution apart are disjoint bytes. -/
theorem ringRegion_disjoint {C i j m n : Nat} (hC : 0 < C) (h1 : i + m ≤ j)
    (h2 : j + n ≤ i + C) :
    (ringRegion C i m).Disjoint (ringRegion C j n) := by
  have hi := Nat.div_add_mod i C
  have hj := Nat.div_add_mod j C
  have hjlt := Nat.mod_lt j hC
  simp only [ringRegion, Region.Disjoint]
  rcases Nat.lt_trichotomy (j / C) (i / C + 1) with h | h | h
  · have hle : i / C ≤ j / C := Nat.div_le_div_right (by omega)
    have he : j / C = i / C := by omega
    rw [he] at hj
    omega
  · have he : C * (j / C) = C * (i / C) + C := by rw [h]; ring
    omega
  · have he : C * (i / C) + 2 * C ≤ C * (j / C) := by
      calc C * (i / C) + 2 * C = C * (i / C + 2) := by ring
        _ ≤ C * (j / C) := Nat.mul_le_mul_left C h
    have hilt := Nat.mod_lt i hC
    omega

/-! ## Masks of 64-bit words -/

private theorem toNat_pred {c : UInt64} {k : Nat} (hc : c.toNat = 2 ^ k) :
    (c - 1).toNat = 2 ^ k - 1 := by
  have hpos := Nat.two_pow_pos k
  rw [UInt64.toNat_sub_of_le _ _ (by rw [UInt64.le_iff_toNat_le, hc]; exact hpos), hc]
  rfl

/-- Masking with `c - 1` is reduction modulo `c`. -/
theorem toNat_and_pred {c : UInt64} {k : Nat} (hc : c.toNat = 2 ^ k) (x : UInt64) :
    (x &&& (c - 1)).toNat = x.toNat % c.toNat := by
  rw [UInt64.toNat_and, toNat_pred hc, Nat.and_two_pow_sub_one_eq_mod, hc]

/-- Masking with the complement of `c - 1` rounds down to a multiple of `c`. -/
theorem toNat_and_compl_pred {c : UInt64} {k : Nat} (hc : c.toNat = 2 ^ k) (x : UInt64) :
    (x &&& ~~~(c - 1)).toNat = x.toNat / c.toNat * c.toNat := by
  have hmask (i : Nat) : (c - 1).toBitVec.getLsbD i = decide (i < k) := by
    rw [← BitVec.testBit_toNat, UInt64.toNat_toBitVec, toNat_pred hc, Nat.testBit_two_pow_sub_one]
  rw [hc, ← Nat.shiftRight_eq_div_pow, ← Nat.shiftLeft_eq]
  apply Nat.eq_of_testBit_eq
  intro i
  rw [← UInt64.toNat_toBitVec, BitVec.testBit_toNat, UInt64.toBitVec_and, UInt64.toBitVec_not,
    BitVec.getLsbD_and, BitVec.getLsbD_not, hmask, Nat.testBit_shiftLeft, Nat.testBit_shiftRight,
    ← UInt64.toNat_toBitVec x, BitVec.testBit_toNat]
  by_cases hik : i < k
  · simp [hik, Nat.not_le.mpr hik]
  · have hki : k ≤ i := by omega
    have hx : 64 ≤ i → x.toBitVec.getLsbD i = false := BitVec.getLsbD_of_ge _ _
    rw [Nat.add_sub_cancel' hki]
    by_cases hi : i < 64 <;> simp_all

end Csics.Base
