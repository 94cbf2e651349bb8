import Csics.Queue.Placement

/-!
# Blocks of one size

The messages of a queue whose payloads all have the same size. Each takes a block of `blockSize`
bytes, a multiple of a cache line, and `perLap` of them fit in one lap of the ring. The `lapRest`
bytes behind them are skipped, and the first block of the next lap is longer by `blockGrowth` at
most, since `write_index_` is 16 bytes into the lap when that slot is committed. So the laps begin
at two offsets only (`lapOffset`), and the place of the `i`-th block is known (`blockIndex`).

`blockIndex_add_le` bounds how far apart two blocks are, and `blockIndex_first_wrap` attains the
bound at the first wrap.
-/

namespace Csics.Queue

open Base

variable (c : Config) (size : Nat)

/-! ## Definitions -/

/-- The index behind a message that begins at index `b`. -/
def nextIndex (b : Nat) : Nat :=
  if c.size < b % c.size + size + 8 then roundUp c.line (lapEnd c.size b + 16 + size + 8)
  else roundUp c.line (b + size + 8)

/-- The bytes of a message with its header, in whole cache lines. -/
def blockSize : Nat := roundUp c.line (size + 8)

/-- What the first block of a lap has more when it begins with a wrap. -/
def blockGrowth : Nat := roundUp c.line (size + 24) - blockSize c size

/-- The number of blocks in a lap. -/
def perLap : Nat := c.size / blockSize c size

/-- The bytes of a lap behind its blocks. -/
def lapRest : Nat := c.size % blockSize c size

/-- How far the blocks of lap `k` are behind its start. -/
def lapOffset : Nat → Nat
  | 0 => 0
  | k + 1 => if lapOffset k + perLap c size * blockSize c size = c.size then 0
      else blockGrowth c size

/-- The index of block `i`. -/
def blockIndex (i : Nat) : Nat :=
  i * blockSize c size + (i - 1) / perLap c size * lapRest c size +
    lapOffset c size ((i - 1) / perLap c size)

/-- The most that the blocks of one lap and the next lie further apart than in a row. -/
def lapGap : Nat := if lapRest c size = 0 then 0 else lapRest c size + blockGrowth c size

/-! ## One block -/

theorem dvd_blockSize : c.line ∣ blockSize c size := dvd_roundUp _ _

theorem le_blockSize : size + 8 ≤ blockSize c size := le_roundUp c.line_pos _

theorem blockSize_lt : blockSize c size < size + 8 + c.line := roundUp_lt c.line_pos _

theorem blockSize_pos : 0 < blockSize c size := by
  have hle := le_blockSize c size
  omega

theorem blockSize_add_growth :
    blockSize c size + blockGrowth c size = roundUp c.line (size + 24) := by
  have hle : blockSize c size ≤ roundUp c.line (size + 24) := roundUp_mono c.line_pos (by omega)
  unfold blockGrowth
  omega

theorem blockGrowth_le (hline : 16 ≤ c.line) : blockGrowth c size ≤ c.line := by
  have hle := le_blockSize c size
  have hup := roundUp_le c.line_pos (Nat.dvd_add (dvd_blockSize c size)
    (Nat.dvd_refl c.line)) (show size + 24 ≤ blockSize c size + c.line by omega)
  rw [← blockSize_add_growth c size] at hup
  omega

variable {c} {size} in
/-- A slot that fits in the ring has a block that does. -/
theorem blockSize_le (h : size + 8 ≤ c.size) : blockSize c size ≤ c.size :=
  roundUp_le c.line_pos c.line_dvd h

theorem perLap_mul_add : perLap c size * blockSize c size + lapRest c size = c.size :=
  Nat.div_add_mod' c.size (blockSize c size)

theorem lapRest_lt : lapRest c size < blockSize c size := Nat.mod_lt _ (blockSize_pos c size)

/-- The rest of a lap is made of cache lines. -/
theorem dvd_lapRest : c.line ∣ lapRest c size :=
  (Nat.dvd_mod_iff (dvd_blockSize c size)).mpr c.line_dvd

/-- The rest of a lap has no room for a slot. -/
theorem lapRest_lt_slot : lapRest c size < size + 8 := by
  obtain ⟨k, hk⟩ := dvd_lapRest c size
  obtain ⟨n, hn⟩ := dvd_blockSize c size
  have hlt := lapRest_lt c size
  have hblock := blockSize_lt c size
  rw [hk, hn] at hlt
  have hkn : k + 1 ≤ n := Nat.lt_of_mul_lt_mul_left hlt
  have hmul := Nat.mul_le_mul_left c.line hkn
  rw [Nat.mul_add, Nat.mul_one] at hmul
  omega

variable {c} {size} in
theorem perLap_pos (h : blockSize c size ≤ c.size) : 0 < perLap c size :=
  Nat.div_pos h (blockSize_pos c size)

/-! ## Laps -/

/-- The blocks of a lap stay in it. -/
theorem lapOffset_add_le (hline : 16 ≤ c.line) (k : Nat) :
    lapOffset c size k + perLap c size * blockSize c size ≤ c.size := by
  have hlap := perLap_mul_add c size
  induction k with
  | zero =>
    rw [lapOffset]
    omega
  | succ k ih =>
    rw [lapOffset]
    split
    · omega
    · rename_i hne
      have hpos : 0 < lapRest c size := by omega
      have hle := Nat.le_of_dvd hpos (dvd_lapRest c size)
      have hgrowth := blockGrowth_le c size hline
      omega

variable {c} {size} in
/-- Block `t` of lap `k`; the block behind the last one of a lap counts as one of the lap. -/
theorem blockIndex_eq {k t : Nat} (ht : t ≤ perLap c size) (h : 0 < t ∨ k = 0) :
    blockIndex c size (k * perLap c size + t) =
      k * c.size + lapOffset c size k + t * blockSize c size := by
  have hdiv : (k * perLap c size + t - 1) / perLap c size = k := by
    rcases h with hpos | rfl
    · rw [Nat.add_sub_assoc hpos, Nat.mul_comm, Nat.mul_add_div (hpos.trans_le ht),
        Nat.div_eq_of_lt (by omega), Nat.add_zero]
    · rw [Nat.zero_mul, Nat.zero_add]
      rcases Nat.eq_zero_or_pos t with rfl | hpos
      · exact Nat.zero_div _
      · exact Nat.div_eq_of_lt (by omega)
  rw [blockIndex, hdiv]
  conv_rhs => rw [← perLap_mul_add c size]
  ring

variable {c} {size} in
/-- The lap of a block. -/
theorem exists_lap (hpos : 0 < perLap c size) (i : Nat) :
    ∃ k t, i = k * perLap c size + t ∧ t ≤ perLap c size ∧ (0 < t ∨ k = 0) := by
  rcases Nat.eq_zero_or_pos i with rfl | hi
  · exact ⟨0, 0, by omega, by omega, Or.inr rfl⟩
  · have hdiv := Nat.div_add_mod (i - 1) (perLap c size)
    have hmod := Nat.mod_lt (i - 1) hpos
    rw [Nat.mul_comm] at hdiv
    exact ⟨(i - 1) / perLap c size, (i - 1) % perLap c size + 1, by omega, by omega,
      Or.inl (Nat.succ_pos _)⟩

variable {c} {size} in
theorem lapOffset_one (h : lapRest c size ≠ 0) : lapOffset c size 1 = blockGrowth c size := by
  have hlap := perLap_mul_add c size
  apply if_neg
  rw [lapOffset]
  omega

theorem lapRest_add_offset_le (hline : 16 ≤ c.line) (k : Nat) :
    lapRest c size + lapOffset c size k ≤ lapGap c size := by
  have hlap := perLap_mul_add c size
  have hle := lapOffset_add_le c size hline k
  unfold lapGap
  split
  · omega
  · cases k with
    | zero =>
      rw [lapOffset]
      omega
    | succ k =>
      rw [lapOffset]
      split <;> omega

theorem dvd_lapOffset (k : Nat) : c.line ∣ lapOffset c size k := by
  cases k with
  | zero => exact Nat.dvd_zero _
  | succ k =>
    rw [lapOffset]
    split
    · exact Nat.dvd_zero _
    · exact Nat.dvd_sub (dvd_roundUp _ _) (dvd_blockSize c size)

theorem dvd_blockIndex (i : Nat) : c.line ∣ blockIndex c size i :=
  Nat.dvd_add (Nat.dvd_add ((dvd_blockSize c size).mul_left _) ((dvd_lapRest c size).mul_left _))
    (dvd_lapOffset c size _)

/-! ## Positions -/

variable {c} {size}

section

variable (hline : 16 ≤ c.line) (hsize : size + 8 ≤ c.size)

include hline hsize

/-- A block begins at the start of the ring or behind the slot that does. -/
theorem blockIndex_mod (i : Nat) :
    blockIndex c size i % c.size = 0 ∨ blockSize c size ≤ blockIndex c size i % c.size := by
  obtain ⟨k, t, rfl, ht, h⟩ := exists_lap (perLap_pos (blockSize_le hsize)) i
  have hle := lapOffset_add_le c size hline k
  have hmul := Nat.mul_le_mul_right (blockSize c size) ht
  rw [blockIndex_eq ht h, Nat.add_assoc, Nat.mul_comm k, Nat.mul_add_mod]
  rcases Nat.lt_or_ge (lapOffset c size k + t * blockSize c size) c.size with hlt | hge
  · rw [Nat.mod_eq_of_lt hlt]
    rcases h with hpos | rfl
    · have hone := Nat.mul_le_mul_right (blockSize c size) (show 1 ≤ t from hpos)
      omega
    · rcases Nat.eq_zero_or_pos t with rfl | hpos
      · left
        rw [lapOffset, Nat.zero_mul]
      · have hone := Nat.mul_le_mul_right (blockSize c size) (show 1 ≤ t from hpos)
        omega
  · left
    rw [show lapOffset c size k + t * blockSize c size = c.size by omega, Nat.mod_self]

/-- Behind block `i` comes block `i + 1`. -/
theorem nextIndex_blockIndex (i : Nat) :
    nextIndex c size (blockIndex c size i) = blockIndex c size (i + 1) := by
  have hpos := perLap_pos (blockSize_le hsize)
  have hline' := dvd_blockIndex c size i
  obtain ⟨k, t, rfl, ht, h⟩ := exists_lap hpos i
  have hle := lapOffset_add_le c size hline k
  have hslot := le_blockSize c size
  have hmod : blockIndex c size (k * perLap c size + t) % c.size =
      (lapOffset c size k + t * blockSize c size) % c.size := by
    rw [blockIndex_eq ht h, Nat.add_assoc, Nat.mul_comm k, Nat.mul_add_mod]
  have hin (hfit : ¬ c.size < blockIndex c size (k * perLap c size + t) % c.size + size + 8) :
      nextIndex c size (blockIndex c size (k * perLap c size + t)) =
        blockIndex c size (k * perLap c size + t) + blockSize c size := by
    rw [nextIndex, if_neg hfit, Nat.add_assoc, roundUp_add c.line_pos hline', blockSize]
  rcases ht.lt_or_eq with hlt | rfl
  · -- the lap goes on
    have hmul := Nat.mul_le_mul_right (blockSize c size) (Nat.succ_le_of_lt hlt)
    rw [Nat.succ_mul] at hmul
    have hin' : lapOffset c size k + t * blockSize c size < c.size := by omega
    rw [Nat.mod_eq_of_lt hin'] at hmod
    rw [hin (by omega), blockIndex_eq ht h, Nat.add_assoc (k * _) t 1,
      blockIndex_eq hlt (Or.inl (Nat.succ_pos t)), Nat.succ_mul]
    omega
  · have hsucc : blockIndex c size (k * perLap c size + perLap c size + 1) =
        (k + 1) * c.size + lapOffset c size (k + 1) + blockSize c size := by
      rw [← Nat.succ_mul, blockIndex_eq hpos (Or.inl Nat.one_pos), Nat.one_mul]
    rw [hsucc, lapOffset]
    rcases hle.lt_or_eq with hlt | heq
    · -- the rest of the lap is skipped
      have hlap := perLap_mul_add c size
      have hrest := lapRest_lt_slot c size
      rw [Nat.mod_eq_of_lt hlt] at hmod
      have hend : lapEnd c.size (blockIndex c size (k * perLap c size + perLap c size)) =
          (k + 1) * c.size := by
        rw [lapEnd_eq c.size_pos, hmod, blockIndex_eq ht h, Nat.succ_mul]
        omega
      have hgrowth := blockSize_add_growth c size
      rw [nextIndex, if_pos (by omega), hend, if_neg hlt.ne, Nat.add_assoc, Nat.add_assoc,
        roundUp_add c.line_pos (c.line_dvd.mul_left _), show 16 + (size + 8) = size + 24 by omega]
      omega
    · -- the blocks fill the lap
      rw [heq, Nat.mod_self] at hmod
      rw [hin (by omega), if_pos heq, blockIndex_eq ht h, Nat.add_assoc (k * _), heq]
      ring

/-- How far apart two blocks are at most. -/
theorem blockIndex_add_le {n : Nat} (hn : n ≤ perLap c size) (i : Nat) :
    blockIndex c size (i + n) ≤ blockIndex c size i + n * blockSize c size + lapGap c size := by
  have hpos := perLap_pos (blockSize_le hsize)
  obtain ⟨k, t, rfl, ht, h⟩ := exists_lap hpos i
  obtain ⟨k', t', hkt, ht', h'⟩ := exists_lap hpos (k * perLap c size + t + n)
  have hle : k ≤ k' := by
    by_contra hlt
    have hmul := Nat.mul_le_mul_right (perLap c size) (show k' + 1 ≤ k by omega)
    rw [Nat.succ_mul] at hmul
    omega
  have hle' : k' ≤ k + 1 := by
    by_contra hlt
    have hmul := Nat.mul_le_mul_right (perLap c size) (show k + 2 ≤ k' by omega)
    rw [Nat.add_mul] at hmul
    omega
  rw [blockIndex_eq ht h, hkt, blockIndex_eq ht' h']
  rcases hle.eq_or_lt with rfl | hlt
  · have htn : t' = t + n := by omega
    rw [htn, Nat.add_mul]
    omega
  · obtain rfl : k' = k + 1 := by omega
    have htn : t' + perLap c size = t + n := by
      rw [Nat.succ_mul] at hkt
      omega
    have hmul := congrArg (· * blockSize c size) htn
    have hlap := perLap_mul_add c size
    have hgap := lapRest_add_offset_le c size hline (k + 1)
    simp only [Nat.add_mul] at hmul
    rw [Nat.succ_mul]
    omega

end

/-- The blocks of the first lap. -/
theorem blockIndex_first {i : Nat} (hi : i ≤ perLap c size) :
    blockIndex c size i = i * blockSize c size := by
  have heq := blockIndex_eq (k := 0) hi (Or.inr rfl)
  rw [Nat.zero_mul, Nat.zero_add] at heq
  rw [heq, lapOffset, Nat.zero_mul, Nat.zero_add]

/-- Blocks that fill the laps lie in a row. -/
theorem blockIndex_of_lapRest (hline : 16 ≤ c.line) (hrest : lapRest c size = 0) (i : Nat) :
    blockIndex c size i = i * blockSize c size := by
  have hgap := lapRest_add_offset_le c size hline ((i - 1) / perLap c size)
  rw [lapGap, if_pos hrest] at hgap
  rw [blockIndex, hrest, Nat.mul_zero]
  omega

/-- Two blocks in the first lap, or on both sides of its end, are as far apart as can be. -/
theorem exists_gap {n : Nat} (hone : 1 ≤ n) (hn : n ≤ perLap c size) :
    ∃ i, i + n ≤ perLap c size + 1 ∧
      blockIndex c size (i + n) = blockIndex c size i + n * blockSize c size + lapGap c size := by
  by_cases hrest : lapRest c size = 0
  · refine ⟨0, by omega, ?_⟩
    rw [Nat.zero_add, blockIndex_first hn, blockIndex_first (Nat.zero_le _), lapGap, if_pos hrest,
      Nat.zero_mul, Nat.zero_add, Nat.add_zero]
  · refine ⟨perLap c size + 1 - n, by omega, ?_⟩
    have hlap := perLap_mul_add c size
    have hpos : 1 ≤ perLap c size := by omega
    have hwrap := blockIndex_eq (k := 1) hpos (Or.inl Nat.one_pos)
    have hmul := congrArg (· * blockSize c size)
      (show perLap c size + 1 - n + n = perLap c size + 1 by omega)
    simp only [Nat.add_mul] at hmul
    rw [show perLap c size + 1 - n + n = 1 * perLap c size + 1 by omega, hwrap, lapOffset_one hrest,
      blockIndex_first (by omega), lapGap, if_neg hrest]
    omega

end Csics.Queue
