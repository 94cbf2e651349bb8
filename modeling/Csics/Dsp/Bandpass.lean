import Csics.Base.Bins
import Csics.Dsp.Transfer

/-!
# The ideal band-pass of a centered grid

Sample `i` is to be 1 if bin `i` intersects the band, and 0 otherwise (`Selects`). On a centered
grid it is so for a band that does not meet the frequency range, and for one that starts in it and
ends where the index of its end is a 64-bit number (`Fits`). A band that starts below the frequency
range and ends in it or above it has a negative start, which is a very large index, and nothing
passes.
-/

namespace Csics.Dsp

open Base Linalg Set

/-- The frequencies of bin `i`. -/
def SpectralGrid.bin (grid : SpectralGrid) (i : ℕ) : Set ℚ :=
  Base.bin grid.frequencyRange.bottom grid.df i

/-- The samples are 1 in the bins that intersect the band, and 0 in the others. -/
def TransferFunction.Selects (t : TransferFunction) (band : Set ℚ) : Prop :=
  ∀ i < t.grid.fftSize.toNat,
    ((t.grid.bin i ∩ band).Nonempty → t.samples[i]? = some ⟨1, 0⟩) ∧
      (¬ (t.grid.bin i ∩ band).Nonempty → t.samples[i]? = some ⟨0, 0⟩)

/-- The band does not meet the frequency range, or it starts in it and ends where the index is a
64-bit number. -/
def Fits (grid : SpectralGrid) (fStart fEnd : ℚ) : Prop :=
  (fStart ≥ grid.frequencyRange.top ∨ fEnd ≤ grid.frequencyRange.bottom) ∨
    grid.frequencyRange.bottom ≤ fStart ∧
      fEnd ≤ grid.frequencyRange.bottom + (2 ^ 63 - 1) * grid.df

instance (grid : SpectralGrid) (fStart fEnd : ℚ) : Decidable (Fits grid fStart fEnd) :=
  inferInstanceAs (Decidable (_ ∨ _))

/-! ## Samples -/

variable {grid : SpectralGrid} {band : Set ℚ}

theorem ofBins_getElem? (sample : ℕ → Complex ℚ) {i : ℕ} (hi : i < grid.fftSize.toNat) :
    (TransferFunction.ofBins grid sample).samples[i]? = some (sample i) := by
  simp [TransferFunction.ofBins, hi]

/-- The samples that are 1 are those of the bins that intersect the band. -/
theorem ofBins_selects_iff {sample : ℕ → Complex ℚ} (p : ℕ → Prop) [DecidablePred p]
    (hsample : ∀ i, sample i = if p i then ⟨1, 0⟩ else ⟨0, 0⟩) :
    (TransferFunction.ofBins grid sample).Selects band ↔
      ∀ i < grid.fftSize.toNat, p i ↔ (grid.bin i ∩ band).Nonempty := by
  have hne : (⟨1, 0⟩ : Complex ℚ) ≠ ⟨0, 0⟩ := by decide
  constructor
  · intro h i hi
    obtain ⟨hin, hout⟩ := h i hi
    rw [ofBins_getElem? sample hi, hsample, Option.some_inj] at hin hout
    by_cases hp : p i
    · refine iff_of_true hp ?_
      by_contra hband
      have hzero := hout hband
      rw [if_pos hp] at hzero
      exact hne hzero
    · refine iff_of_false hp fun hband => ?_
      have hone := hin hband
      rw [if_neg hp] at hone
      exact hne hone.symm
  · intro h i hi
    have hget : (TransferFunction.ofBins grid sample).samples[i]? = some (sample i) :=
      ofBins_getElem? sample hi
    rw [hget, hsample]
    constructor
    · intro hband
      rw [if_pos ((h i hi).mpr hband)]
    · intro hband
      rw [if_neg fun hp => hband ((h i hi).mp hp)]

/-! ## Indices -/

theorem toInt64_eq_some {z y : ℤ} : toInt64 z = some y ↔ y = z ∧ -2 ^ 63 ≤ z ∧ z < 2 ^ 63 := by
  unfold toInt64
  split
  · rename_i hz
    rw [Option.some_inj, and_iff_left hz, eq_comm]
  · rename_i hz
    exact iff_of_false nofun fun h => hz h.2

theorem toSize_of_nonneg {z : ℤ} (hz : 0 ≤ z) (hlt : z < 2 ^ 63) : toSize z = z.toNat := by
  unfold toSize
  omega

/-- A negative index is behind all samples. -/
theorem le_toSize_of_neg {z : ℤ} (hz : z < 0) (hle : -2 ^ 63 ≤ z) : 2 ^ 63 ≤ toSize z := by
  unfold toSize
  omega

/-- The samples that the indices select, against those that are to be. -/
theorem indices_iff {n : ℕ} {s e : ℤ} (hn : 0 < n) (hlt : n < 2 ^ 32) (hs : s < n) (he : 0 < e) :
    (-2 ^ 63 ≤ s ∧ e < 2 ^ 63 ∧
      ∀ i < n, i ≥ toSize s ∧ i < toSize e ↔ s ≤ (i : ℕ) ∧ (i : ℕ) < e) ↔
      0 ≤ s ∧ e < 2 ^ 63 := by
  constructor
  · rintro ⟨hmin, hmax, hsamples⟩
    refine ⟨?_, hmax⟩
    -- else sample 0 is to be 1, and it is not
    by_contra hneg
    have hlarge := le_toSize_of_neg (Int.not_le.mp hneg) hmin
    have hzero := (hsamples 0 hn).mpr (by omega)
    omega
  · rintro ⟨hnonneg, hmax⟩
    refine ⟨by omega, hmax, fun i hi => ?_⟩
    rw [toSize_of_nonneg hnonneg (by omega), toSize_of_nonneg he.le hmax]
    omega

/-! ## Grids -/

namespace SpectralGrid

theorem fftSize_pos (hfft : grid.fftSize ≠ 0) : 0 < grid.fftSize.toNat :=
  UInt32.lt_iff_toNat_lt.mp (UInt32.pos_iff_ne_zero.mpr hfft)

theorem df_pos (hfft : grid.fftSize ≠ 0) (hrate : grid.sampleRateHz ≠ 0) : 0 < grid.df := by
  have hrate' : 0 < grid.sampleRateHz.toNat :=
    UInt64.lt_iff_toNat_lt.mp (UInt64.pos_iff_ne_zero.mpr hrate)
  apply div_pos
  · exact Nat.cast_pos.mpr hrate'
  · exact Nat.cast_pos.mpr (fftSize_pos hfft)

/-- The bins fill the frequency range. -/
theorem top_eq (hfft : grid.fftSize ≠ 0) :
    grid.frequencyRange.top = grid.frequencyRange.bottom + grid.fftSize.toNat * grid.df := by
  have hne : (grid.fftSize.toNat : ℚ) ≠ 0 := Nat.cast_ne_zero.mpr (fftSize_pos hfft).ne'
  rw [df, mul_div_cancel₀ _ hne, frequencyRange]
  ring

theorem index_eq (hfft : grid.fftSize ≠ 0) (hrate : grid.sampleRateHz ≠ 0) (round : ℚ → ℤ)
    (f : ℚ) :
    grid.index round f = toInt64 (round ((f - grid.frequencyRange.bottom) / grid.df)) := by
  rw [index, if_neg hrate, if_neg hfft]

variable {fStart fEnd : ℚ} (hfft : grid.fftSize ≠ 0) (hrate : grid.sampleRateHz ≠ 0)
include hfft hrate

theorem bin_nonempty_iff (hband : fStart < fEnd) (i : ℕ) :
    (grid.bin i ∩ Ico fStart fEnd).Nonempty ↔
      ⌊(fStart - grid.frequencyRange.bottom) / grid.df⌋ ≤ (i : ℤ) ∧
        (i : ℤ) < ⌈(fEnd - grid.frequencyRange.bottom) / grid.df⌉ :=
  bin_inter_Ico_nonempty_iff (df_pos hfft hrate) hband

theorem floor_lt_iff : ⌊(fStart - grid.frequencyRange.bottom) / grid.df⌋ < grid.fftSize.toNat ↔
    fStart < grid.frequencyRange.top := by
  rw [Int.floor_lt, div_lt_iff₀ (df_pos hfft hrate), sub_lt_iff_lt_add', top_eq hfft,
    Int.cast_natCast]

theorem ceil_pos_iff : 0 < ⌈(fEnd - grid.frequencyRange.bottom) / grid.df⌉ ↔
    grid.frequencyRange.bottom < fEnd := by
  rw [Int.ceil_pos, div_pos_iff_of_pos_right (df_pos hfft hrate), sub_pos]

theorem floor_nonneg_iff : 0 ≤ ⌊(fStart - grid.frequencyRange.bottom) / grid.df⌋ ↔
    grid.frequencyRange.bottom ≤ fStart := by
  rw [Int.floor_nonneg, le_div_iff₀ (df_pos hfft hrate), zero_mul, sub_nonneg]

theorem ceil_lt_iff : ⌈(fEnd - grid.frequencyRange.bottom) / grid.df⌉ < 2 ^ 63 ↔
    fEnd ≤ grid.frequencyRange.bottom + (2 ^ 63 - 1) * grid.df := by
  rw [← Int.le_sub_one_iff, Int.ceil_le, div_le_iff₀ (df_pos hfft hrate), sub_le_iff_le_add']
  norm_num

/-- A band that does not meet the frequency range intersects no bin. -/
theorem not_bin_nonempty (hband : fStart < fEnd)
    (hout : fStart ≥ grid.frequencyRange.top ∨ fEnd ≤ grid.frequencyRange.bottom) {i : ℕ}
    (hi : i < grid.fftSize.toNat) : ¬ (grid.bin i ∩ Ico fStart fEnd).Nonempty := by
  rw [bin_nonempty_iff hfft hrate hband]
  rintro ⟨hstart, hend⟩
  obtain htop | hbottom := hout
  · have hlt := (floor_lt_iff hfft hrate).mp (lt_of_le_of_lt hstart (Int.ofNat_lt.mpr hi))
    exact absurd hlt (not_lt.mpr htop)
  · have hlt := (ceil_pos_iff hfft hrate).mp (lt_of_le_of_lt (Int.natCast_nonneg i) hend)
    exact absurd hlt (not_lt.mpr hbottom)

end SpectralGrid

/-! ## The band-pass -/

namespace TransferFunction

variable {centerFrequency bandwidth : ℚ}

/-- On a centered grid, of a band that meets the frequency range, the samples between the indices
pass. -/
theorem idealBandpass_eq_some_iff (hcentered : grid.alignment = .centered)
    (hfft : grid.fftSize ≠ 0) (hrate : grid.sampleRateHz ≠ 0)
    (hin : ¬ (centerFrequency - bandwidth / 2 ≥ grid.frequencyRange.top ∨
      centerFrequency + bandwidth / 2 ≤ grid.frequencyRange.bottom)) (t : TransferFunction) :
    idealBandpass centerFrequency bandwidth grid = some t ↔
      ∃ s e : ℤ,
        toInt64 ⌊(centerFrequency - bandwidth / 2 - grid.frequencyRange.bottom) / grid.df⌋ =
          some s ∧
        toInt64 ⌈(centerFrequency + bandwidth / 2 - grid.frequencyRange.bottom) / grid.df⌉ =
          some e ∧
        (ofBins grid fun i => if i ≥ toSize s ∧ i < toSize e then ⟨1, 0⟩ else ⟨0, 0⟩) = t := by
  simp only [idealBandpass, if_neg hin, SpectralGrid.index_eq hfft hrate, SpectralGrid.aligned,
    hcentered, Option.bind_eq_bind, Option.bind_eq_some_iff, Option.some_inj, Option.bind_some,
    exists_and_left]

end TransferFunction

open TransferFunction SpectralGrid

/-- On a centered grid, the band-pass selects the bins that intersect the band if and only if the
band does not meet the frequency range, or starts in it and ends where the index of its end is a
64-bit number. -/
theorem idealBandpass_selects_iff (grid : SpectralGrid) (centerFrequency bandwidth : ℚ)
    (hcentered : grid.alignment = .centered) (hfft : grid.fftSize ≠ 0)
    (hrate : grid.sampleRateHz ≠ 0) (hbandwidth : 0 < bandwidth) :
    (∃ t, idealBandpass centerFrequency bandwidth grid = some t ∧ t.grid = grid ∧
      t.Selects (Ico (centerFrequency - bandwidth / 2) (centerFrequency + bandwidth / 2))) ↔
      Fits grid (centerFrequency - bandwidth / 2) (centerFrequency + bandwidth / 2) := by
  have hband : centerFrequency - bandwidth / 2 < centerFrequency + bandwidth / 2 := by linarith
  by_cases hout : centerFrequency - bandwidth / 2 ≥ grid.frequencyRange.top ∨
      centerFrequency + bandwidth / 2 ≤ grid.frequencyRange.bottom
  · -- no bin is to pass, and none does
    refine iff_of_true ?_ (Or.inl hout)
    refine ⟨ofBins grid fun _ => ⟨0, 0⟩, if_pos hout, rfl, ?_⟩
    rw [ofBins_selects_iff (fun _ => False) fun _ => (if_neg not_false).symm]
    intro i hi
    exact iff_of_false not_false (not_bin_nonempty hfft hrate hband hout hi)
  · have hin := not_or.mp hout
    have hs := (floor_lt_iff hfft hrate).mpr (not_le.mp hin.1)
    have he := (ceil_pos_iff hfft hrate).mpr (not_le.mp hin.2)
    rw [Fits, or_iff_right hout, ← floor_nonneg_iff hfft hrate, ← ceil_lt_iff hfft hrate,
      ← indices_iff (fftSize_pos hfft) grid.fftSize.toNat_lt hs he]
    have hbin := fun i => bin_nonempty_iff hfft hrate hband i
    simp only [idealBandpass_eq_some_iff hcentered hfft hrate hout, toInt64_eq_some]
    constructor
    · rintro ⟨t, ⟨s, e, ⟨rfl, hmin, -⟩, ⟨rfl, -, hmax⟩, rfl⟩, -, hselects⟩
      rw [ofBins_selects_iff _ fun _ => rfl] at hselects
      refine ⟨hmin, hmax, fun i hi => ?_⟩
      rw [hselects i hi]
      exact hbin i
    · rintro ⟨hmin, hmax, hselects⟩
      refine ⟨_, ⟨_, _, ⟨rfl, hmin, ?_⟩, ⟨rfl, ?_, hmax⟩, rfl⟩, rfl, ?_⟩
      · have hfft' := grid.fftSize.toNat_lt
        omega
      · omega
      · rw [ofBins_selects_iff _ fun _ => rfl]
        intro i hi
        rw [hselects i hi]
        exact (hbin i).symm

/-- Four bins from -2 Hz on, of 1 Hz each. -/
def fourBins : SpectralGrid := .centered 4 0 4

/-- A band in the middle of the grid. -/
theorem idealBandpass_selects_iff_middle :
    ∃ t, idealBandpass 0 1 fourBins = some t ∧ t.grid = fourBins ∧
      t.Selects (Ico (0 - 1 / 2) (0 + 1 / 2)) :=
  (idealBandpass_selects_iff fourBins 0 1 rfl (by decide) (by decide) one_pos).mpr
    (by decide +kernel)

/-- A band that starts below the grid and ends in its middle. Two bins are to pass, and none
does. -/
theorem not_selects_below :
    idealBandpass (-2) 4 fourBins = some (ofBins fourBins fun _ => ⟨0, 0⟩) ∧
    ¬ ∃ t, idealBandpass (-2) 4 fourBins = some t ∧ t.grid = fourBins ∧
      t.Selects (Ico (-2 - 4 / 2) (-2 + 4 / 2)) := by
  have hzero : idealBandpass (-2) 4 fourBins = some (ofBins fourBins fun _ => ⟨0, 0⟩) := by
    decide +kernel
  refine ⟨hzero, ?_⟩
  rintro ⟨t, ht, -, hselects⟩
  cases hzero.symm.trans ht
  have hone := (hselects 0 (by decide)).1
    ((bin_nonempty_iff (by decide) (by decide) (by decide +kernel) 0).mpr (by decide +kernel))
  revert hone
  decide

end Csics.Dsp
