import Csics.Dsp.Bandpass
import Mathlib.Data.List.Rotate

/-!
# The ideal band-pass of an unshifted grid

The samples of an unshifted grid are to be those of the centered one, half a turn on. The code adds
the number of the samples to both indices before it reduces them modulo this number, which leaves
them as they are. Only the index behind the last sample becomes 0, and then the samples before the
band pass.

Half a turn takes a band to itself only if no bin or the upper half of the bins passes
(`rotated_iff`).
-/

namespace Csics.Dsp

open Base Linalg

/-! ## Half a turn -/

/-- Half a turn leads to the other half. -/
theorem add_half_mod {h i : ℕ} (hi : i < 2 * h) :
    (i + h) % (2 * h) = if i < h then i + h else i - h := by
  split
  · exact Nat.mod_eq_of_lt (by omega)
  · rw [Nat.mod_eq_sub_mod (by omega), Nat.mod_eq_of_lt (by omega)]
    omega

/-- Without the last index, no interval that has elements is taken to itself. -/
theorem interval_half_turn_iff {h s e : ℕ} (hse : s ≤ e) (he : e < 2 * h) :
    (∀ i < 2 * h, s ≤ i ∧ i < e ↔ s ≤ (i + h) % (2 * h) ∧ (i + h) % (2 * h) < e) ↔ s = e := by
  constructor
  · intro hall
    by_contra hne
    have hstart := (hall s (by omega)).mp (by omega)
    rw [add_half_mod (by omega)] at hstart
    split at hstart
    · -- the end is half a turn behind an index of the interval
      have hend : s ≤ (e + h) % (2 * h) ∧ (e + h) % (2 * h) < e := by
        rw [add_half_mod he, if_neg (by omega)]
        omega
      have hself := (hall e he).mpr hend
      omega
    · omega
  · intro heq i _
    omega

/-- The indices before the start and those from there on. -/
theorem start_half_turn_iff {h s : ℕ} (hs : s < 2 * h) :
    (∀ i < 2 * h, i < s ↔ s ≤ (i + h) % (2 * h)) ↔ s = h := by
  constructor
  · intro hall
    rcases Nat.lt_trichotomy s h with hlt | heq | hgt
    · have hself := (hall s hs).mpr (by rw [add_half_mod hs, if_pos hlt]; omega)
      omega
    · exact heq
    · have hzero := (hall 0 (by omega)).mp (by omega)
      rw [add_half_mod (by omega), if_pos (by omega)] at hzero
      omega
  · intro heq i hi
    rw [add_half_mod hi]
    split
    · omega
    · omega

/-! ## Samples -/

/-- The samples between two indices pass. -/
def pass (s e : ℕ) (i : ℕ) : Complex ℚ := if i ≥ s ∧ i < e then ⟨1, 0⟩ else ⟨0, 0⟩

theorem pass_eq_iff {s e s' e' i j : ℕ} :
    pass s e i = pass s' e' j ↔ (s ≤ i ∧ i < e ↔ s' ≤ j ∧ j < e') := by
  have hne : (⟨1, 0⟩ : Complex ℚ) ≠ ⟨0, 0⟩ := by decide
  unfold pass
  by_cases h : i ≥ s ∧ i < e
  · rw [if_pos h]
    by_cases h' : j ≥ s' ∧ j < e'
    · rw [if_pos h']
      exact iff_of_true rfl (iff_of_true h h')
    · rw [if_neg h']
      exact iff_of_false hne fun hiff => h' (hiff.mp h)
  · rw [if_neg h]
    by_cases h' : j ≥ s' ∧ j < e'
    · rw [if_pos h']
      exact iff_of_false hne.symm fun hiff => h (hiff.mpr h')
    · rw [if_neg h']
      exact iff_of_true rfl (iff_of_false h h')

/-! ## Indices -/

theorem toInt64_natCast {n : ℕ} (hn : n < 2 ^ 63) : toInt64 n = some (n : ℤ) :=
  toInt64_eq_some.mpr (by omega)

namespace SpectralGrid

variable {grid : SpectralGrid}

/-- The sum is reduced to the index, or to 0 behind the last sample. -/
theorem shift_natCast (hfft : grid.fftSize ≠ 0) {n : ℕ} (hn : n ≤ grid.fftSize.toNat) :
    grid.shift n = some ((n % grid.fftSize.toNat : ℕ) : ℤ) := by
  have hlt := grid.fftSize.toNat_lt
  have hsum : ((n : ℤ) + grid.fftSize.toNat) = ((n + grid.fftSize.toNat : ℕ) : ℤ) := rfl
  rw [shift, hsum, toInt64_natCast (by omega), Option.bind_eq_bind, Option.bind_some, if_neg hfft,
    ← Int.ofNat_tmod, Nat.add_mod_right]

/-- A band that ends behind the last sample is taken to the samples before it. -/
theorem aligned_unshifted (halignment : grid.alignment = .unshifted) (hfft : grid.fftSize ≠ 0)
    {s e : ℕ} (hse : s ≤ e) (hs : s < grid.fftSize.toNat) (he : e ≤ grid.fftSize.toNat) :
    grid.aligned s e =
      if e < grid.fftSize.toNat then some ((s : ℤ), (e : ℤ)) else some (0, (s : ℤ)) := by
  simp only [aligned, halignment, shift_natCast hfft hs.le, shift_natCast hfft he,
    Option.bind_eq_bind, Option.bind_some, Nat.mod_eq_of_lt hs]
  by_cases hlt : e < grid.fftSize.toNat
  · rw [if_pos hlt, Nat.mod_eq_of_lt hlt, if_neg (by omega)]
  · have heq : e = grid.fftSize.toNat := by omega
    rw [if_neg hlt, heq, Nat.mod_self]
    by_cases hpos : 0 < s
    · rw [if_pos (by omega)]
      rfl
    · have hzero : s = 0 := by omega
      rw [if_neg (by omega), hzero]
      rfl

end SpectralGrid

/-! ## The band-pass -/

/-- Sample `i` on the unshifted grid is the sample half a turn on of the centered grid, and as many
samples pass. -/
def Rotated (fftSize : UInt32) (gridCenter : ℚ) (sampleRateHz : UInt64)
    (centerFrequency bandwidth : ℚ) : Prop :=
  ∃ tc tu, TransferFunction.idealBandpass centerFrequency bandwidth
      (.centered fftSize gridCenter sampleRateHz) = some tc ∧
    TransferFunction.idealBandpass centerFrequency bandwidth
      (.unshifted fftSize gridCenter sampleRateHz) = some tu ∧
    (∀ i < fftSize.toNat, tu.samples[i]? =
      tc.samples[(i + fftSize.toNat / 2) % fftSize.toNat]?) ∧
    tu.samples.count ⟨1, 0⟩ = tc.samples.count ⟨1, 0⟩

/-- A band does not meet the frequency range, or it is empty and on the edge of a bin, or it starts
in the bin behind the center and ends in the last one. -/
def Turns (grid : SpectralGrid) (fStart fEnd : ℚ) : Prop :=
  (fStart ≥ grid.frequencyRange.top ∨ fEnd ≤ grid.frequencyRange.bottom) ∨
    grid.fftSize ≠ 0 ∧
      ((fStart = fEnd ∧ ∃ k : ℤ, fStart = grid.frequencyRange.bottom + k * grid.df) ∨
        grid.centerFrequency ≤ fStart ∧ fStart < grid.centerFrequency + grid.df ∧
          grid.frequencyRange.top - grid.df < fEnd)

variable {fftSize : UInt32} {gridCenter : ℚ} {sampleRateHz : UInt64}
  {centerFrequency bandwidth : ℚ}

open TransferFunction SpectralGrid

/-- Samples of two grids that are half a turn apart. -/
theorem ofBins_half_turn_iff {grid grid' : SpectralGrid} (hsize : grid.fftSize = grid'.fftSize)
    {sample sample' : ℕ → Complex ℚ} :
    (∀ i < grid.fftSize.toNat, (ofBins grid sample).samples[i]? =
        (ofBins grid' sample').samples[(i + grid.fftSize.toNat / 2) % grid.fftSize.toNat]?) ↔
      ∀ i < grid.fftSize.toNat,
        sample i = sample' ((i + grid.fftSize.toNat / 2) % grid.fftSize.toNat) := by
  apply forall₂_congr
  intro i hi
  have hmod : (i + grid.fftSize.toNat / 2) % grid.fftSize.toNat < grid'.fftSize.toNat :=
    hsize ▸ Nat.mod_lt _ (Nat.zero_lt_of_lt hi)
  rw [ofBins_getElem? sample hi, ofBins_getElem? sample' hmod, Option.some_inj]

/-- Half a turn keeps the number of the samples that pass. -/
theorem count_of_half_turn {tc tu : TransferFunction} (hsize : tc.grid.fftSize = tu.grid.fftSize)
    (hturn : ∀ i < tu.grid.fftSize.toNat, tu.samples[i]? =
      tc.samples[(i + tu.grid.fftSize.toNat / 2) % tu.grid.fftSize.toNat]?) (x : Complex ℚ) :
    tu.samples.count x = tc.samples.count x := by
  have hlength : tc.samples.length = tu.grid.fftSize.toNat := hsize ▸ tc.samples_length
  have hrotate : tu.samples = tc.samples.rotate (tu.grid.fftSize.toNat / 2) := by
    apply List.ext_getElem?
    intro i
    by_cases hi : i < tu.grid.fftSize.toNat
    · rw [hturn i hi, List.getElem?_rotate (hlength.symm ▸ hi), hlength]
    · have hi' := Nat.le_of_not_lt hi
      rw [List.getElem?_eq_none (tu.samples_length.trans_le hi'), List.getElem?_eq_none]
      rw [List.length_rotate, hlength]
      exact hi'
  rw [hrotate, (List.rotate_perm _ _).count_eq]

/-- The bins from the center on are the upper half. -/
theorem centerFrequency_eq {grid : SpectralGrid} (hfft : grid.fftSize ≠ 0)
    (heven : grid.fftSize.toNat % 2 = 0) :
    grid.centerFrequency =
      grid.frequencyRange.bottom + ((grid.fftSize.toNat / 2 : ℕ) : ℤ) * grid.df := by
  have hpos := fftSize_pos hfft
  obtain ⟨h, hh⟩ : ∃ h, grid.fftSize.toNat = 2 * h := ⟨grid.fftSize.toNat / 2, by omega⟩
  have hhalf : grid.fftSize.toNat / 2 = h := by omega
  have hne : (h : ℚ) ≠ 0 := Nat.cast_ne_zero.mpr (by omega)
  have hcast : (grid.fftSize.toNat : ℚ) = 2 * h := by
    rw [hh, Nat.cast_mul, Nat.cast_ofNat]
  rw [Int.cast_natCast, hhalf, frequencyRange, df, hcast]
  field_simp
  ring

/-- What the indices of the upper half say of the band. -/
theorem upper_half_iff {grid : SpectralGrid} {fStart fEnd : ℚ} (hfft : grid.fftSize ≠ 0)
    (hrate : grid.sampleRateHz ≠ 0) (heven : grid.fftSize.toNat % 2 = 0) {s e : ℕ}
    (hs : ⌊(fStart - grid.frequencyRange.bottom) / grid.df⌋ = s)
    (he : ⌈(fEnd - grid.frequencyRange.bottom) / grid.df⌉ = e) (hle : e ≤ grid.fftSize.toNat) :
    s = grid.fftSize.toNat / 2 ∧ e = grid.fftSize.toNat ↔
      grid.centerFrequency ≤ fStart ∧ fStart < grid.centerFrequency + grid.df ∧
        grid.frequencyRange.top - grid.df < fEnd := by
  have hdf := df_pos hfft hrate
  have hcenter := centerFrequency_eq hfft heven
  have hstart : ((grid.fftSize.toNat / 2 : ℕ) : ℤ) ≤
      ⌊(fStart - grid.frequencyRange.bottom) / grid.df⌋ ↔ grid.centerFrequency ≤ fStart := by
    rw [le_floor_iff hdf, ← hcenter]
  have hstart' : ⌊(fStart - grid.frequencyRange.bottom) / grid.df⌋ ≤
      ((grid.fftSize.toNat / 2 : ℕ) : ℤ) ↔ fStart < grid.centerFrequency + grid.df := by
    rw [floor_le_iff hdf, add_mul, one_mul, ← add_assoc, ← hcenter]
  have hend : ((grid.fftSize.toNat : ℤ) - 1) <
      ⌈(fEnd - grid.frequencyRange.bottom) / grid.df⌉ ↔
        grid.frequencyRange.top - grid.df < fEnd := by
    rw [lt_ceil_iff hdf, top_eq hfft, Int.cast_sub, Int.cast_natCast, Int.cast_one, sub_mul,
      one_mul, add_sub_assoc]
  rw [hs] at hstart hstart'
  rw [he] at hend
  rw [← hstart, ← hstart', ← hend]
  omega

/-- The indices of a band in the frequency range. -/
theorem exists_indices {grid : SpectralGrid} {fStart fEnd : ℚ} (hfft : grid.fftSize ≠ 0)
    (hrate : grid.sampleRateHz ≠ 0) (hbottom : grid.frequencyRange.bottom ≤ fStart)
    (hle : fStart ≤ fEnd) (htop : fEnd ≤ grid.frequencyRange.top)
    (hin : fStart < grid.frequencyRange.top) :
    ∃ s e : ℕ, ⌊(fStart - grid.frequencyRange.bottom) / grid.df⌋ = s ∧
      ⌈(fEnd - grid.frequencyRange.bottom) / grid.df⌉ = e ∧
      s ≤ e ∧ s < grid.fftSize.toNat ∧ e ≤ grid.fftSize.toNat := by
  have hdf := df_pos hfft hrate
  have horder : ⌊(fStart - grid.frequencyRange.bottom) / grid.df⌋ ≤
      ⌈(fEnd - grid.frequencyRange.bottom) / grid.df⌉ := by
    apply (Int.floor_le_ceil _).trans
    apply Int.ceil_mono
    exact (div_le_div_iff_of_pos_right hdf).mpr (sub_le_sub_right hle _)
  have hnonneg := (floor_nonneg_iff hfft hrate).mpr hbottom
  have hlt := (floor_lt_iff hfft hrate).mpr hin
  have hlast : ⌈(fEnd - grid.frequencyRange.bottom) / grid.df⌉ ≤ (grid.fftSize.toNat : ℤ) := by
    rw [ceil_le_iff hdf, Int.cast_natCast, ← top_eq hfft]
    exact htop
  obtain ⟨s, hs⟩ := Int.eq_ofNat_of_zero_le hnonneg
  obtain ⟨e, he⟩ := Int.eq_ofNat_of_zero_le (hnonneg.trans horder)
  rw [hs, he] at horder
  rw [hs] at hlt
  rw [he] at hlast
  exact ⟨s, e, hs, he, Int.ofNat_le.mp horder, Int.ofNat_lt.mp hlt, Int.ofNat_le.mp hlast⟩

/-- The samples between the aligned indices pass. -/
theorem idealBandpass_of_indices {grid : SpectralGrid} (hfft : grid.fftSize ≠ 0)
    (hrate : grid.sampleRateHz ≠ 0)
    (hin : ¬ (centerFrequency - bandwidth / 2 ≥ grid.frequencyRange.top ∨
      centerFrequency + bandwidth / 2 ≤ grid.frequencyRange.bottom)) {s e s' e' : ℕ}
    (hs : ⌊(centerFrequency - bandwidth / 2 - grid.frequencyRange.bottom) / grid.df⌋ = s)
    (he : ⌈(centerFrequency + bandwidth / 2 - grid.frequencyRange.bottom) / grid.df⌉ = e)
    (hs' : s < 2 ^ 63) (he' : e < 2 ^ 63) (hlts : s' < 2 ^ 63) (hlte : e' < 2 ^ 63)
    (haligned : grid.aligned s e = some ((s' : ℤ), (e' : ℤ))) :
    idealBandpass centerFrequency bandwidth grid = some (ofBins grid (pass s' e')) := by
  have htoSize : ∀ n : ℕ, n < 2 ^ 63 → toSize (n : ℤ) = n := by
    intro n hn
    rw [toSize_of_nonneg (Int.natCast_nonneg n) (by omega), Int.toNat_natCast]
  simp only [idealBandpass, if_neg hin, index_eq hfft hrate, hs, he, toInt64_natCast hs',
    toInt64_natCast he', haligned, Option.bind_eq_bind, Option.bind_some, htoSize s' hlts,
    htoSize e' hlte]
  rfl

theorem rotated_iff_pass {s e s' e' : ℕ}
    (hc : idealBandpass centerFrequency bandwidth (centered fftSize gridCenter sampleRateHz) =
      some (ofBins (centered fftSize gridCenter sampleRateHz) (pass s e)))
    (hu : idealBandpass centerFrequency bandwidth (unshifted fftSize gridCenter sampleRateHz) =
      some (ofBins (unshifted fftSize gridCenter sampleRateHz) (pass s' e'))) :
    Rotated fftSize gridCenter sampleRateHz centerFrequency bandwidth ↔
      ∀ i < fftSize.toNat, s' ≤ i ∧ i < e' ↔
        s ≤ (i + fftSize.toNat / 2) % fftSize.toNat ∧
          (i + fftSize.toNat / 2) % fftSize.toNat < e := by
  have hturn := @ofBins_half_turn_iff (unshifted fftSize gridCenter sampleRateHz)
    (centered fftSize gridCenter sampleRateHz) rfl (pass s' e') (pass s e)
  simp only [pass_eq_iff] at hturn
  constructor
  · intro h
    obtain ⟨tc, tu, htc, htu, hsamples, -⟩ := h
    cases hc.symm.trans htc
    cases hu.symm.trans htu
    exact hturn.mp hsamples
  · intro h
    have hsamples := hturn.mpr h
    have hcount := @count_of_half_turn
      (ofBins (centered fftSize gridCenter sampleRateHz) (pass s e))
      (ofBins (unshifted fftSize gridCenter sampleRateHz) (pass s' e')) rfl hsamples
    exact ⟨_, _, hc, hu, hsamples, hcount _⟩

/-- A band with these indices. -/
theorem rotated_iff_of_indices (hfft : fftSize ≠ 0) (hrate : sampleRateHz ≠ 0)
    (heven : fftSize.toNat % 2 = 0)
    (hin : ¬ (centerFrequency - bandwidth / 2 ≥
        (centered fftSize gridCenter sampleRateHz).frequencyRange.top ∨
      centerFrequency + bandwidth / 2 ≤
        (centered fftSize gridCenter sampleRateHz).frequencyRange.bottom)) {s e : ℕ}
    (hs : ⌊(centerFrequency - bandwidth / 2 -
      (centered fftSize gridCenter sampleRateHz).frequencyRange.bottom) /
        (centered fftSize gridCenter sampleRateHz).df⌋ = s)
    (he : ⌈(centerFrequency + bandwidth / 2 -
      (centered fftSize gridCenter sampleRateHz).frequencyRange.bottom) /
        (centered fftSize gridCenter sampleRateHz).df⌉ = e)
    (hse : s ≤ e) (hlt : s < fftSize.toNat) (hle : e ≤ fftSize.toNat) :
    Rotated fftSize gridCenter sampleRateHz centerFrequency bandwidth ↔
      s = e ∨ s = fftSize.toNat / 2 ∧ e = fftSize.toNat := by
  have hsize := fftSize.toNat_lt
  obtain ⟨h, hh⟩ : ∃ h, fftSize.toNat = 2 * h := ⟨fftSize.toNat / 2, by omega⟩
  have hhalf : fftSize.toNat / 2 = h := by omega
  have hc := @idealBandpass_of_indices _ _ (centered fftSize gridCenter sampleRateHz) hfft hrate hin
    s e s e hs he (by omega) (by omega) (by omega) (by omega) rfl
  have haligned := @aligned_unshifted (unshifted fftSize gridCenter sampleRateHz) rfl hfft s e hse
    hlt hle
  by_cases hlast : e < fftSize.toNat
  · rw [show (unshifted fftSize gridCenter sampleRateHz).fftSize = fftSize from rfl,
      if_pos hlast] at haligned
    have hu := @idealBandpass_of_indices _ _ (unshifted fftSize gridCenter sampleRateHz) hfft hrate
      hin s e s e hs he (by omega) (by omega) (by omega) (by omega) haligned
    rw [rotated_iff_pass hc hu, hhalf, hh, interval_half_turn_iff hse (hh ▸ hlast)]
    omega
  · rw [show (unshifted fftSize gridCenter sampleRateHz).fftSize = fftSize from rfl,
      if_neg hlast] at haligned
    have hu := @idealBandpass_of_indices _ _ (unshifted fftSize gridCenter sampleRateHz) hfft hrate
      hin s e 0 s hs he (by omega) (by omega) (by omega) (by omega) haligned
    have htail : (∀ i < 2 * h, 0 ≤ i ∧ i < s ↔ s ≤ (i + h) % (2 * h) ∧ (i + h) % (2 * h) < e) ↔
        ∀ i < 2 * h, i < s ↔ s ≤ (i + h) % (2 * h) := by
      apply forall₂_congr
      intro i hi
      have hmod := Nat.mod_lt (i + h) (Nat.zero_lt_of_lt hi)
      omega
    rw [rotated_iff_pass hc hu, hhalf, hh, htail, start_half_turn_iff (hh ▸ hlt)]
    omega

/-- Without a band in the frequency range no sample passes. -/
theorem rotated_of_out (hout : centerFrequency - bandwidth / 2 ≥
      (centered fftSize gridCenter sampleRateHz).frequencyRange.top ∨
    centerFrequency + bandwidth / 2 ≤
      (centered fftSize gridCenter sampleRateHz).frequencyRange.bottom) :
    Rotated fftSize gridCenter sampleRateHz centerFrequency bandwidth := by
  have hturn := (@ofBins_half_turn_iff (unshifted fftSize gridCenter sampleRateHz)
    (centered fftSize gridCenter sampleRateHz) rfl (fun _ => ⟨0, 0⟩) fun _ => ⟨0, 0⟩).mpr
      fun _ _ => rfl
  exact ⟨_, _, if_pos hout, if_pos hout, hturn, count_of_half_turn rfl hturn _⟩

/-- Without samples the index of the unshifted grid is divided by 0. -/
theorem not_rotated_of_zero (hin : ¬ (centerFrequency - bandwidth / 2 ≥
      (centered 0 gridCenter sampleRateHz).frequencyRange.top ∨
    centerFrequency + bandwidth / 2 ≤
      (centered 0 gridCenter sampleRateHz).frequencyRange.bottom)) :
    ¬ Rotated 0 gridCenter sampleRateHz centerFrequency bandwidth := by
  intro h
  obtain ⟨-, tu, -, htu, -⟩ := h
  have hnone : ∀ s e, (unshifted 0 gridCenter sampleRateHz).aligned s e = none := by
    intro s e
    have hshift : (unshifted 0 gridCenter sampleRateHz).shift s = none := by
      rw [shift]
      cases toInt64 (s + (unshifted 0 gridCenter sampleRateHz).fftSize.toNat) with
      | none => rfl
      | some z => rfl
    show ((unshifted 0 gridCenter sampleRateHz).shift s).bind _ = none
    rw [hshift]
    rfl
  have hin' : ¬ (centerFrequency - bandwidth / 2 ≥
      (unshifted 0 gridCenter sampleRateHz).frequencyRange.top ∨
    centerFrequency + bandwidth / 2 ≤
      (unshifted 0 gridCenter sampleRateHz).frequencyRange.bottom) := hin
  simp only [idealBandpass, if_neg hin', hnone, Option.bind_eq_bind, Option.bind_none,
    Option.bind_eq_some_iff] at htu
  obtain ⟨s, -, e, -, hcontra⟩ := htu
  cases hcontra

/-- The samples that pass on an unshifted grid are those on the centered one, half a turn on, if
and only if the band is empty and on the edge of a bin, or fills the upper half of the bins. -/
theorem rotated_iff (fftSize : UInt32) (gridCenter : ℚ) (sampleRateHz : UInt64)
    (centerFrequency bandwidth : ℚ) (heven : fftSize.toNat % 2 = 0)
    (hbottom : (centered fftSize gridCenter sampleRateHz).frequencyRange.bottom ≤
      centerFrequency - bandwidth / 2)
    (hband : centerFrequency - bandwidth / 2 ≤ centerFrequency + bandwidth / 2)
    (htop : centerFrequency + bandwidth / 2 ≤
      (centered fftSize gridCenter sampleRateHz).frequencyRange.top) :
    Rotated fftSize gridCenter sampleRateHz centerFrequency bandwidth ↔
      Turns (centered fftSize gridCenter sampleRateHz) (centerFrequency - bandwidth / 2)
        (centerFrequency + bandwidth / 2) := by
  rw [Turns]
  by_cases hout : centerFrequency - bandwidth / 2 ≥
      (centered fftSize gridCenter sampleRateHz).frequencyRange.top ∨
    centerFrequency + bandwidth / 2 ≤
      (centered fftSize gridCenter sampleRateHz).frequencyRange.bottom
  · exact iff_of_true (rotated_of_out hout) (Or.inl hout)
  rw [or_iff_right hout]
  by_cases hfft : fftSize = 0
  · subst hfft
    exact iff_of_false (not_rotated_of_zero hout) fun h => h.1 rfl
  have hrate : sampleRateHz ≠ 0 := by
    intro hzero
    subst hzero
    apply hout
    left
    apply le_trans _ hbottom
    simp [frequencyRange, centered]
  obtain ⟨s, e, hs, he, hse, hlt, hle⟩ :=
    exists_indices hfft hrate hbottom hband htop (not_le.mp (not_or.mp hout).1)
  rw [rotated_iff_of_indices hfft hrate heven hout hs he hse hlt hle]
  have hdf : 0 < (centered fftSize gridCenter sampleRateHz).df := df_pos hfft hrate
  have hempty : s = e ↔ centerFrequency - bandwidth / 2 = centerFrequency + bandwidth / 2 ∧
      ∃ k : ℤ, centerFrequency - bandwidth / 2 =
        (centered fftSize gridCenter sampleRateHz).frequencyRange.bottom +
          k * (centered fftSize gridCenter sampleRateHz).df := by
    rw [← Int.natCast_inj, ← hs, ← he]
    exact floor_eq_ceil_iff hdf hband
  have hfft' : (centered fftSize gridCenter sampleRateHz).fftSize ≠ 0 := hfft
  rw [and_iff_right hfft', hempty]
  apply or_congr_right
  exact upper_half_iff hfft hrate heven hs he hle

/-- A grid of four bins from -2 Hz on, of 1 Hz each: a band in the upper half is taken to the lower
half. -/
theorem rotated_upper_half : Rotated 4 0 4 1 2 :=
  (rotated_iff 4 0 4 1 2 rfl (by decide +kernel) (by decide +kernel) (by decide +kernel)).mpr
    (Or.inr ⟨by decide, Or.inr (by decide +kernel)⟩)

/-- A band in bin 0 passes in bin 0 of the unshifted grid too, and not in bin 2. -/
theorem not_rotated :
    TransferFunction.idealBandpass (-3 / 2) 1 (unshifted 4 0 4) =
        some (ofBins (unshifted 4 0 4) (pass 0 1)) ∧
      TransferFunction.idealBandpass (-3 / 2) 1 (centered 4 0 4) =
        some (ofBins (centered 4 0 4) (pass 0 1)) ∧
      ¬ Rotated 4 0 4 (-3 / 2) 1 := by
  have hu : TransferFunction.idealBandpass (-3 / 2) 1 (unshifted 4 0 4) =
      some (ofBins (unshifted 4 0 4) (pass 0 1)) := by decide +kernel
  have hc : TransferFunction.idealBandpass (-3 / 2) 1 (centered 4 0 4) =
      some (ofBins (centered 4 0 4) (pass 0 1)) := by decide +kernel
  refine ⟨hu, hc, ?_⟩
  rw [rotated_iff_pass hc hu]
  decide

end Csics.Dsp
