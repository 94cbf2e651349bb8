import Csics.Dsp.Bandpass

/-!
# Products of transfer functions

A product is taken sample by sample. That is frequency by frequency where the bins of both grids are
the same, but `operator==` does not compare the center frequencies of the grids. Of two grids that
differ in their center frequencies and in nothing else there is a product, of responses at different
frequencies (`binByBin_iff`).
-/

namespace Csics.Dsp

open Linalg

namespace SpectralGrid

/-- Bin `i` denotes the same frequencies in both grids. -/
structure SameBins (grid other : SpectralGrid) : Prop where
  bottom_eq : grid.frequencyRange.bottom = other.frequencyRange.bottom
  df_eq : grid.df = other.df

variable {grid other : SpectralGrid}

theorem beq_iff : grid.beq other ↔ grid.fftSize = other.fftSize ∧
    grid.alignment = other.alignment ∧ grid.sampleRateHz = other.sampleRateHz := by
  rw [beq, Bool.and_eq_true, Bool.and_eq_true, decide_eq_true_iff, decide_eq_true_iff,
    decide_eq_true_iff, and_assoc]

/-- What the comparison leaves out. -/
theorem eq_iff_beq : grid = other ↔
    grid.beq other ∧ grid.centerFrequency = other.centerFrequency := by
  rw [beq_iff]
  constructor
  · intro h
    subst h
    exact ⟨⟨rfl, rfl, rfl⟩, rfl⟩
  · intro h
    obtain ⟨⟨hsize, halignment, hrate⟩, hcenter⟩ := h
    cases grid
    cases other
    cases hsize
    cases halignment
    cases hrate
    cases hcenter
    rfl

/-- Bins of one width and number are the same if their centers are. -/
theorem sameBins_iff (h : grid.beq other) :
    grid.SameBins other ↔ grid.centerFrequency = other.centerFrequency := by
  obtain ⟨hsize, -, hrate⟩ := beq_iff.mp h
  constructor
  · intro hsame
    have hbottom := hsame.bottom_eq
    rw [frequencyRange, frequencyRange, hrate] at hbottom
    exact sub_left_inj.mp hbottom
  · intro hcenter
    constructor
    · rw [frequencyRange, frequencyRange, hrate, hcenter]
    · rw [df, df, hrate, hsize]

end SpectralGrid

namespace TransferFunction

variable {a b t : TransferFunction}

theorem mul_eq_some_iff : a.mul b = some t ↔ a.grid.beq b.grid ∧ t.grid = a.grid ∧
    t.samples = List.zipWith Complex.mul a.samples b.samples := by
  unfold mul
  split
  · rename_i hbeq
    rw [Option.some_inj]
    constructor
    · intro h
      subst h
      exact ⟨hbeq, rfl, rfl⟩
    · intro h
      obtain ⟨-, hgrid, hsamples⟩ := h
      cases t
      cases hgrid
      cases hsamples
      rfl
  · rename_i hbeq
    exact iff_of_false (Option.some_ne_none t).symm fun h => hbeq h.1

theorem exists_mul_iff : (∃ t, a.mul b = some t) ↔ a.grid.beq b.grid := by
  unfold mul
  split
  · exact iff_of_true ⟨_, rfl⟩ ‹_›
  · refine iff_of_false ?_ ‹_›
    intro h
    obtain ⟨t, ht⟩ := h
    cases ht

theorem mul_eq_none_iff : a.mul b = none ↔ ¬ a.grid.beq b.grid := by
  unfold mul
  split
  · exact iff_of_false (Option.some_ne_none _) fun h => h ‹_›
  · exact iff_of_true rfl ‹_›

/-- Each sample is the product of the samples of its bin. -/
theorem sample_mul (h : a.mul b = some t) {i : ℕ} (hi : i < a.grid.fftSize.toNat) :
    ∃ x y, a.samples[i]? = some x ∧ b.samples[i]? = some y ∧ t.samples[i]? = some (x.mul y) := by
  obtain ⟨hbeq, -, hsamples⟩ := mul_eq_some_iff.mp h
  have hia : i < a.samples.length := a.samples_length ▸ hi
  have hib : i < b.samples.length := by
    rw [b.samples_length, ← (SpectralGrid.beq_iff.mp hbeq).1]
    exact hi
  refine ⟨a.samples[i], b.samples[i], List.getElem?_eq_getElem hia,
    List.getElem?_eq_getElem hib, ?_⟩
  rw [hsamples, List.getElem?_zipWith, List.getElem?_eq_getElem hia, List.getElem?_eq_getElem hib]

/-- The product is one of responses at the same frequencies, and there is none for different
grids. -/
structure BinByBin (a b : TransferFunction) : Prop where
  sample : ∀ t, a.mul b = some t → t.grid = a.grid ∧ ∀ i < a.grid.fftSize.toNat,
    a.grid.SameBins b.grid ∧
      ∃ x y, a.samples[i]? = some x ∧ b.samples[i]? = some y ∧ t.samples[i]? = some (x.mul y)
  none_of_ne : a.grid ≠ b.grid → a.mul b = none

theorem binByBin_iff (a b : TransferFunction) :
    BinByBin a b ↔ a.grid.centerFrequency = b.grid.centerFrequency ∨ ¬ a.grid.beq b.grid := by
  constructor
  · intro h
    by_cases hcenter : a.grid.centerFrequency = b.grid.centerFrequency
    · exact Or.inl hcenter
    · refine Or.inr (mul_eq_none_iff.mp (h.none_of_ne ?_))
      intro hgrid
      exact hcenter (congrArg _ hgrid)
  · intro h
    constructor
    · intro t ht
      obtain ⟨hbeq, hgrid, -⟩ := mul_eq_some_iff.mp ht
      have hcenter := h.resolve_right (not_not_intro hbeq)
      refine ⟨hgrid, ?_⟩
      intro i hi
      exact ⟨(SpectralGrid.sameBins_iff hbeq).mpr hcenter, sample_mul ht hi⟩
    · intro hne
      apply mul_eq_none_iff.mpr
      rcases h with hcenter | hbeq
      · exact fun hbeq => hne (SpectralGrid.eq_iff_beq.mpr ⟨hbeq, hcenter⟩)
      · exact hbeq

end TransferFunction

end Csics.Dsp
