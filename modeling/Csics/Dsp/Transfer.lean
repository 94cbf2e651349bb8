import Csics.Linalg.Complex
import Mathlib.Data.Rat.Floor

/-!
# Transfer functions

`SpectralGrid` and `TransferFunction` of `include/csics/dsp/Transfer.hpp`, with rational numbers for
`double` and `float`. What converts to no 64-bit number, or divides an integer by 0, has no result.
-/

namespace Csics.Dsp

open Linalg

/-- `Range<T>` of `include/csics/Types.hpp`. -/
structure Range (α : Type) where
  bottom : α
  top : α

inductive Alignment
  | centered
  | unshifted
  deriving DecidableEq

structure SpectralGrid where
  fftSize : UInt32
  centerFrequency : ℚ
  alignment : Alignment
  sampleRateHz : UInt64
  deriving DecidableEq

/-- The samples are those of a grid, as the constructor asserts. -/
structure TransferFunction where
  samples : List (Complex ℚ)
  grid : SpectralGrid
  samples_length : samples.length = grid.fftSize.toNat
  deriving DecidableEq

/-- `static_cast<int64_t>` of a `double` without a fraction. -/
def toInt64 (z : ℤ) : Option ℤ :=
  if -2 ^ 63 ≤ z ∧ z < 2 ^ 63 then some z else none

/-- `static_cast<std::size_t>` of an `int64_t`. -/
def toSize (z : ℤ) : ℕ := (z % 2 ^ 64).toNat

namespace SpectralGrid

/-- `operator==`. -/
def beq (grid other : SpectralGrid) : Bool :=
  grid.fftSize = other.fftSize && grid.alignment = other.alignment &&
    grid.sampleRateHz = other.sampleRateHz

def df (grid : SpectralGrid) : ℚ := grid.sampleRateHz.toNat / grid.fftSize.toNat

def frequencyRange (grid : SpectralGrid) : Range ℚ :=
  ⟨grid.centerFrequency - 1 / 2 * grid.sampleRateHz.toNat,
    grid.centerFrequency + 1 / 2 * grid.sampleRateHz.toNat⟩

def centered (fftSize : UInt32) (centerFrequency : ℚ) (sampleRateHz : UInt64) : SpectralGrid :=
  ⟨fftSize, centerFrequency, .centered, sampleRateHz⟩

def unshifted (fftSize : UInt32) (centerFrequency : ℚ) (sampleRateHz : UInt64) : SpectralGrid :=
  ⟨fftSize, centerFrequency, .unshifted, sampleRateHz⟩

/-- `ind_start` and `ind_end`, of a frequency. Without a sample rate `df()` is 0 or no number. Else,
without samples, it is infinite. -/
def index (grid : SpectralGrid) (round : ℚ → ℤ) (f : ℚ) : Option ℤ :=
  if grid.sampleRateHz = 0 then none
  else if grid.fftSize = 0 then some 0
  else toInt64 (round ((f - grid.frequencyRange.bottom) / grid.df))

/-- `(ind + grid.fft_size) % grid.fft_size`. -/
def shift (grid : SpectralGrid) (ind : ℤ) : Option ℤ := do
  let ind ← toInt64 (ind + grid.fftSize.toNat)
  if grid.fftSize = 0 then none else some (ind.tmod grid.fftSize.toNat)

/-- The indices that the samples are compared with. -/
def aligned (grid : SpectralGrid) (indStart indEnd : ℤ) : Option (ℤ × ℤ) :=
  match grid.alignment with
  | .centered => some (indStart, indEnd)
  | .unshifted => do
    let indStart ← grid.shift indStart
    let indEnd ← grid.shift indEnd
    -- swap if end came before start due to wrap around
    if indEnd < indStart then some (indEnd, indStart) else some (indStart, indEnd)

end SpectralGrid

namespace TransferFunction

/-- `a * b`. -/
def mul (a b : TransferFunction) : Option TransferFunction :=
  if h : a.grid.beq b.grid then
    some ⟨List.zipWith Complex.mul a.samples b.samples, a.grid, by
      have hsize : a.grid.fftSize = b.grid.fftSize := by
        simp only [SpectralGrid.beq, Bool.and_eq_true, decide_eq_true_eq] at h
        exact h.1.1
      rw [List.length_zipWith, a.samples_length, b.samples_length, hsize, Nat.min_self]⟩
  else none

/-- `a * scalar`. -/
def mulScalar (a : TransferFunction) (scalar : Complex ℚ) : TransferFunction :=
  ⟨a.samples.map fun sample => sample.mul scalar, a.grid, by
    rw [List.length_map, a.samples_length]⟩

/-- The loop over the samples of a grid. -/
def ofBins (grid : SpectralGrid) (sample : ℕ → Complex ℚ) : TransferFunction :=
  ⟨(List.range grid.fftSize.toNat).map sample, grid, by rw [List.length_map, List.length_range]⟩

/-- `constant(value, grid)`. -/
def constant (value : Complex ℚ) (grid : SpectralGrid) : TransferFunction :=
  ofBins grid fun _ => value

def idealBandpass (centerFrequency bandwidth : ℚ) (grid : SpectralGrid) :
    Option TransferFunction :=
  let fStart := centerFrequency - bandwidth / 2
  let fEnd := centerFrequency + bandwidth / 2
  let range := grid.frequencyRange
  -- the band is completely out of range
  if fStart ≥ range.top ∨ fEnd ≤ range.bottom then some (ofBins grid fun _ => ⟨0, 0⟩)
  else do
    let indStart ← grid.index Int.floor fStart
    let indEnd ← grid.index Int.ceil fEnd
    let (indStart, indEnd) ← grid.aligned indStart indEnd
    some (ofBins grid fun i =>
      if i ≥ toSize indStart ∧ i < toSize indEnd then ⟨1, 0⟩ else ⟨0, 0⟩)

end TransferFunction

end Csics.Dsp
