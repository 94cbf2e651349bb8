import Csics.Dsp.Product

/-!
# Links

`Propagation` and `Link::apply` of `include/csics/em/ElectroMagnetics.hpp`. A link multiplies the
responses of the transmitter, the channel and the receiver. Where a product of transfer functions
is missing, the assertion fails and there is no result.

The channel gets the grid of the transmitter, and the receiver has one of its own. What
`binByBin_iff` says of two transfer functions holds of the three of a link (`apply_iff`).
-/

namespace Csics.Em

open Dsp Linalg

structure Propagation where
  distance : ℚ
  tf : TransferFunction

namespace Propagation

/-- `p * other`, for a `Propagation`. -/
def mul (p other : Propagation) : Option Propagation := do
  let d := p.distance + other.distance
  let tf ← p.tf.mul other.tf
  some ⟨d, tf⟩

/-- `p * other`, for a `TransferFunction`. -/
def mulTransferFunction (p : Propagation) (other : TransferFunction) : Option Propagation := do
  let tf ← p.tf.mul other
  some ⟨p.distance, tf⟩

/-- `p *= other`. -/
def mulAssign (p other : Propagation) : Option Propagation := do
  let tf ← p.tf.mul other.tf
  let p := { p with tf := tf }
  some { p with distance := p.distance + other.distance }

variable {p other q : Propagation}

theorem mulTransferFunction_eq_some_iff {other : TransferFunction} :
    p.mulTransferFunction other = some q ↔
      p.tf.mul other = some q.tf ∧ q.distance = p.distance := by
  unfold mulTransferFunction
  constructor
  · intro h
    obtain ⟨tf, htf, hq⟩ := Option.bind_eq_some_iff.mp h
    cases hq
    exact ⟨htf, rfl⟩
  · intro h
    rw [h.1, ← h.2]
    rfl

/-- The distance is that of both. -/
theorem mul_eq (p other : Propagation) : p.mul other =
    mulTransferFunction ⟨p.distance + other.distance, p.tf⟩ other.tf := rfl

theorem mul_eq_some_iff : p.mul other = some q ↔
    p.tf.mul other.tf = some q.tf ∧ q.distance = p.distance + other.distance := by
  rw [mul_eq, mulTransferFunction_eq_some_iff]

/-- The product in place. -/
theorem mulAssign_eq (p other : Propagation) : p.mulAssign other = p.mul other := rfl

end Propagation

/-- What a link asks of an `EnvironmentalModel`. -/
structure EnvironmentalModel where
  attenuate : ℚ → SpectralGrid → TransferFunction

/-- What a link asks of a `Transmitter`. -/
structure Transmitter (Location : Type) where
  transmitTowards : Location → Propagation

/-- What a link asks of a `Receiver`. -/
structure Receiver (Location : Type) where
  location : Location
  receive : Propagation

namespace Link

variable {Location Result : Type}

/-- `apply(channel, tx, rx)`; `result` is the function of this name, of a propagation. -/
def apply (result : Propagation → Result) (channel : EnvironmentalModel) (tx : Transmitter Location)
    (rx : Receiver Location) : Option Result := do
  let txPropagation := tx.transmitTowards rx.location
  let channelPropagation := channel.attenuate txPropagation.distance txPropagation.tf.grid
  let rxPropagation := rx.receive
  let p ← txPropagation.mulTransferFunction channelPropagation
  let p ← p.mul rxPropagation
  some (result p)

variable {result : Propagation → Result} {channel : EnvironmentalModel} {tx : Transmitter Location}
  {rx : Receiver Location} {r : Result}

/-- The grid of the transmitter. -/
def txGrid (tx : Transmitter Location) (rx : Receiver Location) : SpectralGrid :=
  (tx.transmitTowards rx.location).tf.grid

/-- The response of the channel. -/
def channelResponse (channel : EnvironmentalModel) (tx : Transmitter Location)
    (rx : Receiver Location) : TransferFunction :=
  channel.attenuate (tx.transmitTowards rx.location).distance (txGrid tx rx)

/-- The two products of a link. -/
theorem apply_eq_some_iff : apply result channel tx rx = some r ↔
    ∃ t u, (tx.transmitTowards rx.location).tf.mul (channelResponse channel tx rx) = some t ∧
      t.mul rx.receive.tf = some u ∧
      result ⟨(tx.transmitTowards rx.location).distance + rx.receive.distance, u⟩ = r := by
  constructor
  · intro h
    obtain ⟨p, hp, h⟩ := Option.bind_eq_some_iff.mp h
    obtain ⟨q, hq, hr⟩ := Option.bind_eq_some_iff.mp h
    obtain ⟨ht, hdistance⟩ := Propagation.mulTransferFunction_eq_some_iff.mp hp
    obtain ⟨hu, hdistance'⟩ := Propagation.mul_eq_some_iff.mp hq
    refine ⟨p.tf, q.tf, ht, hu, ?_⟩
    rw [← hdistance, ← hdistance']
    exact Option.some.inj hr
  · intro h
    obtain ⟨t, u, ht, hu, hr⟩ := h
    apply Option.bind_eq_some_iff.mpr
    refine ⟨⟨_, t⟩, Propagation.mulTransferFunction_eq_some_iff.mpr ⟨ht, rfl⟩, ?_⟩
    apply Option.bind_eq_some_iff.mpr
    exact ⟨⟨_, u⟩, Propagation.mul_eq_some_iff.mpr ⟨hu, rfl⟩, congrArg some hr⟩

/-- There is a result if and only if the comparisons with both other grids say so. -/
theorem exists_apply_iff : (∃ r, apply result channel tx rx = some r) ↔
    (txGrid tx rx).beq (channelResponse channel tx rx).grid ∧
      (txGrid tx rx).beq rx.receive.tf.grid := by
  constructor
  · intro h
    obtain ⟨r, hr⟩ := h
    obtain ⟨t, u, ht, hu, -⟩ := apply_eq_some_iff.mp hr
    obtain ⟨hchannel, hgrid, -⟩ := TransferFunction.mul_eq_some_iff.mp ht
    obtain ⟨hrx, -⟩ := TransferFunction.mul_eq_some_iff.mp hu
    rw [hgrid] at hrx
    exact ⟨hchannel, hrx⟩
  · intro h
    obtain ⟨hchannel, hrx⟩ := h
    obtain ⟨t, ht⟩ := TransferFunction.exists_mul_iff.mpr hchannel
    have hrx' : t.grid.beq rx.receive.tf.grid := by
      rw [(TransferFunction.mul_eq_some_iff.mp ht).2.1]
      exact hrx
    obtain ⟨u, hu⟩ := TransferFunction.exists_mul_iff.mpr hrx'
    exact ⟨_, apply_eq_some_iff.mpr ⟨t, u, ht, hu, rfl⟩⟩

/-- Where there is a result, responses at the same frequencies have been multiplied. -/
def OneFrequency (result : Propagation → Result) (channel : EnvironmentalModel)
    (tx : Transmitter Location) (rx : Receiver Location) : Prop :=
  ∀ r, apply result channel tx rx = some r → ∀ i < (txGrid tx rx).fftSize.toNat,
    (txGrid tx rx).SameBins (channelResponse channel tx rx).grid ∧
      (txGrid tx rx).SameBins rx.receive.tf.grid

theorem oneFrequency_iff : OneFrequency result channel tx rx ↔
    (¬ (txGrid tx rx).beq (channelResponse channel tx rx).grid ∨
        ¬ (txGrid tx rx).beq rx.receive.tf.grid) ∨
      (txGrid tx rx).fftSize = 0 ∨
      (txGrid tx rx).centerFrequency = (channelResponse channel tx rx).grid.centerFrequency ∧
        (txGrid tx rx).centerFrequency = rx.receive.tf.grid.centerFrequency := by
  rw [← not_and_or, ← @exists_apply_iff _ _ result]
  by_cases happly : ∃ r, apply result channel tx rx = some r
  · obtain ⟨hchannel, hrx⟩ := exists_apply_iff.mp happly
    rw [← SpectralGrid.sameBins_iff hchannel, ← SpectralGrid.sameBins_iff hrx,
      or_iff_right (not_not_intro happly)]
    obtain ⟨r, hr⟩ := happly
    constructor
    · intro h
      by_cases hfft : (txGrid tx rx).fftSize = 0
      · exact Or.inl hfft
      · exact Or.inr (h r hr 0 (SpectralGrid.fftSize_pos hfft))
    · intro h r _ i hi
      refine h.resolve_left ?_
      intro hfft
      rw [hfft] at hi
      exact absurd hi (Nat.not_lt_zero i)
  · refine iff_of_true ?_ (Or.inl happly)
    intro r hr
    exact absurd ⟨r, hr⟩ happly

/-- Products are taken frequency by frequency if and only if grids that are alike in what
`operator==` compares have one center frequency. -/
theorem apply_iff (a b : TransferFunction) (result : Propagation → Result)
    (channel : EnvironmentalModel) (tx : Transmitter Location) (rx : Receiver Location) :
    (a.BinByBin b ↔ a.grid.centerFrequency = b.grid.centerFrequency ∨
      a.grid.fftSize ≠ b.grid.fftSize ∨ a.grid.alignment ≠ b.grid.alignment ∨
      a.grid.sampleRateHz ≠ b.grid.sampleRateHz) ∧
    (OneFrequency result channel tx rx ↔
      (¬ (txGrid tx rx).beq (channelResponse channel tx rx).grid ∨
          ¬ (txGrid tx rx).beq rx.receive.tf.grid) ∨
        (txGrid tx rx).fftSize = 0 ∨
        (txGrid tx rx).centerFrequency = (channelResponse channel tx rx).grid.centerFrequency ∧
          (txGrid tx rx).centerFrequency = rx.receive.tf.grid.centerFrequency) := by
  refine ⟨?_, oneFrequency_iff⟩
  rw [TransferFunction.binByBin_iff, SpectralGrid.beq_iff, not_and_or, not_and_or]

/-- One bin at 0 Hz and one at 10 Hz. -/
def binAt (centerFrequency : ℚ) : TransferFunction :=
  .constant ⟨1, 0⟩ (.centered 1 centerFrequency 1)

/-- They are multiplied, and so are they in a link from a transmitter at 0 Hz to a receiver at
10 Hz. -/
theorem not_oneFrequency :
    (binAt 0).mul (binAt 10) = some (binAt 0) ∧
      ¬ (∀ a b : TransferFunction, a.BinByBin b) ∧
      ¬ OneFrequency id ⟨fun _ grid => .constant ⟨1, 0⟩ grid⟩ ⟨fun _ => ⟨1, binAt 0⟩⟩
        (⟨(), ⟨0, binAt 10⟩⟩ : Receiver Unit) := by
  refine ⟨by decide +kernel, ?_, ?_⟩
  · intro hall
    have hbin := (TransferFunction.binByBin_iff _ _).mp (hall (binAt 0) (binAt 10))
    exact absurd hbin (by decide +kernel)
  · rw [oneFrequency_iff]
    decide +kernel

end Link

end Csics.Em
