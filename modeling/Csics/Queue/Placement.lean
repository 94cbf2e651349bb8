import Csics.Queue.System

/-!
# Where a message lies

The abstract picture of the ring: every message occupies a block of the index line that
starts at a cache line and ends at one, and the blocks of the unread messages follow one
another (`Laid`). A message that does not fit before the end of the ring occupies two
pieces of its block, the pad header at its start and the slot at the next lap
(`Placed`). The bytes of a message lie in its block, so two messages whose blocks fit in
one revolution have no byte in common (`Placed.disjoint`).
-/

namespace Csics.Queue

open Base
open QueueSlotHeader (sizeof)

/-- The constants of a queue. `kCacheLineSize` is at least 8: the indices are declared
`alignas(kCacheLineSize)`, which must not be weaker than the alignment of `size_t`. -/
structure Config where
  kCacheLineSize : UInt64
  capacity : UInt64
  lineLog : Nat
  capacityLog : Nat
  line_eq : kCacheLineSize.toNat = 2 ^ lineLog
  capacity_eq : capacity.toNat = 2 ^ capacityLog
  three_le : 3 ≤ lineLog
  line_le : lineLog ≤ capacityLog

namespace Config

variable (c : Config)

/-- `kCacheLineSize` as a number. -/
def line : Nat := c.kCacheLineSize.toNat

/-- `capacity_` as a number. -/
def size : Nat := c.capacity.toNat

theorem capacityLog_lt : c.capacityLog < 64 := by
  have h := c.capacity.toNat_lt
  rw [c.capacity_eq] at h
  exact (Nat.pow_lt_pow_iff_right (by omega)).mp h

theorem size_le : c.size ≤ 2 ^ 63 := by
  have h := c.capacityLog_lt
  rw [size, c.capacity_eq]
  exact Nat.pow_le_pow_right (by omega) (by omega)

theorem size_le_of_lt (h : c.size < 2 ^ 63) : c.size ≤ 2 ^ 62 := by
  rw [size, c.capacity_eq] at h ⊢
  exact Nat.pow_le_pow_right (by omega)
    (Nat.le_of_lt_succ ((Nat.pow_lt_pow_iff_right (by omega)).mp h))

theorem size_dvd : c.size ∣ 2 ^ 64 := by
  rw [size, c.capacity_eq]
  exact Nat.pow_dvd_pow 2 c.capacityLog_lt.le

theorem line_dvd : c.line ∣ c.size := by
  rw [size, line, c.capacity_eq, c.line_eq]
  exact Nat.pow_dvd_pow 2 c.line_le

theorem eight_dvd : 8 ∣ c.line := by
  rw [line, c.line_eq]
  exact Nat.pow_dvd_pow 2 c.three_le

theorem line_ge : 8 ≤ c.line := by
  rw [line, c.line_eq]
  exact Nat.pow_le_pow_right (show 0 < 2 by omega) c.three_le

theorem line_pos : 0 < c.line := by
  have := c.line_ge
  omega

theorem size_pos : 0 < c.size := by
  rw [size, c.capacity_eq]
  exact Nat.two_pow_pos _

/-- A cache line strictly inside the ring leaves a whole line to its end. -/
theorem add_line_le {i : Nat} (hi : c.line ∣ i) : i % c.size + c.line ≤ c.size := by
  have hlt := Nat.mod_lt i c.size_pos
  obtain ⟨k, hk⟩ := (Nat.dvd_mod_iff c.line_dvd).mpr hi
  obtain ⟨n, hn⟩ := c.line_dvd
  rw [hk, hn] at hlt ⊢
  have hkn : k + 1 ≤ n := Nat.lt_of_mul_lt_mul_left hlt
  calc c.line * k + c.line = c.line * (k + 1) := by ring
    _ ≤ c.line * n := Nat.mul_le_mul_left _ hkn

/-- The `pad_size` of a pad header at byte `p`. -/
theorem toNat_pad {p : Nat} (hp : p < c.size) :
    (c.capacity - .ofNat p + sizeof).toNat = c.size - p + 8 := by
  have hc := c.size_le
  have hof : (UInt64.ofNat p).toNat = p := by
    rw [UInt64.toNat_ofNat']
    omega
  have hsub : (c.capacity - .ofNat p).toNat = c.size - p := by
    rw [UInt64.toNat_sub_of_le _ _ (by rw [UInt64.le_iff_toNat_le, hof]; exact hp.le), hof]
    rfl
  rw [UInt64.toNat_add, hsub]
  exact Nat.mod_eq_of_lt (by change c.size - p + 8 < _; omega)

theorem mod_word_mod (i : Nat) : i % 2 ^ 64 % c.size = i % c.size :=
  Nat.mod_mod_of_dvd _ c.size_dvd

/-- Both commits move their index to the end of the block. -/
theorem toNat_indexAfter {index : UInt64} {r : Nat} {slot : Slot}
    (hindex : index.toNat = r % 2 ^ 64) :
    (SPSCQueue.indexAfter c.kCacheLineSize index slot).toNat =
      roundUp c.line (r + slot.size.toNat + 8) % 2 ^ 64 := by
  have hline := c.line_pos
  have h8 : sizeof.toNat = 8 := rfl
  have h1 : UInt64.toNat 1 = 1 := rfl
  have hsum : (index + slot.size + sizeof + c.kCacheLineSize - 1).toNat =
      (r + slot.size.toNat + 8 + c.line - 1) % 2 ^ 64 := by
    simp only [UInt64.toNat_sub, UInt64.toNat_add, hindex, h8, h1]
    show (2 ^ 64 - 1 + (((r % 2 ^ 64 + slot.size.toNat) % 2 ^ 64 + 8) % 2 ^ 64 + c.line) % 2 ^ 64)
      % 2 ^ 64 = _
    omega
  rw [SPSCQueue.indexAfter, toNat_and_compl_pred c.line_eq, hsum]
  exact roundUp_mod (c.line_dvd.trans c.size_dvd) _

end Config

/-! ## One message -/

variable (c : Config)

/-- The value of `write_index_` while a slot begun at `b` is open. -/
def bodyIndex (b : Nat) (g : Grant) : Nat :=
  match g.pad with
  | none => b
  | some _ => lapEnd c.size b + 16

/-- The index after the message: `commit_write` stores it, and `commit_read` too. -/
def stopIndex (b : Nat) (g : Grant) : Nat := roundUp c.line (bodyIndex c b g + g.size + 8)

/-- The index of the slot header. -/
def headerIndex (b : Nat) (g : Grant) : Nat :=
  match g.pad with
  | none => b
  | some _ => lapEnd c.size b

/-- The bytes of the grant `g` are where `acquire_write` puts a slot begun at index `b`. -/
structure Fitted (b : Nat) (g : Grant) : Prop where
  begin_eq : g.begin.toNat = b % 2 ^ 64
  aligned : c.line ∣ b
  size_pos : 0 < g.size
  header_eq : g.header = headerIndex c b g % c.size
  pad_eq : ∀ p ∈ g.pad, p = b % c.size
  /-- The slot ends before the ring does. -/
  fits : g.header + 8 + g.size ≤ c.size
  /-- A slot behind a wrap ends before its pad header. -/
  before_pad : ∀ p ∈ g.pad, g.size + 8 ≤ p

/-- The headers of the grant are in memory. -/
structure Placed (mem : Mem) (b : Nat) (g : Grant) : Prop extends Fitted c b g where
  header : mem.load g.header 8 = (QueueSlotHeader.make false (.ofNat g.size)).toBytes
  padHeader : ∀ p ∈ g.pad,
    mem.load p 8 = (QueueSlotHeader.make true (c.capacity - .ofNat p + sizeof)).toBytes

variable {c}

section

variable {b : Nat} {g : Grant}

theorem begin_le_header : b ≤ headerIndex c b g := by
  unfold headerIndex
  split
  · exact le_rfl
  · rw [lapEnd_eq c.size_pos]
    omega

theorem header_le_body : headerIndex c b g ≤ bodyIndex c b g := by
  unfold headerIndex bodyIndex
  cases g.pad <;> simp

theorem begin_le_body : b ≤ bodyIndex c b g := begin_le_header.trans header_le_body

theorem bodyIndex_lt_stop : bodyIndex c b g + 8 + g.size ≤ stopIndex c b g := by
  have h := le_roundUp c.line_pos (bodyIndex c b g + g.size + 8)
  unfold stopIndex
  omega

theorem endIndex_le_stop : headerIndex c b g + 8 + g.size ≤ stopIndex c b g := by
  have h1 := header_le_body (c := c) (b := b) (g := g)
  have h2 := bodyIndex_lt_stop (c := c) (b := b) (g := g)
  omega

end

namespace Fitted

variable {b b' : Nat} {g g' : Grant}

theorem size_lt (h : Fitted c b g) : g.size + 8 ≤ c.size := by
  have := h.fits
  omega

theorem toNat_size (h : Fitted c b g) : (UInt64.ofNat g.size).toNat = g.size := by
  have h1 := h.size_lt
  have h2 := c.size_le
  rw [UInt64.toNat_ofNat']
  omega

theorem ofNat_size_ne (h : Fitted c b g) : UInt64.ofNat g.size ≠ 0 := by
  intro h0
  have hsize := h.toNat_size
  rw [h0] at hsize
  exact h.size_pos.ne hsize

/-- The bit-field of the header keeps the size. -/
theorem ofNat_make_size (h : Fitted c b g) (padded : Bool) :
    UInt64.ofNat (QueueSlotHeader.make padded (.ofNat g.size)).size = .ofNat g.size := by
  have h1 := h.size_lt
  have h2 := c.size_le
  rw [QueueSlotHeader.make, h.toNat_size, Nat.mod_eq_of_lt (by omega)]

/-- A slot behind its padding begins the next lap. -/
theorem header_of_pad (h : Fitted c b g) {p : Nat} (hp : g.pad = some p) : g.header = 0 := by
  rw [h.header_eq, headerIndex, hp]
  exact lapEnd_mod _ _

/-- Every byte of the grant lies in the block `[b, headerIndex + 8 + size)`. -/
theorem regions_eq (h : Fitted c b g) {r : Region} (hr : r ∈ g.regions) :
    ∃ i m, r = ringRegion c.size i m ∧ b ≤ i ∧ i + m ≤ headerIndex c b g + 8 + g.size := by
  have hle := begin_le_header (c := c) (b := b) (g := g)
  rcases Grant.mem_regions.mp hr with ⟨p, hp, rfl⟩ | rfl | rfl
  · refine ⟨b, 8, ?_, le_rfl, by omega⟩
    rw [h.pad_eq p hp]
    rfl
  · refine ⟨headerIndex c b g, 8, ?_, hle, by omega⟩
    rw [h.header_eq]
    rfl
  · refine ⟨headerIndex c b g + 8, g.size, ?_, by omega, by omega⟩
    have hfits := h.fits
    have hpos := h.size_pos
    rw [h.header_eq] at hfits
    rw [Grant.payload, h.header_eq, ringRegion, Nat.add_mod, Nat.mod_eq_of_lt (a := 8) (by omega),
      Nat.mod_eq_of_lt (a := _ + 8) (by omega)]
    rfl

theorem within (h : Fitted c b g) : g.Within c.size := by
  have hfits := h.fits
  intro r hr
  rcases Grant.mem_regions.mp hr with ⟨p, hp, rfl⟩ | rfl | rfl
  · have h1 := c.add_line_le h.aligned
    have h2 := c.line_ge
    rw [h.pad_eq p hp]
    show b % c.size + 8 ≤ c.size
    omega
  · show g.header + 8 ≤ c.size
    omega
  · exact hfits

theorem separated (h : Fitted c b g) : g.Separated := by
  have hslot : Region.Disjoint ⟨g.header, sizeof.toNat⟩ ⟨g.header + sizeof.toNat, g.size⟩ :=
    Or.inl le_rfl
  unfold Grant.Separated Grant.regions Grant.payload
  cases hp : g.pad with
  | none => simpa using hslot
  | some p =>
    have hb := h.before_pad p hp
    have hz := h.header_of_pad hp
    have h8 : sizeof.toNat = 8 := rfl
    simp only [Option.map_some, Option.toList_some, List.cons_append, List.nil_append,
      List.pairwise_cons, List.mem_cons, List.not_mem_nil, or_false, forall_eq_or_imp, forall_eq,
      IsEmpty.forall_iff, implies_true, List.Pairwise.nil, and_true]
    refine ⟨⟨Or.inr ?_, Or.inr ?_⟩, hslot⟩ <;> dsimp only <;> omega

/-- Messages whose blocks lie within one revolution have no byte in common. -/
theorem disjoint (h : Fitted c b g) (h' : Fitted c b' g') (hle : stopIndex c b g ≤ b')
    (hrev : headerIndex c b' g' + 8 + g'.size ≤ b + c.size) : g.Disjoint g' := by
  have hstop := endIndex_le_stop (c := c) (b := b) (g := g)
  intro r hr r' hr'
  obtain ⟨i, m, rfl, hi, him⟩ := h.regions_eq hr
  obtain ⟨j, n, rfl, hj, hjn⟩ := h'.regions_eq hr'
  exact ringRegion_disjoint c.size_pos (by omega) (by omega)

end Fitted

/-! ## The unread messages -/

/-- The messages occupy consecutive blocks from index `a` to index `b`, with their
headers and payloads in memory. -/
def Laid (c : Config) (mem : Mem) (a : Nat) (ms : List Message) (b : Nat) : Prop :=
  match ms with
  | [] => a = b
  | m :: ms =>
    Placed c mem a m.grant ∧ mem.load m.grant.payload.pos m.grant.payload.len = m.data ∧
      Laid c mem (stopIndex c a m.grant) ms b

section Laid

variable {mem mem' : Mem} {a b : Nat} {ms : List Message} {m : Message} {g : Grant}

theorem Placed.frame (h : Placed c mem b g)
    (hsame : ∀ r ∈ g.regions, mem'.load r.pos r.len = mem.load r.pos r.len) :
    Placed c mem' b g where
  toFitted := h.toFitted
  header := (hsame _ (Grant.mem_regions.mpr (Or.inr (Or.inl rfl)))).trans h.header
  padHeader p hp := (hsame _ (Grant.mem_regions.mpr (Or.inl ⟨p, hp, rfl⟩))).trans (h.padHeader p hp)

theorem Laid.frame (h : Laid c mem a ms b)
    (hsame : ∀ m ∈ ms, ∀ r ∈ m.grant.regions, mem'.load r.pos r.len = mem.load r.pos r.len) :
    Laid c mem' a ms b := by
  induction ms generalizing a with
  | nil => exact h
  | cons m ms ih =>
    obtain ⟨hm, hdata, hrest⟩ := h
    have hm' := hsame m List.mem_cons_self
    exact ⟨hm.frame hm', (hm' _ (Grant.mem_regions.mpr (Or.inr (Or.inr rfl)))).trans hdata,
      ih hrest fun m' h' => hsame m' (List.mem_cons_of_mem _ h')⟩

/-- Each message takes at least one index. -/
theorem Laid.length_le (h : Laid c mem a ms b) : a + ms.length ≤ b := by
  induction ms generalizing a with
  | nil => exact h.le
  | cons m ms ih =>
    have h1 := begin_le_header (c := c) (b := a) (g := m.grant)
    have h2 := endIndex_le_stop (c := c) (b := a) (g := m.grant)
    have h3 := ih h.2.2
    rw [List.length_cons]
    omega

theorem Laid.le (h : Laid c mem a ms b) : a ≤ b :=
  (Nat.le_add_right a ms.length).trans h.length_le

/-- Where a message of the list lies. -/
theorem Laid.placed_of_mem (h : Laid c mem a ms b) (hm : m ∈ ms) :
    ∃ i, a ≤ i ∧ stopIndex c i m.grant ≤ b ∧ Placed c mem i m.grant := by
  induction ms generalizing a with
  | nil => cases hm
  | cons m' ms ih =>
    obtain ⟨hm', -, hrest⟩ := h
    rcases List.mem_cons.mp hm with rfl | hm
    · exact ⟨a, le_rfl, hrest.le, hm'⟩
    · obtain ⟨i, hi, hstop, hp⟩ := ih hrest hm
      have h1 := begin_le_header (c := c) (b := a) (g := m'.grant)
      have h2 := endIndex_le_stop (c := c) (b := a) (g := m'.grant)
      exact ⟨i, by omega, hstop, hp⟩

theorem Laid.concat (h : Laid c mem a ms b) (hm : Placed c mem b m.grant)
    (hdata : mem.load m.grant.payload.pos m.grant.payload.len = m.data) :
    Laid c mem a (ms ++ [m]) (stopIndex c b m.grant) := by
  induction ms generalizing a with
  | nil =>
    cases h
    exact ⟨hm, hdata, rfl⟩
  | cons m' ms ih => exact ⟨h.1, h.2.1, ih h.2.2⟩

/-- A grant that ends within one revolution of the oldest unread byte shares no byte with
an unread message. -/
theorem Laid.disjoint (h : Laid c mem a ms b) (hg : Fitted c b g)
    (hrev : headerIndex c b g + 8 + g.size ≤ a + c.size) (hm : m ∈ ms) :
    m.grant.Disjoint g := by
  obtain ⟨i, hi, hstop, hp⟩ := h.placed_of_mem hm
  exact hp.toFitted.disjoint hg hstop (by omega)

end Laid

end Csics.Queue
