import Csics.Radio.RxLoop

/-!
# The stream of blocks

What goes into the queue of a receiver and what comes out of it. `Stream` adds to the state of the
loop the samples that the driver has delivered for the open block, the blocks that are committed and
the blocks that the consumer has released, each as the consumer finds it in the memory of its slot.

A stream is `Intact` while the consumer gets the committed blocks, in their order and as they were.
-/

namespace Csics.Radio

open Base Queue

/-! ## Blocks -/

/-- A `BlockHeader`, up to the reserved bytes, with the samples behind it. -/
structure SampleBlock where
  timestampNs : UInt64
  timestampHw : UInt64
  numSamples : UInt64
  flags : UInt32
  samples : List (UInt16 × UInt16)
  deriving DecidableEq

/-- The samples at `base`. -/
def samplesAt (mem : Mem) (base : Nat) : Nat → List (UInt16 × UInt16)
  | 0 => []
  | n + 1 =>
    (.ofNat (ofLeBytes (mem.load base 2)), .ofNat (ofLeBytes (mem.load (base + 2) 2))) ::
      samplesAt mem (base + 4) n

/-- The block of the header at `hdr` and the samples at `base`. -/
def SampleBlock.ofMem (mem : Mem) (hdr base : Nat) : SampleBlock :=
  let numSamples := UInt64.ofNat (ofLeBytes (mem.load (hdr + 16) 8))
  ⟨.ofNat (ofLeBytes (mem.load hdr 8)), .ofNat (ofLeBytes (mem.load (hdr + 8) 8)), numSamples,
    .ofNat (ofLeBytes (mem.load (hdr + 24) 4)), samplesAt mem base numSamples.toNat⟩

/-- What a consumer finds in its slot by `as_block`. -/
def blockAt (mem : Mem) (slot : Slot) : Option SampleBlock :=
  (asBlock slot).map fun (hdr, base) => .ofMem mem hdr base

/-! ## The stream -/

structure Stream where
  state : State
  arrived : List (UInt16 × UInt16)
  sent : List SampleBlock
  received : List SampleBlock

namespace Stream

def init (kCacheLineSize blockLen : UInt64) (buffer : Mem) (controlBlockFlags : UInt32)
    (loLocked : Bool) : Stream :=
  ⟨.init kCacheLineSize blockLen buffer controlBlockFlags loLocked, [], [], []⟩

/-- The block that `finish` commits: the samples that have arrived, under the flags of the pass and
of its last samples. -/
def finished (s : Stream) (md : Metadata) (now : UInt64) : List SampleBlock :=
  match s.state.rx with
  | .receiving b =>
    [⟨now, md.timestampHw, .ofNat s.arrived.length, b.flags ||| md.errorCode.flag, s.arrived⟩]
  | _ => []

/-- The block that the consumer releases. -/
def released (s : Stream) : List SampleBlock :=
  (s.state.reading.bind (blockAt s.state.queue.buffer)).toList

/-- A step of the loop or of another party, with what it sends or receives. -/
def step (kCacheLineSize blockLen : UInt64) (s : Stream) (a : Action) : Option Stream :=
  (s.state.step kCacheLineSize blockLen a).map fun t =>
    match a with
    | .rx .acquire => { s with state := t, arrived := [] }
    | .rx (.recv samples) => { s with state := t, arrived := s.arrived ++ samples }
    | .rx (.finish md now) => { s with state := t, sent := s.sent ++ s.finished md now }
    | .commitRead => { s with state := t, received := s.received ++ s.released }
    | .rx .check | .acquireRead | .tune | .lock | .stop => { s with state := t }

/-- The consumer has received the first blocks that were sent, and holds the next one. -/
def Intact (s : Stream) : Prop :=
  s.received <+: s.sent ∧ ∀ slot ∈ s.state.reading, ∃ block,
    blockAt s.state.queue.buffer slot = some block ∧ s.sent[s.received.length]? = some block

end Stream

/-! ## Blocks in memory -/

variable {mem : Mem} {hdr base : Nat}

theorem length_flatMap_sampleBytes (samples : List (UInt16 × UInt16)) :
    (samples.flatMap sampleBytes).length = 4 * samples.length := by
  induction samples with
  | nil => rfl
  | cons sample samples ih =>
    rw [List.flatMap_cons, List.length_append, ih, List.length_cons]
    simp only [sampleBytes, List.length_append, length_leBytes]
    omega

theorem samplesAt_of_load {samples : List (UInt16 × UInt16)}
    (h : mem.load base (4 * samples.length) = samples.flatMap sampleBytes) :
    samplesAt mem base samples.length = samples := by
  induction samples generalizing base with
  | nil => rfl
  | cons sample samples ih =>
    rw [List.length_cons, Nat.mul_succ, Nat.add_comm, Mem.load_add, List.flatMap_cons] at h
    obtain ⟨hsample, hrest⟩ := List.append_inj h (by simp [sampleBytes])
    rw [show 4 = 2 + 2 from rfl, Mem.load_add, sampleBytes] at hsample
    obtain ⟨hre, him⟩ := List.append_inj hsample (by simp)
    rw [List.length_cons, samplesAt, ih hrest, hre, him, ofLeBytes_leBytes sample.1.toNat_lt,
      ofLeBytes_leBytes sample.2.toNat_lt, UInt16.ofNat_toNat, UInt16.ofNat_toNat]

@[simp] theorem length_headerBytes (b : Block) (md : Metadata) (now : UInt64) (flags : UInt32) :
    (b.headerBytes md now flags).length = 28 := by
  simp [Block.headerBytes]

/-- The header that the loop writes is the one that the consumer reads. -/
theorem SampleBlock.ofMem_eq {b : Block} {md : Metadata} {now : UInt64} {flags : UInt32}
    {samples : List (UInt16 × UInt16)} (hheader : mem.load hdr 28 = b.headerBytes md now flags)
    (hsamples : mem.load base (4 * samples.length) = samples.flatMap sampleBytes)
    (hlength : b.numSamples = samples.length) (hlt : samples.length < 2 ^ 64) :
    SampleBlock.ofMem mem hdr base =
      ⟨now, md.timestampHw, .ofNat samples.length, flags, samples⟩ := by
  rw [show 28 = 8 + 8 + 8 + 4 from rfl, Mem.load_add, Mem.load_add, Mem.load_add,
    Block.headerBytes] at hheader
  obtain ⟨hrest, hflags⟩ := List.append_inj hheader (by simp)
  obtain ⟨htimes, hnum⟩ := List.append_inj hrest (by simp)
  obtain ⟨hns, hhw⟩ := List.append_inj htimes (by simp)
  have htoNat : (UInt64.ofNat samples.length).toNat = samples.length := by
    rw [UInt64.toNat_ofNat', Nat.mod_eq_of_lt hlt]
  have hread : ofLeBytes (mem.load (hdr + 16) 8) = samples.length := by
    rw [hnum, hlength]
    exact ofLeBytes_leBytes hlt
  simp only [SampleBlock.ofMem, hread, htoNat, samplesAt_of_load hsamples]
  rw [hns, hhw, hflags, ofLeBytes_leBytes now.toNat_lt, ofLeBytes_leBytes md.timestampHw.toNat_lt,
    ofLeBytes_leBytes flags.toNat_lt, UInt64.ofNat_toNat, UInt64.ofNat_toNat, UInt32.ofNat_toNat]

end Csics.Radio
