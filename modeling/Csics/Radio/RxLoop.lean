import Csics.Base.Run
import Csics.Queue.Capacity

/-!
# The receiver loop

`USRPRadioRx::rx_loop` of `src/radio/usrp/USRPRadioRx.cpp`, between `start_stream` and the return of
the `join` in `stop_stream`. The loop acquires a slot, receives the samples of a block into it,
writes the header of the block and commits the slot. It looks at `stop_signal_` before each block.

The thread of the loop, the consumer of the queue, the tuning of the receiver and `stop_stream` take
their steps in any order. What the driver receives is part of the step: at least one sample, and not
more than there is place for.
-/

namespace Csics.Radio

open Base Queue

/-! ## Blocks -/

/-- `sizeof(SDRRawSample)`. -/
def sizeofSDRRawSample : UInt64 := 4

/-- `sizeof(BlockHeader)`: two timestamps, `num_samples`, `flags` and the reserved bytes. -/
def sizeofBlockHeader : UInt64 := 8 + 8 + 8 + 4 + 252

/-- `buffer_size`. -/
def bufferSize (blockLen : UInt64) : UInt64 := blockLen * sizeofSDRRawSample + sizeofBlockHeader

/-- `SDRRawSample`, in memory. -/
def sampleBytes (sample : UInt16 × UInt16) : List UInt8 :=
  leBytes 2 sample.1.toNat ++ leBytes 2 sample.2.toNat

/-! ### `BlockFlags` -/

def bfNone : UInt32 := 0
def bfOverflow : UInt32 := (1 : UInt32) <<< 0
def bfTimeout : UInt32 := (1 : UInt32) <<< 2
def bfBadFrame : UInt32 := (1 : UInt32) <<< 3
def bfConfigChange : UInt32 := (1 : UInt32) <<< 8
def bfLoUnlocked : UInt32 := (1 : UInt32) <<< 9

/-- `uhd_rx_metadata_error_code_t`. -/
inductive ErrorCode where
  | none
  | overflow
  | timeout
  | badPacket
  | other

/-- The flag that the `switch` adds. -/
def ErrorCode.flag : ErrorCode → UInt32
  | .none => bfNone
  | .overflow => bfOverflow
  | .timeout => bfTimeout
  | .badPacket => bfBadFrame
  | .other => 0

/-- What the driver says of the last samples. -/
structure Metadata where
  timestampHw : UInt64
  errorCode : ErrorCode

/-- The locals of a pass through the loop; `numSamples` is `cursor - base`. -/
structure Block where
  slot : Slot
  hdr : Nat
  base : Nat
  numSamples : Nat
  flags : UInt32
  deriving DecidableEq

/-- `as_block(hdr, base)`. -/
def asBlock (slot : Slot) : Option (Nat × Nat) :=
  slot.data.map fun data => (data, data + sizeofBlockHeader.toNat)

/-- The header as it is written, up to the reserved bytes. -/
def Block.headerBytes (b : Block) (md : Metadata) (now : UInt64) (flags : UInt32) : List UInt8 :=
  leBytes 8 now.toNat ++ leBytes 8 md.timestampHw.toNat ++ leBytes 8 b.numSamples ++
    leBytes 4 flags.toNat

/-! ## The state -/

/-- Where the thread is: at the condition of the outer loop, in the loop around `acquire_write`, in
the loop around the driver, or behind the outer loop. -/
inductive Rx where
  | checking
  | acquiring
  | receiving (b : Block)
  | returned
  deriving DecidableEq

structure State where
  queue : SPSCQueue
  reading : Option Slot
  stopSignal : Bool
  controlBlockFlags : UInt32
  loLocked : Bool
  rx : Rx

/-- A step of `rx_loop`. -/
inductive RxStep where
  | check
  | acquire
  | recv (samples : List (UInt16 × UInt16))
  | finish (md : Metadata) (now : UInt64)

inductive Action where
  | rx (step : RxStep)
  | acquireRead
  | commitRead
  | tune
  | lock
  | stop

namespace State

/-- The thread as `start_stream` starts it. -/
def init (kCacheLineSize blockLen : UInt64) (buffer : Mem) (controlBlockFlags : UInt32)
    (loLocked : Bool) : State :=
  ⟨.make kCacheLineSize ((blockLen * sizeofSDRRawSample + sizeofBlockHeader) * 4) buffer, none,
    false, controlBlockFlags, loLocked, .checking⟩

/-! ## Steps -/

/-- `while (!stop_signal_.load())`. -/
def check (s : State) : Option State :=
  match s.rx with
  | .checking => some { s with rx := if s.stopSignal then .returned else .acquiring }
  | _ => none

/-- `while (acquire_write(slot, buffer_size) != None)`, and what comes before the driver is
called. -/
def acquire (blockLen : UInt64) (s : State) : Option State :=
  match s.rx with
  | .acquiring =>
    match s.queue.acquireWrite .init (bufferSize blockLen) with
    | (.none, slot, q) =>
      (asBlock slot).map fun (hdr, base) => { s with
        queue := q
        controlBlockFlags := s.controlBlockFlags &&& ~~~bfConfigChange
        rx := .receiving ⟨slot, hdr, base, 0, s.controlBlockFlags⟩ }
    | (_, _, q) => some { s with queue := q }
  | _ => none

/-- `while (cursor < base + block_len_)`. -/
def recv (blockLen : UInt64) (s : State) (samples : List (UInt16 × UInt16)) : Option State :=
  match s.rx with
  | .receiving b =>
    if b.numSamples < blockLen.toNat ∧ 0 < samples.length ∧
        samples.length ≤ blockLen.toNat - b.numSamples then
      let cursor := b.base + b.numSamples * sizeofSDRRawSample.toNat
      let buffer := s.queue.buffer.store cursor (samples.flatMap sampleBytes)
      some { s with
        queue := { s.queue with buffer := buffer }
        rx := .receiving { b with numSamples := b.numSamples + samples.length } }
    else none
  | _ => none

/-- What follows on the last sample, up to the `commit_write`. -/
def finish (kCacheLineSize blockLen : UInt64) (s : State) (md : Metadata) (now : UInt64) :
    Option State :=
  match s.rx with
  | .receiving b =>
    if b.numSamples < blockLen.toNat then none
    else
      let flags := b.flags ||| md.errorCode.flag
      let queue := { s.queue with
        buffer := s.queue.buffer.store b.hdr (b.headerBytes md now flags) }
      some { s with
        queue := queue.commitWrite kCacheLineSize b.slot
        controlBlockFlags :=
          if flags &&& bfLoUnlocked ≠ 0 ∧ s.loLocked then s.controlBlockFlags &&& ~~~bfLoUnlocked
          else s.controlBlockFlags
        rx := .checking }
  | _ => none

/-- A step of `rx_loop`. -/
def rxStep (kCacheLineSize blockLen : UInt64) (s : State) : RxStep → Option State
  | .check => s.check
  | .acquire => s.acquire blockLen
  | .recv samples => s.recv blockLen samples
  | .finish md now => s.finish kCacheLineSize blockLen md now

/-- The consumer calls `acquire_read`. -/
def acquireRead (s : State) : Option State :=
  match s.reading with
  | some _ => none
  | none =>
    match s.queue.acquireRead .init with
    | (.none, slot, q) => some { s with queue := q, reading := some slot }
    | (_, _, q) => some { s with queue := q }

/-- The consumer calls `commit_read`. -/
def commitRead (kCacheLineSize : UInt64) (s : State) : Option State :=
  s.reading.map fun slot =>
    { s with queue := s.queue.commitRead kCacheLineSize slot, reading := none }

/-- One step of any of the parties; `stop` is the store of `stop_stream`, `tune` is
`set_center_frequency`, and `lock` is the thread that this function starts. -/
def step (kCacheLineSize blockLen : UInt64) (s : State) : Action → Option State
  | .rx step => s.rxStep kCacheLineSize blockLen step
  | .acquireRead => s.acquireRead
  | .commitRead => s.commitRead kCacheLineSize
  | .tune => some { s with
      loLocked := false
      controlBlockFlags := s.controlBlockFlags ||| (bfConfigChange ||| bfLoUnlocked) }
  | .lock => some { s with loLocked := true }
  | .stop => some { s with stopSignal := true }

end State

end Csics.Radio
