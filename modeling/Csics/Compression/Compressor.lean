import Csics.Base.Codec

/-!
# Compressors

`CompressionStatus` and `CompressionResult` of `include/csics/io/compression/Compressor.hpp`, and
the calls of an `ICompressor`. The compression libraries are codecs (`Base.Codec`): of a view into
`in` a call has the bytes, and of one into `out` the size.

Every operation returns, beside its result, the log of its calls of the library. `Accounts` compares
the two.
-/

namespace Csics.Compression

open Base

inductive CompressionStatus where
  | ok
  | needsInput
  | outputBufferFull
  | needsFlush
  | inputBufferFinished
  | fatalError
  | nonFatalError
  | invalidState
  deriving DecidableEq, Repr

structure CompressionResult where
  compressed : Nat
  inputConsumed : Nat
  status : CompressionStatus
  deriving DecidableEq, Repr

/-- A call of an `ICompressor`, with its input and the size of its output. -/
inductive Op where
  | compressPartial (input : List UInt8) (out : Nat)
  | compressBuffer (input : List UInt8) (out : Nat)
  | finish (input : List UInt8) (out : Nat)
  deriving DecidableEq, Repr

variable {κ : Type*}

/-- The counts of the result are what the library has put and taken. -/
def Accounts (result : CompressionResult) (log : List (Reply κ)) : Prop :=
  result.compressed = produced log ∧ result.inputConsumed = consumed log

instance (result : CompressionResult) (log : List (Reply κ)) : Decidable (Accounts result log) :=
  inferInstanceAs (Decidable (_ ∧ _))

end Csics.Compression
