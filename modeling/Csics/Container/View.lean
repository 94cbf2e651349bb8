import Csics.Container.Buffer

/-!
# Views

`BasicBufferView<T>` of `include/csics/Buffer.hpp` and `StringView` of `include/csics/String.hpp`:
an address and a size that is a 64-bit number. A null pointer is the address 0.

`subview` of both and `Buffer::operator()` compute the same (`slice`): the length is cut where its
sum with the offset, which wraps, is greater than the size. `head` and `tail` compare the length
itself.
-/

namespace Csics.Container

open Base

/-- A type of objects, without `const`, by its number. A byte type (`IsByteType`) has size 1. -/
structure ObjectType where
  id : Nat
  size : Nat
  align : Nat
  isByte : Bool
  size_pos : 0 < size
  size_lt : size < 2 ^ 64
  align_pos : 0 < align
  size_of_isByte : isByte = true → size = 1
  deriving DecidableEq

/-- A type of elements, perhaps with `const`. -/
structure CppType where
  type : ObjectType
  isConst : Bool
  deriving DecidableEq

namespace CppType

/-- `sizeof(T)`. -/
def size (T : CppType) : Nat := T.type.size

def const (T : CppType) : CppType := { T with isConst := true }

/-- `char`. -/
def char : CppType :=
  ⟨⟨0, 1, 1, true, Nat.one_pos, by decide, Nat.one_pos, fun _ => rfl⟩, false⟩

end CppType

structure BasicBufferView (T : CppType) where
  data : Nat
  size : UInt64
  deriving DecidableEq

structure StringView where
  data : Nat
  size : UInt64
  deriving DecidableEq

/-! ## The code -/

/-- The address and the size that `subview` gives, for elements of a size. -/
def slice (elementSize data : Nat) (size offset length : UInt64) : Nat × UInt64 :=
  if offset ≥ size then (0, 0)
  else (data + offset.toNat * elementSize, if offset + length > size then size - offset else length)

/-- The address and the size that `head` gives. -/
def headSlice (data : Nat) (size length : UInt64) : Nat × UInt64 :=
  (data, if length > size then size else length)

/-- The address and the size that `tail` gives. -/
def tailSlice (elementSize data : Nat) (size length : UInt64) : Nat × UInt64 :=
  let length := if length > size then size else length
  (data + (size - length).toNat * elementSize, length)

namespace BasicBufferView

variable {T : CppType}

/-- `subview`, and `operator()`. -/
def subview (v : BasicBufferView T) (offset length : UInt64) : BasicBufferView T :=
  let (data, size) := slice T.size v.data v.size offset length
  ⟨data, size⟩

def head (v : BasicBufferView T) (length : UInt64) : BasicBufferView T :=
  let (data, size) := headSlice v.data v.size length
  ⟨data, size⟩

def tail (v : BasicBufferView T) (length : UInt64) : BasicBufferView T :=
  let (data, size) := tailSlice T.size v.data v.size length
  ⟨data, size⟩

end BasicBufferView

namespace StringView

def subview (v : StringView) (offset length : UInt64) : StringView :=
  let (data, size) := slice 1 v.data v.size offset length
  ⟨data, size⟩

def head (v : StringView) (length : UInt64) : StringView :=
  let (data, size) := headSlice v.data v.size length
  ⟨data, size⟩

def tail (v : StringView) (length : UInt64) : StringView :=
  let (data, size) := tailSlice 1 v.data v.size length
  ⟨data, size⟩

end StringView

/-- `Buffer::operator()(offset, length)`, both overloads, for a buffer with its storage at an
address. -/
def Buffer.subview {α : Type} (T : CppType) (data : Nat) (b : Buffer α) (offset length : UInt64) :
    BasicBufferView T :=
  let (data, size) := slice T.size data (UInt64.ofNat b.size) offset length
  ⟨data, size⟩

end Csics.Container
