import Csics.Base.Storage
import Csics.Container.Capacity

/-!
# The buffer

`Buffer<T, Alignment, Policy>` of `include/csics/Buffer.hpp`. `buf_` owns storage (`Base.Storage`),
or is null and has no slots. An iterator is an index, and an operation that does something undefined
is `none`: it gets to a slot that is not there, or to an object that is not. The assertions are no
code in a release build.

Elements that nothing gives a value are unspecified. Where there are some, an operation is given
their values.
-/

namespace Csics.Container

open Base

/-- What the traits tell about `T`, and what a move leaves of an object, also one onto itself. -/
structure ElementType (α : Type) where
  triviallyCopyable : Bool
  triviallyDestructible : Bool
  triviallyDefaultConstructible : Bool
  movedFrom : α → α
  selfMoved : α → α
  destructible_of_copyable : triviallyCopyable = true → triviallyDestructible = true
  destructible_of_default : triviallyDefaultConstructible = true → triviallyDestructible = true
  movedFrom_of_copyable : triviallyCopyable = true → ∀ v, movedFrom v = v
  selfMoved_of_copyable : triviallyCopyable = true → ∀ v, selfMoved v = v

structure Buffer (α : Type) where
  capacity : Nat
  size : Nat
  buf : Option (Slots α)
  deriving DecidableEq, Repr

variable {α : Type} (T : ElementType α) (policy : CapacityPolicy)

/-! ## Elements -/

/-- `std::uninitialized_copy`, or `std::memcpy` for a trivially copyable `T`. -/
def uninitializedCopy (s : Slots α) (i : Nat) (vs : List α) (life : Lifetimes) :
    Option (Slots α × Lifetimes) :=
  if T.triviallyCopyable = true then s.copyBytes i vs life
  else s.construct T.triviallyDestructible i vs life

/-- What `std::uninitialized_move` takes out of the first elements, or `std::memcpy` for a trivially
copyable `T`. -/
def takeOut (s : Slots α) (n : Nat) : Option (List α × Slots α) :=
  if T.triviallyCopyable = true then (s.read 0 n).map fun vs => (vs, s)
  else s.moveOut T.movedFrom 0 n

/-- `std::destroy_n`, unless `T` is trivially destructible. -/
def destroyN (s : Slots α) (i n : Nat) (life : Lifetimes) : Option (Slots α × Lifetimes) :=
  if T.triviallyDestructible = true then some (s, life) else s.destroy i n life

namespace Buffer

/-- The slots behind `buf_`. -/
def slots (b : Buffer α) : Slots α := b.buf.getD []

def withSlots (b : Buffer α) (s : Slots α) : Buffer α := { b with buf := b.buf.map fun _ => s }

/-- The iteration from `begin()` to `end()`. -/
def elements (b : Buffer α) : Option (List α) := b.slots.read 0 b.size

/-! ## Construction -/

/-- `Buffer()`. -/
def empty : Buffer α := ⟨0, 0, none⟩

/-- New storage with copies of the values, as most constructors and assignments make it:
`Buffer(const T*, size)`, `Buffer(const std::vector<T>&)`, `Buffer(std::initializer_list<T>)`. -/
def ofData (data : List α) (life : Lifetimes) : Option (Buffer α × Lifetimes) := do
  let capacity := policy.adjustCapacity data.length
  let (buf, life) ← uninitializedCopy T (Slots.fresh capacity) 0 data life
  some (⟨capacity, data.length, some buf⟩, life)

/-- `Buffer(size, value)`. -/
def ofValue (size : Nat) (value : α) (life : Lifetimes) : Option (Buffer α × Lifetimes) :=
  ofData T policy (List.replicate size value) life

/-- `Buffer(size)`. The elements are not constructed: those of a trivially copyable `T` are there
without. -/
def ofSize (added : List α) (life : Lifetimes) : Buffer α × Lifetimes :=
  let capacity := policy.adjustCapacity added.length
  if T.triviallyCopyable = true then
    let (buf, life) := (Slots.fresh capacity).appear 0 added life
    (⟨capacity, added.length, some buf⟩, life)
  else (⟨capacity, added.length, some (Slots.fresh capacity)⟩, life)

/-- `Buffer(const Buffer&)`. -/
def copyConstruct (other : Buffer α) (life : Lifetimes) : Option (Buffer α × Lifetimes) :=
  match other.buf with
  | none => some (empty, life)
  | some buf => do
    let vs ← buf.read 0 other.size
    ofData T policy vs life

/-- `Buffer(Buffer&&)`: the new buffer, and what is left of the other one. -/
def moveConstruct (other : Buffer α) (life : Lifetimes) :
    Option (Buffer α × Buffer α × Lifetimes) :=
  if T.triviallyCopyable = true then
    -- size_ and capacity_ of the other one stay as they are
    some (⟨other.capacity, other.size, other.buf⟩, { other with buf := none }, life)
  else do
    let (vs, slots) ← takeOut T other.slots other.size
    let (buf, life) ← uninitializedCopy T (Slots.fresh other.capacity) 0 vs life
    some (⟨other.capacity, other.size, some buf⟩, other.withSlots slots, life)

/-- `~Buffer()`. The storage goes, with what is in it. -/
def destruct (b : Buffer α) (life : Lifetimes) : Option Lifetimes :=
  (destroyN T b.slots 0 b.size life).map Prod.snd

/-- `operator=(const Buffer&)`, for another one. -/
def copyAssign (b other : Buffer α) (life : Lifetimes) : Option (Buffer α × Lifetimes) := do
  let life ← b.destruct T life
  let vs ← other.slots.read 0 other.size
  ofData T policy vs life

/-- `operator=(Buffer&&)`, for another one. -/
def moveAssign (b other : Buffer α) (life : Lifetimes) :
    Option (Buffer α × Buffer α × Lifetimes) := do
  let life ← b.destruct T life
  other.moveConstruct T life

/-! ## Capacity -/

/-- `destroy_and_copy_to`. A trivially copyable `T` is trivially destructible, so that there is
nothing to destroy behind `memcpy`. -/
def destroyAndCopyTo (b : Buffer α) (newBuf : Slots α) (life : Lifetimes) :
    Option (Slots α × Lifetimes) :=
  match b.buf with
  | none => some (newBuf, life)
  | some buf => do
    let (vs, buf) ← takeOut T buf b.size
    let (newBuf, life) ← uninitializedCopy T newBuf 0 vs life
    let (_, life) ← destroyN T buf 0 b.size life
    some (newBuf, life)

def reallocate (b : Buffer α) (newCapacity : Nat) (life : Lifetimes) :
    Option (Buffer α × Lifetimes) := do
  let newCapacity := policy.adjustCapacity newCapacity
  let (newBuf, life) ← b.destroyAndCopyTo T (Slots.fresh newCapacity) life
  some ({ b with capacity := newCapacity, buf := some newBuf }, life)

def addCapacityFor (b : Buffer α) (additionalSize : Nat) (life : Lifetimes) :
    Option (Buffer α × Lifetimes) :=
  if b.size + additionalSize > b.capacity then
    b.reallocate T policy (b.size + additionalSize) life
  else some (b, life)

/-! ## Operations -/

/-- Room for one element, `std::construct_at` behind the last one, and `size_++`. -/
def constructBack (b : Buffer α) (value : α) (life : Lifetimes) :
    Option (Buffer α × Lifetimes) := do
  let (b, life) ← b.addCapacityFor T policy 1 life
  let (s, life) ← b.slots.construct T.triviallyDestructible b.size [value] life
  some ({ b.withSlots s with size := b.size + 1 }, life)

/-- Both overloads of `push_back`. -/
def pushBack (b : Buffer α) (value : α) (life : Lifetimes) : Option (Buffer α × Lifetimes) :=
  b.constructBack T policy value life

def emplaceBack (b : Buffer α) (value : α) (life : Lifetimes) : Option (Buffer α × Lifetimes) :=
  b.constructBack T policy value life

def popBack (b : Buffer α) (life : Lifetimes) : Option (Buffer α × Lifetimes) :=
  -- size_ - 1 of an empty buffer is far out of range
  if b.size = 0 then none
  else do
    let (_, s) ← b.slots.moveOut T.movedFrom (b.size - 1) 1
    let (s, life) ← destroyN T s (b.size - 1) 1 life
    some ({ b.withSlots s with size := b.size - 1 }, life)

/-- The loop of `erase`, with `end() - src` rounds to go. -/
def shift (s : Slots α) (dest src : Nat) : Nat → Option (Slots α)
  | 0 => some s
  | n + 1 => do
    let s ← s.moveAssign T.movedFrom T.selfMoved dest src
    shift s (dest + 1) (src + 1) n

def erase (b : Buffer α) (first last : Nat) (life : Lifetimes) : Option (Buffer α × Lifetimes) :=
  -- the loop runs out of range, or the size wraps
  if last < first ∨ b.size < last then none
  else do
    let s ← shift T b.slots first last (b.size - last)
    let newEnd := b.size - (last - first)
    let (s, life) ← destroyN T s newEnd (last - first) life
    some ({ b.withSlots s with size := newEnd }, life)

def swapAndPop (b : Buffer α) (pos : Nat) (life : Lifetimes) : Option (Buffer α × Lifetimes) := do
  let (s, life) ← destroyN T b.slots pos 1 life
  let s ←
    if pos + 1 ≠ b.size then s.moveAssign T.movedFrom T.selfMoved pos (b.size - 1) else some s
  some ({ b.withSlots s with size := b.size - 1 }, life)

def append (b : Buffer α) (data : List α) (life : Lifetimes) : Option (Buffer α × Lifetimes) :=
  if data = [] then some (b, life)
  else do
    let (b, life) ← b.addCapacityFor T policy data.length life
    let (s, life) ← uninitializedCopy T b.slots b.size data life
    some ({ b.withSlots s with size := b.size + data.length }, life)

/-- `append_uninitialized`, for a trivially copyable `T` only. -/
def appendUninitialized (b : Buffer α) (added : List α) (life : Lifetimes) :
    Option (Buffer α × Lifetimes) := do
  let (b, life) ← b.addCapacityFor T policy added.length life
  let (s, life) := b.slots.appear b.size added life
  some ({ b.withSlots s with size := b.size + added.length }, life)

/-- `resize`, with the values that elements from `size()` on get. -/
def resize (b : Buffer α) (newSize : Nat) (added : Nat → α) (life : Lifetimes) :
    Option (Buffer α × Lifetimes) := do
  let (b, life) ←
    (if newSize > b.capacity then b.reallocate T policy newSize life else some (b, life))
  if newSize > b.size then
    let vs := (List.range (newSize - b.size)).map added
    if T.triviallyDefaultConstructible = true then
      let (s, life) := b.slots.appear b.size vs life
      some ({ b.withSlots s with size := newSize }, life)
    else do
      let (s, life) ← b.slots.construct T.triviallyDestructible b.size vs life
      some ({ b.withSlots s with size := newSize }, life)
  else do
    let (s, life) ← destroyN T b.slots newSize (b.size - newSize) life
    some ({ b.withSlots s with size := newSize }, life)

def clear (b : Buffer α) (life : Lifetimes) : Option (Buffer α × Lifetimes) := do
  let (s, life) ← destroyN T b.slots 0 b.size life
  some ({ b.withSlots s with size := 0 }, life)

/-! ## Arguments in the buffer itself -/

/-- What arguments in `n` slots of the buffer are behind `add_capacity_for(n)`: they are moved from
or only read. -/
def arguments (b : Buffer α) (moves : Bool) (i n : Nat) : Option (List α × Slots α) :=
  -- `reallocate` ends the elements and their storage before an argument is read
  if b.size + n > b.capacity then none
  else if moves = true then b.slots.moveOut T.movedFrom i n
  else (b.slots.read i n).map fun vs => (vs, b.slots)

/-- `push_back` and `emplace_back` of a reference to element `i` or to a part of it, `f`. -/
def constructBackOwn (b : Buffer α) (moves : Bool) (i : Nat) (f : α → α) (life : Lifetimes) :
    Option (Buffer α × Lifetimes) := do
  let (vs, s) ← b.arguments T moves i 1
  let (s, life) ← s.construct T.triviallyDestructible b.size (vs.map f) life
  some ({ b.withSlots s with size := b.size + 1 }, life)

/-- `append(data() + offset, count)`. -/
def appendOwn (b : Buffer α) (offset count : Nat) (life : Lifetimes) :
    Option (Buffer α × Lifetimes) :=
  if count = 0 then some (b, life)
  else do
    let (vs, s) ← b.arguments T false offset count
    let (s, life) ← uninitializedCopy T s b.size vs life
    some ({ b.withSlots s with size := b.size + count }, life)

/-- `operator=`, both, from a buffer that an element of this one owns: it ends with the element,
before it is read. -/
def assignOwned (b : Buffer α) (life : Lifetimes) : Option (Buffer α × Lifetimes) := do
  let _ ← b.destruct T life
  none

end Buffer

end Csics.Container
