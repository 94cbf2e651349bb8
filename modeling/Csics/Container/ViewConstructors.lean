import Csics.Container.View

/-!
# The constructors of a view from a container

The constructors of `BasicBufferView<T>` (`include/csics/Buffer.hpp`) that take a container, with
their constraints and the size that each of them computes, and the one of them that a call with a
container selects. `as_bytes` and `as_type` are at the end.

The constructor that adds `const` takes every argument that converts to a view of mutable elements.
So where no constructor takes the container as it is, this view may be made first (`converted`).

A container is a contiguous one, of a class without conversion functions to views of its own other
than `Buffer`, whose functions give all of its elements.
-/

namespace Csics.Container

namespace CppType

/-- `sizeof(T)`, as the code computes with it. -/
def sizeof (T : CppType) : UInt64 := UInt64.ofNat T.size

end CppType

/-- What the language says of two types without `const`: `std::is_convertible_v` and
`std::convertible_to`. -/
structure Conversions where
  isConvertible : ObjectType → ObjectType → Bool
  convertibleTo : ObjectType → ObjectType → Bool

def SameConst (T U : CppType) : Bool := T.isConst == U.isConst

def ConstConvertible (conv : Conversions) (T U : CppType) : Bool :=
  T.isConst && conv.isConvertible T.type U.type

inductive ContainerKind
  | vector
  | array
  | cArray
  | view
  /-- Any other contiguous range. Through a `const` one the elements are `const`, or, as those of a
  `std::span`, they are not. -/
  | range (deepConst : Bool)
  deriving DecidableEq

/-- The elements of a `const` container are `const`. -/
def ContainerKind.deepConst : ContainerKind → Bool
  | .range deepConst => deepConst
  | _ => true

/-- How an argument becomes a parameter, the best way first. -/
inductive Conversion
  | exact
  /-- Another standard conversion, such as the one to a base class. -/
  | standard
  | userDefined
  deriving DecidableEq

def Conversion.rank : Conversion → Nat
  | .exact => 0
  | .standard => 1
  | .userDefined => 2

/-- A container of `count` elements: an lvalue, or, read-only, an lvalue with `const` or a
temporary. -/
structure Argument where
  kind : ContainerKind
  /-- Its class is derived from the one of its kind. -/
  derived : Bool
  element : CppType
  readOnly : Bool
  data : Nat
  count : Nat
  /-- The object that a `T&` is bound to, if it can be: how, and its address. -/
  object : CppType → Option (Conversion × Nat)
  /-- The elements are in memory. -/
  extent_lt : count * element.size < 2 ^ 64
  vector_element : kind = .vector → element.isConst = false
  cArray_readOnly : kind = .cArray → readOnly = element.isConst

/-- The constructors, in the order of the source. The move constructor computes what the copy
constructor does. -/
inductive Constructor
  /-- `BasicBufferView(R& range)` -/
  | range
  /-- `BasicBufferView(const R& range)` -/
  | constRange
  /-- `BasicBufferView(R& range)`, for a byte type `T` -/
  | byteRange
  /-- `BasicBufferView(const R& range)`, for a byte type `T` -/
  | constByteRange
  /-- `BasicBufferView(const BasicBufferView& other)` -/
  | copy
  /-- `explicit BasicBufferView(T& obj)` -/
  | object
  /-- `BasicBufferView(const BasicBufferView<std::remove_const_t<T>>& other)` -/
  | mutableView
  /-- `BasicBufferView(std::vector<U>& vec)` -/
  | vector
  /-- `BasicBufferView(BasicBufferView<U> byte_view)` -/
  | byteView
  /-- `BasicBufferView(const std::array<T, N>& arr)` -/
  | array
  /-- `BasicBufferView(T (&arr)[N])` -/
  | cArray
  deriving DecidableEq

def Constructor.all : List Constructor :=
  [.range, .constRange, .byteRange, .constByteRange, .copy, .object, .mutableView, .vector,
    .byteView, .array, .cArray]

/-! ## The constructor that a call selects -/

variable (conv : Conversions) (T : CppType) (arg : Argument)

/-- `std::same_as<range_value_t<R>, T> || std::convertible_to<range_value_t<R>, T>`. -/
def valueConverts : Bool :=
  decide ((⟨arg.element.type, false⟩ : CppType) = T) || conv.convertibleTo arg.element.type T.type

/-- The constructor takes the container, and its constraints hold. For an lvalue with `const`, `R&`
is left out: then `const R&` takes it too and is the more special one. -/
def viable : Constructor → Bool
  | .range => !arg.readOnly && !T.type.isByte && valueConverts conv T arg
  | .constRange => valueConverts conv T arg
  | .byteRange => !arg.readOnly && T.type.isByte
  | .constByteRange => T.type.isByte
  | .copy => arg.kind == .view && arg.element == T
  | .object => (arg.object T).isSome
  | .mutableView =>
    ConstConvertible conv T T && arg.kind == .view && arg.element == ⟨T.type, false⟩
  | .vector =>
    arg.kind == .vector && !arg.readOnly &&
      (SameConst T arg.element || ConstConvertible conv T arg.element)
  | .byteView =>
    arg.kind == .view && arg.element != T && arg.element.type.isByte && T.type.isByte &&
      SameConst T arg.element
  | .array => arg.kind == .array && arg.element == T
  | .cArray =>
    arg.kind == .cArray && arg.element.type == T.type && (T.isConst || !arg.element.isConst)

/-- How the container becomes the parameter of a constructor that takes it. A template `R&` binds to
the container itself. -/
def conversion : Constructor → Conversion
  | .object => (arg.object T).elim .userDefined Prod.fst
  | .copy | .mutableView | .vector | .byteView | .array =>
    if arg.derived then .standard else .exact
  | .range | .constRange | .byteRange | .constByteRange | .cArray => .exact

/-- The parameter is a reference to `const`, and the argument is not. -/
def addsConst (c : Constructor) : Bool :=
  !arg.readOnly && match c with
    | .constRange | .constByteRange | .copy | .mutableView | .array => true
    | .object | .cArray => T.isConst
    | .range | .byteRange | .vector | .byteView => false

/-- The order of the constructors by how special they are, those that are no templates last. Of two
with the same number that are both viable, none is better. -/
def Constructor.rank : Constructor → Nat
  | .range | .byteRange => 0
  | .constRange | .constByteRange => 1
  | .mutableView | .vector | .byteView | .array | .cArray => 2
  | .copy | .object => 3

/-- The overload resolution prefers `c` to `d`. -/
def better (c d : Constructor) : Bool :=
  if conversion T arg c ≠ conversion T arg d then
    (conversion T arg c).rank < (conversion T arg d).rank
  else if conversion T arg c = .exact ∧ addsConst T arg c ≠ addsConst T arg d then
    addsConst T arg d
  else d.rank < c.rank

/-- The one that is better than all others. -/
def best (candidates : List Constructor) : Option Constructor :=
  candidates.find? fun c => candidates.all fun d => d == c || better T arg c d

/-- The constructors that take the container. -/
def candidates : List Constructor := Constructor.all.filter (viable conv T arg)

/-- Those of them that also convert it to a `BasicBufferView<T>` that a call asks for. -/
def converting : List Constructor :=
  Constructor.all.filter fun c => viable conv T arg c && c != .object

/-- `std::remove_const_t<T>`. -/
def CppType.removeConst (T : CppType) : CppType := { T with isConst := false }

/-- The constructor that is called. -/
inductive Selection
  /-- With the container. -/
  | direct (c : Constructor)
  /-- The one that adds `const`, with the view of mutable elements that `c` makes. -/
  | converted (c : Constructor)
  deriving DecidableEq

/-- The overload resolution. A user-defined conversion to a view is worse than every other way that
a constructor takes the container, and the one that adds `const` is a template, unlike
`BasicBufferView(T& obj)`. -/
def selected : Option Selection :=
  if (candidates conv T arg).isEmpty then
    if ConstConvertible conv T T then
      (best T.removeConst arg (converting conv T.removeConst arg)).map .converted
    else none
  else (best T arg (candidates conv T arg)).map .direct

/-! ## What it makes -/

/-- The initializers compile: `reinterpret_cast<T*>` does not cast `const` away. -/
def compiles : Constructor → Bool
  | .range | .byteRange => T.isConst || !arg.element.isConst
  | .constRange | .constByteRange => T.isConst || !(arg.element.isConst || arg.kind.deepConst)
  | _ => true

/-- The initializer of `size_`. -/
def initialSize : Constructor → UInt64
  | .range | .constRange => UInt64.ofNat arg.count
  | .byteRange | .constByteRange => UInt64.ofNat arg.count * arg.element.sizeof
  | .copy | .mutableView => UInt64.ofNat arg.count
  | .vector => UInt64.ofNat arg.count * arg.element.sizeof
  | .byteView => UInt64.ofNat arg.count
  | .array => UInt64.ofNat arg.count * T.sizeof
  | .cArray => UInt64.ofNat arg.count
  | .object => 1

/-- The initializer of `buf_`. -/
def initialData : Constructor → Nat
  | .object => (arg.object T).elim 0 Prod.snd
  | _ => arg.data

/-- What the constructor makes of the container. -/
def make (c : Constructor) : Option (BasicBufferView T) :=
  if compiles T arg c then some ⟨initialData T arg c, initialSize T arg c⟩ else none

/-- `BasicBufferView(const BasicBufferView<std::remove_const_t<T>>& other)`. -/
def BasicBufferView.ofMutable {T : CppType} (other : BasicBufferView T.removeConst) :
    BasicBufferView T :=
  ⟨other.data, other.size⟩

/-- `BasicBufferView<T>(arg)`, where it is accepted. -/
def construct : Option (BasicBufferView T) := do
  match ← selected conv T arg with
  | .direct c => make T arg c
  | .converted c => (make T.removeConst arg c).map .ofMutable

/-! ## Bytes and elements -/

namespace BasicBufferView

variable {T}

/-- The constraint of `as_bytes<U>` of a `BasicBufferView<T>`. -/
def AsBytesAllowed (T U : CppType) : Bool :=
  U.type.isByte && (SameConst T U || ConstConvertible conv U T)

def asBytes (v : BasicBufferView T) (U : CppType) : BasicBufferView U :=
  ⟨v.data, v.size * T.sizeof⟩

/-- The constraint of `as_type<U>` of a `BasicBufferView<T>`. -/
def AsTypeAllowed (T U : CppType) : Bool :=
  T.type.isByte && (SameConst T U || ConstConvertible conv U T)

def asType (v : BasicBufferView T) (U : CppType) : BasicBufferView U :=
  if v.size % U.sizeof ≠ 0 then ⟨0, 0⟩
  else if v.data % U.type.align ≠ 0 then ⟨0, 0⟩
  else ⟨v.data, v.size / U.sizeof⟩

end BasicBufferView

end Csics.Container
