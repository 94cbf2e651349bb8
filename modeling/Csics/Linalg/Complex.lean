import Mathlib.Algebra.Field.Basic

/-!
# Complex numbers

`Complex<T>` of `include/csics/linalg/Complex.hpp` with its operators, and the multiply and
accumulate of `include/csics/linalg/Ops.hpp`, over an exact field. A division by zero has no result.
-/

namespace Csics.Linalg

structure Complex (α : Type) where
  real : α
  imag : α
  deriving DecidableEq

variable {α : Type} [Field α] [DecidableEq α]

/-! ## Scalars -/

/-- `std::fma(x, y, z)`. -/
def fma (x y z : α) : α := x * y + z

/-- The quotient `x / y`. -/
def quotient (x y : α) : Option α := if y = 0 then none else some (x / y)

/-! ## Operators -/

namespace Complex

/-- `a + b`. -/
def add (a b : Complex α) : Complex α := ⟨a.real + b.real, a.imag + b.imag⟩

/-- `a - b`. -/
def sub (a b : Complex α) : Complex α := ⟨a.real - b.real, a.imag - b.imag⟩

/-- `a * b`. -/
def mul (a b : Complex α) : Complex α :=
  ⟨fma (-a.imag) b.imag (a.real * b.real), fma a.real b.imag (a.imag * b.real)⟩

/-- `denom` of a division by `b`. -/
def denom (b : Complex α) : α := b.real * b.real + b.imag * b.imag

/-- `a / b`. -/
def div (a b : Complex α) : Option (Complex α) := do
  let re ← quotient (a.real * b.real + a.imag * b.imag) b.denom
  let im ← quotient (a.imag * b.real - a.real * b.imag) b.denom
  some ⟨re, im⟩

/-- `c * s`. -/
def mulScalar (c : Complex α) (s : α) : Complex α := ⟨c.real * s, c.imag * s⟩

/-- `s * c`. -/
def scalarMul (s : α) (c : Complex α) : Complex α := c.mulScalar s

/-- `c / s`. -/
def divScalar (c : Complex α) (s : α) : Option (Complex α) := do
  let re ← quotient c.real s
  let im ← quotient c.imag s
  some ⟨re, im⟩

/-- `s / c`. -/
def scalarDiv (s : α) (c : Complex α) : Option (Complex α) := do
  let re ← quotient s c.real
  let im ← quotient (-s) c.imag
  some ⟨re, im⟩

end Complex

/-! ## Multiply and accumulate -/

/-- The overloads of `Mac::apply`. -/
inductive Mac.Overload where
  | scalar
  | complex
  deriving DecidableEq

/-- What `std::is_arithmetic` and `ComplexLike` say of an element type. -/
structure Mac.ElementTraits where
  isArithmetic : Bool
  complexLike : Bool

/-- `Complex<T>`. `Complex.hpp` specialises `std::is_arithmetic` for all that is `ComplexLike`. -/
def Mac.complexTraits : Mac.ElementTraits := ⟨true, true⟩

/-- The overload that a call selects. Where the constraints of both hold, the call is ambiguous:
none of them implies the other one. -/
def Mac.select (traits : Mac.ElementTraits) : Option Mac.Overload :=
  match traits.isArithmetic, traits.complexLike with
  | true, false => some .scalar
  | false, true => some .complex
  | _, _ => none

/-- The body of the overload for complex numbers: what the accumulator `a` becomes. -/
def Mac.complexBody (a b c : Complex α) : Complex α :=
  let i := a.imag
  let r := a.real
  ⟨fma b.real c.real r - b.imag * c.imag, fma b.real c.imag i + b.imag * c.real⟩

/-- `Mac::apply(a, b, c)` of complex numbers, if there is such a call. -/
def Mac.apply (a b c : Complex α) : Option (Complex α) :=
  (Mac.select Mac.complexTraits).map fun
    | .scalar => a.add (b.mul c)
    | .complex => Mac.complexBody a b c

end Csics.Linalg
