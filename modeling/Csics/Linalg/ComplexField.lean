import Csics.Linalg.Complex
import Mathlib.Algebra.Order.Ring.Basic
import Mathlib.Algebra.QuadraticAlgebra.Basic
import Mathlib.Tactic.LinearCombination

/-!
# The field of complex numbers

Over a field without a root of `-1` the pairs `a + bi` are a field. Sums, products and quotients of
complex numbers are those of this field; over any field a product is divided by a factor whose norm
is not `0`. `c * s`, `s * c` and `c / s` read `s` as `s + 0i`.

The multiply and accumulate for complex numbers is a product and a sum (`Mac.complexBody_eq`), but
no call selects it (`Mac.apply_eq_none`).

`s / c` divides by the real part and by the imaginary one. It has no result for numbers on one of
the axes, and off the axes the only quotient that it gets right is that of `0`
(`scalarDiv_eq_div_iff`).
-/

namespace Csics.Linalg

variable {α : Type} [Field α] [DecidableEq α]

theorem quotient_of_ne_zero {x y : α} (hy : y ≠ 0) : quotient x y = some (x / y) := if_neg hy

theorem quotient_zero (x : α) : quotient x 0 = none := if_pos rfl

namespace Complex

variable {a b c : Complex α} {s : α}

/-! ## The field -/

section

omit [DecidableEq α]

/-- The number as an element of `α[i]`. -/
def toField (c : Complex α) : QuadraticAlgebra α (-1) 0 := ⟨c.real, c.imag⟩

theorem toField_injective : Function.Injective (toField : Complex α → _) := by
  intro a b h
  obtain ⟨hreal, himag⟩ := QuadraticAlgebra.mk.inj h
  cases a
  cases b
  cases hreal
  cases himag
  rfl

theorem toField_add (a b : Complex α) : (a.add b).toField = a.toField + b.toField := rfl

theorem toField_sub (a b : Complex α) : (a.sub b).toField = a.toField - b.toField := rfl

theorem toField_mul (a b : Complex α) : (a.mul b).toField = a.toField * b.toField := by
  ext
  · rw [QuadraticAlgebra.re_mul]
    simp only [toField, mul, fma]
    ring
  · rw [QuadraticAlgebra.im_mul]
    simp only [toField, mul, fma]
    ring

theorem norm_toField (c : Complex α) : c.toField.norm = c.denom := by
  rw [QuadraticAlgebra.norm_def]
  simp only [toField, denom]
  ring

/-- In an ordered field `-1` is not a square. -/
instance [LinearOrder α] [IsStrictOrderedRing α] : Fact (∀ r : α, r ^ 2 ≠ -1 + 0 * r) := by
  constructor
  intro r
  rw [zero_mul, add_zero]
  exact ne_of_gt (neg_one_lt_zero.trans_le (sq_nonneg r))

theorem toField_ne_zero (hc : c ≠ ⟨0, 0⟩) : c.toField ≠ 0 := fun h => hc (toField_injective h)

/-- Where `-1` is not a square, only `0` has the norm `0`. -/
theorem denom_ne_zero [Fact (∀ r : α, r ^ 2 ≠ -1 + 0 * r)] (hc : c ≠ ⟨0, 0⟩) : c.denom ≠ 0 := by
  rw [← norm_toField, Ne, QuadraticAlgebra.norm_eq_zero_iff_eq_zero]
  exact toField_ne_zero hc

end

/-! ## Quotients -/

theorem div_of_ne_zero (hb : b.denom ≠ 0) :
    a.div b = some ⟨(a.real * b.real + a.imag * b.imag) / b.denom,
      (a.imag * b.real - a.real * b.imag) / b.denom⟩ := by
  rw [div, quotient_of_ne_zero hb, quotient_of_ne_zero hb]
  rfl

theorem div_of_zero (hb : b.denom = 0) : a.div b = none := by
  rw [div, hb, quotient_zero]
  rfl

/-- The quotient is what gives `a` when it is multiplied by `b`. -/
theorem div_eq_some_iff (hb : b.denom ≠ 0) {q : Complex α} : a.div b = some q ↔ q.mul b = a := by
  obtain ⟨x, y⟩ := a
  obtain ⟨u, v⟩ := q
  rw [div_of_ne_zero hb, Option.some_inj]
  simp only [mul, fma, Complex.mk.injEq, div_eq_iff hb]
  constructor
  · rintro ⟨hreal, himag⟩
    constructor
    · apply mul_right_cancel₀ hb
      rw [denom] at hreal himag ⊢
      linear_combination -b.real * hreal + b.imag * himag
    · apply mul_right_cancel₀ hb
      rw [denom] at hreal himag ⊢
      linear_combination -b.imag * hreal - b.real * himag
  · rintro ⟨rfl, rfl⟩
    constructor
    · rw [denom]
      ring
    · rw [denom]
      ring

/-- A product is divided by its factor if and only if the norm of the factor is not `0`. -/
theorem mul_div_iff : (a.mul b).div b = some a ↔ b.denom ≠ 0 := by
  constructor
  · intro h hzero
    rw [div_of_zero hzero] at h
    exact Option.some_ne_none a h.symm
  · intro hdenom
    exact (div_eq_some_iff hdenom).mpr rfl

/-- The quotient is that of the field. -/
theorem toField_div [Fact (∀ r : α, r ^ 2 ≠ -1 + 0 * r)] (a : Complex α) (hb : b ≠ ⟨0, 0⟩) :
    (a.div b).map toField = some (a.toField / b.toField) := by
  have hdenom := denom_ne_zero hb
  obtain ⟨q, hq⟩ : ∃ q, a.div b = some q := ⟨_, div_of_ne_zero hdenom⟩
  rw [hq, Option.map_some, Option.some_inj, eq_div_iff (toField_ne_zero hb), ← toField_mul,
    (div_eq_some_iff hdenom).mp hq]

/-! ## Scalars -/

omit [DecidableEq α] in
theorem mulScalar_eq (c : Complex α) (s : α) : c.mulScalar s = c.mul ⟨s, 0⟩ := by
  simp [mulScalar, mul, fma]

omit [DecidableEq α] in
theorem scalarMul_eq (s : α) (c : Complex α) : scalarMul s c = mul ⟨s, 0⟩ c := by
  simp [scalarMul, mulScalar, mul, fma, mul_comm]

theorem divScalar_eq (hs : s ≠ 0) (c : Complex α) : c.divScalar s = c.div ⟨s, 0⟩ := by
  have hdenom : denom ⟨s, 0⟩ = s * s := by
    simp [denom]
  rw [div_of_ne_zero (by rw [hdenom]; exact mul_ne_zero hs hs), hdenom, divScalar,
    quotient_of_ne_zero hs, quotient_of_ne_zero hs]
  show some _ = some _
  simp only [mul_zero, add_zero, sub_zero, mul_div_mul_right _ _ hs]

/-- Off the axes the parts are those of the quotient for `0` only. -/
theorem scalarDiv_eq_div_iff (hc : c ≠ ⟨0, 0⟩) :
    scalarDiv s c = div ⟨s, 0⟩ c ↔ s = 0 ∧ c.real ≠ 0 ∧ c.imag ≠ 0 ∧ c.denom ≠ 0 := by
  by_cases hreal : c.real = 0
  · have himag : c.imag ≠ 0 := by
      intro himag
      cases c
      cases hreal
      cases himag
      exact hc rfl
    have hdenom : c.denom ≠ 0 := by
      rw [denom, hreal, mul_zero, zero_add]
      exact mul_ne_zero himag himag
    rw [div_of_ne_zero hdenom, scalarDiv, hreal, quotient_zero]
    exact iff_of_false (Option.some_ne_none _).symm fun h => h.2.1 rfl
  by_cases himag : c.imag = 0
  · have hdenom : c.denom ≠ 0 := by
      rw [denom, himag, mul_zero, add_zero]
      exact mul_ne_zero hreal hreal
    rw [div_of_ne_zero hdenom, scalarDiv, himag, quotient_of_ne_zero hreal, quotient_zero]
    exact iff_of_false (Option.some_ne_none _).symm fun h => h.2.2.1 rfl
  rw [scalarDiv, quotient_of_ne_zero hreal, quotient_of_ne_zero himag]
  by_cases hdenom : c.denom = 0
  · rw [div_of_zero hdenom]
    exact iff_of_false (Option.some_ne_none _) fun h => h.2.2.2 hdenom
  rw [div_of_ne_zero hdenom]
  show some _ = some _ ↔ _
  rw [Option.some_inj, Complex.mk.injEq]
  constructor
  · intro h
    refine ⟨?_, hreal, himag, hdenom⟩
    have hcross := h.1
    rw [div_eq_div_iff hreal hdenom, denom] at hcross
    have hzero : s * (c.imag * c.imag) = 0 := by
      linear_combination hcross
    exact (mul_eq_zero.mp hzero).resolve_right (mul_ne_zero himag himag)
  · intro h
    rw [h.1]
    simp

end Complex

/-! ## The laws -/

/-- The laws of the operators for these numbers. -/
structure OperatorLaws (a b c : Complex α) (s : α) : Prop where
  mul_div : b ≠ ⟨0, 0⟩ → (a.mul b).div b = some a
  scalarMul : Complex.scalarMul s c = .mul ⟨s, 0⟩ c
  mulScalar : c.mulScalar s = c.mul ⟨s, 0⟩
  divScalar : s ≠ 0 → c.divScalar s = c.div ⟨s, 0⟩
  scalarDiv : c ≠ ⟨0, 0⟩ → Complex.scalarDiv s c = Complex.div ⟨s, 0⟩ c

/-- The field laws for these numbers, with that of the multiply and accumulate. -/
structure FieldLaws (a b c acc : Complex α) (s : α) : Prop extends OperatorLaws a b c s where
  mac : Mac.apply acc b c = some (acc.add (b.mul c))

section

omit [DecidableEq α]

theorem Mac.complexBody_eq (acc b c : Complex α) :
    Mac.complexBody acc b c = acc.add (b.mul c) := by
  simp only [Mac.complexBody, Complex.add, Complex.mul, fma, Complex.mk.injEq]
  constructor
  · ring
  · ring

/-- Both overloads take complex numbers. -/
theorem Mac.apply_eq_none (acc b c : Complex α) : Mac.apply acc b c = none := rfl

end

/-- What is left of the laws of the operators are those of the two divisions. -/
theorem operatorLaws_iff_div {a b c : Complex α} {s : α} :
    OperatorLaws a b c s ↔ (b ≠ ⟨0, 0⟩ → b.denom ≠ 0) ∧
      (c ≠ ⟨0, 0⟩ → s = 0 ∧ c.real ≠ 0 ∧ c.imag ≠ 0 ∧ c.denom ≠ 0) := by
  constructor
  · intro h
    exact ⟨fun hb => Complex.mul_div_iff.mp (h.mul_div hb),
      fun hc => (Complex.scalarDiv_eq_div_iff hc).mp (h.scalarDiv hc)⟩
  · rintro ⟨hmul, hscalar⟩
    exact ⟨fun hb => Complex.mul_div_iff.mpr (hmul hb), Complex.scalarMul_eq s c,
      c.mulScalar_eq s, fun hs => Complex.divScalar_eq hs c,
      fun hc => (Complex.scalarDiv_eq_div_iff hc).mpr (hscalar hc)⟩

/-- Over an ordered field they hold except for the division of a scalar. -/
theorem operatorLaws_iff_of_ordered [LinearOrder α] [IsStrictOrderedRing α] (a b c : Complex α)
    (s : α) :
    OperatorLaws a b c s ↔ c = ⟨0, 0⟩ ∨ s = 0 ∧ c.real ≠ 0 ∧ c.imag ≠ 0 := by
  rw [operatorLaws_iff_div, or_iff_not_imp_left]
  constructor
  · intro h hc
    obtain ⟨hs, hreal, himag, -⟩ := h.2 hc
    exact ⟨hs, hreal, himag⟩
  · intro h
    refine ⟨Complex.denom_ne_zero, ?_⟩
    intro hc
    obtain ⟨hs, hreal, himag⟩ := h hc
    exact ⟨hs, hreal, himag, Complex.denom_ne_zero hc⟩

/-- The laws hold for no numbers, as the multiply and accumulate cannot be called with them. Those
of the operators hold, over any field, where no norm of a divisor is `0` and no scalar but `0` is
divided, by a number off the axes. -/
theorem fieldLaws_fails (a b c acc : Complex α) (s : α) :
    ¬ FieldLaws a b c acc s ∧
      (OperatorLaws a b c s ↔
        (b = ⟨0, 0⟩ ∨ b.real * b.real + b.imag * b.imag ≠ 0) ∧
        (c = ⟨0, 0⟩ ∨
          s = 0 ∧ c.real ≠ 0 ∧ c.imag ≠ 0 ∧ c.real * c.real + c.imag * c.imag ≠ 0)) := by
  constructor
  · intro h
    have hmac := h.mac
    rw [Mac.apply_eq_none] at hmac
    cases hmac
  · rw [operatorLaws_iff_div, or_iff_not_imp_left, or_iff_not_imp_left]
    rfl

/-- `1 / (1 + i)` is `1/2 - i/2`, and `0 + 1 * 1` is not accumulated. -/
theorem not_fieldLaws :
    Complex.scalarDiv (1 : ℚ) ⟨1, 1⟩ = some ⟨1, -1⟩ ∧
      Complex.div (⟨1, 0⟩ : Complex ℚ) ⟨1, 1⟩ = some ⟨1 / 2, -1 / 2⟩ ∧
      Mac.apply (⟨0, 0⟩ : Complex ℚ) ⟨1, 0⟩ ⟨1, 0⟩ = none ∧
      ¬ ∀ (a b c acc : Complex ℚ) (s : ℚ), FieldLaws a b c acc s := by
  have hscalar : Complex.scalarDiv (1 : ℚ) ⟨1, 1⟩ = some ⟨1, -1⟩ := by decide +kernel
  have hdiv : Complex.div (⟨1, 0⟩ : Complex ℚ) ⟨1, 1⟩ = some ⟨1 / 2, -1 / 2⟩ := by decide +kernel
  refine ⟨hscalar, hdiv, rfl, ?_⟩
  intro hall
  have heq := (hall ⟨0, 0⟩ ⟨0, 0⟩ ⟨1, 1⟩ ⟨0, 0⟩ 1).scalarDiv (by decide)
  rw [hscalar, hdiv] at heq
  exact absurd heq (by decide +kernel)

end Csics.Linalg
