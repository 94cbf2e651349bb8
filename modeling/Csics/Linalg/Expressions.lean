import Csics.Linalg.Matrix
import Mathlib.Algebra.BigOperators.Fin
import Mathlib.Data.Matrix.Mul

/-!
# Expressions of matrices

What a program computes with matrices is what the matrix algebra says, over every commutative ring.
A literal may leave elements without a value, and an expression has a value if and only if the
operators read no such element, nothing is divided by zero, and rows and columns are taken inside
the matrix (`value_eq_some_iff`). A comparison has an answer if the elements up to the first
difference have a value, and tells whether the expressions are equal matrices
(`compare_eq_some_iff`).
-/

namespace Csics.MatrixExpressions

/-- An expression. `s * m` and `m * s` are two of them, with one value. -/
inductive Expr (α : Type) : Nat → Nat → Type where
  | literal {rows cols : Nat} (hrows : 0 < rows) (hcols : 0 < cols) (init : List (List α)) :
    Expr α rows cols
  | add {rows cols : Nat} (a b : Expr α rows cols) : Expr α rows cols
  | sub {rows cols : Nat} (a b : Expr α rows cols) : Expr α rows cols
  | mulScalar {rows cols : Nat} (m : Expr α rows cols) (s : α) : Expr α rows cols
  | scalarMul {rows cols : Nat} (s : α) (m : Expr α rows cols) : Expr α rows cols
  | divScalar {rows cols : Nat} (m : Expr α rows cols) (s : α) : Expr α rows cols
  | mul {rows inner cols : Nat} (a : Expr α rows inner) (b : Expr α inner cols) : Expr α rows cols
  | getRow {rows cols : Nat} (m : Expr α rows cols) (i : Nat) : Expr α 1 cols
  | getCol {rows cols : Nat} (m : Expr α rows cols) (j : Nat) : Expr α rows 1

/-- The element that a list of rows gives. -/
def element? {α : Type} (init : List (List α)) (i j : Nat) : Option α := init[i]?.bind (·[j]?)

section

variable {α : Type} [Zero α] {rows cols : Nat}

/-- Row `i` of a matrix. -/
def rowOf (m : Matrix (Fin rows) (Fin cols) α) (i : Nat) : Matrix (Fin 1) (Fin cols) α :=
  Matrix.of fun _ j => if h : i < rows then m ⟨i, h⟩ j else 0

/-- Column `j` of a matrix. -/
def colOf (m : Matrix (Fin rows) (Fin cols) α) (j : Nat) : Matrix (Fin rows) (Fin 1) α :=
  Matrix.of fun i _ => if h : j < cols then m i ⟨j, h⟩ else 0

end

namespace Expr

variable {α : Type} [CommRing α] [Div α] [DecidableEq α]

/-- The value as the program computes it. -/
def value : {rows cols : Nat} → Expr α rows cols → Option (Linalg.Matrix α rows cols)
  | _, _, .literal _ _ init => some (Linalg.Matrix.ofRows init)
  | _, _, .add a b => a.value.bind fun a => b.value.bind fun b => a.add b
  | _, _, .sub a b => a.value.bind fun a => b.value.bind fun b => a.sub b
  | _, _, .mulScalar m s => m.value.bind fun m => m.mulScalar s
  | _, _, .scalarMul s m => m.value.bind fun m => m.mulScalar s
  | _, _, .divScalar m s => m.value.bind fun m => m.divScalar s
  | _, _, .mul a b => a.value.bind fun a => b.value.bind fun b => a.mul b
  | _, _, .getRow m i => m.value.bind fun m => m.getRow i
  | _, _, .getCol m j => m.value.bind fun m => m.getCol j

/-- `a == b`. -/
def compare {rows cols : Nat} (a b : Expr α rows cols) : Option Bool :=
  a.value.bind fun a => b.value.bind fun b => a.beq b

omit [DecidableEq α]

/-- The matrix that the expression is. Where it has no value, any one will do. -/
def denote : {rows cols : Nat} → Expr α rows cols → Matrix (Fin rows) (Fin cols) α
  | _, _, .literal _ _ init => Matrix.of fun i j => (element? init i j).getD 0
  | _, _, .add a b => a.denote + b.denote
  | _, _, .sub a b => a.denote - b.denote
  | _, _, .mulScalar m s => s • m.denote
  | _, _, .scalarMul s m => s • m.denote
  | _, _, .divScalar m s => m.denote.map (· / s)
  | _, _, .mul a b => a.denote * b.denote
  | _, _, .getRow m i => rowOf m.denote i
  | _, _, .getCol m j => colOf m.denote j

/-- The elements. Only a literal can leave one without a value. -/
def element : {rows cols : Nat} → Expr α rows cols → Fin rows → Fin cols → Option α
  | _, _, .literal _ _ init, i, j => element? init i j
  | _, _, e, i, j => some (e.denote i j)

def Complete {rows cols : Nat} (e : Expr α rows cols) : Prop := ∀ i j, e.element i j ≠ none

/-- What the program has to see to. The operators read all elements, `get_row` and `get_col` those
of one row or column. -/
def Defined : {rows cols : Nat} → Expr α rows cols → Prop
  | _, _, .literal _ _ _ => True
  | _, _, .add a b | _, _, .sub a b | _, _, .mul a b =>
    (a.Defined ∧ b.Defined) ∧ a.Complete ∧ b.Complete
  | _, _, .mulScalar m _ | _, _, .scalarMul _ m => m.Defined ∧ m.Complete
  | _, _, .divScalar m s => (m.Defined ∧ m.Complete) ∧ s ≠ 0
  | _, _, @getRow _ n _ m i => m.Defined ∧ ∃ h : i < n, ∀ j, m.element ⟨i, h⟩ j ≠ none
  | _, _, @getCol _ _ n m j => m.Defined ∧ ∃ h : j < n, ∀ i, m.element i ⟨j, h⟩ ≠ none

/-- Row by row, the elements up to the first difference have a value. -/
def Comparable {rows cols : Nat} (a b : Expr α rows cols) : Prop :=
  ∀ i j, (∀ i' j', Linalg.Matrix.calculateIndex i' j' < Linalg.Matrix.calculateIndex i j →
    a.element i' j' = b.element i' j') → a.element i j ≠ none ∧ b.element i j ≠ none

end Expr

/-! ## The operators -/

section

variable {α : Type} {rows inner cols : Nat}

theorem mem_rowsWrites {init : List (List α)} {i : Fin rows} {j : Fin cols} {x : α} :
    (Linalg.Matrix.calculateIndex i j, x) ∈ Linalg.Matrix.rowsWrites init ↔
      element? init i j = some x := by
  simp only [Linalg.Matrix.rowsWrites, List.mem_flatMap, List.mem_filterMap, Prod.exists,
    List.mem_zipIdx_iff_getElem?, element?, Option.bind_eq_some_iff]
  constructor
  · rintro ⟨row, i', hrow, val, j', hval, hwrite⟩
    split at hwrite
    · obtain ⟨hplace, rfl⟩ := Prod.mk.inj (Option.some.inj hwrite)
      obtain ⟨rfl, rfl⟩ := Linalg.Matrix.calculateIndex_inj hplace
      exact ⟨row, hrow, hval⟩
    · cases hwrite
  · rintro ⟨row, hrow, hx⟩
    exact ⟨row, i, hrow, x, j, hx, dif_pos ⟨i.isLt, j.isLt⟩⟩

theorem get?_ofRows (init : List (List α)) (i : Fin rows) (j : Fin cols) :
    (Linalg.Matrix.ofRows init : Linalg.Matrix α rows cols).get? i j = element? init i j := by
  cases hx : element? init i j with
  | none =>
    refine Linalg.Matrix.assigned_of_forall_ne ?_
    rintro ⟨k, y⟩ hy rfl
    rw [mem_rowsWrites, hx] at hy
    cases hy
  | some x =>
    refine Linalg.Matrix.assigned_of_mem (mem_rowsWrites.mpr hx) ?_
    rintro ⟨k, y⟩ hy rfl
    rw [mem_rowsWrites, hx] at hy
    exact (Option.some.inj hy).symm

variable [CommRing α]

theorem foldl_applyScalar (f g : Fin inner → α) (ks : List (Fin inner)) (result : α) :
    ks.foldl (fun result k => Linalg.Mac.applyScalar result (f k) (g k)) result =
      result + (ks.map fun k => f k * g k).sum := by
  induction ks generalizing result with
  | nil => simp
  | cons k ks ih =>
    rw [List.foldl_cons, ih, List.map_cons, List.sum_cons, Linalg.Mac.applyScalar]
    ring

theorem mulElement_eq {a : Linalg.Matrix α rows inner} {b : Linalg.Matrix α inner cols}
    {x : Matrix (Fin rows) (Fin inner) α} {y : Matrix (Fin inner) (Fin cols) α}
    (ha : ∀ i k, a.get? i k = some (x i k)) (hb : ∀ k j, b.get? k j = some (y k j)) (i : Fin rows)
    (j : Fin cols) : a.mulElement b i j = some ((x * y) i j) := by
  have hfold := Linalg.Matrix.foldlM_of_some Linalg.Mac.applyScalar
    (fun k (_ : k ∈ List.finRange inner) => ⟨ha i k, hb k j⟩) 0
  rw [foldl_applyScalar, zero_add, ← Fin.sum_univ_def, ← Matrix.mul_apply] at hfold
  exact hfold

end

/-! ## The expressions -/

namespace Expr

variable {α : Type} [CommRing α] [Div α] {rows cols : Nat}

omit [CommRing α] [Div α] in
/-- No expression is an empty matrix. -/
theorem size_pos (e : Expr α rows cols) : 0 < rows ∧ 0 < cols := by
  induction e with
  | literal hrows hcols => exact ⟨hrows, hcols⟩
  | add _ _ iha _ | sub _ _ iha _ => exact iha
  | mulScalar _ _ ih | scalarMul _ _ ih | divScalar _ _ ih => exact ih
  | mul _ _ iha ihb => exact ⟨iha.1, ihb.2⟩
  | getRow _ _ ih => exact ⟨Nat.one_pos, ih.2⟩
  | getCol _ _ ih => exact ⟨ih.1, Nat.one_pos⟩

/-- An element with a value is that of the matrix. -/
theorem element_eq {e : Expr α rows cols} {i : Fin rows} {j : Fin cols}
    (h : e.element i j ≠ none) : e.element i j = some (e.denote i j) := by
  cases e with
  | literal hrows hcols init =>
    obtain ⟨x, hx⟩ := Option.ne_none_iff_exists'.mp h
    have hdenote : (literal hrows hcols init).denote i j = x := by
      rw [denote, Matrix.of_apply, show element? init i j = some x from hx]
      rfl
    rw [hdenote, hx]
  | add | sub | mulScalar | scalarMul | divScalar | mul | getRow | getCol => rfl

/-- The matrix has the elements of the expression. -/
def Shown (e : Expr α rows cols) (m : Linalg.Matrix α rows cols) : Prop :=
  ∀ i j, m.get? i j = e.element i j

theorem exists_shown (e : Expr α rows cols) : ∃ m, e.Shown m := Linalg.Matrix.exists_get? _

theorem Shown.complete_iff {e : Expr α rows cols} {m : Linalg.Matrix α rows cols}
    (h : e.Shown m) : m.Complete ↔ e.Complete := by
  unfold Linalg.Matrix.Complete Complete
  simp only [h _ _]

theorem Shown.get?_eq {e : Expr α rows cols} {m : Linalg.Matrix α rows cols} (h : e.Shown m)
    (hcomplete : e.Complete) (i : Fin rows) (j : Fin cols) :
    m.get? i j = some (e.denote i j) := (h i j).trans (element_eq (hcomplete i j))

variable [DecidableEq α]

/-- The value of an expression of one other. -/
theorem bind_value_iff {rows' cols' : Nat} {e : Expr α rows cols}
    {f : Linalg.Matrix α rows cols → Option (Linalg.Matrix α rows' cols')}
    {m : Linalg.Matrix α rows' cols'} {D Q : Prop} (he : ∀ x, e.value = some x ↔ D ∧ e.Shown x)
    (hf : ∀ x, e.Shown x → (f x = some m ↔ Q)) : e.value.bind f = some m ↔ D ∧ Q := by
  rw [Option.bind_eq_some_iff]
  constructor
  · rintro ⟨x, hx, hm⟩
    obtain ⟨hd, hshown⟩ := (he x).mp hx
    exact ⟨hd, (hf x hshown).mp hm⟩
  · rintro ⟨hd, hq⟩
    obtain ⟨x, hx⟩ := e.exists_shown
    exact ⟨x, (he x).mpr ⟨hd, hx⟩, (hf x hx).mpr hq⟩

/-- The value of an expression of two others. -/
theorem bind_value_iff_both {rows' cols' rows'' cols'' : Nat} {a : Expr α rows cols}
    {b : Expr α rows' cols'}
    {f : Linalg.Matrix α rows cols → Linalg.Matrix α rows' cols' →
      Option (Linalg.Matrix α rows'' cols'')}
    {m : Linalg.Matrix α rows'' cols''} {D E Q : Prop} (ha : ∀ x, a.value = some x ↔ D ∧ a.Shown x)
    (hb : ∀ y, b.value = some y ↔ E ∧ b.Shown y)
    (hf : ∀ x y, a.Shown x → b.Shown y → (f x y = some m ↔ Q)) :
    (a.value.bind fun x => b.value.bind fun y => f x y) = some m ↔ (D ∧ E) ∧ Q := by
  rw [and_assoc]
  exact bind_value_iff ha fun x hx => bind_value_iff hb fun y hy => hf x y hx hy

omit [DecidableEq α] in
theorem each_iff {e r' : Expr α rows cols} {x r : Linalg.Matrix α rows cols} {op : α → α}
    (hx : e.Shown x) (hop : ∀ i j, r'.element i j = some (op (e.denote i j))) :
    Linalg.Matrix.each op x = some r ↔ e.Complete ∧ r'.Shown r := by
  rw [Linalg.Matrix.each_eq_some_iff, hx.complete_iff]
  refine and_congr_right fun hcomplete => forall₂_congr fun i j => ?_
  rw [hx.get?_eq hcomplete, hop]
  rfl

omit [DecidableEq α] in
theorem combine_iff {a b r' : Expr α rows cols} {x y r : Linalg.Matrix α rows cols}
    {op : α → α → α} (hx : a.Shown x) (hy : b.Shown y)
    (hop : ∀ i j, r'.element i j = some (op (a.denote i j) (b.denote i j))) :
    Linalg.Matrix.combine op x y = some r ↔ (a.Complete ∧ b.Complete) ∧ r'.Shown r := by
  rw [Linalg.Matrix.combine_eq_some_iff, hx.complete_iff, hy.complete_iff]
  refine and_congr_right fun ⟨ha, hb⟩ => forall₂_congr fun i j => ?_
  rw [hx.get?_eq ha, hy.get?_eq hb, hop]
  rfl

/-- An expression has a value if it is defined, and then its elements. -/
theorem value_eq_some_iff (e : Expr α rows cols) (m : Linalg.Matrix α rows cols) :
    e.value = some m ↔ e.Defined ∧ e.Shown m := by
  induction e with
  | literal hrows hcols init =>
    rw [value, Option.some_inj, Defined, true_and]
    constructor
    · rintro rfl
      exact get?_ofRows init
    · exact fun h => Linalg.Matrix.ext_get? fun i j => (get?_ofRows init i j).trans (h i j).symm
  | add a b iha ihb =>
    rw [Defined, and_assoc]
    exact bind_value_iff_both iha ihb fun x y hx hy => combine_iff hx hy fun i j => rfl
  | sub a b iha ihb =>
    rw [Defined, and_assoc]
    exact bind_value_iff_both iha ihb fun x y hx hy => combine_iff hx hy fun i j => rfl
  | mulScalar a s ih | scalarMul s a ih =>
    rw [Defined, and_assoc]
    exact bind_value_iff ih fun x hx => each_iff hx fun i j => congrArg some (mul_comm _ _)
  | divScalar a s ih =>
    rw [Defined, and_assoc, and_assoc]
    refine bind_value_iff ih fun x hx => ?_
    rw [Linalg.Matrix.divScalar]
    by_cases hs : s = 0
    · rw [if_pos hs]
      exact iff_of_false (Option.some_ne_none m).symm fun h => h.2.1 hs
    · rw [if_neg hs, and_iff_right hs]
      exact each_iff hx fun i j => rfl
  | mul a b iha ihb =>
    rw [Defined, and_assoc]
    refine bind_value_iff_both iha ihb fun x y hx hy => ?_
    rw [Linalg.Matrix.mul_eq_some_iff a.size_pos.1 b.size_pos.2, hx.complete_iff, hy.complete_iff]
    refine and_congr_right fun ⟨ha, hb⟩ => forall₂_congr fun i j => ?_
    rw [mulElement_eq (hx.get?_eq ha) (hy.get?_eq hb)]
    rfl
  | getRow a i ih =>
    rw [Defined, and_assoc]
    refine bind_value_iff ih fun x hx => ?_
    rw [Linalg.Matrix.getRow_eq_some_iff a.size_pos.2]
    simp only [hx _ _]
    refine and_congr_right fun ⟨hi, hread⟩ => forall₂_congr fun k j => ?_
    rw [x.at?_of_lt ⟨i, hi⟩ j, hx, element_eq (hread j)]
    show _ = some _ ↔ _ = some (rowOf a.denote i k j)
    rw [rowOf, Matrix.of_apply, dif_pos hi]
  | getCol a j ih =>
    rw [Defined, and_assoc]
    refine bind_value_iff ih fun x hx => ?_
    rw [Linalg.Matrix.getCol_eq_some_iff a.size_pos.1]
    simp only [hx _ _]
    refine and_congr_right fun ⟨hj, hread⟩ => forall₂_congr fun i k => ?_
    rw [x.at?_of_lt i ⟨j, hj⟩, hx, element_eq (hread i)]
    show _ = some _ ↔ _ = some (colOf a.denote j i k)
    rw [colOf, Matrix.of_apply, dif_pos hj]

omit [DecidableEq α] in
/-- Where the elements up to the first difference have a value, the elements are the same if the
matrices are. -/
theorem Comparable.elements_iff {a b : Expr α rows cols} (h : a.Comparable b) :
    (∀ i j, a.element i j = b.element i j) ↔ a.denote = b.denote := by
  constructor
  · intro heq
    ext i j
    obtain ⟨ha, hb⟩ := h i j fun i' j' _ => heq i' j'
    have hij := heq i j
    rw [element_eq ha, element_eq hb] at hij
    exact Option.some.inj hij
  · intro heq
    suffices hall : ∀ (n : Nat) (i : Fin rows) (j : Fin cols),
        (Linalg.Matrix.calculateIndex i j : Nat) = n → a.element i j = b.element i j from
      fun i j => hall _ i j rfl
    intro n
    induction n using Nat.strong_induction_on with
    | _ n ih =>
      rintro i j rfl
      obtain ⟨ha, hb⟩ := h i j fun i' j' hlt => ih _ (Fin.lt_def.mp hlt) i' j' rfl
      rw [element_eq ha, element_eq hb, heq]

/-- A comparison answers if both sides are defined and the elements up to the first difference have
a value, and then whether they are equal matrices. -/
theorem compare_eq_some_iff (a b : Expr α rows cols) (answer : Bool) :
    a.compare b = some answer ↔
      (a.Defined ∧ b.Defined) ∧ a.Comparable b ∧ (answer = true ↔ a.denote = b.denote) := by
  rw [compare, Option.bind_eq_some_iff]
  simp only [Option.bind_eq_some_iff, value_eq_some_iff, Linalg.Matrix.beq_eq_some_iff]
  constructor
  · rintro ⟨x, ⟨ha, hx⟩, y, ⟨hb, hy⟩, hread, hanswer⟩
    simp only [hx _ _, hy _ _] at hread hanswer
    have hcomparable : a.Comparable b := hread
    exact ⟨⟨ha, hb⟩, hcomparable, hanswer.trans hcomparable.elements_iff⟩
  · rintro ⟨⟨ha, hb⟩, hcomparable, hanswer⟩
    obtain ⟨x, hx⟩ := a.exists_shown
    obtain ⟨y, hy⟩ := b.exists_shown
    refine ⟨x, ⟨ha, hx⟩, y, ⟨hb, hy⟩, ?_⟩
    simp only [hx _ _, hy _ _]
    exact ⟨hcomparable, hanswer.trans hcomparable.elements_iff.symm⟩

/-- The element beside the diagonal. -/
def upper : Expr Int 2 2 := literal Nat.two_pos Nat.two_pos [[0, 1], [0, 0]]

/-- The element below the diagonal, and a row that is left out. -/
def lower : Expr Int 2 2 := literal Nat.two_pos Nat.two_pos [[0, 0], [1, 0], [5]]

/-- The last element has no value. -/
def short : Expr Int 2 2 := literal Nat.two_pos Nat.two_pos [[1, 0], [0]]

example : (upper.mul lower).compare (lower.mul upper) = some false ∧
    ((upper.mulScalar 3).mul lower).compare (scalarMul 3 (upper.mul lower)) = some true ∧
    short.compare upper = some false ∧ short.compare short = none ∧
    (short.getRow 0).compare (upper.getRow 1) = some false ∧ (short.add upper).value.isNone := by
  decide

end Expr

end Csics.MatrixExpressions
