import Mathlib.Algebra.Ring.Defs
import Mathlib.Data.List.FinRange
import Mathlib.Data.List.Induction
import Mathlib.Logic.Equiv.Fin.Basic
import Mathlib.Logic.Function.Basic
import Csics.Base.Traverse

/-!
# Matrices

`Matrix<T, Rows, Cols>` of `include/csics/linalg/Matrix.hpp` and its operators: an array with one
row behind the other. `T` is a commutative ring with some quotient, as the unsigned integers are.

A new matrix has elements without a value, and the constructor from a list of rows may leave some of
them so. Nothing is defined where such an element is read, and each operator reads its own ones: a
comparison stops at the first difference.
-/

namespace Csics.Linalg

/-- The matrix by its array `data_`. An element that nothing has been assigned to has no value. -/
structure Matrix (α : Type) (rows cols : Nat) where
  data : Fin (rows * cols) → Option α

/-- `Mac::apply(a, b, c)` of scalars: what the accumulator `a` becomes. -/
def Mac.applyScalar {α : Type} [CommRing α] (a b c : α) : α := b * c + a

namespace Matrix

variable {α : Type} {rows inner cols n : Nat}

/-! ## Elements -/

theorem calculateIndex_lt (i : Fin rows) (j : Fin cols) : (i : Nat) * cols + j < rows * cols :=
  calc
    (i : Nat) * cols + j < i * cols + cols := Nat.add_lt_add_left j.isLt _
    _ = (i + 1) * cols := (Nat.succ_mul _ _).symm
    _ ≤ rows * cols := Nat.mul_le_mul_right _ i.isLt

/-- `calculate_index(i, j)`. -/
def calculateIndex (i : Fin rows) (j : Fin cols) : Fin (rows * cols) :=
  ⟨i * cols + j, calculateIndex_lt i j⟩

/-- `operator()(i, j)`, read inside the matrix. -/
def get? (m : Matrix α rows cols) (i : Fin rows) (j : Fin cols) : Option α :=
  m.data (calculateIndex i j)

/-- `data_[calculate_index(i, j)]`, which is nothing behind the array. -/
def at? (m : Matrix α rows cols) (i j : Nat) : Option α :=
  if h : i * cols + j < rows * cols then m.data ⟨i * cols + j, h⟩ else none

/-- All of the elements are read. -/
def readAll (slots : Fin n → Option α) : Option (Fin n → α) :=
  if h : ∀ k, (slots k).isSome then some fun k => (slots k).get (h k) else none

/-- The array of a new matrix behind assignments to its elements, in their order. -/
def assigned (writes : List (Fin n × α)) : Fin n → Option α :=
  writes.foldl (fun slots w => Function.update slots w.1 (some w.2)) fun _ => none

/-! ## Constructors -/

/-- `Matrix(xs...)`, with a value for each element. -/
def ofValues (xs : Fin (rows * cols) → α) : Matrix α rows cols := ⟨fun k => some (xs k)⟩

/-- What the constructor from a list of rows assigns. It leaves out what is beyond the matrix. -/
def rowsWrites (init : List (List α)) : List (Fin (rows * cols) × α) :=
  init.zipIdx.flatMap fun (row, i) => row.zipIdx.filterMap fun (val, j) =>
    if h : i < rows ∧ j < cols then some (calculateIndex ⟨i, h.1⟩ ⟨j, h.2⟩, val) else none

/-- `Matrix(std::initializer_list<std::initializer_list<T>>)`. -/
def ofRows (init : List (List α)) : Matrix α rows cols := ⟨assigned (rowsWrites init)⟩

/-- `get_row(i)`. -/
def getRow (m : Matrix α rows cols) (i : Nat) : Option (Matrix α 1 cols) :=
  (readAll fun k => m.at? i k).map ofValues

/-- `get_col(j)`. -/
def getCol (m : Matrix α rows cols) (j : Nat) : Option (Matrix α rows 1) :=
  (readAll fun k => m.at? k j).map ofValues

/-! ## Operators -/

variable [CommRing α]

omit [CommRing α] in
/-- A new matrix from the elements of two, place by place. -/
def combine (op : α → α → α) (a b : Matrix α rows cols) : Option (Matrix α rows cols) :=
  (readAll a.data).bind fun x => (readAll b.data).map fun y => ofValues fun k => op (x k) (y k)

omit [CommRing α] in
/-- A new matrix from the elements of one. -/
def each (op : α → α) (m : Matrix α rows cols) : Option (Matrix α rows cols) :=
  (readAll m.data).map fun x => ofValues fun k => op (x k)

/-- `a + b`. -/
def add (a b : Matrix α rows cols) : Option (Matrix α rows cols) := combine (· + ·) a b

/-- `a - b`. -/
def sub (a b : Matrix α rows cols) : Option (Matrix α rows cols) := combine (· - ·) a b

/-- `m * s` and `s * m`. -/
def mulScalar (m : Matrix α rows cols) (s : α) : Option (Matrix α rows cols) := each (· * s) m

/-- `m / s`. -/
def divScalar [Div α] [DecidableEq α] (m : Matrix α rows cols) (s : α) :
    Option (Matrix α rows cols) :=
  if s = 0 then none else each (· / s) m

/-- `mat_mul_element`. -/
def mulElement (a : Matrix α rows inner) (b : Matrix α inner cols) (i : Fin rows) (j : Fin cols) :
    Option α :=
  (List.finRange inner).foldlM (fun result k =>
    (a.get? i k).bind fun x => (b.get? k j).map fun y => Mac.applyScalar result x y) 0

/-- What `mat_mul_impl` assigns. -/
def mulWrites (a : Matrix α rows inner) (b : Matrix α inner cols) :
    Option (List (Fin (rows * cols) × α)) :=
  ((List.finRange rows).flatMap fun i => (List.finRange cols).map fun j => (i, j)).mapM fun p =>
    (a.mulElement b p.1 p.2).map (calculateIndex p.1 p.2, ·)

/-- `a * b`. -/
def mul (a : Matrix α rows inner) (b : Matrix α inner cols) : Option (Matrix α rows cols) :=
  (a.mulWrites b).map fun writes => ⟨assigned writes⟩

omit [CommRing α]

/-- `&&` over the elements at `ks`. -/
def beqFrom [DecidableEq α] (a b : Fin n → Option α) : List (Fin n) → Option Bool
  | [] => some true
  | k :: ks =>
    (a k).bind fun x => (b k).bind fun y => if x = y then beqFrom a b ks else some false

/-- `a == b`. -/
def beq [DecidableEq α] (a b : Matrix α rows cols) : Option Bool :=
  beqFrom a.data b.data (List.finRange (rows * cols))

/-! ## Where the elements lie -/

theorem calculateIndex_eq (i : Fin rows) (j : Fin cols) :
    calculateIndex i j = finProdFinEquiv (i, j) := by
  apply Fin.ext
  simp only [calculateIndex, finProdFinEquiv_apply_val]
  rw [Nat.add_comm, Nat.mul_comm]

/-- Every place of the array is that of one element. -/
theorem exists_calculateIndex (k : Fin (rows * cols)) :
    ∃ (i : Fin rows) (j : Fin cols), calculateIndex i j = k := by
  obtain ⟨⟨i, j⟩, rfl⟩ := finProdFinEquiv.surjective k
  exact ⟨i, j, calculateIndex_eq i j⟩

theorem forall_calculateIndex {P : Fin (rows * cols) → Prop} :
    (∀ k, P k) ↔ ∀ (i : Fin rows) (j : Fin cols), P (calculateIndex i j) := by
  constructor
  · exact fun h i j => h _
  · intro h k
    obtain ⟨i, j, rfl⟩ := exists_calculateIndex k
    exact h i j

theorem calculateIndex_inj {i i' : Fin rows} {j j' : Fin cols}
    (h : calculateIndex i j = calculateIndex i' j') : i = i' ∧ j = j' := by
  rw [calculateIndex_eq, calculateIndex_eq] at h
  exact Prod.mk.inj (finProdFinEquiv.injective h)

theorem at?_of_lt (m : Matrix α rows cols) (i : Fin rows) (j : Fin cols) :
    m.at? i j = m.get? i j := dif_pos (calculateIndex_lt i j)

/-! ## Reads -/

section

variable {slots : Fin n → Option α} {x : Fin n → α}

theorem readAll_eq_some_iff : readAll slots = some x ↔ ∀ k, slots k = some (x k) := by
  unfold readAll
  split
  · rename_i h
    rw [Option.some_inj, funext_iff]
    refine forall_congr' fun k => ?_
    constructor
    · intro hk
      rw [← hk, Option.some_get]
    · exact Option.get_of_eq_some (h k)
  · rename_i h
    refine iff_of_false (Option.some_ne_none _).symm ?_
    intro hall
    exact h fun k => Option.isSome_iff_exists.mpr ⟨_, hall k⟩

theorem exists_readAll_iff : (∃ x, readAll slots = some x) ↔ ∀ k, slots k ≠ none := by
  constructor
  · rintro ⟨x, hx⟩ k
    rw [readAll_eq_some_iff.mp hx k]
    exact Option.some_ne_none _
  · intro h
    exact ⟨_, dif_pos fun k => Option.isSome_iff_ne_none.mpr (h k)⟩

/-- The comparison reads the elements up to the first difference. -/
theorem beqFrom_eq_some_iff [DecidableEq α] {a b : Fin n → Option α} {ks : List (Fin n)}
    (hks : ks.Pairwise (· < ·)) {answer : Bool} :
    beqFrom a b ks = some answer ↔
      (∀ k ∈ ks, (∀ k' ∈ ks, k' < k → a k' = b k') → a k ≠ none ∧ b k ≠ none) ∧
        (answer = true ↔ ∀ k ∈ ks, a k = b k) := by
  induction ks with
  | nil => simp [beqFrom, eq_comm]
  | cons k ks ih =>
    obtain ⟨hk, hks⟩ := List.pairwise_cons.mp hks
    have hfirst : ∀ k' ∈ k :: ks, ¬ k' < k := by
      intro k' hk' hlt
      rcases List.mem_cons.mp hk' with rfl | hk'
      · exact lt_irrefl _ hlt
      · exact lt_asymm hlt (hk k' hk')
    by_cases hsome : a k ≠ none ∧ b k ≠ none
    · obtain ⟨x, hx⟩ := Option.ne_none_iff_exists'.mp hsome.1
      obtain ⟨y, hy⟩ := Option.ne_none_iff_exists'.mp hsome.2
      rw [beqFrom, hx, hy, Option.bind_some, Option.bind_some]
      by_cases hxy : x = y
      · -- the rest decides
        subst hxy
        have heq : a k = b k := hx.trans hy.symm
        rw [if_pos rfl, ih hks]
        refine and_congr ?_ (iff_congr Iff.rfl ?_)
        · rw [List.forall_mem_cons, and_iff_right fun _ => hsome]
          refine forall₂_congr fun j hj => ?_
          rw [List.forall_mem_cons, and_iff_right fun _ => heq]
        · rw [List.forall_mem_cons, and_iff_right heq]
      · have hne : a k ≠ b k := by
          rw [hx, hy, Ne, Option.some_inj]
          exact hxy
        have hdiffer : ¬ ∀ j ∈ k :: ks, a j = b j := fun h => hne (h k List.mem_cons_self)
        rw [if_neg hxy, Option.some_inj, iff_false_right hdiffer, Bool.not_eq_true,
          and_iff_right, eq_comm]
        intro j hj hbefore
        rcases List.mem_cons.mp hj with rfl | hj
        · exact hsome
        · exact absurd (hbefore k List.mem_cons_self (hk j hj)) hne
    · -- the first element cannot be read
      have hnone : beqFrom a b (k :: ks) = none := by
        rw [beqFrom]
        cases ha : a k with
        | none => rfl
        | some x =>
          cases hb : b k with
          | none => rfl
          | some y => exact absurd ⟨ha ▸ Option.some_ne_none x, hb ▸ Option.some_ne_none y⟩ hsome
      rw [hnone]
      refine iff_of_false (Option.some_ne_none _).symm ?_
      rintro ⟨hread, -⟩
      exact hsome (hread k List.mem_cons_self fun j hj hlt => absurd hlt (hfirst j hj))

end

/-! ## Assignments -/

section

variable {writes : List (Fin n × α)} {k : Fin n} {x : α}

theorem assigned_concat (writes : List (Fin n × α)) (w : Fin n × α) :
    assigned (writes ++ [w]) = Function.update (assigned writes) w.1 (some w.2) := by
  rw [assigned, List.foldl_concat]
  rfl

theorem assigned_of_forall_ne (h : ∀ w ∈ writes, w.1 ≠ k) : assigned writes k = none := by
  induction writes using List.reverseRecOn with
  | nil => rfl
  | append_singleton ws w ih =>
    rw [assigned_concat, Function.update_of_ne (h w (by simp)).symm]
    exact ih fun w' hw' => h w' (by simp [hw'])

/-- An element that is only given one value has it. -/
theorem assigned_of_mem (hmem : (k, x) ∈ writes) (h : ∀ w ∈ writes, w.1 = k → w.2 = x) :
    assigned writes k = some x := by
  induction writes using List.reverseRecOn with
  | nil => cases hmem
  | append_singleton ws w ih =>
    rw [assigned_concat]
    by_cases hw : w.1 = k
    · rw [← hw, Function.update_self, h w (by simp) hw]
    · rw [Function.update_of_ne (Ne.symm hw)]
      apply ih
      · rcases List.mem_append.mp hmem with hmem | hmem
        · exact hmem
        · rw [List.mem_singleton] at hmem
          exact absurd (congrArg Prod.fst hmem).symm hw
      · exact fun w' hw' => h w' (by simp [hw'])

end

/-! ## What the operators read and give -/

variable {m r : Matrix α rows cols}

/-- Matrices are equal if their elements are. -/
theorem ext_get? {a b : Matrix α rows cols} (h : ∀ i j, a.get? i j = b.get? i j) : a = b := by
  obtain ⟨x⟩ := a
  obtain ⟨y⟩ := b
  congr
  exact funext (forall_calculateIndex.mpr h)

theorem exists_get? (f : Fin rows → Fin cols → Option α) :
    ∃ m : Matrix α rows cols, ∀ i j, m.get? i j = f i j := by
  refine ⟨⟨fun k => f (finProdFinEquiv.symm k).1 (finProdFinEquiv.symm k).2⟩, fun i j => ?_⟩
  simp only [get?, calculateIndex_eq, Equiv.symm_apply_apply]

/-- A result under a condition, element by element. -/
theorem eq_some_iff_of {result : Option (Matrix α rows cols)} {P : Prop}
    {f : Fin rows → Fin cols → Option α} (hP : ∀ m, result = some m → P)
    (h : P → ∃ m, result = some m ∧ ∀ i j, m.get? i j = f i j) :
    result = some m ↔ P ∧ ∀ i j, m.get? i j = f i j := by
  constructor
  · intro hm
    obtain ⟨m', hm', hget⟩ := h (hP m hm)
    cases hm.symm.trans hm'
    exact ⟨hP m hm, hget⟩
  · rintro ⟨hp, hget⟩
    obtain ⟨m', hm', hget'⟩ := h hp
    rw [hm', ext_get? fun i j => (hget' i j).trans (hget i j).symm]

/-- All elements have a value. -/
def Complete (m : Matrix α rows cols) : Prop := ∀ i j, m.get? i j ≠ none

theorem exists_readAll_data_iff : (∃ x, readAll m.data = some x) ↔ m.Complete := by
  rw [exists_readAll_iff]
  exact forall_calculateIndex

theorem get?_of_readAll {x : Fin (rows * cols) → α} (h : readAll m.data = some x) (i : Fin rows)
    (j : Fin cols) : m.get? i j = some (x (calculateIndex i j)) := readAll_eq_some_iff.mp h _

theorem combine_eq_some_iff {op : α → α → α} {a b : Matrix α rows cols} :
    combine op a b = some m ↔ (a.Complete ∧ b.Complete) ∧
      ∀ i j, m.get? i j = (a.get? i j).bind fun x => (b.get? i j).map (op x) := by
  refine eq_some_iff_of ?_ ?_
  · intro m hm
    obtain ⟨x, hx, hrest⟩ := Option.bind_eq_some_iff.mp hm
    obtain ⟨y, hy, -⟩ := Option.map_eq_some_iff.mp hrest
    exact ⟨exists_readAll_data_iff.mp ⟨x, hx⟩, exists_readAll_data_iff.mp ⟨y, hy⟩⟩
  · rintro ⟨ha, hb⟩
    obtain ⟨x, hx⟩ := exists_readAll_data_iff.mpr ha
    obtain ⟨y, hy⟩ := exists_readAll_data_iff.mpr hb
    refine ⟨ofValues fun k => op (x k) (y k), ?_, fun i j => ?_⟩
    · rw [combine, hx, hy]
      rfl
    · rw [get?_of_readAll hx, get?_of_readAll hy]
      rfl

theorem each_eq_some_iff {op : α → α} :
    each op m = some r ↔ m.Complete ∧ ∀ i j, r.get? i j = (m.get? i j).map op := by
  refine eq_some_iff_of ?_ ?_
  · intro r hr
    obtain ⟨x, hx, -⟩ := Option.map_eq_some_iff.mp hr
    exact exists_readAll_data_iff.mp ⟨x, hx⟩
  · intro hm
    obtain ⟨x, hx⟩ := exists_readAll_data_iff.mpr hm
    refine ⟨ofValues fun k => op (x k), ?_, fun i j => ?_⟩
    · rw [each, hx]
      rfl
    · rw [get?_of_readAll hx]
      rfl

/-- `get_row` reads one row. Behind the last one, the first element is behind the array. -/
theorem getRow_eq_some_iff {row : Matrix α 1 cols} {i : Nat} (hcols : 0 < cols) :
    m.getRow i = some row ↔ (∃ h : i < rows, ∀ j, m.get? ⟨i, h⟩ j ≠ none) ∧
      ∀ k j, row.get? k j = m.at? i j := by
  have hplace (k : Fin 1) (j : Fin cols) : (calculateIndex k j : Nat) = j := by
    simp [calculateIndex]
  refine eq_some_iff_of ?_ ?_
  · intro row hrow
    obtain ⟨x, hx, -⟩ := Option.map_eq_some_iff.mp hrow
    have hread := exists_readAll_iff.mp ⟨x, hx⟩
    have hi : i < rows := by
      by_contra hi
      have hle : rows * cols ≤ i * cols := Nat.mul_le_mul_right _ (Nat.le_of_not_lt hi)
      refine hread (calculateIndex 0 ⟨0, hcols⟩) (dif_neg ?_)
      omega
    refine ⟨hi, fun j => ?_⟩
    have hj := hread (calculateIndex 0 j)
    rwa [hplace, m.at?_of_lt ⟨i, hi⟩ j] at hj
  · rintro ⟨hi, hread⟩
    have hreadAll : ∀ k : Fin (1 * cols), m.at? i k ≠ none := by
      refine forall_calculateIndex.mpr fun k j => ?_
      rw [hplace, m.at?_of_lt ⟨i, hi⟩ j]
      exact hread j
    obtain ⟨x, hx⟩ := exists_readAll_iff.mpr hreadAll
    refine ⟨ofValues x, by rw [getRow, hx]; rfl, fun k j => ?_⟩
    have hvalue := readAll_eq_some_iff.mp hx (calculateIndex k j)
    rw [hplace] at hvalue
    exact hvalue.symm

/-- `get_col` reads one column. The last row has none behind the last one. -/
theorem getCol_eq_some_iff {col : Matrix α rows 1} {j : Nat} (hrows : 0 < rows) :
    m.getCol j = some col ↔ (∃ h : j < cols, ∀ i, m.get? i ⟨j, h⟩ ≠ none) ∧
      ∀ i k, col.get? i k = m.at? i j := by
  have hplace (i : Fin rows) (k : Fin 1) : (calculateIndex i k : Nat) = i := by
    simp [calculateIndex]
  refine eq_some_iff_of ?_ ?_
  · intro col hcol
    obtain ⟨x, hx, -⟩ := Option.map_eq_some_iff.mp hcol
    have hread := exists_readAll_iff.mp ⟨x, hx⟩
    have hj : j < cols := by
      by_contra hj
      have hlast : (rows - 1) * cols + cols = rows * cols := by
        rw [← Nat.succ_mul, Nat.succ_eq_add_one, Nat.sub_add_cancel hrows]
      refine hread (calculateIndex ⟨rows - 1, Nat.sub_one_lt_of_lt hrows⟩ 0) (dif_neg ?_)
      rw [hplace]
      show ¬ (rows - 1) * cols + j < rows * cols
      omega
    refine ⟨hj, fun i => ?_⟩
    have hi := hread (calculateIndex i 0)
    rwa [hplace, m.at?_of_lt i ⟨j, hj⟩] at hi
  · rintro ⟨hj, hread⟩
    have hreadAll : ∀ k : Fin (rows * 1), m.at? k j ≠ none := by
      refine forall_calculateIndex.mpr fun i k => ?_
      rw [hplace, m.at?_of_lt i ⟨j, hj⟩]
      exact hread i
    obtain ⟨x, hx⟩ := exists_readAll_iff.mpr hreadAll
    refine ⟨ofValues x, by rw [getCol, hx]; rfl, fun i k => ?_⟩
    have hvalue := readAll_eq_some_iff.mp hx (calculateIndex i k)
    rw [hplace] at hvalue
    exact hvalue.symm

theorem foldlM_of_some {f g : Fin n → Option α} {x y : Fin n → α} (op : α → α → α → α)
    {ks : List (Fin n)} (h : ∀ k ∈ ks, f k = some (x k) ∧ g k = some (y k)) (result : α) :
    ks.foldlM (fun result k => (f k).bind fun x => (g k).map fun y => op result x y) result =
      some (ks.foldl (fun result k => op result (x k) (y k)) result) := by
  induction ks generalizing result with
  | nil => rfl
  | cons k ks ih =>
    obtain ⟨hf, hg⟩ := h k List.mem_cons_self
    rw [List.foldlM_cons, hf, hg]
    exact ih (fun k hk => h k (List.mem_cons_of_mem _ hk)) _

theorem ne_none_of_foldlM {f g : Fin n → Option α} {op : α → α → α → α} {ks : List (Fin n)}
    {result z : α}
    (h : ks.foldlM (fun result k => (f k).bind fun x => (g k).map fun y => op result x y) result =
      some z) : ∀ k ∈ ks, f k ≠ none ∧ g k ≠ none := by
  induction ks generalizing result with
  | nil => exact fun k hk => absurd hk List.not_mem_nil
  | cons k ks ih =>
    rw [List.foldlM_cons] at h
    obtain ⟨result', hstep, hrest⟩ := Option.bind_eq_some_iff.mp h
    obtain ⟨x, hx, hstep⟩ := Option.bind_eq_some_iff.mp hstep
    obtain ⟨y, hy, -⟩ := Option.map_eq_some_iff.mp hstep
    refine List.forall_mem_cons.mpr ⟨⟨?_, ?_⟩, ih hrest⟩
    · rw [hx]
      exact Option.some_ne_none x
    · rw [hy]
      exact Option.some_ne_none y

/-- A product reads all elements. -/
theorem mul_eq_some_iff [CommRing α] {a : Matrix α rows inner} {b : Matrix α inner cols}
    (hrows : 0 < rows) (hcols : 0 < cols) :
    a.mul b = some m ↔ (a.Complete ∧ b.Complete) ∧ ∀ i j, m.get? i j = a.mulElement b i j := by
  have hplaces (i : Fin rows) (j : Fin cols) : (i, j) ∈
      (List.finRange rows).flatMap fun i => (List.finRange cols).map fun j => (i, j) :=
    List.mem_flatMap.mpr ⟨i, List.mem_finRange i, List.mem_map_of_mem (List.mem_finRange j)⟩
  refine eq_some_iff_of ?_ ?_
  · intro m hm
    obtain ⟨writes, hwrites, -⟩ := Option.map_eq_some_iff.mp hm
    have hread (i : Fin rows) (j : Fin cols) (k : Fin inner) :
        a.get? i k ≠ none ∧ b.get? k j ≠ none := by
      obtain ⟨w, hw⟩ := Base.exists_mapM_iff.mp ⟨writes, hwrites⟩ _ (hplaces i j)
      obtain ⟨z, hz, -⟩ := Option.map_eq_some_iff.mp hw
      exact ne_none_of_foldlM hz k (List.mem_finRange k)
    exact ⟨fun i k => (hread i ⟨0, hcols⟩ k).1, fun k j => (hread ⟨0, hrows⟩ j k).2⟩
  · rintro ⟨ha, hb⟩
    obtain ⟨x, hx⟩ := exists_readAll_data_iff.mpr ha
    obtain ⟨y, hy⟩ := exists_readAll_data_iff.mpr hb
    have helement (i : Fin rows) (j : Fin cols) : ∃ z, a.mulElement b i j = some z :=
      ⟨_, foldlM_of_some _ (fun k _ => ⟨get?_of_readAll hx i k, get?_of_readAll hy k j⟩) 0⟩
    choose z hz using helement
    have hwrites : a.mulWrites b =
        some (((List.finRange rows).flatMap fun i => (List.finRange cols).map fun j => (i, j)).map
          fun p => (calculateIndex p.1 p.2, z p.1 p.2)) := by
      rw [mulWrites, Base.mapM_eq_some_iff, List.forall₂_map_right_iff, List.forall₂_same]
      intro p _
      rw [hz]
      rfl
    refine ⟨_, by rw [mul, hwrites]; rfl, fun i j => ?_⟩
    rw [hz]
    refine assigned_of_mem (List.mem_map_of_mem (hplaces i j)) ?_
    intro w hw hplace
    obtain ⟨⟨i', j'⟩, -, rfl⟩ := List.mem_map.mp hw
    obtain ⟨rfl, rfl⟩ := calculateIndex_inj hplace
    rfl

/-- `==` reads the elements up to the first difference, row by row. -/
theorem beq_eq_some_iff [DecidableEq α] {a b : Matrix α rows cols} {answer : Bool} :
    a.beq b = some answer ↔
      (∀ i j, (∀ i' j', calculateIndex i' j' < calculateIndex i j → a.get? i' j' = b.get? i' j') →
        a.get? i j ≠ none ∧ b.get? i j ≠ none) ∧
        (answer = true ↔ ∀ i j, a.get? i j = b.get? i j) := by
  rw [beq, beqFrom_eq_some_iff (List.pairwise_lt_finRange _)]
  simp only [List.mem_finRange, true_implies]
  refine and_congr ?_ (iff_congr Iff.rfl forall_calculateIndex)
  refine forall_calculateIndex.trans (forall₂_congr fun i j => ?_)
  rw [forall_calculateIndex]
  rfl

end Matrix

end Csics.Linalg
