import Csics.Container.ViewConstructors
import Mathlib.Algebra.GroupWithZero.Basic
import Mathlib.Algebra.GroupWithZero.Nat

/-!
# Views cover their containers

A view of a container is to have the extent of the container in bytes (`Covers`). It has not where
the constructor that is called counts in the wrong unit (`UnitFits`): those of a `std::vector` and
of a `const std::array` give the size in bytes, whatever the elements of the view are, and those of
a range give the number of elements, also where the elements of the view have another size.

`as_type` after `as_bytes` gives the view again, if its bytes can be counted in 64 bits.
-/

namespace Csics.Container

/-- The view begins where the container does, and both have the same extent in bytes. -/
def BasicBufferView.Covers {T : CppType} (v : BasicBufferView T) (arg : Argument) : Prop :=
  v.data = arg.data ∧ v.size.toNat * T.size = arg.count * arg.element.size

/-- The unit in which the constructor counts is the size of an element of the view. -/
def UnitFits (T : CppType) (arg : Argument) : Constructor → Prop
  | .range | .constRange => T.size = arg.element.size
  | .vector | .array => T.size = 1
  | _ => True

/-- The container is empty or the unit fits. As one object it has to be one element. -/
def Constructor.Fits (T : CppType) (arg : Argument) : Constructor → Prop
  | .object =>
    (arg.object T).map Prod.snd = some arg.data ∧ T.size = arg.count * arg.element.size
  | c => arg.count = 0 ∨ UnitFits T arg c

/-- The constructor that reads the container fits. -/
def Selection.Fits (T : CppType) (arg : Argument) : Selection → Prop
  | .direct c => c.Fits T arg
  | .converted c => c.Fits T.removeConst arg

/-! ## Sizes -/

theorem CppType.sizeof_toNat (T : CppType) : T.sizeof.toNat = T.size :=
  UInt64.toNat_ofNat_of_lt' T.type.size_lt

theorem CppType.size_pos (T : CppType) : 0 < T.size := T.type.size_pos

theorem CppType.size_of_isByte {T : CppType} (h : T.type.isByte = true) : T.size = 1 :=
  T.type.size_of_isByte h

theorem Argument.count_lt (arg : Argument) : arg.count < 2 ^ 64 :=
  lt_of_le_of_lt (Nat.le_mul_of_pos_right _ arg.element.size_pos) arg.extent_lt

theorem Argument.count_toNat (arg : Argument) : (UInt64.ofNat arg.count).toNat = arg.count :=
  UInt64.toNat_ofNat_of_lt' arg.count_lt

theorem Argument.bytes_toNat (arg : Argument) :
    (UInt64.ofNat arg.count * arg.element.sizeof).toNat = arg.count * arg.element.size := by
  rw [UInt64.toNat_mul, arg.count_toNat, CppType.sizeof_toNat, Nat.mod_eq_of_lt arg.extent_lt]

/-! ## Constructors -/

variable {conv : Conversions} {T : CppType} {arg : Argument} {c : Constructor}

theorem viable_of_best (h : best T arg (candidates conv T arg) = some c) :
    viable conv T arg c = true :=
  (List.mem_filter.mp (List.mem_of_find?_eq_some h)).2

theorem viable_of_best_converting (h : best T arg (converting conv T arg) = some c) :
    viable conv T arg c = true := by
  have hmem := (List.mem_filter.mp (List.mem_of_find?_eq_some h)).2
  exact (Bool.and_eq_true_iff.mp hmem).1

/-- Either the container is an argument itself or the view that it converts to. -/
theorem selected_cases {s : Selection} (h : selected conv T arg = some s) :
    (∃ c, s = .direct c ∧ viable conv T arg c = true) ∨
      ∃ c, s = .converted c ∧ viable conv T.removeConst arg c = true := by
  unfold selected at h
  split at h
  · split at h
    · obtain ⟨c, hc, rfl⟩ := Option.map_eq_some_iff.mp h
      exact Or.inr ⟨c, rfl, viable_of_best_converting hc⟩
    · cases h
  · obtain ⟨c, hc, rfl⟩ := Option.map_eq_some_iff.mp h
    exact Or.inl ⟨c, rfl, viable_of_best hc⟩

/-- The size in elements is right if the elements of the view have the size of those of the
container. -/
theorem elements_iff : arg.count * T.size = arg.count * arg.element.size ↔
    arg.count = 0 ∨ T.size = arg.element.size := by
  rw [mul_eq_mul_left_iff, or_comm]

/-- The size in bytes is right if the elements of the view are bytes. -/
theorem bytes_iff : arg.count * arg.element.size * T.size = arg.count * arg.element.size ↔
    arg.count = 0 ∨ T.size = 1 := by
  have hsize : arg.element.size ≠ 0 := arg.element.size_pos.ne'
  rw [mul_right_eq_self₀, mul_eq_zero, or_iff_left hsize, or_comm]

/-- The constructors that require elements of the size of those of the container are right. -/
theorem elements_of_size_eq (c : Constructor) (hsize : T.size = arg.element.size)
    (hinitial : initialSize T arg c = UInt64.ofNat arg.count) :
    (initialSize T arg c).toNat * T.size = arg.count * arg.element.size := by
  rw [hinitial, arg.count_toNat, hsize]

/-- The constructors for views of bytes are right. -/
theorem bytes_of_isByte (c : Constructor) (hbyte : T.type.isByte = true)
    (hinitial : initialSize T arg c = UInt64.ofNat arg.count * arg.element.sizeof) :
    (initialSize T arg c).toNat * T.size = arg.count * arg.element.size := by
  rw [hinitial, arg.bytes_toNat, CppType.size_of_isByte hbyte, Nat.mul_one]

theorem initialSize_iff (h : viable conv T arg c = true) (hobject : c ≠ .object) :
    (initialSize T arg c).toNat * T.size = arg.count * arg.element.size ↔
      arg.count = 0 ∨ UnitFits T arg c := by
  cases c with
  | range =>
    rw [initialSize, arg.count_toNat]
    exact elements_iff
  | constRange =>
    rw [initialSize, arg.count_toNat]
    exact elements_iff
  | byteRange =>
    simp only [viable, Bool.and_eq_true] at h
    exact iff_of_true (bytes_of_isByte _ h.2 rfl) (Or.inr trivial)
  | constByteRange => exact iff_of_true (bytes_of_isByte _ h rfl) (Or.inr trivial)
  | copy =>
    simp only [viable, Bool.and_eq_true, beq_iff_eq] at h
    exact iff_of_true (elements_of_size_eq _ (by rw [h.2]) rfl) (Or.inr trivial)
  | object => exact absurd rfl hobject
  | mutableView =>
    simp only [viable, Bool.and_eq_true, beq_iff_eq] at h
    exact iff_of_true (elements_of_size_eq _ (by rw [h.2]; rfl) rfl) (Or.inr trivial)
  | vector =>
    rw [initialSize, arg.bytes_toNat]
    exact bytes_iff
  | byteView =>
    simp only [viable, Bool.and_eq_true] at h
    obtain ⟨⟨⟨-, hfrom⟩, hto⟩, -⟩ := h
    have hsize : T.size = arg.element.size := by
      rw [CppType.size_of_isByte hto, CppType.size_of_isByte hfrom]
    exact iff_of_true (elements_of_size_eq _ hsize rfl) (Or.inr trivial)
  | array =>
    simp only [viable, Bool.and_eq_true, beq_iff_eq] at h
    obtain rfl := h.2
    rw [initialSize, arg.bytes_toNat]
    exact bytes_iff
  | cArray =>
    simp only [viable, Bool.and_eq_true, beq_iff_eq] at h
    have hsize : T.size = arg.element.size := congrArg ObjectType.size h.1.2.symm
    exact iff_of_true (elements_of_size_eq _ hsize rfl) (Or.inr trivial)

/-- The view of one object. -/
theorem object_covers_iff (h : viable conv T arg .object = true) :
    (⟨initialData T arg .object, initialSize T arg .object⟩ : BasicBufferView T).Covers arg ↔
      Constructor.object.Fits T arg := by
  obtain ⟨⟨how, address⟩, hobject⟩ := Option.isSome_iff_exists.mp h
  have hone : (initialSize T arg .object).toNat * T.size = T.size := Nat.one_mul _
  simp only [BasicBufferView.Covers, Constructor.Fits, initialData, hone, hobject,
    Option.elim_some, Option.map_some, Option.some.injEq]

/-- What a constructor makes of a container that it takes. -/
theorem make_covers_iff {v : BasicBufferView T} (h : viable conv T arg c = true)
    (hv : make T arg c = some v) : v.Covers arg ↔ c.Fits T arg := by
  unfold make at hv
  split at hv
  · cases hv
    by_cases hobject : c = .object
    · subst hobject
      exact object_covers_iff h
    · have hdata : initialData T arg c = arg.data := by
        cases c <;> first | rfl | exact absurd rfl hobject
      have hfits : c.Fits T arg ↔ arg.count = 0 ∨ UnitFits T arg c := by
        cases c <;> first | rfl | exact absurd rfl hobject
      rw [BasicBufferView.Covers, hdata, and_iff_right rfl, hfits]
      exact initialSize_iff h hobject
  · cases hv

/-- An accepted container is covered if and only if the constructor that reads it fits. -/
theorem construct_covers_iff {s : Selection} {v : BasicBufferView T}
    (hs : selected conv T arg = some s) (hv : construct conv T arg = some v) :
    v.Covers arg ↔ s.Fits T arg := by
  rw [construct, hs, Option.bind_eq_bind, Option.bind_some] at hv
  rcases selected_cases hs with ⟨c, rfl, hviable⟩ | ⟨c, rfl, hviable⟩
  · exact make_covers_iff hviable hv
  · obtain ⟨other, hother, rfl⟩ := Option.map_eq_some_iff.mp hv
    exact make_covers_iff hviable hother

/-! ## Bytes and elements -/

namespace BasicBufferView

variable {U : CppType}

theorem asType_of_not_dvd (v : BasicBufferView T) (h : v.size.toNat % U.size ≠ 0) :
    v.asType U = ⟨0, 0⟩ := by
  apply if_pos
  intro hzero
  apply h
  rw [← U.sizeof_toNat, ← UInt64.toNat_mod, hzero]
  rfl

theorem asType_of_dvd (v : BasicBufferView T) (h : v.size.toNat % U.size = 0)
    (hdata : v.data % U.type.align = 0) : v.asType U = ⟨v.data, v.size / U.sizeof⟩ := by
  have hzero : v.size % U.sizeof = 0 := by
    apply UInt64.toNat_inj.mp
    rw [UInt64.toNat_mod, U.sizeof_toNat, h]
    rfl
  rw [asType, if_neg (not_not_intro hzero), if_neg (not_not_intro hdata)]

/-- The elements of `as_type` are within the bytes. -/
theorem asType_extent_le (v : BasicBufferView T) (U : CppType) :
    (v.asType U).size.toNat * U.size ≤ v.size.toNat := by
  unfold asType
  split
  · exact (Nat.zero_mul _).trans_le (Nat.zero_le _)
  split
  · exact (Nat.zero_mul _).trans_le (Nat.zero_le _)
  · rw [UInt64.toNat_div, U.sizeof_toNat]
    exact Nat.div_mul_le_self _ _

/-- `as_type` after `as_bytes`, from an aligned address. -/
theorem asType_asBytes_iff (v : BasicBufferView T) (hdata : v.data % T.type.align = 0) :
    (v.asBytes U).asType T = v ↔ v.size.toNat * T.size < 2 ^ 64 := by
  constructor
  · intro hv
    have hextent := asType_extent_le (v.asBytes U) T
    rw [hv] at hextent
    exact lt_of_le_of_lt hextent (v.asBytes U).size.toNat_lt
  · intro hlt
    have hbytes : (v.asBytes U).size.toNat = v.size.toNat * T.size := by
      rw [asBytes, UInt64.toNat_mul, T.sizeof_toNat, Nat.mod_eq_of_lt hlt]
    have hdvd : (v.asBytes U).size.toNat % T.size = 0 := by
      rw [hbytes, Nat.mul_mod_left]
    rw [asType_of_dvd _ hdvd hdata]
    have hsize : (v.asBytes U).size / T.sizeof = v.size := by
      apply UInt64.toNat_inj.mp
      rw [UInt64.toNat_div, hbytes, T.sizeof_toNat, Nat.mul_div_cancel _ T.size_pos]
    rw [hsize]
    rfl

end BasicBufferView

/-! ## All views -/

/-- An accepted container is covered if and only if the constructor that reads it fits. The bytes of
a view of aligned elements give the view again if and only if their number is less than `2^64`, and
bytes that are no whole number of elements give the empty view. -/
theorem covers_iff (conv : Conversions) (T : CppType) :
    (∀ (arg : Argument) (s : Selection) (v : BasicBufferView T),
      selected conv T arg = some s → construct conv T arg = some v →
        (v.Covers arg ↔ s.Fits T arg)) ∧
    (∀ (U : CppType) (v : BasicBufferView T), BasicBufferView.AsBytesAllowed conv T U →
      BasicBufferView.AsTypeAllowed conv U T → v.data % T.type.align = 0 →
        ((v.asBytes U).asType T = v ↔ v.size.toNat * T.size < 2 ^ 64)) ∧
    (∀ (U : CppType) (v : BasicBufferView U), BasicBufferView.AsTypeAllowed conv U T →
      v.size.toNat % T.size ≠ 0 → v.asType T = ⟨0, 0⟩) := by
  refine ⟨?_, ?_, ?_⟩
  · intro arg s v hs hv
    exact construct_covers_iff hs hv
  · intro U v _ _ hdata
    exact v.asType_asBytes_iff hdata
  · intro U v _ hdvd
    exact v.asType_of_not_dvd hdvd

/-- `int`, of four bytes. -/
def CppType.int : CppType :=
  ⟨⟨1, 4, 4, false, by decide, by decide, by decide, by decide⟩, false⟩

/-- A `std::vector<int>` of a number of elements. -/
def vectorOfInt (readOnly : Bool) (count : Nat) (hcount : count * 4 < 2 ^ 64) : Argument :=
  ⟨.vector, false, .int, readOnly, 4096, count, fun _ => none, hcount, fun _ => rfl, nofun⟩

/-- A `std::vector<char>` of 8 elements. -/
def vectorOfChar : Argument :=
  ⟨.vector, false, .char, false, 4096, 8, fun _ => none, by decide, fun _ => rfl, nofun⟩

/-- Only the type itself. -/
def Conversions.identity : Conversions := ⟨fun T U => T == U, fun T U => T == U⟩

/-- A view of three elements covers a `const std::vector<int>` of three, its bytes give the view
again, and 13 bytes give none. -/
theorem covers_iff_three :
    (⟨4096, 3⟩ : BasicBufferView CppType.int.const).Covers (vectorOfInt true 3 (by decide)) ∧
    ((⟨4096, 3⟩ : BasicBufferView .int).asBytes .char).asType .int = ⟨4096, 3⟩ ∧
    (⟨4096, 13⟩ : BasicBufferView .char).asType .int = ⟨0, 0⟩ := by
  refine ⟨?_, ?_, ?_⟩
  · have hc : selected .identity CppType.int.const (vectorOfInt true 3 (by decide)) =
        some (.direct .constRange) := by decide
    have hv : construct .identity CppType.int.const (vectorOfInt true 3 (by decide)) =
        some ⟨4096, 3⟩ := by decide
    exact ((covers_iff _ _).1 _ _ _ hc hv).mpr (Or.inr rfl)
  · exact ((covers_iff .identity .int).2.1 .char ⟨4096, 3⟩ (by decide) (by decide)
      (by decide)).mpr (by decide)
  · exact (covers_iff .identity .int).2.2 .char ⟨4096, 13⟩ (by decide) (by decide)

/-- A `std::vector<int>` of three elements, 12 bytes, becomes a view of 12 elements, 48 bytes. -/
theorem not_covers_vector :
    construct .identity .int (vectorOfInt false 3 (by decide)) = some ⟨4096, 12⟩ ∧
    ¬ (⟨4096, 12⟩ : BasicBufferView .int).Covers (vectorOfInt false 3 (by decide)) := by
  refine ⟨by decide, ?_⟩
  rintro ⟨-, hextent⟩
  revert hextent
  decide

/-- Eight characters that do not convert to `int` become a view of eight `const int`. -/
example : selected .identity CppType.int.const vectorOfChar = some (.converted .vector) ∧
    construct .identity CppType.int.const vectorOfChar = some ⟨4096, 8⟩ := by
  decide

end Csics.Container
