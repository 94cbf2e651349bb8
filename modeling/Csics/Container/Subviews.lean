import Csics.Base.Run
import Csics.Container.View
import Csics.Serialization.View

/-!
# Sub-views

The elements of a view that a sub-view is to show are those from `offset` on and before
`offset + length`, as far as there are any (`IsRange`). `head` and `tail` show the first and the
last ones. `subview` is right unless it starts within the view and the sum is `2^64` or more
(`NoWrap`): then the length is not cut, and the sub-view goes on behind the end of its parent.

`subview_iff` says so for all views and for chains of sub-views of sub-views.
-/

namespace Csics.Container

open Base

/-- The address and the size are those of the elements from `offset` on and before
`offset + length`. Without elements, the address does not matter. -/
def IsRange (elementSize data size : Nat) (r : Nat × UInt64) (offset length : Nat) : Prop :=
  r.2.toNat = min (offset + length) size - min offset size ∧
    (r.2 ≠ 0 → r.1 = data + min offset size * elementSize)

/-- The sum of offset and length does not wrap, or does not matter. -/
def NoWrap (size offset length : UInt64) : Prop :=
  size ≤ offset ∨ offset.toNat + length.toNat < 2 ^ 64

instance (size offset length : UInt64) : Decidable (NoWrap size offset length) :=
  inferInstanceAs (Decidable (_ ∨ _))

variable {elementSize data : Nat} {size offset length : UInt64} {T : CppType}

/-! ## One sub-view -/

theorem slice_of_le (h : size ≤ offset) : slice elementSize data size offset length = (0, 0) :=
  if_pos h

theorem slice_of_lt (h : offset < size) : slice elementSize data size offset length =
    (data + offset.toNat * elementSize,
      if offset + length > size then size - offset else length) :=
  if_neg (UInt64.not_le.mpr h)

theorem slice_address (elementSize data : Nat) (length : UInt64) (h : offset < size) :
    (slice elementSize data size offset length).1 = data + offset.toNat * elementSize := by
  rw [slice_of_lt h]

/-- The size of a sub-view that starts within the view. -/
theorem slice_size (elementSize data : Nat) (length : UInt64) (h : offset < size) :
    (slice elementSize data size offset length).2.toNat =
      if offset.toNat + length.toNat < 2 ^ 64 then
        min (offset.toNat + length.toNat) size.toNat - offset.toNat
      else length.toNat := by
  have hoffset := UInt64.lt_iff_toNat_lt.mp h
  have hsize := size.toNat_lt
  have hlength := length.toNat_lt
  rw [slice_of_lt h]
  simp only [gt_iff_lt, UInt64.lt_iff_toNat_lt, UInt64.toNat_add]
  by_cases hsum : offset.toNat + length.toNat < 2 ^ 64
  · rw [if_pos hsum, Nat.mod_eq_of_lt hsum]
    split
    · rw [UInt64.toNat_sub_of_le _ _ (UInt64.le_iff_toNat_le.mpr hoffset.le)]
      omega
    · omega
  · have hmod : (offset.toNat + length.toNat) % 2 ^ 64 = offset.toNat + length.toNat - 2 ^ 64 := by
      omega
    rw [if_neg hsum, hmod, if_neg (by omega)]

theorem slice_isRange_iff (elementSize data : Nat) (size offset length : UInt64) :
    IsRange elementSize data size.toNat (slice elementSize data size offset length) offset.toNat
      length.toNat ↔ NoWrap size offset length := by
  have hsize := size.toNat_lt
  rw [NoWrap]
  by_cases hle : size ≤ offset
  · have hle' := UInt64.le_iff_toNat_le.mp hle
    refine iff_of_true ?_ (Or.inl hle)
    rw [slice_of_le hle]
    refine ⟨?_, fun hne => absurd rfl hne⟩
    rw [Nat.min_eq_right (by omega), Nat.min_eq_right hle']
    exact (Nat.sub_self _).symm
  · have hlt := UInt64.not_le.mp hle
    have hlt' := UInt64.lt_iff_toNat_lt.mp hlt
    have haddress : (slice elementSize data size offset length).1 =
        data + min offset.toNat size.toNat * elementSize := by
      rw [slice_address _ _ _ hlt, Nat.min_eq_left hlt'.le]
    rw [or_iff_right hle, IsRange, and_iff_left fun _ => haddress, slice_size _ _ _ hlt,
      Nat.min_eq_left hlt'.le]
    split
    · rename_i hsum
      exact iff_of_true rfl hsum
    · rename_i hsum
      exact iff_of_false (by omega) hsum

/-- `head` shows the first elements. -/
theorem headSlice_isRange : IsRange elementSize data size.toNat (headSlice data size length) 0
    length.toNat := by
  refine ⟨?_, fun _ => ?_⟩
  · simp only [headSlice, gt_iff_lt, UInt64.lt_iff_toNat_lt]
    split <;> omega
  · simp [headSlice]

/-- `tail` shows the last ones. -/
theorem tailSlice_isRange : IsRange elementSize data size.toNat
    (tailSlice elementSize data size length) (size.toNat - length.toNat) length.toNat := by
  have hle : (if length > size then size else length) ≤ size := by
    split
    · exact UInt64.le_refl size
    · rename_i hlength
      exact UInt64.not_lt.mp hlength
  have hmin : (if length > size then size else length).toNat = min length.toNat size.toNat := by
    simp only [gt_iff_lt, UInt64.lt_iff_toNat_lt]
    split <;> omega
  refine ⟨?_, fun _ => ?_⟩
  · show (if length > size then size else length).toNat = _
    omega
  · show data + (size - if length > size then size else length).toNat * elementSize = _
    rw [UInt64.toNat_sub_of_le _ _ hle, hmin]
    congr 2
    omega

/-- Without a wrap it is the sub-view that the serializers are modelled with. -/
theorem subview_eq_of_noWrap {v : BasicBufferView CppType.char} (h : NoWrap v.size offset length) :
    (⟨(v.subview offset length).data, (v.subview offset length).size.toNat⟩ : Serialization.View) =
      (⟨v.data, v.size.toNat⟩ : Serialization.View).subview offset.toNat length.toNat := by
  show (⟨(slice 1 v.data v.size offset length).1, (slice 1 v.data v.size offset length).2.toNat⟩ :
    Serialization.View) = _
  unfold Serialization.View.subview
  by_cases hle : v.size ≤ offset
  · rw [slice_of_le hle, if_pos (UInt64.le_iff_toNat_le.mp hle)]
    rfl
  · have hlt := UInt64.not_le.mp hle
    have hlt' := UInt64.lt_iff_toNat_lt.mp hlt
    rw [slice_size _ _ _ hlt, slice_of_lt hlt, if_pos (h.resolve_left hle),
      if_neg (Nat.not_le.mpr hlt')]
    dsimp only
    rw [Nat.mul_one]
    split
    · rw [Nat.min_eq_right (by omega)]
    · rw [Nat.min_eq_left (by omega), Nat.add_sub_cancel_left]

/-! ## Chains -/

/-- The elements of a sub-view are elements of its parent. -/
def Within (elementSize : Nat) (parent r : Nat × UInt64) : Prop :=
  r.2 = 0 ∨ parent.1 ≤ r.1 ∧
    r.1 + r.2.toNat * elementSize ≤ parent.1 + parent.2.toNat * elementSize

/-- A sub-view of a view within the parent stays within it, if and only if nothing wraps. -/
theorem within_slice_iff (hpos : 0 < elementSize) {parent r : Nat × UInt64}
    (h : Within elementSize parent r) :
    Within elementSize parent (slice elementSize r.1 r.2 offset length) ↔
      NoWrap r.2 offset length := by
  have hparent := parent.2.toNat_lt
  have hlength := length.toNat_lt
  rw [NoWrap]
  by_cases hle : r.2 ≤ offset
  · rw [slice_of_le hle]
    exact iff_of_true (Or.inl rfl) (Or.inl hle)
  have hlt := UInt64.not_le.mp hle
  have hlt' := UInt64.lt_iff_toNat_lt.mp hlt
  have hne : r.2 ≠ 0 := by
    intro hzero
    rw [hzero] at hlt'
    exact Nat.not_lt_zero _ hlt'
  obtain ⟨hstart, hend⟩ := h.resolve_left hne
  have hsize := slice_size elementSize r.1 length hlt
  have haddress := slice_address elementSize r.1 length hlt
  rw [or_iff_right hle]
  by_cases hsum : offset.toNat + length.toNat < 2 ^ 64
  · refine iff_of_true (Or.inr ?_) hsum
    rw [if_pos hsum] at hsize
    rw [haddress, hsize]
    have hcut : offset.toNat * elementSize +
        (min (offset.toNat + length.toNat) r.2.toNat - offset.toNat) * elementSize ≤
          r.2.toNat * elementSize := by
      rw [← Nat.add_mul]
      apply Nat.mul_le_mul_right
      omega
    omega
  · refine iff_of_false ?_ hsum
    rw [if_neg hsum] at hsize
    rintro (hzero | ⟨-, hbehind⟩)
    · rw [hzero] at hsize
      have hzero' : (0 : UInt64).toNat = 0 := rfl
      have hoffset := r.2.toNat_lt
      omega
    · rw [haddress, hsize] at hbehind
      -- the sub-view is as long as the address space from its start
      have hlong : 2 ^ 64 * elementSize ≤
          offset.toNat * elementSize + length.toNat * elementSize := by
        rw [← Nat.add_mul]
        apply Nat.mul_le_mul_right
        omega
      have hshort : parent.2.toNat * elementSize < 2 ^ 64 * elementSize :=
        Nat.mul_lt_mul_of_pos_right hparent hpos
      omega

/-- The same for a chain of sub-views, of a class that computes them with `slice`. -/
theorem always_within_iff {V : Type} (pair : V → Nat × UInt64) (subview : V → UInt64 → UInt64 → V)
    (hpos : 0 < elementSize)
    (hsubview : ∀ v offset length,
      pair (subview v offset length) = slice elementSize (pair v).1 (pair v).2 offset length)
    (v : V) (ops : List (UInt64 × UInt64)) :
    Always (fun v op => some (subview v op.1 op.2))
        (fun r => Within elementSize (pair v) (pair r)) v ops ↔
      Guarded (fun v op => some (subview v op.1 op.2))
        (fun v op => NoWrap (pair v).2 op.1 op.2) v ops := by
  have hstep : ∀ (r : V) (op : UInt64 × UInt64), Within elementSize (pair v) (pair r) → True →
      ((∃ r', some (subview r op.1 op.2) = some r' ∧ Within elementSize (pair v) (pair r')) ↔
        NoWrap (pair r).2 op.1 op.2) := by
    intro r op hwithin _
    rw [← within_slice_iff hpos hwithin, ← hsubview]
    simp
  have hself : Within elementSize (pair v) (pair v) := Or.inr ⟨Nat.le_refl _, Nat.le_refl _⟩
  have hvalid : Guarded (fun v (op : UInt64 × UInt64) => some (subview v op.1 op.2))
      (fun _ _ => True) v ops := guarded_of_forall fun _ _ => trivial
  refine always_iff_guarded hstep ?_ hself hself hvalid
  intro r op r' hwithin _ hnoWrap hr'
  obtain ⟨r'', hr'', hwithin'⟩ := (hstep r op hwithin trivial).mpr hnoWrap
  cases hr'.symm.trans hr''
  exact hwithin'

/-! ## Views -/

namespace BasicBufferView

/-- The view, as an address and a size. -/
def pair (v : BasicBufferView T) : Nat × UInt64 := (v.data, v.size)

/-- The view shows the elements from `offset` on and before `offset + length`. -/
def IsRange (v r : BasicBufferView T) (offset length : Nat) : Prop :=
  Container.IsRange T.size v.data v.size.toNat r.pair offset length

/-- The elements of the view are elements of its parent. -/
def Within (parent r : BasicBufferView T) : Prop :=
  Container.Within T.size parent.pair r.pair

end BasicBufferView

namespace StringView

def pair (v : StringView) : Nat × UInt64 := (v.data, v.size)

def IsRange (v r : StringView) (offset length : Nat) : Prop :=
  Container.IsRange 1 v.data v.size.toNat r.pair offset length

def Within (parent r : StringView) : Prop := Container.Within 1 parent.pair r.pair

end StringView

/-- A sub-view of a view or a buffer shows the elements that it is to show, and a chain of sub-views
stays within its first parent, if and only if no sum of an offset in the view and a length is `2^64`
or more. -/
theorem subview_iff (T : CppType) (offset length : UInt64) (ops : List (UInt64 × UInt64)) :
    (∀ v : BasicBufferView T, v.IsRange (v.subview offset length) offset.toNat length.toNat ↔
      NoWrap v.size offset length) ∧
    (∀ {α : Type} (data : Nat) (b : Buffer α), b.size < 2 ^ 64 →
      (IsRange T.size data b.size (b.subview T data offset length).pair offset.toNat
        length.toNat ↔ NoWrap (UInt64.ofNat b.size) offset length)) ∧
    (∀ v : StringView, v.IsRange (v.subview offset length) offset.toNat length.toNat ↔
      NoWrap v.size offset length) ∧
    (∀ v : BasicBufferView T,
      Always (fun v op => some (v.subview op.1 op.2)) v.Within v ops ↔
        Guarded (fun v op => some (v.subview op.1 op.2)) (fun v op => NoWrap v.size op.1 op.2)
          v ops) ∧
    (∀ v : StringView,
      Always (fun v op => some (v.subview op.1 op.2)) v.Within v ops ↔
        Guarded (fun v op => some (v.subview op.1 op.2)) (fun v op => NoWrap v.size op.1 op.2)
          v ops) := by
  refine ⟨?_, ?_, ?_, ?_, ?_⟩
  · intro v
    exact slice_isRange_iff _ _ _ _ _
  · intro α data b hsize
    have hiff := slice_isRange_iff T.size data (UInt64.ofNat b.size) offset length
    rwa [UInt64.toNat_ofNat_of_lt' hsize] at hiff
  · intro v
    exact slice_isRange_iff _ _ _ _ _
  · intro v
    exact always_within_iff BasicBufferView.pair BasicBufferView.subview T.type.size_pos
      (fun _ _ _ => rfl) v ops
  · intro v
    exact always_within_iff StringView.pair StringView.subview Nat.one_pos
      (fun _ _ _ => rfl) v ops

/-- The last two bytes of a buffer of three. -/
theorem subview_iff_three :
    IsRange 1 100 3 (Buffer.subview .char 100
      (⟨3, 3, some [some ⟨0, 65⟩, some ⟨1, 66⟩, some ⟨2, 67⟩]⟩ : Buffer UInt8) 1 2).pair 1 2 :=
  ((subview_iff .char 1 2 []).2.1 100 _ (by decide)).mpr (by decide)

/-- All of four bytes from the third one on are to be shown. The sum with the greatest length is 1,
and so the length is not cut. -/
theorem not_isRange_rest :
    (⟨100, 4⟩ : BasicBufferView .char).subview 2 (0xFFFFFFFFFFFFFFFF) = ⟨102, 0xFFFFFFFFFFFFFFFF⟩ ∧
    ¬ (⟨100, 4⟩ : BasicBufferView .char).IsRange
      ((⟨100, 4⟩ : BasicBufferView .char).subview 2 (0xFFFFFFFFFFFFFFFF)) 2 (0xFFFFFFFFFFFFFFFF) ∧
    ¬ (⟨100, 4⟩ : BasicBufferView .char).Within
      ((⟨100, 4⟩ : BasicBufferView .char).subview 2 (0xFFFFFFFFFFFFFFFF)) := by
  refine ⟨by decide, ?_, ?_⟩
  · rintro ⟨hsize, -⟩
    revert hsize
    decide
  · rintro (hzero | ⟨-, hend⟩)
    · revert hzero
      decide
    · revert hend
      decide

end Csics.Container
