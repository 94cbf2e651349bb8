import Csics.Container.Refinement

/-!
# Buffers that are moved from

A move of a buffer with trivially copyable elements takes its storage, and leaves `size()` and
`capacity()` as they are. Where there has been room for elements, the buffer is not an empty one
afterwards, and the next operations get to storage that is not there.

`valid_iff_guarded` says that all buffers stay valid, those that are moved from too, if and only if
none of them has room for elements when it is moved from.
-/

namespace Csics.Container

open Base

variable {α : Type}

namespace Buffers

/-- Without storage there are no elements, and no room for any. -/
def NullIsEmpty (w : Buffers α) : Prop :=
  ∀ name b, w.buffers.lookup name = some b → b.buf = none → b.size = 0 ∧ b.capacity = 0

variable {T : ElementType α} {policy : CapacityPolicy} {w : Buffers α} {op : BufferOp α}
  {p p' : Buffers α × Lists α}

theorem Inv.nullIsEmpty (h : w.Inv T) : w.NullIsEmpty := by
  intro name b hb hnull
  obtain ⟨os, hos⟩ := h.holds name b hb
  exact hos.of_null hnull

theorem pops_of_copyable (ht : T.triviallyCopyable = true) : w.Pops T op := by
  cases op with
  | swapAndPop name pos => exact Or.inl (triviallyDestructible_of ht)
  | _ => trivial

theorem Inv.erases_of_copyable (h : w.Inv T) (ht : T.triviallyCopyable = true)
    (hvalid : w.Valid T op) : w.Erases T op := by
  cases op with
  | erase name first last =>
    intro _
    obtain ⟨b, hb, -⟩ := hvalid
    obtain ⟨os, hos⟩ := h.holds name b hb
    exact ⟨b, hb, values os, hos.elements, fun v _ => T.selfMoved_of_copyable ht v⟩
  | _ => trivial

/-- In every run of valid operations a buffer without storage has no size and no capacity, and every
buffer is the list that it stands for, an empty one where it has been moved from, if and only if no
buffer is moved from that has room for elements. -/
theorem valid_iff_guarded (T : ElementType α) (ht : T.triviallyCopyable = true)
    (policy : CapacityPolicy) (ops : List (BufferOp α))
    (hvalid : Guarded (both T policy) (fun p op => p.1.Valid T op) start ops) :
    Always (both T policy) (fun p => p.1.NullIsEmpty ∧ p.1.Agrees p.2) start ops ↔
      Guarded (both T policy) (fun p op => p.1.Moves T op) start ops := by
  refine always_iff_guarded (I := Tracks T) ?_ ?_ tracks_start
    ⟨(inv_init (T := T)).nullIsEmpty, agrees_start⟩ hvalid
  · intro p op htracks hvalid
    constructor
    · rintro ⟨p', hp', hnull, -⟩
      by_contra hmoves
      obtain ⟨w', hstep, rfl⟩ := Option.map_eq_some_iff.mp hp'
      obtain ⟨name, b, hb, hbuf, hcapacity⟩ := exists_null_of_not_moves hvalid hmoves hstep
      exact hcapacity (hnull name b hb hbuf).2
    · intro hmoves
      have herases := htracks.1.erases_of_copyable ht hvalid
      obtain ⟨p', hp', hagrees⟩ :=
        (htracks.agrees_iff hvalid hmoves).mpr ⟨pops_of_copyable ht, herases⟩
      have htracks' := htracks.step hvalid hmoves (pops_of_copyable ht) herases hp'
      exact ⟨p', hp', htracks'.1.nullIsEmpty, hagrees⟩
  · intro p op p' htracks hvalid hmoves hstep
    exact htracks.step hvalid hmoves (pops_of_copyable ht)
      (htracks.1.erases_of_copyable ht hvalid) hstep

/-- `char`. -/
def charType : ElementType UInt8 where
  triviallyCopyable := true
  triviallyDestructible := true
  triviallyDefaultConstructible := true
  movedFrom := id
  selfMoved := id
  destructible_of_copyable _ := rfl
  destructible_of_default _ := rfl
  movedFrom_of_copyable _ _ := rfl
  selfMoved_of_copyable _ _ := rfl

/-- An empty buffer is moved, and used again. -/
theorem valid_iff_guarded_empty :
    Always (both charType .exact) (fun p => p.1.NullIsEmpty ∧ p.1.Agrees p.2) start
      [.create 0, .moveConstruct 1 0, .append 0 [1, 2], .copyAssign 1 0, .popBack 1] :=
  (valid_iff_guarded charType rfl .exact _ (by decide)).mpr (by decide)

/-- A buffer of one byte and with room for another one is moved. It has a size and a capacity, but
no storage, and the next `push_back` writes through the null pointer. -/
theorem not_valid_moved :
    Guarded (both charType .fiftyPercent) (fun p op => p.1.Valid charType op) start
      [.ofData 0 [1], .moveConstruct 1 0, .pushBack 0 2] ∧
    ¬ Always (both charType .fiftyPercent) (fun p => p.1.NullIsEmpty ∧ p.1.Agrees p.2) start
      [.ofData 0 [1], .moveConstruct 1 0] ∧
    run (both charType .fiftyPercent) start [.ofData 0 [1], .moveConstruct 1 0, .pushBack 0 2] =
      none := by
  refine ⟨by decide, ?_, rfl⟩
  intro h
  obtain ⟨p, hp, hnull, -⟩ := always_iff.mp h _ [] (List.append_nil _).symm
  cases hp
  have hempty := hnull 0 _ rfl rfl
  revert hempty
  decide

end Buffers

end Csics.Container
