import Csics.Container.Buffers

/-!
# Buffers refine lists

`both` performs an operation on the buffers and on the lists that they stand for. A run of valid
operations that moves no whole buffer goes through and keeps the two in agreement
(`agrees_iff_guarded`), unless one of the operations is `swap_and_pop` before the last position of
elements that have a destructor, which assigns to a destroyed element, or `erase` of an empty range
before elements that a move onto themselves changes.
-/

namespace Csics.Container

open Base

variable {α : Type}

namespace Buffers

section
variable (T : ElementType α) (policy : CapacityPolicy)

/-- The operation on the buffers, and on the lists. -/
def both (p : Buffers α × Lists α) (op : BufferOp α) : Option (Buffers α × Lists α) :=
  (p.1.step T policy op).map fun w => (w, Lists.step T p.2 op)

end

/-- No buffers, and no lists. -/
def start : Buffers α × Lists α := (init, fun _ => none)

variable {T : ElementType α} {policy : CapacityPolicy} {w : Buffers α} {op : BufferOp α}

theorem moves_of_not_isMove (h : ¬ op.IsMove) : w.Moves T op := by
  cases op with
  | moveConstruct name src => exact absurd trivial h
  | moveAssign name src => exact absurd trivial h
  | _ => trivial

/-- The buffers keep the invariant, and the lists are their contents. -/
def Tracks (T : ElementType α) (p : Buffers α × Lists α) : Prop :=
  p.1.Inv T ∧ p.2 = p.1.contents

variable {p p' : Buffers α × Lists α}

theorem tracks_start : Tracks T (start : Buffers α × Lists α) := ⟨inv_init, contents_init.symm⟩

theorem agrees_start : (start : Buffers α × Lists α).1.Agrees start.2 := by
  intro name
  rw [start, init, AList.lookup_empty]
  exact .none

/-- One operation leads to agreement again, if and only if it is neither of the two. -/
theorem Tracks.agrees_iff (h : Tracks T p) (hvalid : p.1.Valid T op) (hmoves : p.1.Moves T op) :
    (∃ p', both T policy p op = some p' ∧ p'.1.Agrees p'.2) ↔
      p.1.Pops T op ∧ p.1.Erases T op := by
  obtain ⟨hinv, hlists⟩ := h
  constructor
  · rintro ⟨p', hp', hagrees⟩
    obtain ⟨w', hstep, rfl⟩ := Option.map_eq_some_iff.mp hp'
    have hpops : p.1.Pops T op := by
      by_contra hpops
      rw [step_eq_none_of_not_pops hinv hvalid hpops] at hstep
      cases hstep
    obtain ⟨w'', hstep', -, hcontents⟩ := step_spec hinv hvalid hmoves hpops
    cases hstep.symm.trans hstep'
    have hlists' := hagrees.eq
    dsimp only at hlists'
    rw [hlists] at hlists'
    exact ⟨hpops, hcontents.mp hlists'.symm⟩
  · rintro ⟨hpops, herases⟩
    obtain ⟨w', hstep, hinv', hcontents⟩ := step_spec hinv hvalid hmoves hpops
    refine ⟨(w', Lists.step T p.2 op), ?_, ?_⟩
    · rw [both, hstep, Option.map_some]
    · rw [hlists, ← hcontents.mpr herases]
      exact hinv'.agrees

theorem Tracks.step (h : Tracks T p) (hvalid : p.1.Valid T op) (hmoves : p.1.Moves T op)
    (hpops : p.1.Pops T op) (herases : p.1.Erases T op) (hstep : both T policy p op = some p') :
    Tracks T p' := by
  obtain ⟨w', hw', rfl⟩ := Option.map_eq_some_iff.mp hstep
  obtain ⟨w'', hw'', hinv, hcontents⟩ := step_spec h.1 hvalid hmoves hpops
  cases hw'.symm.trans hw''
  refine ⟨hinv, ?_⟩
  dsimp only
  rw [hcontents.mpr herases, h.2]

/-- A run of valid operations without moves of buffers goes through, and the buffers are the lists
of the run after each of them, if and only if none is one of the two that go wrong. -/
theorem agrees_iff_guarded (T : ElementType α) (policy : CapacityPolicy) (ops : List (BufferOp α))
    (hvalid : Guarded (both T policy) (fun p op => p.1.Valid T op ∧ ¬ op.IsMove) start ops) :
    Always (both T policy) (fun p => p.1.Agrees p.2) start ops ↔
      Guarded (both T policy) (fun p op => p.1.Pops T op ∧ p.1.Erases T op) start ops := by
  refine always_iff_guarded (I := Tracks T) ?_ ?_ tracks_start agrees_start hvalid
  · intro p op htracks hvalid
    exact htracks.agrees_iff hvalid.1 (moves_of_not_isMove hvalid.2)
  · intro p op p' htracks hvalid hok hstep
    exact htracks.step hvalid.1 (moves_of_not_isMove hvalid.2) hok.1 hok.2 hstep

/-- `std::vector<int>`, which a move leaves empty, also one onto itself. -/
def vectorType : ElementType (List Nat) where
  triviallyCopyable := false
  triviallyDestructible := false
  triviallyDefaultConstructible := false
  movedFrom _ := []
  selfMoved _ := []
  destructible_of_copyable := Bool.noConfusion
  destructible_of_default := Bool.noConfusion
  movedFrom_of_copyable := Bool.noConfusion
  selfMoved_of_copyable := Bool.noConfusion

/-- Vectors are put in, removed, copied and taken out. -/
theorem agrees_iff_guarded_vectors :
    Always (both vectorType .fiftyPercent) (fun p => p.1.Agrees p.2) start
      [.create 0, .pushBack 0 [1], .append 0 [[2], [3]], .erase 0 0 1, .copyConstruct 1 0,
        .swapAndPop 1 1, .resize 0 1 fun _ => []] :=
  (agrees_iff_guarded vectorType .fiftyPercent _ (by decide)).mpr (by decide)

/-- Nothing is erased, and both vectors are empty. -/
theorem not_agrees_erase :
    Guarded (both vectorType .fiftyPercent) (fun p op => p.1.Valid vectorType op ∧ ¬ op.IsMove)
      start [.create 0, .pushBack 0 [1], .pushBack 0 [2], .erase 0 0 0] ∧
    ¬ Always (both vectorType .fiftyPercent) (fun p => p.1.Agrees p.2) start
      [.create 0, .pushBack 0 [1], .pushBack 0 [2], .erase 0 0 0] := by
  refine ⟨by decide, ?_⟩
  intro h
  obtain ⟨p, hp, hagrees⟩ := always_iff.mp h _ [] (List.append_nil _).symm
  cases hp
  have hlists := congrFun hagrees.eq 0
  revert hlists
  decide

end Buffers

end Csics.Container
