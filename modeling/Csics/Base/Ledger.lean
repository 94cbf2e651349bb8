import Mathlib.Algebra.BigOperators.Group.Finset.Piecewise
import Mathlib.Algebra.Order.Group.Multiset

/-!
# A ledger of owned things

Owners come and go, and each holds a queue of things. A thing enters the ledger with the owner that
it is pushed to, changes its owner only together with everything that owner holds, and is gone when
it is popped, or when its owner is closed or takes over what another one holds.

No operation but `push` changes the bag of the things that are held or gone (`bag_pop`, `bag_move`,
`bag_replace`, `bag_close`). So each of the things that were ever pushed is in one place, once.
-/

namespace Csics.Base

/-- The owners, what each of them holds, the oldest thing first, and what is gone. -/
structure Ledger (ι α : Type*) where
  live : Finset ι
  holds : ι → List α
  gone : List α

namespace Ledger

variable {ι α : Type*}

/-- The ledger without owners. -/
def empty : Ledger ι α := ⟨∅, fun _ => [], []⟩

/-- Everything that is held or gone. -/
def bag (l : Ledger ι α) : Multiset α :=
  ∑ i ∈ l.live, (l.holds i : Multiset α) + (l.gone : Multiset α)

theorem bag_gone (l : Ledger ι α) (ys : List α) :
    ({ l with gone := l.gone ++ ys } : Ledger ι α).bag = l.bag + ys := by
  unfold bag
  rw [← Multiset.coe_add, add_assoc]

variable [DecidableEq ι] (l : Ledger ι α) (i dst src : ι) (x : α) (xs : List α)

/-! ## The operations -/

def set : Ledger ι α := { l with holds := Function.update l.holds i xs }

/-- A new owner holds nothing. -/
def create : Ledger ι α := { l.set i [] with live := insert i l.live }

def push : Ledger ι α := l.set i (l.holds i ++ [x])

/-- The oldest thing goes. -/
def pop : Ledger ι α :=
  match l.holds i with
  | [] => l
  | x :: xs => { l.set i xs with gone := l.gone ++ [x] }

/-- Everything that the owner holds goes. -/
def drop : Ledger ι α := { l.set i [] with gone := l.gone ++ l.holds i }

/-- One owner takes over what another one holds. -/
def move : Ledger ι α := (l.set dst (l.holds src)).set src []

/-- What the first owner holds goes, and it takes over what the other one holds. -/
def replace : Ledger ι α := (l.drop dst).move dst src

def close : Ledger ι α := { l.drop i with live := l.live.erase i }

/-! ## What an owner holds -/

variable {l i dst src x xs}

@[simp] theorem holds_set_self : (l.set i xs).holds i = xs := by
  simp only [set, Function.update_self]

@[simp] theorem holds_set_of_ne {j : ι} (h : j ≠ i) : (l.set i xs).holds j = l.holds j := by
  simp only [set, Function.update_of_ne h]

@[simp] theorem live_set : (l.set i xs).live = l.live := rfl

@[simp] theorem gone_set : (l.set i xs).gone = l.gone := rfl

theorem pop_of_cons (h : l.holds i = x :: xs) :
    l.pop i = { l.set i xs with gone := l.gone ++ [x] } := by
  rw [pop, h]

theorem holds_create_of_ne {j : ι} (h : j ≠ i) : (l.create i).holds j = l.holds j :=
  holds_set_of_ne h

theorem holds_create_self : (l.create i).holds i = [] := holds_set_self

theorem holds_move_dst (h : dst ≠ src) : (l.move dst src).holds dst = l.holds src := by
  rw [move, holds_set_of_ne h, holds_set_self]

theorem holds_drop_self : (l.drop i).holds i = [] := holds_set_self

theorem holds_drop_of_ne {j : ι} (h : j ≠ i) : (l.drop i).holds j = l.holds j := holds_set_of_ne h

/-! ## The bag -/

/-- What an owner holds is replaced in the bag too. -/
theorem bag_set (xs : List α) (hi : i ∈ l.live) : (l.set i xs).bag + l.holds i = l.bag + xs := by
  have hcoe : (fun j => ((l.set i xs).holds j : Multiset α)) =
      Function.update (fun j => (l.holds j : Multiset α)) i xs := by
    funext j
    by_cases hj : j = i
    · subst hj
      rw [holds_set_self, Function.update_self]
    · rw [holds_set_of_ne hj, Function.update_of_ne hj]
  unfold bag
  rw [live_set, gone_set, hcoe, Finset.sum_update_of_mem hi,
    Finset.sdiff_singleton_eq_erase, ← Finset.add_sum_erase _ _ hi]
  simp only [add_comm, add_left_comm]

theorem bag_create (hi : i ∉ l.live) : (l.create i).bag = l.bag := by
  have hsum : ∑ j ∈ l.live, ((l.create i).holds j : Multiset α) =
      ∑ j ∈ l.live, (l.holds j : Multiset α) := by
    apply Finset.sum_congr rfl
    intro j hj
    have hne : j ≠ i := fun heq => hi (heq ▸ hj)
    show ((l.set i []).holds j : Multiset α) = _
    rw [holds_set_of_ne hne]
  have hnew : ((l.create i).holds i : Multiset α) = 0 := by
    show ((l.set i []).holds i : Multiset α) = 0
    rw [holds_set_self, Multiset.coe_nil]
  unfold bag
  show ∑ j ∈ insert i l.live, ((l.create i).holds j : Multiset α) + (l.gone : Multiset α) = _
  rw [Finset.sum_insert hi, hnew, zero_add, hsum]

theorem bag_push (hi : i ∈ l.live) : (l.push i x).bag = l.bag + {x} := by
  have hset := bag_set (l.holds i ++ [x]) hi
  rw [← Multiset.coe_add, Multiset.coe_singleton, add_comm (l.holds i : Multiset α),
    ← add_assoc] at hset
  exact add_right_cancel hset

theorem bag_pop (hi : i ∈ l.live) : (l.pop i).bag = l.bag := by
  cases hholds : l.holds i with
  | nil => rw [pop, hholds]
  | cons x xs =>
    have hset := bag_set xs hi
    have hbag : ({ l.set i xs with gone := l.gone ++ [x] } : Ledger ι α).bag =
        (l.set i xs).bag + [x] := bag_gone (l.set i xs) [x]
    rw [pop_of_cons hholds, hbag]
    rw [hholds, ← Multiset.cons_coe, ← Multiset.singleton_add, ← add_assoc] at hset
    exact add_right_cancel hset

theorem bag_drop (hi : i ∈ l.live) : (l.drop i).bag = l.bag := by
  have hset := bag_set [] hi
  rw [Multiset.coe_nil, add_zero] at hset
  rw [← hset]
  exact bag_gone (l.set i []) (l.holds i)

theorem bag_move (hne : dst ≠ src) (hdst : dst ∈ l.live) (hsrc : src ∈ l.live)
    (hnil : l.holds dst = []) : (l.move dst src).bag = l.bag := by
  have htake := bag_set (l.holds src) hdst
  have hleave := bag_set (l := l.set dst (l.holds src)) (i := src) [] hsrc
  rw [hnil, Multiset.coe_nil, add_zero] at htake
  rw [holds_set_of_ne hne.symm, Multiset.coe_nil, add_zero, htake] at hleave
  exact add_right_cancel hleave

theorem bag_replace (hne : dst ≠ src) (hdst : dst ∈ l.live) (hsrc : src ∈ l.live) :
    (l.replace dst src).bag = l.bag :=
  (bag_move (l := l.drop dst) hne hdst hsrc holds_drop_self).trans (bag_drop hdst)

theorem bag_close (hi : i ∈ l.live) : (l.close i).bag = l.bag := by
  rw [← bag_drop hi]
  have hnil : ((l.drop i).holds i : Multiset α) = 0 := by
    rw [holds_drop_self, Multiset.coe_nil]
  unfold bag
  show ∑ j ∈ l.live.erase i, ((l.drop i).holds j : Multiset α) + ((l.drop i).gone : Multiset α) =
    ∑ j ∈ l.live, ((l.drop i).holds j : Multiset α) + ((l.drop i).gone : Multiset α)
  rw [← Finset.add_sum_erase _ _ hi, hnil, zero_add]

end Ledger

end Csics.Base
