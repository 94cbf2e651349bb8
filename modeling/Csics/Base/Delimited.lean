import Mathlib.Algebra.Order.Ring.Nat
import Mathlib.Data.List.Basic
import Mathlib.Tactic.Common

/-!
# Fields between delimiters

A text made of fields is read up to the next delimiter. `Free` says that a field holds no
delimiter and `Stops` that what follows it is empty or begins with one. Every text has such
a cut (`exists_field`) and only one (`field_unique`).

`decimal` is the number that a string of ASCII digits stands for.
-/

namespace Csics.Base

variable {α : Type*} {stop : α → Prop}

/-- No element is a delimiter. -/
def Free (stop : α → Prop) (xs : List α) : Prop := ∀ x ∈ xs, ¬ stop x

/-- Empty, or a delimiter comes first. -/
def Stops (stop : α → Prop) (ys : List α) : Prop := ∀ y zs, ys = y :: zs → stop y

theorem Free.tail {x : α} {xs : List α} (h : Free stop (x :: xs)) : Free stop xs :=
  fun y hy => h y (List.mem_cons_of_mem _ hy)

theorem Free.cons {x : α} {xs : List α} (hx : ¬ stop x) (h : Free stop xs) :
    Free stop (x :: xs) := by
  intro y hy
  rcases List.mem_cons.mp hy with rfl | hy
  · exact hx
  · exact h y hy

theorem free_nil : Free stop [] := by
  intro x hx
  cases hx

theorem stops_nil : Stops stop [] := by
  intro y zs h
  cases h

theorem stops_cons {y : α} {ys : List α} (h : stop y) : Stops stop (y :: ys) := by
  intro z zs hz
  cases hz
  exact h

/-- Every text has a first field. -/
theorem exists_field (stop : α → Prop) [DecidablePred stop] (xs : List α) :
    ∃ field rest, xs = field ++ rest ∧ Free stop field ∧ Stops stop rest := by
  induction xs with
  | nil => exact ⟨[], [], rfl, free_nil, stops_nil⟩
  | cons x xs ih =>
    by_cases hx : stop x
    · exact ⟨[], x :: xs, rfl, free_nil, stops_cons hx⟩
    · obtain ⟨field, rest, rfl, hfree, hstops⟩ := ih
      exact ⟨x :: field, rest, rfl, hfree.cons hx, hstops⟩

/-- A text has one first field only. -/
theorem field_unique {xs xs' ys ys' : List α} (h : xs ++ ys = xs' ++ ys') (hxs : Free stop xs)
    (hxs' : Free stop xs') (hys : Stops stop ys) (hys' : Stops stop ys') :
    xs = xs' ∧ ys = ys' := by
  induction xs generalizing xs' with
  | nil =>
    cases xs' with
    | nil => exact ⟨rfl, h⟩
    | cons x' xs' => exact absurd (hys _ _ h) (hxs' _ List.mem_cons_self)
  | cons x xs ih =>
    cases xs' with
    | nil => exact absurd (hys' _ _ h.symm) (hxs _ List.mem_cons_self)
    | cons x' xs' =>
      obtain ⟨rfl, hrest⟩ := List.cons.inj h
      obtain ⟨rfl, rfl⟩ := ih hrest hxs.tail hxs'.tail
      exact ⟨rfl, rfl⟩

/-! ## Decimal numbers -/

/-- `0` to `9`. -/
def IsDigit (c : UInt8) : Prop := 0x30 ≤ c ∧ c ≤ 0x39

instance : DecidablePred IsDigit := fun _ => inferInstanceAs (Decidable (_ ∧ _))

/-- The number of a string of digits. -/
def decimal (ds : List UInt8) : Nat := ds.foldl (fun n c => 10 * n + (c.toNat - 0x30)) 0

end Csics.Base
