import Mathlib.Data.List.AList
import Mathlib.Algebra.BigOperators.Group.List.Basic
import Mathlib.Algebra.Ring.Nat

/-!
# Sums over the values of a map

`total f m` adds up `f` over the values of an association list, and the lemmas say how it changes
with an `insert` or an `erase`. They are stated without subtraction, so that `omega` can use them.
-/

namespace Csics.Base

variable {κ ν : Type*} [DecidableEq κ] (f : ν → Nat) {m : AList fun _ : κ => ν} {k : κ} {v w : ν}

/-- The sum of `f` over all values. -/
def total (m : AList fun _ : κ => ν) : Nat := (m.entries.map fun e => f e.2).sum

omit [DecidableEq κ] in
@[simp] theorem total_empty : total f (∅ : AList fun _ : κ => ν) = 0 := rfl

/-- A value that is there is one of the summands, and `erase` takes it out. -/
theorem total_erase_of_lookup (h : m.lookup k = some w) :
    total f (m.erase k) + f w = total f m := by
  have hmem : (⟨k, w⟩ : Sigma fun _ : κ => ν) ∈ m.entries := AList.mem_lookup_iff.mp h
  have hkey : k ∈ m.entries.keys := List.mem_keys_of_mem hmem
  obtain ⟨b, before, after, -, hentries, herase⟩ := List.exists_of_kerase hkey
  obtain rfl : w = b := by
    have hb : b ∈ m.lookup k := AList.mem_lookup_iff.mpr (by rw [hentries]; simp)
    rw [h] at hb
    exact Option.some.inj hb
  have hentries' : (m.erase k).entries = before ++ after := herase
  unfold total
  rw [hentries, hentries']
  simp only [List.map_append, List.map_cons, List.sum_append, List.sum_cons]
  omega

theorem total_insert : total f (m.insert k v) = f v + total f (m.erase k) := by
  unfold total
  rw [AList.entries_insert, List.map_cons, List.sum_cons]
  rfl

theorem total_insert_of_lookup (h : m.lookup k = some w) :
    total f (m.insert k v) + f w = total f m + f v := by
  have herase := total_erase_of_lookup f h
  rw [total_insert]
  omega

theorem total_insert_of_notMem (h : k ∉ m) : total f (m.insert k v) = total f m + f v := by
  unfold total
  rw [AList.entries_insert_of_notMem h, List.map_cons, List.sum_cons, Nat.add_comm]

end Csics.Base
