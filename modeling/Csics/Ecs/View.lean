import Csics.Ecs.SparseSet

/-!
# Views

`View` of `include/csics/sim/ecs/View.hpp`: the entities recorded in every one of a
non-empty family of sparse sets. The iterator runs over the entities of the smallest set
and skips those that another set does not contain.

A component type is a `k : κ`, and `C k` is the type of its values.
-/

namespace Csics.Ecs

variable {κ : Type*} {C : κ → Type*} {N : Nat}

namespace View

/-- `BaseIterator::contains(sets, e)`. -/
def contains (sets : ∀ k, SparseSet (C k) N) (ks : List κ) (e : Entity) : Bool :=
  ks.all fun k => (sets k).contains e = some true

/-- `find_smallest()` of the view over `k` and `ks`. -/
def findSmallest (sets : ∀ k, SparseSet (C k) N) (k : κ) (ks : List κ) : List Entity :=
  let cmp (acc : Nat × List Entity) (a : κ) :=
    if (sets a).dense.length < acc.1 then ((sets a).dense.length, (sets a).entities) else acc
  ((k :: ks).foldl cmp (npos, (sets k).entities)).2

/-- The loop of the constructor and of `operator++`; an iterator is the entities from
`entity_iter_` to `entity_end_`. -/
def skip (sets : ∀ k, SparseSet (C k) N) (ks : List κ) : List Entity → List Entity
  | [] => []
  | e :: es => if contains sets ks e then e :: es else skip sets ks es

/-- The entities a range-based `for` visits in at most `n` rounds. -/
def visit (sets : ∀ k, SparseSet (C k) N) (ks : List κ) : Nat → List Entity → List Entity
  | 0, _ => []
  | _ + 1, [] => []
  | n + 1, e :: es => e :: visit sets ks n (skip sets ks es)

/-- The entities the view over `k` and `ks` yields from `begin()` to `end()`. -/
def yields (sets : ∀ k, SparseSet (C k) N) (k : κ) (ks : List κ) : List Entity :=
  let entities := findSmallest sets k ks
  visit sets (k :: ks) entities.length (skip sets (k :: ks) entities)

/-- `begin()`. -/
def begin (sets : ∀ k, SparseSet (C k) N) (k : κ) (ks : List κ) : List Entity :=
  skip sets (k :: ks) (findSmallest sets k ks)

/-- `end()`. -/
def end_ (sets : ∀ k, SparseSet (C k) N) (k : κ) (ks : List κ) : List Entity :=
  skip sets (k :: ks) []

/-- `operator++`; past the end it is undefined. -/
def increment (sets : ∀ k, SparseSet (C k) N) (ks : List κ) : List Entity → Option (List Entity)
  | [] => none
  | _ :: es => some (skip sets ks es)

/-- The components behind the pointers that `at(e)` returns; a null pointer has none. -/
def components (sets : ∀ k, SparseSet (C k) N) (ks : List κ) (e : Entity) :
    Option (List (Σ k, C k)) :=
  ks.mapM fun k => ((sets k).at? e).join.map (Sigma.mk k)

/-- `operator*`. -/
def deref (sets : ∀ k, SparseSet (C k) N) (ks : List κ) :
    List Entity → Option (Entity × List (Σ k, C k))
  | [] => none
  | e :: _ => (components sets ks e).map (e, ·)

/-- What `for (it = begin(); it != end(); ++it)` reads from `*it`, from an iterator on and in at
most `n` rounds. It is `none` if the end is not reached or something undefined is done. -/
def iterate (sets : ∀ k, SparseSet (C k) N) (k : κ) (ks : List κ) :
    Nat → List Entity → Option (List (Entity × List (Σ k, C k)))
  | 0, it => if it = end_ sets k ks then some [] else none
  | n + 1, it =>
    if it = end_ sets k ks then some []
    else
      (deref sets (k :: ks) it).bind fun r =>
        (increment sets (k :: ks) it).bind fun it => (iterate sets k ks n it).map (r :: ·)

variable {sets : ∀ k, SparseSet (C k) N} {k : κ} {ks : List κ}

/-- The loop visits the entities that all sets contain, in order. -/
theorem visit_skip {n : Nat} {es : List Entity} (hn : es.length ≤ n) :
    visit sets ks n (skip sets ks es) = es.filter (contains sets ks) := by
  induction es generalizing n with
  | nil => cases n <;> rfl
  | cons e es ih =>
    obtain ⟨n, rfl⟩ : ∃ m, n = m + 1 := ⟨n - 1, by rw [List.length_cons] at hn; omega⟩
    have hn' : es.length ≤ n := Nat.le_of_succ_le_succ hn
    rw [skip, List.filter_cons]
    split
    · rw [visit, ih hn']
    · exact ih (hn'.trans (Nat.le_succ n))

theorem yields_eq_filter :
    yields sets k ks = (findSmallest sets k ks).filter (contains sets (k :: ks)) :=
  visit_skip le_rfl

/-- Whatever set is the smallest, a yielded entity is contained in the first one. -/
theorem contains_of_mem_yields {e : Entity} (he : e ∈ yields sets k ks) :
    (sets k).contains e = some true := by
  rw [yields_eq_filter, List.mem_filter] at he
  exact of_decide_eq_true (List.all_eq_true.mp he.2 k List.mem_cons_self)

end View

end Csics.Ecs
