import Mathlib.Algebra.Order.Ring.Nat
import Mathlib.Data.List.Basic
import Mathlib.Tactic.Common

/-!
# Byte memory

A memory is a total map from addresses to bytes. `Mem.store` writes a byte string,
`Mem.load` reads one back; the lemmas below say how the two compose. A `Region` is a
block of addresses, and `Region.Disjoint` is the side condition of the frame rule
`Mem.load_store_of_disjoint`.

The second half fixes the byte order of fixed-width numbers: `leBytes n v` is the
little-endian string of the `n` low bytes of `v`, and `ofLeBytes` reads it back.
-/

namespace Csics.Base

/-- A block of `len` addresses from `pos` on. -/
structure Region where
  pos : Nat
  len : Nat
  deriving DecidableEq, Repr

namespace Region

/-- The region lies in `[0, n)`. -/
def Within (r : Region) (n : Nat) : Prop := r.pos + r.len ≤ n

/-- No address lies in both regions. -/
def Disjoint (r s : Region) : Prop := r.pos + r.len ≤ s.pos ∨ s.pos + s.len ≤ r.pos

instance (r : Region) (n : Nat) : Decidable (r.Within n) := inferInstanceAs (Decidable (_ ≤ _))

instance (r s : Region) : Decidable (r.Disjoint s) := inferInstanceAs (Decidable (_ ∨ _))

theorem Disjoint.symm {r s : Region} (h : r.Disjoint s) : s.Disjoint r := Or.symm h

/-- A region inside `s` is disjoint from whatever `s` is disjoint from. -/
theorem Disjoint.sub {r s t : Region} (h : s.Disjoint t) (hpos : s.pos ≤ r.pos)
    (hend : r.pos + r.len ≤ s.pos + s.len) : r.Disjoint t := by
  unfold Disjoint at *
  omega

end Region

/-! ## Loads and stores -/

/-- A byte for every address. -/
abbrev Mem := Nat → UInt8

namespace Mem

/-- Write the bytes `bs` from address `pos` on. -/
def store (m : Mem) (pos : Nat) (bs : List UInt8) : Mem :=
  fun i => if pos ≤ i then (bs[i - pos]?).getD (m i) else m i

/-- The `n` bytes from address `pos` on. -/
def load (m : Mem) (pos n : Nat) : List UInt8 := (List.range n).map fun i => m (pos + i)

@[simp] theorem length_load (m : Mem) (pos n : Nat) : (m.load pos n).length = n := by
  simp [load]

@[simp] theorem load_zero (m : Mem) (pos : Nat) : m.load pos 0 = [] := rfl

theorem load_succ (m : Mem) (pos n : Nat) :
    m.load pos (n + 1) = m pos :: m.load (pos + 1) n := by
  simp only [load, List.range_succ_eq_map, List.map_cons, Nat.add_zero, List.map_map]
  congr 1
  apply List.map_congr_left
  intro i _
  simp only [Function.comp, Nat.succ_eq_add_one]
  congr 1
  omega

theorem load_add (m : Mem) (pos n k : Nat) :
    m.load pos (n + k) = m.load pos n ++ m.load (pos + n) k := by
  induction n generalizing pos with
  | zero => simp
  | succ n ih =>
    rw [Nat.succ_add, load_succ, load_succ, ih, List.cons_append, Nat.add_right_comm,
      Nat.add_assoc pos n 1]

/-- Memories that agree on a region give the same load. -/
theorem load_congr {m m' : Mem} {pos n : Nat}
    (h : ∀ i, pos ≤ i → i < pos + n → m i = m' i) : m.load pos n = m'.load pos n := by
  apply List.map_congr_left
  intro i hi
  have hi' := List.mem_range.mp hi
  exact h _ (by omega) (by omega)

/-- Loads that agree agree on each part. -/
theorem load_sub {m m' : Mem} {p q n i k : Nat} (h : m.load p n = m'.load q n) (hi : i + k ≤ n) :
    m.load (p + i) k = m'.load (q + i) k := by
  obtain ⟨r, rfl⟩ := Nat.exists_eq_add_of_le hi
  rw [load_add, load_add, load_add, load_add] at h
  have hparts := (List.append_inj h (by simp)).1
  exact (List.append_inj hparts (by simp)).2

theorem store_apply_of_lt {m : Mem} {pos i : Nat} {bs : List UInt8} (h : i < pos) :
    m.store pos bs i = m i := by
  simp [store, Nat.not_le.mpr h]

theorem store_apply_of_ge {m : Mem} {pos i : Nat} {bs : List UInt8} (h : pos + bs.length ≤ i) :
    m.store pos bs i = m i := by
  simp [store, List.getElem?_eq_none (show bs.length ≤ i - pos by omega)]

theorem store_apply_of_mem {m : Mem} {pos i : Nat} {bs : List UInt8}
    (h : i < bs.length) : m.store pos bs (pos + i) = bs[i] := by
  simp [store, h]

@[simp] theorem store_nil (m : Mem) (pos : Nat) : m.store pos [] = m := by
  ext i
  simp [store]

@[simp] theorem load_store (m : Mem) (pos : Nat) (bs : List UInt8) :
    (m.store pos bs).load pos bs.length = bs := by
  apply List.ext_getElem (by simp)
  intro i _ h
  simp only [load, List.getElem_map, List.getElem_range]
  exact store_apply_of_mem h

theorem load_store_of_length {m : Mem} {pos n : Nat} {bs : List UInt8} (h : bs.length = n) :
    (m.store pos bs).load pos n = bs := by
  rw [← h, load_store]

/-- Frame rule: a store leaves every disjoint region alone. -/
theorem load_store_of_disjoint {m : Mem} {p q n : Nat} {bs : List UInt8}
    (h : Region.Disjoint ⟨q, n⟩ ⟨p, bs.length⟩) : (m.store p bs).load q n = m.load q n := by
  apply load_congr
  intro i h1 h2
  rcases h with h | h
  · exact store_apply_of_lt (by simp only at h; omega)
  · exact store_apply_of_ge (by simp only at h; omega)

/-- Two adjacent stores are one store. -/
theorem store_append (m : Mem) (pos : Nat) (xs ys : List UInt8) :
    (m.store pos xs).store (pos + xs.length) ys = m.store pos (xs ++ ys) := by
  ext i
  by_cases h1 : i < pos
  · rw [store_apply_of_lt (by omega), store_apply_of_lt h1, store_apply_of_lt h1]
  · by_cases h2 : i < pos + xs.length
    · obtain ⟨j, rfl⟩ : ∃ j, i = pos + j := ⟨i - pos, by omega⟩
      have hj : j < xs.length := by omega
      rw [store_apply_of_lt h2, store_apply_of_mem hj,
        store_apply_of_mem (by rw [List.length_append]; omega), List.getElem_append_left hj]
    · by_cases h3 : i < pos + xs.length + ys.length
      · obtain ⟨j, rfl⟩ : ∃ j, i = pos + xs.length + j := ⟨i - (pos + xs.length), by omega⟩
        have hj : j < ys.length := by omega
        rw [store_apply_of_mem hj, Nat.add_assoc,
          store_apply_of_mem (by rw [List.length_append]; omega)]
        simp
      · rw [store_apply_of_ge (by omega), store_apply_of_ge (by omega),
          store_apply_of_ge (by rw [List.length_append]; omega)]

end Mem

/-! ## Fixed-width little-endian numbers -/

/-- The `n` low bytes of `v`, lowest first. -/
def leBytes : Nat → Nat → List UInt8
  | 0, _ => []
  | n + 1, v => UInt8.ofNat (v % 256) :: leBytes n (v / 256)

/-- The number a little-endian byte string stands for. -/
def ofLeBytes : List UInt8 → Nat
  | [] => 0
  | b :: bs => b.toNat + 256 * ofLeBytes bs

@[simp] theorem length_leBytes (n v : Nat) : (leBytes n v).length = n := by
  induction n generalizing v with
  | zero => rfl
  | succ n ih => simp [leBytes, ih]

theorem ofLeBytes_leBytes {n v : Nat} (h : v < 256 ^ n) : ofLeBytes (leBytes n v) = v := by
  induction n generalizing v with
  | zero => simp at h; simp [leBytes, ofLeBytes, h]
  | succ n ih =>
    have hv : v / 256 < 256 ^ n := by
      rw [Nat.div_lt_iff_lt_mul (by omega), ← Nat.pow_succ]
      exact h
    have hb : (UInt8.ofNat (v % 256)).toNat = v % 256 := by
      rw [UInt8.toNat_ofNat']
      omega
    rw [leBytes, ofLeBytes, ih hv, hb]
    omega

theorem ofLeBytes_lt (bs : List UInt8) : ofLeBytes bs < 256 ^ bs.length := by
  induction bs with
  | nil => simp [ofLeBytes]
  | cons b bs ih =>
    have hb := b.toNat_lt
    rw [ofLeBytes, List.length_cons, Nat.pow_succ]
    omega

theorem leBytes_ofLeBytes (bs : List UInt8) : leBytes bs.length (ofLeBytes bs) = bs := by
  induction bs with
  | nil => rfl
  | cons b bs ih =>
    have hb := b.toNat_lt
    have h1 : (b.toNat + 256 * ofLeBytes bs) % 256 = b.toNat := by omega
    have h2 : (b.toNat + 256 * ofLeBytes bs) / 256 = ofLeBytes bs := by omega
    rw [List.length_cons, leBytes, ofLeBytes, h1, h2, ih]
    simp

end Csics.Base
