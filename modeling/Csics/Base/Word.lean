import Csics.Base.Memory

/-!
# Words and byte order

`Word α` says that the values of `α` are the numbers below `256 ^ width`. The object
representation of a word is its little-endian byte string or, on a big-endian host, the
reverse of it. `Be α` is a word that is stored in big-endian order whatever the host: its
`repr` is the number whose object representation is the big-endian string, and its bytes do
not depend on the host (`bytes_be`).
-/

namespace Csics.Base

/-- The byte order of the host. -/
inductive Endian where
  | little
  | big
  deriving DecidableEq, Repr

class Word (α : Type) where
  width : Nat
  toNat : α → Nat
  ofNat : Nat → α
  toNat_lt (x : α) : toNat x < 256 ^ width
  ofNat_toNat (x : α) : ofNat (toNat x) = x
  toNat_ofNat {n : Nat} (h : n < 256 ^ width) : toNat (ofNat n) = n

instance : Word UInt8 where
  width := 1
  toNat := UInt8.toNat
  ofNat := UInt8.ofNat
  toNat_lt x := x.toNat_lt
  ofNat_toNat x := UInt8.ofNat_toNat
  toNat_ofNat h := by rw [UInt8.toNat_ofNat']; exact Nat.mod_eq_of_lt h

instance : Word UInt16 where
  width := 2
  toNat := UInt16.toNat
  ofNat := UInt16.ofNat
  toNat_lt x := x.toNat_lt
  ofNat_toNat x := UInt16.ofNat_toNat
  toNat_ofNat h := by rw [UInt16.toNat_ofNat']; exact Nat.mod_eq_of_lt h

instance : Word UInt32 where
  width := 4
  toNat := UInt32.toNat
  ofNat := UInt32.ofNat
  toNat_lt x := x.toNat_lt
  ofNat_toNat x := UInt32.ofNat_toNat
  toNat_ofNat h := by rw [UInt32.toNat_ofNat']; exact Nat.mod_eq_of_lt h

instance : Word UInt64 where
  width := 8
  toNat := UInt64.toNat
  ofNat := UInt64.ofNat
  toNat_lt x := x.toNat_lt
  ofNat_toNat x := UInt64.ofNat_toNat
  toNat_ofNat h := by rw [UInt64.toNat_ofNat']; exact Nat.mod_eq_of_lt h

namespace Word

@[simp] theorem width_uint8 : width UInt8 = 1 := rfl

@[simp] theorem width_uint16 : width UInt16 = 2 := rfl

@[simp] theorem width_uint32 : width UInt32 = 4 := rfl

@[simp] theorem width_uint64 : width UInt64 = 8 := rfl

variable {α : Type} [Word α]

/-- The little-endian byte string of a word. -/
def leBytes (x : α) : List UInt8 := Base.leBytes (width α) (toNat x)

def ofLeBytes (bs : List UInt8) : α := ofNat (Base.ofLeBytes bs)

/-- The big-endian byte string of a word. -/
def beBytes (x : α) : List UInt8 := (leBytes x).reverse

/-- The object representation of a word. -/
def bytes (host : Endian) (x : α) : List UInt8 :=
  match host with
  | .little => leBytes x
  | .big => beBytes x

def ofBytes (host : Endian) (bs : List UInt8) : α :=
  match host with
  | .little => ofLeBytes bs
  | .big => ofLeBytes bs.reverse

@[simp] theorem length_leBytes (x : α) : (leBytes x).length = width α := by simp [leBytes]

@[simp] theorem length_beBytes (x : α) : (beBytes x).length = width α := by simp [beBytes]

@[simp] theorem length_bytes (host : Endian) (x : α) : (bytes host x).length = width α := by
  cases host <;> simp [bytes]

@[simp] theorem ofLeBytes_leBytes (x : α) : ofLeBytes (leBytes x) = x := by
  rw [ofLeBytes, leBytes, Base.ofLeBytes_leBytes (toNat_lt x), ofNat_toNat]

theorem leBytes_ofLeBytes {bs : List UInt8} (h : bs.length = width α) :
    leBytes (ofLeBytes bs : α) = bs := by
  have hlt := Base.ofLeBytes_lt bs
  rw [h] at hlt
  rw [leBytes, ofLeBytes, toNat_ofNat hlt, ← h, Base.leBytes_ofLeBytes]

@[simp] theorem ofBytes_bytes (host : Endian) (x : α) : ofBytes host (bytes host x) = x := by
  cases host <;> simp [ofBytes, bytes, beBytes]

theorem bytes_ofBytes (host : Endian) {bs : List UInt8} (h : bs.length = width α) :
    bytes host (ofBytes host bs : α) = bs := by
  cases host with
  | little => exact leBytes_ofLeBytes h
  | big => rw [bytes, ofBytes, beBytes, leBytes_ofLeBytes (by simpa using h), List.reverse_reverse]

theorem beBytes_ofBytes {bs : List UInt8} (h : bs.length = width α) :
    beBytes (ofBytes .big bs : α) = bs := bytes_ofBytes .big h

/-- The big-endian word at an offset of a string. -/
def beAt (α : Type) [Word α] (bs : List UInt8) (n : Nat) : α :=
  ofBytes .big ((bs.drop n).take (width α))

/-- `byteswap(v)`. -/
def byteswap (x : α) : α := ofLeBytes (leBytes x).reverse

@[simp] theorem byteswap_byteswap (x : α) : byteswap (byteswap x) = x := by
  rw [byteswap, byteswap, leBytes_ofLeBytes (by simp), List.reverse_reverse, ofLeBytes_leBytes]

theorem leBytes_byteswap (x : α) : leBytes (byteswap x) = beBytes x :=
  leBytes_ofLeBytes (by simp)

/-- A word is stored alike on both hosts exactly if it is its own reverse. -/
theorem bytes_eq_iff {x : α} : bytes .little x = bytes .big x ↔ byteswap x = x := by
  show leBytes x = beBytes x ↔ _
  rw [← leBytes_byteswap]
  constructor
  · intro h
    rw [← ofLeBytes_leBytes (byteswap x), ← h, ofLeBytes_leBytes]
  · intro h
    rw [h]

/-- The other host stores the word in the other order. -/
theorem bytes_of_ne {host host' : Endian} (h : host ≠ host') (x : α) :
    bytes host x = bytes host' (byteswap x) := by
  cases host with
  | little =>
    cases host' with
    | little => exact absurd rfl h
    | big =>
      show leBytes x = (leBytes (byteswap x)).reverse
      rw [leBytes_byteswap, beBytes, List.reverse_reverse]
  | big =>
    cases host' with
    | little => exact (leBytes_byteswap x).symm
    | big => exact absurd rfl h

/-- A byte is its own representation. -/
theorem bytes_uint8 (host : Endian) (x : UInt8) : bytes host x = [x] := by
  have hx : UInt8.ofNat (x.toNat % 256) = x := by
    rw [Nat.mod_eq_of_lt x.toNat_lt, UInt8.ofNat_toNat]
  have h : leBytes x = [x] := congrArg (fun b => [b]) hx
  cases host with
  | little => exact h
  | big => rw [bytes, beBytes, h, List.reverse_singleton]

end Word

/-! ## Big-endian words -/

/-- `endian<T, std::endian::big>`. -/
structure Be (α : Type) where
  repr : α
  deriving DecidableEq

namespace Be

variable {α : Type} [Word α]

/-- `from_native(value)`. -/
def fromNative (host : Endian) (x : α) : Be α :=
  match host with
  | .little => ⟨Word.byteswap x⟩
  | .big => ⟨x⟩

/-- `native()`. -/
def native (host : Endian) (x : Be α) : α :=
  match host with
  | .little => Word.byteswap x.repr
  | .big => x.repr

instance : Word (Be α) where
  width := Word.width α
  toNat x := Word.toNat x.repr
  ofNat n := ⟨Word.ofNat n⟩
  toNat_lt x := Word.toNat_lt x.repr
  ofNat_toNat x := by rw [Word.ofNat_toNat]
  toNat_ofNat h := Word.toNat_ofNat h

@[simp] theorem width_be : Word.width (Be α) = Word.width α := rfl

@[simp] theorem native_fromNative (host : Endian) (x : α) :
    (fromNative host x).native host = x := by
  cases host <;> simp [fromNative, native]

/-- The bytes of a big-endian word do not depend on the host. -/
theorem bytes_fromNative (host : Endian) (x : α) :
    Word.bytes host (fromNative host x) = Word.beBytes x := by
  cases host with
  | little => exact Word.leBytes_byteswap x
  | big => rfl

end Be

/-- `be<T>(value)`. -/
abbrev be {α : Type} [Word α] (host : Endian) (x : α) : Be α := .fromNative host x

end Csics.Base
