import Csics.Base.Word

/-!
# Addresses and their native form

`IPAddress` and `SockAddr` of `include/csics/io/net/NetTypes.hpp`, with `to_native` and
`from_native` of `platform/unix/NetTypes.cpp`. The native form is a `sockaddr_in`, whose port and
address are stored in network order whatever the host. `to_native` copies the four bytes of the
address, and `from_native` reads them as a number of the host, which the constructor of `IPAddress`
takes apart from the top. The port goes through `htons` one way, and through a conversion and its
inverse the other way.

A big-endian host gets the address back (`fromNative_toNative_big`). A little-endian one gets it
backwards, and the port with its bytes swapped (`fromNative_toNative_little`).
-/

namespace Csics.Net

open Base

/-- `bytes_`. Of an IPv4 address the last two are 0. -/
structure IPAddress where
  bytes : List UInt8
  length_bytes : bytes.length = 6
  deriving DecidableEq, Repr

namespace IPAddress

/-- The default constructor. -/
def init : IPAddress := ⟨[0, 0, 0, 0, 0, 0], rfl⟩

/-- The constructor from `std::array<uint8_t, 4>`. -/
def ofArray (b0 b1 b2 b3 : UInt8) : IPAddress := ⟨[b0, b1, b2, b3, 0, 0], rfl⟩

/-- The constructor from `uint32_t`. -/
def ofUInt32 (address : UInt32) : IPAddress :=
  ⟨[((address >>> 24) &&& 0xFF).toUInt8, ((address >>> 16) &&& 0xFF).toUInt8,
    ((address >>> 8) &&& 0xFF).toUInt8, (address &&& 0xFF).toUInt8, 0, 0], rfl⟩

def localhost : IPAddress := ofUInt32 0x7F000001

theorem eq_of_bytes {x y : IPAddress} (h : x.bytes = y.bytes) : x = y := by
  obtain ⟨xs, hxs⟩ := x
  obtain ⟨ys, hys⟩ := y
  congr

end IPAddress

structure SockAddr where
  address : IPAddress
  port : UInt16
  deriving DecidableEq, Repr

/-- `AF_INET`. -/
def afInet : UInt16 := 2

/-- `struct sockaddr_in`. -/
structure SockaddrIn where
  sinFamily : UInt16
  sinPort : UInt16
  sAddr : UInt32
  sinZero : List UInt8
  length_sinZero : sinZero.length = 8
  deriving DecidableEq, Repr

namespace SockaddrIn

/-- `sizeof(sockaddr_in)`. -/
def sizeof : Nat := 16

/-- The object representation. -/
def bytes (host : Endian) (n : SockaddrIn) : List UInt8 :=
  Word.bytes host n.sinFamily ++ Word.bytes host n.sinPort ++ Word.bytes host n.sAddr ++ n.sinZero

theorem length_bytes (host : Endian) (n : SockaddrIn) : (n.bytes host).length = sizeof := by
  simp [bytes, n.length_sinZero, sizeof]

end SockaddrIn

/-- `htons(x)`. -/
def htons (host : Endian) (x : UInt16) : UInt16 :=
  match host with
  | .little => Word.byteswap x
  | .big => x

namespace SockAddr

/-- The default constructor. -/
def init : SockAddr := ⟨.init, 0⟩

def localhost (port : UInt16) : SockAddr := ⟨.localhost, port⟩

/-- `to_native`: what is written, and `size`. -/
def toNative (host : Endian) (a : SockAddr) : SockaddrIn × Nat :=
  (⟨afInet, htons host a.port, Word.ofBytes host (a.address.bytes.take 4),
    [0, 0, 0, 0, 0, 0, 0, 0], rfl⟩, SockaddrIn.sizeof)

/-- `from_native`. -/
def fromNative (host : Endian) (n : SockaddrIn) (addrLen : Nat) : Option SockAddr :=
  if addrLen < SockaddrIn.sizeof then none
  else if n.sinFamily ≠ afInet then none
  else some ⟨.ofUInt32 n.sAddr, (be host n.sinPort).native host⟩

/-- `sizeof(SockAddr)`. -/
def sizeof : Nat := 8

/-- The object representation: `bytes_`, and `port_` in the order of the host. -/
def bytes (host : Endian) (a : SockAddr) : List UInt8 :=
  a.address.bytes ++ Word.bytes host a.port

theorem length_bytes (host : Endian) (a : SockAddr) : (a.bytes host).length = sizeof := by
  simp [bytes, a.address.length_bytes, sizeof]

end SockAddr

/-! ## The numbers in between -/

/-- The constructor takes the number apart from its most significant byte on. -/
theorem IPAddress.bytes_ofUInt32 (x : UInt32) :
    (IPAddress.ofUInt32 x).bytes = Word.beBytes x ++ [0, 0] := by
  have hbyte : ∀ k : UInt32, k.toNat < 32 →
      ((x >>> k) &&& 0xFF).toUInt8 = UInt8.ofNat (x.toNat / 2 ^ k.toNat % 256) := by
    intro k hk
    apply UInt8.toNat_inj.mp
    have hmask : ∀ n : Nat, n &&& 255 = n % 256 := fun n => Nat.and_two_pow_sub_one_eq_mod n 8
    simp only [UInt32.toNat_toUInt8, UInt32.toNat_and, UInt32.toNat_shiftRight,
      Nat.shiftRight_eq_div_pow, UInt8.toNat_ofNat', UInt32.reduceToNat, hmask,
      Nat.mod_eq_of_lt hk]
  have h24 := hbyte 24 (by decide)
  have h16 := hbyte 16 (by decide)
  have h8 := hbyte 8 (by decide)
  have h0 := hbyte 0 (by decide)
  rw [UInt32.shiftRight_zero] at h0
  show [_, _, _, _, 0, 0] = _
  rw [h24, h16, h8, h0]
  simp [Word.beBytes, Word.leBytes, Word.toNat, Base.leBytes, Nat.div_div_eq_div_mul]

theorem SockAddr.toNative_fst (host : Endian) (b0 b1 b2 b3 : UInt8) (port : UInt16) :
    (SockAddr.toNative host ⟨.ofArray b0 b1 b2 b3, port⟩).1 =
      ⟨afInet, htons host port, Word.ofBytes host [b0, b1, b2, b3],
        [0, 0, 0, 0, 0, 0, 0, 0], rfl⟩ := rfl

theorem SockAddr.fromNative_toNative (host : Endian) (a : SockAddr) :
    SockAddr.fromNative host (a.toNative host).1 (a.toNative host).2 =
      some ⟨.ofUInt32 (Word.ofBytes host (a.address.bytes.take 4)), htons host a.port⟩ := by
  show some (SockAddr.mk _ _) = _
  rw [Be.native_fromNative]
  rfl

/-- The number that a big-endian host reads in four bytes has the first of them at the top. -/
theorem ofUInt32_ofBytes_big (b0 b1 b2 b3 : UInt8) :
    IPAddress.ofUInt32 (Word.ofBytes .big [b0, b1, b2, b3]) = .ofArray b0 b1 b2 b3 := by
  apply IPAddress.eq_of_bytes
  rw [IPAddress.bytes_ofUInt32, Word.beBytes_ofBytes rfl]
  rfl

/-- On a little-endian host it is the last one. -/
theorem ofUInt32_ofBytes_little (b0 b1 b2 b3 : UInt8) :
    IPAddress.ofUInt32 (Word.ofBytes .little [b0, b1, b2, b3]) = .ofArray b3 b2 b1 b0 :=
  ofUInt32_ofBytes_big b3 b2 b1 b0

/-! ## There and back -/

namespace SockAddr

variable (b0 b1 b2 b3 : UInt8) (port : UInt16)

/-- A big-endian host gets the address and the port back. -/
theorem fromNative_toNative_big :
    let a : SockAddr := ⟨.ofArray b0 b1 b2 b3, port⟩
    fromNative .big (a.toNative .big).1 (a.toNative .big).2 = some a := by
  intro a
  rw [fromNative_toNative]
  exact congrArg (fun ip => some (SockAddr.mk ip port)) (ofUInt32_ofBytes_big b0 b1 b2 b3)

/-- A little-endian one gets both with their bytes in reverse. -/
theorem fromNative_toNative_little :
    let a : SockAddr := ⟨.ofArray b0 b1 b2 b3, port⟩
    fromNative .little (a.toNative .little).1 (a.toNative .little).2 =
      some ⟨.ofArray b3 b2 b1 b0, Word.byteswap port⟩ := by
  intro a
  rw [fromNative_toNative]
  exact congrArg (fun ip => some (SockAddr.mk ip (Word.byteswap port)))
    (ofUInt32_ofBytes_little b0 b1 b2 b3)

/-- The address and the port read the same backwards. -/
def Palindrome (a : SockAddr) : Prop :=
  ∃ b0 b1, a.address = .ofArray b0 b1 b1 b0 ∧ Word.byteswap a.port = a.port

/-- `from_native` returns what `to_native` was called on. -/
def RoundTrips (host : Endian) (a : SockAddr) : Prop :=
  fromNative host (a.toNative host).1 (a.toNative host).2 = some a

/-- `to_native` writes again what `from_native` has read. -/
def NativeRoundTrips (host : Endian) (a : SockAddr) : Prop :=
  ∀ b, fromNative host (a.toNative host).1 (a.toNative host).2 = some b →
    b.toNative host = a.toNative host

variable {b0 b1 b2 b3 port}

theorem palindrome_iff : Palindrome ⟨.ofArray b0 b1 b2 b3, port⟩ ↔
    (b3 = b0 ∧ b2 = b1) ∧ Word.byteswap port = port := by
  constructor
  · rintro ⟨c0, c1, haddress, hport⟩
    have hbytes := congrArg IPAddress.bytes haddress
    simp only [IPAddress.ofArray, List.cons.injEq, and_true] at hbytes
    obtain ⟨rfl, rfl, rfl, rfl⟩ := hbytes
    exact ⟨⟨rfl, rfl⟩, hport⟩
  · rintro ⟨⟨rfl, rfl⟩, hport⟩
    exact ⟨b3, b2, rfl, hport⟩

theorem addressRoundTrips_iff :
    RoundTrips .little ⟨.ofArray b0 b1 b2 b3, port⟩ ↔
      Palindrome ⟨.ofArray b0 b1 b2 b3, port⟩ := by
  have hback := fromNative_toNative_little b0 b1 b2 b3 port
  dsimp only at hback
  rw [RoundTrips, hback, palindrome_iff]
  simp only [Option.some.injEq, SockAddr.mk.injEq, IPAddress.ofArray, IPAddress.mk.injEq,
    List.cons.injEq, and_true]
  constructor
  · rintro ⟨⟨h3, h2, -, -⟩, hport⟩
    exact ⟨⟨h3, h2⟩, hport⟩
  · rintro ⟨⟨rfl, rfl⟩, hport⟩
    exact ⟨⟨rfl, rfl, rfl, rfl⟩, hport⟩

theorem nativeRoundTrips_iff :
    NativeRoundTrips .little ⟨.ofArray b0 b1 b2 b3, port⟩ ↔
      Palindrome ⟨.ofArray b0 b1 b2 b3, port⟩ := by
  have hback := fromNative_toNative_little b0 b1 b2 b3 port
  dsimp only at hback
  constructor
  · intro h
    have hnative := congrArg Prod.fst (h _ hback)
    rw [toNative_fst, toNative_fst] at hnative
    simp only [SockaddrIn.mk.injEq, and_true, true_and, htons, Word.byteswap_byteswap] at hnative
    obtain ⟨hport, haddress⟩ := hnative
    have hbytes := congrArg (Word.bytes .little) haddress
    rw [Word.bytes_ofBytes .little rfl, Word.bytes_ofBytes .little rfl] at hbytes
    simp only [List.cons.injEq, and_true] at hbytes
    exact palindrome_iff.mpr ⟨⟨hbytes.1, hbytes.2.1⟩, hport.symm⟩
  · intro h
    obtain ⟨⟨rfl, rfl⟩, hport⟩ := palindrome_iff.mp h
    rintro b hb
    rw [hback] at hb
    cases hb
    rw [hport]

end SockAddr

end Csics.Net
