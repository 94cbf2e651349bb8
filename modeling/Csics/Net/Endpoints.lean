import Csics.Net.MQTTEndpoint
import Csics.Net.SockAddr

/-!
# What the endpoints hand to the socket calls

`UDPEndpoint` and `TCPEndpoint` of `platform/unix`, as far as they convert addresses. The outcomes
of the system calls are arguments, and the calls that an operation makes are a part of its result,
with the bytes of the native addresses in them.

The UDP endpoint passes what `to_native` writes, in `connect_` and in `send`. `connect_` of the TCP
endpoint passes the `SockAddr` itself, which is no `sockaddr_in`: it has half the size, and the
first bytes of the address are where the kernel looks for the family.
-/

namespace Csics.Net

open Base
open MQTT (NetStatus NetResult)

inductive SocketType where
  | stream
  | dgram
  deriving DecidableEq, Repr

/-- The system calls. An address is the bytes it points to, as many as the length says. -/
inductive SystemCall where
  | socket (type : SocketType)
  | connect (sockfd : Int) (addr : List UInt8)
  | sendto (sockfd : Int) (data addr : List UInt8)
  | recvfrom (sockfd : Int) (size : Nat)
  | close (fd : Int)
  deriving DecidableEq, Repr

/-- `Internal`. The endpoints hold a pointer to it, which is null behind a move. -/
structure Socket where
  sockfd : Int
  deriving DecidableEq, Repr

/-- `connect_`, with the type of the socket and the bytes of the address. -/
def connectSocket (type : SocketType) (addr : List UInt8) (endpoint : Option Socket)
    (sockfd result : Int) : Option Socket × NetStatus × List SystemCall :=
  match endpoint with
  | none => (none, .error, [])
  | some _ =>
    if sockfd < 0 then (some ⟨sockfd⟩, .error, [.socket type])
    else if result < 0 then
      (some ⟨-1⟩, .error, [.socket type, .connect sockfd addr, .close sockfd])
    else (some ⟨sockfd⟩, .success, [.socket type, .connect sockfd addr])

namespace UDPEndpoint

variable (host : Endian) (endpoint : Option Socket)

/-- `connect_`, with the outcomes of `socket` and `connect`. -/
def connect (addr : SockAddr) (sockfd result : Int) :
    Option Socket × NetStatus × List SystemCall :=
  connectSocket .dgram ((addr.toNative host).1.bytes host) endpoint sockfd result

/-- `send`, with the outcome of `sendto`. -/
def send (data : List UInt8) (dest : SockAddr) (bytesSent : Int) : NetResult × List SystemCall :=
  match endpoint with
  | none => (⟨.error, 0⟩, [])
  | some socket =>
    if socket.sockfd = -1 then (⟨.error, 0⟩, [])
    else
      let native := (dest.toNative host).1.bytes host
      let calls := [.sendto socket.sockfd data (native.take (dest.toNative host).2)]
      if bytesSent < 0 then (⟨.error, 0⟩, calls) else (⟨.success, bytesSent.toNat⟩, calls)

/-- `recv`, with the outcome of `recvfrom`: the count, and the address with its length. The result
has the value of `src` behind the call. -/
def recv (size : Nat) (src : SockAddr) (bytesReceived : Int) (srcAddr : SockaddrIn)
    (srcAddrLen : Nat) : NetResult × SockAddr × List SystemCall :=
  match endpoint with
  | none => (⟨.error, 0⟩, src, [])
  | some socket =>
    if socket.sockfd = -1 then (⟨.error, 0⟩, src, [])
    else
      let calls := [.recvfrom socket.sockfd size]
      if bytesReceived < 0 then (⟨.error, 0⟩, src, calls)
      else
        (⟨.success, bytesReceived.toNat⟩,
          (SockAddr.fromNative host srcAddr srcAddrLen).getD .init, calls)

end UDPEndpoint

/-- `TCPEndpoint::connect_`, with the outcomes of `socket` and `connect`. -/
def TCPEndpoint.connect (host : Endian) (endpoint : Option Socket) (addr : SockAddr)
    (sockfd result : Int) : Option Socket × NetStatus × List SystemCall :=
  connectSocket .stream (addr.bytes host) endpoint sockfd result

/-! ## The addresses in the calls -/

/-- The native addresses in the calls. -/
def SystemCall.addr? : SystemCall → Option (List UInt8)
  | .connect _ addr => some addr
  | .sendto _ _ addr => some addr
  | _ => none

/-- The calls pass this address only. -/
def Passes (calls : List SystemCall) (addr : List UInt8) : Prop :=
  ∀ call ∈ calls, ∀ a ∈ call.addr?, a = addr

theorem passes_connectSocket (type : SocketType) (addr : List UInt8) (endpoint : Option Socket)
    (sockfd result : Int) :
    Passes (connectSocket type addr endpoint sockfd result).2.2 addr := by
  unfold connectSocket
  cases endpoint with
  | none => simp [Passes]
  | some socket =>
    dsimp only
    split
    · simp [Passes, SystemCall.addr?]
    · split <;> simp [Passes, SystemCall.addr?]

/-- The encoding of an address: what `to_native` writes. -/
def SockAddr.encoding (host : Endian) (a : SockAddr) : List UInt8 := (a.toNative host).1.bytes host

theorem UDPEndpoint.passes_connect (host : Endian) (endpoint : Option Socket) (addr : SockAddr)
    (sockfd result : Int) :
    Passes (connect host endpoint addr sockfd result).2.2 (addr.encoding host) :=
  passes_connectSocket _ _ _ _ _

/-- `send` passes all that `to_native` writes. -/
theorem SockAddr.take_toNative (host : Endian) (a : SockAddr) :
    ((a.toNative host).1.bytes host).take (a.toNative host).2 = a.encoding host := by
  apply List.take_of_length_le
  rw [SockaddrIn.length_bytes]
  exact Nat.le_refl _

theorem UDPEndpoint.passes_send (host : Endian) (endpoint : Option Socket) (data : List UInt8)
    (dest : SockAddr) (bytesSent : Int) :
    Passes (send host endpoint data dest bytesSent).2 (dest.encoding host) := by
  unfold send
  cases endpoint with
  | none => simp [Passes]
  | some socket =>
    dsimp only
    rw [dest.take_toNative]
    split
    · simp [Passes]
    · split <;> simp [Passes, SystemCall.addr?]

/-- What the TCP endpoint passes is too short. -/
theorem TCPEndpoint.not_passes_connect (host : Endian) (addr : SockAddr) {sockfd : Int}
    (hsockfd : 0 ≤ sockfd) (socket : Socket) (result : Int) :
    ¬ Passes (connect host (some socket) addr sockfd result).2.2 (addr.encoding host) := by
  intro h
  have hcall : .connect sockfd (addr.bytes host) ∈
      (connect host (some socket) addr sockfd result).2.2 := by
    unfold connect connectSocket
    dsimp only
    rw [if_neg (Int.not_lt.mpr hsockfd)]
    split <;> simp
  have haddr := h _ hcall (addr.bytes host) rfl
  have hlength := congrArg List.length haddr
  rw [SockAddr.length_bytes, SockAddr.encoding, SockaddrIn.length_bytes] at hlength
  exact absurd hlength (by decide)

/-! ## The native boundary -/

/-- An address survives the way to the native form and back, and the endpoints pass this form. -/
structure SockAddr.Survives (host : Endian) (a : SockAddr) : Prop where
  roundTrips : a.RoundTrips host
  nativeRoundTrips : a.NativeRoundTrips host
  udpConnect : ∀ endpoint sockfd result,
    Passes (UDPEndpoint.connect host endpoint a sockfd result).2.2 (a.encoding host)
  udpSend : ∀ endpoint data bytesSent,
    Passes (UDPEndpoint.send host endpoint data a bytesSent).2 (a.encoding host)
  tcpConnect : ∀ endpoint sockfd result,
    Passes (TCPEndpoint.connect host endpoint a sockfd result).2.2 (a.encoding host)

/-- No IPv4 address survives, since the TCP endpoint passes something else. The conversions meet
what an address promises if and only if it reads the same backwards, and the UDP endpoint always
passes the encoding. -/
theorem not_survives (b0 b1 b2 b3 : UInt8) (port : UInt16) :
    let a : SockAddr := ⟨.ofArray b0 b1 b2 b3, port⟩
    ¬ a.Survives .little ∧
      (a.RoundTrips .little ↔ a.Palindrome) ∧ (a.NativeRoundTrips .little ↔ a.Palindrome) ∧
      (∀ endpoint sockfd result, Passes
        (UDPEndpoint.connect .little endpoint a sockfd result).2.2 (a.encoding .little)) ∧
      (∀ endpoint data bytesSent, Passes
        (UDPEndpoint.send .little endpoint data a bytesSent).2 (a.encoding .little)) := by
  intro a
  refine ⟨?_, SockAddr.addressRoundTrips_iff, SockAddr.nativeRoundTrips_iff, ?_, ?_⟩
  · intro h
    exact TCPEndpoint.not_passes_connect .little a (Int.le_refl 0) ⟨-1⟩ 0 (h.tcpConnect _ _ _)
  · exact fun endpoint sockfd result => UDPEndpoint.passes_connect _ _ _ _ _
  · exact fun endpoint data bytesSent => UDPEndpoint.passes_send _ _ _ _ _

/-- The address 192.168.1.10:8080 comes back as 10.1.168.192:36895, and the TCP endpoint passes
eight bytes that are not its encoding. -/
theorem not_survives_private :
    let a : SockAddr := ⟨.ofArray 192 168 1 10, 8080⟩
    SockAddr.fromNative .little (a.toNative .little).1 (a.toNative .little).2 =
        some ⟨.ofArray 10 1 168 192, 36895⟩ ∧
      (TCPEndpoint.connect .little (some ⟨-1⟩) a 3 0).2.2 =
        [.socket .stream, .connect 3 [192, 168, 1, 10, 0, 0, 144, 31]] ∧
      a.encoding .little = [2, 0, 31, 144, 192, 168, 1, 10, 0, 0, 0, 0, 0, 0, 0, 0] ∧
      ¬ a.Survives .little := by
  intro a
  have hback : SockAddr.fromNative .little (a.toNative .little).1 (a.toNative .little).2 =
      some ⟨.ofArray 10 1 168 192, 36895⟩ := by decide
  refine ⟨hback, by decide, by decide, ?_⟩
  intro h
  have hsame := h.roundTrips
  rw [SockAddr.RoundTrips, hback] at hsame
  exact absurd hsame (by decide)

/-! ## Answers -/

/-- The encoding has the port and the address in network order on either host. -/
theorem SockAddr.encoding_ofArray (host : Endian) (b0 b1 b2 b3 : UInt8) (port : UInt16) :
    SockAddr.encoding host ⟨.ofArray b0 b1 b2 b3, port⟩ =
      Word.bytes host afInet ++ Word.beBytes port ++ [b0, b1, b2, b3] ++
        [0, 0, 0, 0, 0, 0, 0, 0] := by
  have hport : Word.bytes host (htons host port) = Word.beBytes port := by
    cases host with
    | little => exact Word.leBytes_byteswap port
    | big => rfl
  rw [encoding, toNative_fst, SockaddrIn.bytes, hport, Word.bytes_ofBytes host rfl]

/-- An answer to the source that `recv` reports goes to the sender, if and only if its address reads
the same backwards. -/
theorem UDPEndpoint.send_recv_iff (b0 b1 b2 b3 : UInt8) (port : UInt16) {socket : Socket}
    (hsocket : socket.sockfd ≠ -1) (data : List UInt8) :
    let a : SockAddr := ⟨.ofArray b0 b1 b2 b3, port⟩
    let src := (recv .little (some socket) data.length .init data.length (a.toNative .little).1
      SockaddrIn.sizeof).2.1
    (send .little (some socket) data src data.length).2 =
        [.sendto socket.sockfd data (a.encoding .little)] ↔ a.Palindrome := by
  intro a src
  have hsrc : src = ⟨.ofArray b3 b2 b1 b0, Word.byteswap port⟩ := by
    have hback := SockAddr.fromNative_toNative_little b0 b1 b2 b3 port
    dsimp only at hback
    have hlen : ¬ ((data.length : Int) < 0) := by omega
    have hvalue :
        (SockAddr.fromNative .little (a.toNative .little).1 SockaddrIn.sizeof).getD .init =
          ⟨.ofArray b3 b2 b1 b0, Word.byteswap port⟩ := congrArg (Option.getD · .init) hback
    show (recv _ _ _ _ _ _ _).2.1 = _
    unfold recv
    dsimp only
    rw [if_neg hsocket, if_neg hlen]
    exact hvalue
  have hsend : (send .little (some socket) data src data.length).2 =
      [.sendto socket.sockfd data (src.encoding .little)] := by
    have hlen : ¬ ((data.length : Int) < 0) := by omega
    unfold send
    dsimp only
    rw [if_neg hsocket, if_neg hlen, src.take_toNative]
  rw [hsend, hsrc, SockAddr.palindrome_iff]
  simp only [List.cons.injEq, SystemCall.sendto.injEq, true_and, and_true]
  rw [SockAddr.encoding_ofArray, SockAddr.encoding_ofArray]
  constructor
  · intro h
    have hfront := List.append_inj_left' h rfl
    obtain ⟨hport, haddress⟩ := List.append_inj hfront (by simp)
    have hport := congrArg List.reverse (List.append_cancel_left hport)
    simp only [Word.beBytes, List.reverse_reverse] at hport
    have hword := congrArg (Word.ofLeBytes (α := UInt16)) hport
    rw [Word.ofLeBytes_leBytes, Word.ofLeBytes_leBytes] at hword
    simp only [List.cons.injEq, and_true] at haddress
    exact ⟨⟨haddress.1, haddress.2.1⟩, hword⟩
  · rintro ⟨⟨rfl, rfl⟩, hport⟩
    rw [hport]

end Csics.Net
