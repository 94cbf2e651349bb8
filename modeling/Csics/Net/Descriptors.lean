import Mathlib.Data.Finset.Basic
import Csics.Base.Run
import Csics.Base.Tenancy
import Csics.Net.Endpoints

/-!
# The descriptors of a process

All operations of `TCPEndpoint` and `UDPEndpoint` of `platform/unix` that make system calls, and
what construction, moves and destruction do to the sockets. A process has any number of endpoints,
and the descriptors that are open. The outcomes of the system calls are arguments; what is asked of
the kernel is that `socket` returns `-1` or a descriptor that is not open.

`connect_` and `bind` store a new descriptor without a look at the old one. Every other step closes
what it lets go of. So no descriptor is used or closed that is not open, and those that stay open
for ever are the ones that `connect_` or `bind` has overwritten (`descriptors_of_run`).
-/

namespace Csics.Net

open Base
open MQTT (NetStatus NetResult PollStatus)

/-- The system calls of the endpoints, those of `SystemCall` among them. -/
inductive DescriptorCall where
  | system (call : SystemCall)
  | bind (sockfd : Int) (addr : List UInt8)
  | send (sockfd : Int) (data : List UInt8)
  | recv (sockfd : Int) (size : Nat)
  | poll (sockfd timeout : Int)

/-! ## The operations -/

/-- The tests at the front of `send`, `recv` and `poll`. -/
def sockfd? : Option Socket → Option Int
  | none => none
  | some socket => if socket.sockfd = -1 then none else some socket.sockfd

theorem length_zeros : ([0, 0, 0, 0, 0, 0, 0, 0] : List UInt8).length = 8 := rfl

/-- `UDPEndpoint::bind`, with the outcomes of `socket` and `bind`. -/
def UDPEndpoint.bind (host : Endian) (endpoint : Option Socket) (port : UInt16)
    (sockfd result : Int) : Option Socket × NetStatus × List DescriptorCall :=
  match endpoint with
  | none => (none, .error, [])
  | some _ =>
    let socket := .system (.socket .dgram)
    if sockfd < 0 then (some ⟨sockfd⟩, .error, [socket])
    else
      -- `INADDR_ANY` is zero
      let addr : SockaddrIn := ⟨afInet, htons host port, 0, [0, 0, 0, 0, 0, 0, 0, 0], length_zeros⟩
      let bind := .bind sockfd (addr.bytes host)
      if result < 0 then (some ⟨-1⟩, .error, [socket, bind, .system (.close sockfd)])
      else (some ⟨sockfd⟩, .success, [socket, bind])

/-- `TCPEndpoint::send`, with the outcome of `send`. -/
def TCPEndpoint.send (endpoint : Option Socket) (data : List UInt8) (bytesSent : Int) :
    NetResult × List DescriptorCall :=
  match sockfd? endpoint with
  | none => (⟨.error, 0⟩, [])
  | some sockfd =>
    if bytesSent < 0 then (⟨.error, 0⟩, [.send sockfd data])
    else (⟨.success, bytesSent.toNat⟩, [.send sockfd data])

/-- `TCPEndpoint::recv`, with the outcome of `recv`. -/
def TCPEndpoint.recv (endpoint : Option Socket) (size : Nat) (bytesReceived : Int) :
    NetResult × List DescriptorCall :=
  match sockfd? endpoint with
  | none => (⟨.error, 0⟩, [])
  | some sockfd =>
    if bytesReceived < 0 then (⟨.error, 0⟩, [.recv sockfd size])
    else if bytesReceived = 0 then (⟨.disconnected, 0⟩, [.recv sockfd size])
    else (⟨.success, bytesReceived.toNat⟩, [.recv sockfd size])

/-- `poll` of both endpoints, with the outcome of `poll` and whether `revents` has `POLLIN`. -/
def pollSocket (endpoint : Option Socket) (timeoutMs ret : Int) (pollin : Bool) :
    PollStatus × List DescriptorCall :=
  match sockfd? endpoint with
  | none => (.error, [])
  | some sockfd =>
    let status : PollStatus :=
      if ret < 0 then .error
      else if ret = 0 then .timeout
      else if pollin then .ready
      else .error
    (status, [.poll sockfd timeoutMs])

/-- The member functions that make system calls, with the outcomes of these. -/
inductive EndpointOp where
  | tcpConnect (addr : SockAddr) (sockfd result : Int)
  | udpConnect (addr : SockAddr) (sockfd result : Int)
  | udpBind (port : UInt16) (sockfd result : Int)
  | tcpSend (data : List UInt8) (bytesSent : Int)
  | tcpRecv (size : Nat) (bytesReceived : Int)
  | udpSend (data : List UInt8) (dest : SockAddr) (bytesSent : Int)
  | udpRecv (size : Nat) (src : SockAddr) (bytesReceived : Int) (srcAddr : SockaddrIn)
      (srcAddrLen : Nat)
  | poll (timeoutMs ret : Int) (pollin : Bool)

namespace EndpointOp

/-- What is left in the endpoint, and the calls. -/
def apply (host : Endian) (endpoint : Option Socket) :
    EndpointOp → Option Socket × List DescriptorCall
  | .tcpConnect addr sockfd result =>
    let r := TCPEndpoint.connect host endpoint addr sockfd result
    (r.1, r.2.2.map .system)
  | .udpConnect addr sockfd result =>
    let r := UDPEndpoint.connect host endpoint addr sockfd result
    (r.1, r.2.2.map .system)
  | .udpBind port sockfd result =>
    let r := UDPEndpoint.bind host endpoint port sockfd result
    (r.1, r.2.2)
  | .tcpSend data bytesSent => (endpoint, (TCPEndpoint.send endpoint data bytesSent).2)
  | .tcpRecv size bytesReceived => (endpoint, (TCPEndpoint.recv endpoint size bytesReceived).2)
  | .udpSend data dest bytesSent =>
    (endpoint, (UDPEndpoint.send host endpoint data dest bytesSent).2.map .system)
  | .udpRecv size src bytesReceived srcAddr srcAddrLen =>
    (endpoint,
      (UDPEndpoint.recv host endpoint size src bytesReceived srcAddr srcAddrLen).2.2.map .system)
  | .poll timeoutMs ret pollin => (endpoint, (pollSocket endpoint timeoutMs ret pollin).2)

/-- What `socket` returns, if the function calls it. -/
def opened? : EndpointOp → Option Int
  | .tcpConnect _ sockfd _ | .udpConnect _ sockfd _ | .udpBind _ sockfd _ => some sockfd
  | .tcpSend _ _ | .tcpRecv _ _ | .udpSend _ _ _ | .udpRecv _ _ _ _ _ | .poll _ _ _ => none

end EndpointOp

/-! ## A process -/

/-- The endpoints that exist, each null behind a move, and the open descriptors. -/
structure Process (ι : Type*) where
  endpoints : ι → Option (Option Socket)
  descriptors : Finset Int

/-- What a program does with endpoints. -/
inductive ProcessOp (ι : Type*) where
  | construct (i : ι)
  | destroy (i : ι)
  | moveConstruct (dst src : ι)
  | moveAssign (dst src : ι)
  | call (i : ι) (op : EndpointOp)

namespace Process

variable {ι : Type*}

def init : Process ι := ⟨fun _ => none, ∅⟩

/-- One system call. A descriptor that is not open cannot be used or closed. -/
def perform (opened : Int) (descriptors : Finset Int) : DescriptorCall → Option (Finset Int)
  | .system (.socket _) => some (if opened < 0 then descriptors else insert opened descriptors)
  | .system (.close fd) => if fd ∈ descriptors then some (descriptors.erase fd) else none
  | .system (.connect fd _) | .system (.sendto fd _ _) | .system (.recvfrom fd _)
  | .bind fd _ | .send fd _ | .recv fd _ | .poll fd _ =>
    if fd ∈ descriptors then some descriptors else none

/-- `~Internal()`, behind `delete internal_`. -/
def deleteInternal : Option Socket → List DescriptorCall
  | none => []
  | some socket => if socket.sockfd ≠ -1 then [.system (.close socket.sockfd)] else []

variable [DecidableEq ι]

/-- Replace an endpoint and make the calls. -/
def update (p : Process ι) (i : ι) (endpoint : Option (Option Socket)) (opened : Int)
    (calls : List DescriptorCall) : Option (Process ι) :=
  (Base.run (perform opened) p.descriptors calls).map fun descriptors =>
    ⟨Function.update p.endpoints i endpoint, descriptors⟩

/-- One step; `none` where the endpoint is not there, or is there already. -/
def step (host : Endian) (p : Process ι) : ProcessOp ι → Option (Process ι)
  | .construct i =>
    match p.endpoints i with
    | some _ => none
    | none => p.update i (some (some ⟨-1⟩)) (-1) []
  | .destroy i =>
    match p.endpoints i with
    | none => none
    | some endpoint => p.update i none (-1) (deleteInternal endpoint)
  | .moveConstruct dst src =>
    match p.endpoints dst, p.endpoints src with
    | none, some other =>
      (p.update dst (some other) (-1) []).bind fun p => p.update src (some none) (-1) []
    | _, _ => none
  | .moveAssign dst src =>
    match p.endpoints dst, p.endpoints src with
    | some endpoint, some other =>
      if dst = src then some p
      else
        (p.update dst (some other) (-1) (deleteInternal endpoint)).bind fun p =>
          p.update src (some none) (-1) []
    | _, _ => none
  | .call i op =>
    match p.endpoints i with
    | none => none
    | some endpoint =>
      let r := op.apply host endpoint
      p.update i (some r.1) (op.opened?.getD (-1)) r.2

/-- The endpoints are there or not, as the step needs it, and `socket` returns `-1` or a descriptor
that is not open. -/
def Valid (p : Process ι) : ProcessOp ι → Prop
  | .construct i => p.endpoints i = none
  | .destroy i => p.endpoints i ≠ none
  | .moveConstruct dst src => p.endpoints dst = none ∧ p.endpoints src ≠ none
  | .moveAssign dst src => p.endpoints dst ≠ none ∧ p.endpoints src ≠ none
  | .call i op => p.endpoints i ≠ none ∧
      ∀ fd ∈ op.opened?, fd = -1 ∨ 0 ≤ fd ∧ fd ∉ p.descriptors

instance (p : Process ι) (op : ProcessOp ι) : Decidable (p.Valid op) := by
  unfold Valid
  split <;> infer_instance

/-- The descriptor that the step overwrites: `connect_` and `bind` do not look at it. -/
def overwritten (p : Process ι) : ProcessOp ι → List Int
  | .call i op => if op.opened? = none then [] else ((p.endpoints i).bind sockfd?).toList
  | _ => []

end Process

/-! ## What the calls do to the descriptors -/

section

variable {descriptors : Finset Int} {endpoint : Option Socket} {sockfd result : Int}
  {host : Endian} {op : EndpointOp}

open Process

theorem run_deleteInternal (h : ∀ fd ∈ sockfd? endpoint, fd ∈ descriptors) :
    run (perform (-1)) descriptors (deleteInternal endpoint) =
      some ((sockfd? endpoint).elim descriptors descriptors.erase) := by
  cases endpoint with
  | none => rfl
  | some socket =>
    have hsockfd : sockfd? (some socket) = if socket.sockfd = -1 then none else some socket.sockfd :=
      rfl
    by_cases hnone : socket.sockfd = -1
    · rw [hsockfd, if_pos hnone, deleteInternal, if_neg (not_not.mpr hnone)]
      rfl
    · rw [if_neg hnone] at hsockfd
      have hmem := h _ hsockfd
      rw [hsockfd, deleteInternal, if_pos hnone, run_cons, perform, if_pos hmem]
      rfl

/-- `send`, `recv` and `poll` use the descriptor of the endpoint, if it has one. -/
theorem run_use {use : Int → DescriptorCall}
    (huse : ∀ fd, perform (-1) descriptors (use fd) =
      if fd ∈ descriptors then some descriptors else none)
    (h : ∀ fd ∈ sockfd? endpoint, fd ∈ descriptors) :
    run (perform (-1)) descriptors ((sockfd? endpoint).map use).toList = some descriptors := by
  cases hfd : sockfd? endpoint with
  | none => rfl
  | some fd =>
    show run _ _ [use fd] = _
    rw [run_cons, huse, if_pos (h fd hfd)]
    rfl

theorem TCPEndpoint.calls_send (data : List UInt8) (bytesSent : Int) :
    (send endpoint data bytesSent).2 = ((sockfd? endpoint).map (.send · data)).toList := by
  unfold send
  cases sockfd? endpoint with
  | none => rfl
  | some fd =>
    dsimp only
    split <;> rfl

theorem TCPEndpoint.calls_recv (size : Nat) (bytesReceived : Int) :
    (recv endpoint size bytesReceived).2 = ((sockfd? endpoint).map (.recv · size)).toList := by
  unfold recv
  cases sockfd? endpoint with
  | none => rfl
  | some fd =>
    dsimp only
    split
    · rfl
    · split <;> rfl

theorem calls_pollSocket (timeoutMs ret : Int) (pollin : Bool) :
    (pollSocket endpoint timeoutMs ret pollin).2 =
      ((sockfd? endpoint).map (.poll · timeoutMs)).toList := by
  unfold pollSocket
  cases sockfd? endpoint with
  | none => rfl
  | some fd => rfl

theorem UDPEndpoint.calls_send (data : List UInt8) (dest : SockAddr) (bytesSent : Int) :
    (send host endpoint data dest bytesSent).2 =
      ((sockfd? endpoint).map (.sendto · data (dest.encoding host))).toList := by
  unfold send
  cases endpoint with
  | none => rfl
  | some socket =>
    dsimp only [sockfd?]
    rw [dest.take_toNative]
    by_cases hnone : socket.sockfd = -1
    · rw [if_pos hnone, if_pos hnone]
      rfl
    · rw [if_neg hnone, if_neg hnone]
      split <;> rfl

theorem UDPEndpoint.calls_recv (size : Nat) (src : SockAddr) (bytesReceived : Int)
    (srcAddr : SockaddrIn) (srcAddrLen : Nat) :
    (recv host endpoint size src bytesReceived srcAddr srcAddrLen).2.2 =
      ((sockfd? endpoint).map (.recvfrom · size)).toList := by
  unfold recv
  cases endpoint with
  | none => rfl
  | some socket =>
    dsimp only [sockfd?]
    by_cases hnone : socket.sockfd = -1
    · rw [if_pos hnone, if_pos hnone]
      rfl
    · rw [if_neg hnone, if_neg hnone]
      split <;> rfl

/-- What does not open a descriptor changes neither the endpoint nor what is open. -/
theorem apply_keeps (host : Endian) (hop : op.opened? = none)
    (h : ∀ fd ∈ sockfd? endpoint, fd ∈ descriptors) :
    (op.apply host endpoint).1 = endpoint ∧
      run (perform (-1)) descriptors (op.apply host endpoint).2 = some descriptors := by
  have hsystem (use : Int → SystemCall) : ((sockfd? endpoint).map use).toList.map .system =
      ((sockfd? endpoint).map fun fd => DescriptorCall.system (use fd)).toList := by
    cases sockfd? endpoint with
    | none => rfl
    | some fd => rfl
  cases op with
  | tcpConnect addr sockfd result => cases hop
  | udpConnect addr sockfd result => cases hop
  | udpBind port sockfd result => cases hop
  | tcpSend data bytesSent =>
    refine ⟨rfl, ?_⟩
    rw [EndpointOp.apply, TCPEndpoint.calls_send]
    exact run_use (fun _ => rfl) h
  | tcpRecv size bytesReceived =>
    refine ⟨rfl, ?_⟩
    rw [EndpointOp.apply, TCPEndpoint.calls_recv]
    exact run_use (fun _ => rfl) h
  | udpSend data dest bytesSent =>
    refine ⟨rfl, ?_⟩
    rw [EndpointOp.apply, UDPEndpoint.calls_send, hsystem]
    exact run_use (fun _ => rfl) h
  | udpRecv size src bytesReceived srcAddr srcAddrLen =>
    refine ⟨rfl, ?_⟩
    dsimp only [EndpointOp.apply]
    rw [UDPEndpoint.calls_recv, hsystem]
    exact run_use (fun _ => rfl) h
  | poll timeoutMs ret pollin =>
    refine ⟨rfl, ?_⟩
    rw [EndpointOp.apply, calls_pollSocket]
    exact run_use (fun _ => rfl) h

/-- Behind `connect_` or `bind`: a socket that is not open before, or none. -/
structure Opened (descriptors : Finset Int) (r : Option Socket × List DescriptorCall)
    (sockfd : Int) : Prop where
  fresh : ∀ fd ∈ sockfd? r.1, fd ∉ descriptors
  run : Base.run (perform sockfd) descriptors r.2 =
    some ((sockfd? r.1).elim descriptors fun fd => insert fd descriptors)

theorem opened_of_outcome (type : SocketType) (use : DescriptorCall) (result : Int)
    (hfresh : sockfd = -1 ∨ 0 ≤ sockfd ∧ sockfd ∉ descriptors)
    (huse : ∀ ds, perform sockfd ds use = if sockfd ∈ ds then some ds else none) :
    Opened descriptors
      (if sockfd < 0 then (some ⟨sockfd⟩, [.system (.socket type)])
        else if result < 0 then
          (some ⟨-1⟩, [.system (.socket type), use, .system (.close sockfd)])
        else (some ⟨sockfd⟩, [.system (.socket type), use])) sockfd := by
  rcases hfresh with rfl | ⟨hnonneg, hfresh⟩
  · rw [if_pos (by decide)]
    exact ⟨nofun, rfl⟩
  · have hneg : ¬ sockfd < 0 := Int.not_lt.mpr hnonneg
    have hopen : perform sockfd descriptors (.system (.socket type)) =
        some (insert sockfd descriptors) := by
      rw [perform, if_neg hneg]
    have huse' := huse (insert sockfd descriptors)
    rw [if_pos (Finset.mem_insert_self _ _)] at huse'
    rw [if_neg hneg]
    split
    · refine ⟨nofun, ?_⟩
      rw [run_cons, hopen, Option.bind_some, run_cons, huse', Option.bind_some, run_cons, perform,
        if_pos (Finset.mem_insert_self _ _), Finset.erase_insert hfresh]
      rfl
    · have hsockfd : sockfd? (some ⟨sockfd⟩) = some sockfd := by
        show (if sockfd = -1 then none else some sockfd) = some sockfd
        rw [if_neg (by omega)]
      refine ⟨?_, ?_⟩
      · dsimp only
        rw [hsockfd]
        rintro _ ⟨⟩
        exact hfresh
      · dsimp only
        rw [hsockfd, run_cons, hopen, Option.bind_some, run_cons, huse']
        rfl

theorem opened_connectSocket (type : SocketType) (addr : List UInt8) (socket : Socket)
    (hfresh : sockfd = -1 ∨ 0 ≤ sockfd ∧ sockfd ∉ descriptors) :
    Opened descriptors ((connectSocket type addr (some socket) sockfd result).1,
      (connectSocket type addr (some socket) sockfd result).2.2.map .system) sockfd := by
  have houtcome := opened_of_outcome type (.system (.connect sockfd addr)) result hfresh
    fun _ => rfl
  unfold connectSocket
  dsimp only
  split
  · rename_i hneg
    rwa [if_pos hneg] at houtcome
  · rename_i hneg
    rw [if_neg hneg] at houtcome
    split
    · rename_i hresult
      rwa [if_pos hresult] at houtcome
    · rename_i hresult
      rwa [if_neg hresult] at houtcome

/-- What opens a descriptor does not look at the old one. -/
theorem apply_opens (hop : op.opened? = some sockfd)
    (hfresh : sockfd = -1 ∨ 0 ≤ sockfd ∧ sockfd ∉ descriptors) (socket : Socket) :
    Opened descriptors (op.apply host (some socket)) sockfd := by
  cases op with
  | tcpConnect addr fd result =>
    cases hop
    exact opened_connectSocket _ _ _ hfresh
  | udpConnect addr fd result =>
    cases hop
    exact opened_connectSocket _ _ _ hfresh
  | udpBind port fd result =>
    cases hop
    have houtcome := opened_of_outcome .dgram (.bind sockfd
      ((⟨afInet, htons host port, 0, [0, 0, 0, 0, 0, 0, 0, 0], length_zeros⟩ :
        SockaddrIn).bytes host))
      result hfresh fun _ => rfl
    dsimp only [EndpointOp.apply, UDPEndpoint.bind]
    split
    · rename_i hneg
      rwa [if_pos hneg] at houtcome
    · rename_i hneg
      rw [if_neg hneg] at houtcome
      split
      · rename_i hresult
        rwa [if_pos hresult] at houtcome
      · rename_i hresult
        rwa [if_neg hresult] at houtcome
  | tcpSend data bytesSent => cases hop
  | tcpRecv size bytesReceived => cases hop
  | udpSend data dest bytesSent => cases hop
  | udpRecv size src bytesReceived srcAddr srcAddrLen => cases hop
  | poll timeoutMs ret pollin => cases hop

/-- Without an `Internal` nothing is called. -/
theorem apply_none (op : EndpointOp) : op.apply host none = (none, []) := by
  cases op <;> rfl

end

/-! ## Runs of a process -/

namespace Process

variable {ι : Type*} [DecidableEq ι] {p : Process ι} {t : Tenancy ι Int} {host : Endian}
  {i dst src : ι}

/-- What the endpoints hold and what is open. -/
structure Tracks (p : Process ι) (t : Tenancy ι Int) : Prop where
  holds : ∀ i, t.holds i = (p.endpoints i).bind sockfd?
  inUse : ∀ fd, fd ∈ p.descriptors ↔ t.InUse fd

omit [DecidableEq ι] in
theorem tracks_init : (init : Process ι).Tracks .empty where
  holds _ := rfl
  inUse fd := iff_of_false (Finset.notMem_empty fd) (Tenancy.not_inUse_empty fd)

namespace Tracks

omit [DecidableEq ι] in
/-- What an endpoint holds is open. -/
theorem mem (h : p.Tracks t) {endpoint : Option Socket} (hi : p.endpoints i = some endpoint) :
    ∀ fd ∈ sockfd? endpoint, fd ∈ p.descriptors := by
  intro fd hfd
  refine (h.inUse fd).mpr (Or.inl ⟨i, ?_⟩)
  rw [h.holds, hi]
  exact hfd

theorem update (h : p.Tracks t) {t' : Tenancy ι Int} (i : ι) (endpoint : Option (Option Socket))
    (descriptors : Finset Int) (hself : t'.holds i = endpoint.bind sockfd?)
    (hother : ∀ j, j ≠ i → t'.holds j = t.holds j)
    (hinUse : ∀ fd, fd ∈ descriptors ↔ t'.InUse fd) :
    (⟨Function.update p.endpoints i endpoint, descriptors⟩ : Process ι).Tracks t' where
  holds j := by
    dsimp only
    by_cases hj : j = i
    · rw [hj, Function.update_self, hself]
    · rw [Function.update_of_ne hj, hother j hj, h.holds]
  inUse := hinUse

/-- The endpoint is given up. -/
theorem released (h : p.Tracks t) {endpoint : Option Socket}
    (hi : p.endpoints i = some endpoint) :
    (⟨Function.update p.endpoints i none,
      (sockfd? endpoint).elim p.descriptors p.descriptors.erase⟩ : Process ι).Tracks
      (t.release i) := by
  refine h.update i none _ ?_ ?_ ?_
  · exact Function.update_self _ _ _
  · exact fun j hj => Function.update_of_ne hj _ _
  · intro fd
    rw [Tenancy.inUse_release, h.holds, hi, Option.bind_some, ← h.inUse]
    cases sockfd? endpoint with
    | none => simp
    | some fd' =>
      rw [Option.elim_some, Finset.mem_erase, and_comm]
      exact and_congr_right fun _ => not_congr (eq_comm.trans Option.some_inj.symm)

/-- An endpoint that holds nothing takes over the socket of another one. -/
theorem moved (h : p.Tracks t) (dst src : ι) (hdst : t.holds dst = none)
    {other : Option Socket} (hsrc : p.endpoints src = some other) :
    (⟨Function.update (Function.update p.endpoints dst (some other)) src (some none),
      p.descriptors⟩ : Process ι).Tracks (t.exchange dst src) where
  holds j := by
    show t.holds (Equiv.swap dst src j) = _
    dsimp only
    by_cases hj : j = src
    · rw [hj, Function.update_self, Equiv.swap_apply_right, hdst]
      rfl
    · rw [Function.update_of_ne hj]
      by_cases hj' : j = dst
      · rw [hj', Function.update_self, Equiv.swap_apply_left, h.holds, hsrc]
      · rw [Function.update_of_ne hj', Equiv.swap_apply_of_ne_of_ne hj' hj, h.holds]
  inUse fd := (h.inUse fd).trans Tenancy.inUse_exchange.symm

/-- A call that opens no descriptor. -/
theorem keeps (h : p.Tracks t) {endpoint : Option Socket} (hi : p.endpoints i = some endpoint) :
    (⟨Function.update p.endpoints i (some endpoint), p.descriptors⟩ : Process ι).Tracks t := by
  refine h.update i (some endpoint) p.descriptors ?_ (fun _ _ => rfl) h.inUse
  rw [h.holds, hi]

/-- The old descriptor is forgotten, and the new one, if there is one, is held instead. -/
theorem opens (h : p.Tracks t) {r : Option Socket × List DescriptorCall} {sockfd : Int}
    (hopened : Opened p.descriptors r sockfd) :
    ∃ p' t', p.update i (some r.1) sockfd r.2 = some p' ∧ p'.Tracks t' ∧
      t'.lost = t.lost ++ (t.holds i).toList := by
  have hrun := hopened.run
  cases hnew : sockfd? r.1 with
  | none =>
    rw [hnew] at hrun
    refine ⟨_, t.forget i, ?_, h.update i (some r.1) p.descriptors ?_ ?_ ?_, rfl⟩
    · rw [Process.update, hrun]
      rfl
    · rw [Option.bind_some, hnew]
      exact Function.update_self _ _ _
    · exact fun j hj => Function.update_of_ne hj _ _
    · exact fun fd => (h.inUse fd).trans Tenancy.inUse_forget.symm
  | some fd =>
    rw [hnew] at hrun
    have hfree : ¬ (t.forget i).InUse fd := by
      rw [Tenancy.inUse_forget, ← h.inUse]
      exact hopened.fresh fd hnew
    refine ⟨_, (t.forget i).acquire i fd hfree, ?_,
      h.update i (some r.1) (insert fd p.descriptors) ?_ ?_ ?_, rfl⟩
    · rw [Process.update, hrun]
      rfl
    · rw [Option.bind_some, hnew]
      exact Function.update_self _ _ _
    · intro j hj
      exact (Function.update_of_ne hj _ _).trans (Function.update_of_ne hj _ _)
    · intro fd'
      rw [Tenancy.inUse_acquire (Function.update_self _ _ _), Tenancy.inUse_forget,
        Finset.mem_insert, or_comm, h.inUse]

/-- A step is defined, and loses what it overwrites. -/
theorem step (host : Endian) (h : p.Tracks t) {op : ProcessOp ι} (hvalid : p.Valid op) :
    ∃ p' t', p.step host op = some p' ∧ p'.Tracks t' ∧ t'.lost = t.lost ++ p.overwritten op := by
  cases op with
  | construct i =>
    have hi : p.endpoints i = none := hvalid
    refine ⟨_, t, ?_, h.update i (some (some ⟨-1⟩)) p.descriptors ?_ (fun _ _ => rfl) h.inUse,
      (List.append_nil _).symm⟩
    · rw [Process.step, hi]
      rfl
    · rw [h.holds, hi]
      rfl
  | destroy i =>
    obtain ⟨endpoint, hi⟩ := Option.ne_none_iff_exists'.mp hvalid
    refine ⟨_, t.release i, ?_, h.released hi, (List.append_nil _).symm⟩
    rw [Process.step, hi]
    dsimp only
    rw [Process.update, run_deleteInternal (h.mem hi), Option.map_some]
  | moveConstruct dst src =>
    obtain ⟨hdst, hsrc⟩ := hvalid
    obtain ⟨other, hother⟩ := Option.ne_none_iff_exists'.mp hsrc
    have hnone : t.holds dst = none := by
      rw [h.holds, hdst]
      rfl
    refine ⟨_, t.exchange dst src, ?_, h.moved dst src hnone hother, (List.append_nil _).symm⟩
    rw [Process.step, hdst, hother]
    rfl
  | moveAssign dst src =>
    obtain ⟨hdst, hsrc⟩ := hvalid
    obtain ⟨endpoint, hendpoint⟩ := Option.ne_none_iff_exists'.mp hdst
    obtain ⟨other, hother⟩ := Option.ne_none_iff_exists'.mp hsrc
    by_cases hne : dst = src
    · refine ⟨p, t, ?_, h, (List.append_nil _).symm⟩
      rw [Process.step, hendpoint, hother]
      exact if_pos hne
    · -- the socket of `dst` is closed, and that of `src` takes its place
      have hmoved := (h.released hendpoint).moved dst src
        (Function.update_self _ _ _) ((Function.update_of_ne (Ne.symm hne) _ _).trans hother)
      rw [Function.update_idem] at hmoved
      refine ⟨_, _, ?_, hmoved, (List.append_nil _).symm⟩
      rw [Process.step, hendpoint, hother]
      dsimp only
      rw [if_neg hne, Process.update, run_deleteInternal (h.mem hendpoint)]
      rfl
  | call i op =>
    obtain ⟨hi, hfresh⟩ := hvalid
    obtain ⟨endpoint, hendpoint⟩ := Option.ne_none_iff_exists'.mp hi
    rw [Process.step, hendpoint]
    dsimp only [overwritten]
    cases hop : op.opened? with
    | none =>
      obtain ⟨hsame, hrun⟩ := apply_keeps host hop (h.mem hendpoint)
      refine ⟨_, t, ?_, h.keeps hendpoint, (List.append_nil _).symm⟩
      rw [hsame, Option.getD_none, Process.update, hrun, Option.map_some]
    | some sockfd =>
      rw [if_neg (Option.some_ne_none sockfd), ← h.holds]
      cases endpoint with
      | none =>
        have hnone : t.holds i = none := by
          rw [h.holds, hendpoint]
          rfl
        refine ⟨_, t, ?_, h.keeps hendpoint, ?_⟩
        · rw [apply_none]
          rfl
        · rw [hnone]
          exact (List.append_nil _).symm
      | some socket => exact h.opens (apply_opens hop (hfresh sockfd hop) socket)

/-- All that a run overwrites is lost, and nothing else. -/
theorem run {ops : List (ProcessOp ι)} (h : p.Tracks t)
    (hvalid : Guarded (Process.step host) Valid p ops) :
    ∃ p' t', Base.run (Process.step host) p ops = some p' ∧ p'.Tracks t' ∧
      t'.lost = t.lost ++ expand (Process.step host) overwritten p ops := by
  induction ops generalizing p t with
  | nil => exact ⟨p, t, rfl, h, (List.append_nil _).symm⟩
  | cons op ops ih =>
    obtain ⟨p₁, t₁, hstep, h₁, hlost₁⟩ := h.step host hvalid.1
    obtain ⟨p', t', hrun, h', hlost'⟩ := ih h₁ (hvalid.2 p₁ hstep)
    refine ⟨p', t', run_cons_eq_some.mpr ⟨p₁, hstep, hrun⟩, h', ?_⟩
    rw [hlost', hlost₁, expand, hstep, List.append_assoc]

end Tracks

end Process

/-- No run of a process uses or closes a descriptor that is not open. No two endpoints have the same
one, and the open ones that no endpoint has are those that `connect_` and `bind` have overwritten,
each once: behind the last destructor they are all that is open. -/
theorem descriptors_of_run {ι : Type*} [DecidableEq ι] (host : Endian) (ops : List (ProcessOp ι))
    (hvalid : Guarded (Process.step host) Process.Valid .init ops) :
    ∃ p, run (Process.step host) .init ops = some p ∧
      (∀ i socket, p.endpoints i = some (some socket) → socket.sockfd ≠ -1 →
        socket.sockfd ∈ p.descriptors ∧
          ∀ j other, p.endpoints j = some (some other) → other.sockfd = socket.sockfd → j = i) ∧
      (expand (Process.step host) Process.overwritten .init ops).Nodup ∧
      ((∀ i, p.endpoints i = none) → ∀ fd, fd ∈ p.descriptors ↔
        fd ∈ expand (Process.step host) Process.overwritten .init ops) := by
  obtain ⟨p, t, hrun, h, hlost⟩ := Process.tracks_init.run hvalid
  have hlost : t.lost = expand (Process.step host) Process.overwritten .init ops := hlost
  have hholds {i : ι} {socket : Socket} (hi : p.endpoints i = some (some socket))
      (hne : socket.sockfd ≠ -1) : t.holds i = some socket.sockfd := by
    rw [h.holds, hi]
    exact if_neg hne
  refine ⟨p, hrun, ?_, hlost ▸ t.nodup, ?_⟩
  · intro i socket hi hne
    refine ⟨(h.inUse _).mpr (Or.inl ⟨i, hholds hi hne⟩), ?_⟩
    intro j other hj hsame
    have hother := hholds hj (hsame ▸ hne)
    rw [hsame] at hother
    exact t.inj hother (hholds hi hne)
  · intro hgone fd
    rw [h.inUse, ← hlost]
    refine or_iff_right ?_
    rintro ⟨i, hi⟩
    rw [h.holds, hgone] at hi
    cases hi

/-- An endpoint that connects twice, one that fails to bind, and a move. -/
def connectsTwice : List (ProcessOp Bool) :=
  [.construct false, .call false (.tcpConnect (.localhost 80) 3 0), .construct true,
    .call false (.tcpConnect (.localhost 80) 4 0), .call true (.udpBind 90 5 (-1)),
    .call false (.tcpSend [0x61] 1), .moveAssign true false, .destroy false, .destroy true]

theorem descriptors_of_run_connectsTwice : ∃ p,
    run (Process.step .little) .init connectsTwice = some p ∧ ∀ fd, fd ∈ p.descriptors ↔ fd = 3 := by
  obtain ⟨p, hrun, -, -, hleft⟩ := descriptors_of_run .little connectsTwice (by decide +kernel)
  refine ⟨p, hrun, fun fd => ?_⟩
  cases hrun
  exact (hleft (by decide +kernel) fd).trans List.mem_singleton

end Csics.Net
