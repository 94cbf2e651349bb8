import Mathlib.Data.List.Basic
import Csics.Net.Connection

/-!
# What the calls do to the clients

A `Shape` is a state without what the callbacks change. The calls of a user alone decide it
(`run_shape`), so that what is known of it holds in every order of the other steps.

`Tells` is the invariant. The client of an attempt is the one of its endpoint or has been
superseded, and one that has been superseded is never destroyed.
-/

namespace Csics.Net.Connection

open Base

/-- The endpoints that are there, with their clients, and of the attempts the client and the
endpoint. -/
structure Shape where
  client : Nat → Option (Option Nat)
  constructed : Nat
  clients : List Client
  attempts : List (Nat × Nat)

def Attempt.target (a : Attempt) : Nat × Nat := (a.client, a.endpoint)

def System.shape (s : System) : Shape :=
  ⟨fun i => (s.internals i).map Internal.client, s.constructed, s.clients,
    s.attempts.map Attempt.target⟩

namespace Shape

def init : Shape := ⟨fun _ => none, 0, [], []⟩

/-- A new client takes the place of the old one. -/
def create (s : Shape) (i : Nat) : Shape :=
  { s with
    client := Function.update s.client i (some (some s.clients.length))
    clients := s.clients ++ [⟨i, true⟩] }

/-- An attempt of the client. -/
def start (s : Shape) (i : Nat) : Option Shape :=
  (s.client i).join.map fun c => { s with attempts := s.attempts ++ [(c, i)] }

def remove (s : Shape) (i : Nat) (client : Option Nat) : Shape :=
  { s with
    client := Function.update s.client i none
    clients := System.destroyClient s.clients client }

def step (s : Shape) : Call → Option Shape
  | .construct =>
    some { s with
      client := Function.update s.client s.constructed (some none)
      constructed := s.constructed + 1 }
  | .connect i _ created accepted =>
    if (s.client i).isSome then
      let s := if created then s.create i else s
      if accepted then s.start i else some s
    else none
  | .destroy i => (s.client i).map (s.remove i)

end Shape

/-! ## The shape of a state -/

namespace System

variable {s s' : System} {i : Nat} {x : Internal} {e : Event} {k : Call}

@[simp] theorem internals_put (s : System) (i : Nat) (x : Internal) :
    (s.put i x).internals = Function.update s.internals i (some x) := rfl

theorem client_put (s : System) (i : Nat) (x : Internal) :
    (fun j => ((s.put i x).internals j).map Internal.client) =
      Function.update (fun j => (s.internals j).map Internal.client) i (some x.client) := by
  funext j
  rw [internals_put]
  by_cases h : j = i
  · rw [h, Function.update_self, Function.update_self]
    rfl
  · rw [Function.update_of_ne h, Function.update_of_ne h]

/-- What keeps the client of an endpoint keeps the shape. -/
theorem shape_put (h : s.internals i = some x) {y : Internal} (hclient : y.client = x.client) :
    (s.put i y).shape = s.shape := by
  have hself : (fun j => (s.internals j).map Internal.client) i = some y.client := by
    dsimp only
    rw [h, hclient]
    rfl
  rw [shape, client_put, ← hself, Function.update_eq_self]
  rfl

theorem shape_construct : some s.construct.shape = s.shape.step .construct := by
  have hclient := client_put s s.constructed ⟨none, none, 0, .idle⟩
  exact congrArg (fun client => some (Shape.mk client (s.constructed + 1) s.clients
    (s.attempts.map Attempt.target))) hclient

/-- `MQTTAsync_create` and the store of the client, as far as the shape goes. -/
theorem shape_create (h : s.internals i = some x) (created : Bool) {y : Internal}
    (hclient : y.client = s.newClient x created) :
    { (s.put i y).shape with clients := s.newClients i created } =
      if created then s.shape.create i else s.shape := by
  cases created with
  | true =>
    have hput := client_put s i y
    rw [hclient] at hput
    exact congrArg (fun client => Shape.mk client s.constructed (s.clients ++ [⟨i, true⟩])
      (s.attempts.map Attempt.target)) hput
  | false =>
    have hput := shape_put h hclient
    exact hput

/-- `connect` goes on from an endpoint without a caller, and does to the shape what it does. -/
theorem shape_connect {params : MQTTConnectionParams} {created accepted : Bool}
    (h : s.connect i params created accepted = some s') :
    s.shape.step (.connect i params created accepted) = some s'.shape := by
  cases hx : s.internals i with
  | none => simp [connect, hx] at h
  | some x =>
    have hsome : (s.shape.client i).isSome = true := by simp [shape, hx]
    rw [Shape.step, if_pos hsome]
    by_cases hidle : x.waiting = .idle
    · cases accepted with
      | false =>
        simp only [connect, hx, hidle, if_true] at h
        cases h
        exact congrArg some (shape_create hx created rfl).symm
      | true =>
        simp only [connect, hx, hidle, if_true] at h
        cases hc : s.newClient x created with
        | none => simp [hc] at h
        | some c =>
          rw [hc] at h
          cases h
          have hcreate := shape_create hx created (y := ⟨some c, some params, x.connected,
            .testing s.attempts.length⟩) hc.symm
          dsimp only
          rw [if_pos rfl, ← hcreate, Shape.start]
          have hjoin : ((s.put i ⟨some c, some params, x.connected,
              .testing s.attempts.length⟩).shape.client i).join = some c := by
            simp [shape]
          dsimp only
          rw [hjoin, Option.map_some]
          have hattempts : s.shape.attempts ++ [(c, i)] =
              List.map Attempt.target (s.attempts ++ [⟨c, i, params.options, none⟩]) := by
            rw [List.map_append]
            rfl
          exact congrArg (fun attempts => some (Shape.mk _ _ _ attempts)) hattempts
    · simp [connect, hx, hidle] at h

theorem shape_destroy (h : s.destroy i = some s') :
    s.shape.step (.destroy i) = some s'.shape := by
  cases hx : s.internals i with
  | none => simp [destroy, hx] at h
  | some x =>
    have hclient : s.shape.client i = some x.client := by simp [shape, hx]
    by_cases hidle : x.waiting = .idle
    · simp only [destroy, hx, hidle, if_true] at h
      cases h
      rw [Shape.step, hclient, Option.map_some, Shape.remove]
      refine congrArg (fun client => some (Shape.mk client _ _ _)) ?_
      funext j
      by_cases hj : j = i
      · rw [hj, Function.update_self]
        simp
      · rw [Function.update_of_ne hj]
        simp [shape, Function.update_of_ne hj]
    · simp [destroy, hx, hidle] at h

theorem shape_test (h : s.test i = some s') : s'.shape = s.shape := by
  unfold test at h
  split at h
  · rename_i hx
    cases h
    exact shape_put hx rfl
  · cases h

theorem shape_clock {late : Bool} (h : s.clock i late = some s') : s'.shape = s.shape := by
  unfold clock at h
  split at h
  · rename_i hx
    split at h
    · cases h
      exact shape_put hx rfl
    · cases h
      exact shape_put hx rfl
  · cases h

theorem shape_read (h : s.read i = some s') : s'.shape = s.shape := by
  unfold read at h
  split at h
  · rename_i hx
    cases h
    exact shape_put hx rfl
  · cases h

/-- An attempt stays one of the same client. -/
theorem map_target_set {l : List Attempt} {a : Nat} {attempt : Attempt} (h : l[a]? = some attempt)
    (answer : Option Bool) :
    (l.set a { attempt with answer := answer }).map Attempt.target = l.map Attempt.target := by
  have hself : (l.map Attempt.target)[a]? =
      some (Attempt.target { attempt with answer := answer }) := by
    rw [List.getElem?_map, h]
    rfl
  obtain ⟨hlt, hget⟩ := List.getElem?_eq_some_iff.mp hself
  rw [List.map_set, ← hget, List.set_getElem_self]

theorem shape_answer {a : Nat} {success : Bool} (h : s.answer a success = some s') :
    s'.shape = s.shape := by
  unfold answer at h
  split at h
  · cases h
  · rename_i attempt ha
    split at h
    · have htarget := map_target_set ha (some success)
      cases hx : s.internals attempt.endpoint with
      | none =>
        simp only [hx] at h
        cases h
        exact congrArg (Shape.mk _ _ _) htarget
      | some x =>
        simp only [hx] at h
        cases h
        have hput := shape_put hx (y := { x with connected := if success then 1 else -1 }) rfl
        exact (congrArg (Shape.mk _ _ _) htarget).trans hput
    · cases h

theorem shape_callback {c : Nat} {k : Callback} (h : s.callback c k = some s') :
    s'.shape = s.shape := by
  unfold callback at h
  split at h
  · cases h
  · split at h
    · split at h
      · cases h
        rfl
      · split at h
        · cases h
        · cases h
          rfl
    · cases h

/-- A call does what it does to the shape, and nothing else changes it. -/
theorem shape_step (h : s.step e = some s') :
    run Shape.step s.shape e.call?.toList = some s'.shape := by
  cases e with
  | call k =>
    have hstep : s.shape.step k = some s'.shape := by
      cases k with
      | construct =>
        cases h
        exact shape_construct.symm
      | connect i params created accepted => exact shape_connect h
      | destroy i => exact shape_destroy h
    exact run_cons_eq_some.mpr ⟨s'.shape, hstep, rfl⟩
  | test i => exact congrArg some (shape_test h).symm
  | clock i late => exact congrArg some (shape_clock h).symm
  | read i => exact congrArg some (shape_read h).symm
  | answer a success => exact congrArg some (shape_answer h).symm
  | callback c k => exact congrArg some (shape_callback h).symm

theorem calls_concat (events : List Event) (e : Event) :
    calls (events ++ [e]) = calls events ++ e.call?.toList := by
  rw [calls, List.filterMap_append, List.filterMap_cons, List.filterMap_nil]
  cases e.call? <;> rfl

/-- In every order of the steps the calls alone decide the shape. -/
theorem run_shape {events : List Event} (h : run step s events = some s') :
    run Shape.step s.shape (calls events) = some s'.shape := by
  refine run_past [] (I := fun past t => run Shape.step s.shape (calls past) = some t.shape)
    ?_ rfl h
  intro past t e t' hpast hstep
  rw [calls_concat, run_append, hpast]
  exact shape_step hstep

/-! ## Calls in their order -/

/-- The endpoint has started an attempt. -/
def Starts (ks : List Call) (i : Nat) : Prop :=
  ∃ params created, .connect i params created true ∈ ks

theorem pair_sublist_concat {α : Type*} {x y a : α} {l : List α} :
    List.Sublist [x, y] (l ++ [a]) ↔ List.Sublist [x, y] l ∨ y = a ∧ x ∈ l := by
  have hreverse : List.Sublist [x, y] l ↔ List.Sublist [y, x] l.reverse :=
    List.reverse_sublist.symm
  rw [hreverse, ← List.reverse_sublist, List.reverse_append, List.reverse_singleton,
    List.singleton_append]
  exact List.cons_sublist_cons'.trans
    (or_congr_right (and_congr_right fun _ => by simp))

variable {ks : List Call}

theorem starts_concat : Starts (ks ++ [k]) i ↔
    Starts ks i ∨ ∃ params created, k = .connect i params created true := by
  simp only [Starts, List.mem_append, List.mem_singleton, exists_or, eq_comm]

theorem supersedes_concat : Supersedes (ks ++ [k]) i ↔
    Supersedes ks i ∨ Starts ks i ∧ ∃ params accepted, k = .connect i params true accepted := by
  simp only [Supersedes, Starts, pair_sublist_concat]
  constructor
  · rintro ⟨params, params', created, accepted, h | ⟨rfl, h⟩⟩
    · exact Or.inl ⟨params, params', created, accepted, h⟩
    · exact Or.inr ⟨⟨params, created, h⟩, params', accepted, rfl⟩
  · rintro (⟨params, params', created, accepted, h⟩ | ⟨⟨params, created, h⟩, params', accepted, rfl⟩)
    · exact ⟨params, params', created, accepted, Or.inl h⟩
    · exact ⟨params, params', created, accepted, Or.inr ⟨rfl, h⟩⟩

theorem twice_concat : Twice (ks ++ [k]) i ↔
    Twice ks i ∨ Starts ks i ∧ ∃ params created, k = .connect i params created true := by
  simp only [Twice, Starts, pair_sublist_concat]
  constructor
  · rintro ⟨params, params', created, created', h | ⟨rfl, h⟩⟩
    · exact Or.inl ⟨params, params', created, created', h⟩
    · exact Or.inr ⟨⟨params, created, h⟩, params', created', rfl⟩
  · rintro (⟨params, params', created, created', h⟩ | ⟨⟨params, created, h⟩, params', created', rfl⟩)
    · exact ⟨params, params', created, created', Or.inl h⟩
    · exact ⟨params, params', created, created', Or.inr ⟨rfl, h⟩⟩

end System

/-! ## What is known of the clients -/

theorem getElem?_concat_eq_some {α : Type*} {l : List α} {a b : α} {n : Nat} :
    (l ++ [a])[n]? = some b ↔ l[n]? = some b ∨ n = l.length ∧ a = b := by
  rcases Nat.lt_trichotomy n l.length with hn | hn | hn
  · rw [List.getElem?_append_left hn]
    simp [Nat.ne_of_lt hn]
  · simp [hn]
  · have hle : (l ++ [a]).length ≤ n := by
      rw [List.length_append]
      exact hn
    rw [List.getElem?_eq_none hle, List.getElem?_eq_none (Nat.le_of_lt hn)]
    simp [Nat.ne_of_gt hn]

namespace Shape

/-- Where the clients and the attempts are, for the endpoints that have started an attempt, have
created a client behind one, and have been deleted. -/
structure Tells (s : Shape) (started superseded destroyed : Nat → Prop) : Prop where
  there : ∀ i o, s.client i = some o → i < s.constructed
  gone : ∀ i, destroyed i ↔ i < s.constructed ∧ s.client i = none
  owner : ∀ (c i : Nat) (live : Bool), s.clients[c]? = some ⟨i, live⟩ → i < s.constructed
  alive : ∀ (i c : Nat) (o : Option Nat) (live : Bool), s.client i = some o →
    s.clients[c]? = some ⟨i, live⟩ → live = true
  current : ∀ i c, s.client i = some (some c) → s.clients[c]? = some ⟨i, true⟩
  attempt : ∀ c i, (c, i) ∈ s.attempts → ∃ live : Bool, s.clients[c]? = some ⟨i, live⟩
  started : ∀ i, started i ↔ ∃ c, (c, i) ∈ s.attempts
  left : ∀ c i, (c, i) ∈ s.attempts → s.clients[c]? = some ⟨i, true⟩ →
    s.client i = some (some c) ∨ superseded i
  superseded : ∀ i, superseded i →
    ∃ c, (c, i) ∈ s.attempts ∧ s.clients[c]? = some ⟨i, true⟩ ∧ s.client i ≠ some (some c)

variable {s s' : Shape} {started superseded destroyed : Nat → Prop} {i : Nat}

theorem tells_init : init.Tells (fun _ => False) (fun _ => False) (fun _ => False) := by
  constructor <;> simp [init]

theorem Tells.construct (h : s.Tells started superseded destroyed) :
    Tells ⟨Function.update s.client s.constructed (some none), s.constructed + 1, s.clients,
      s.attempts⟩ started superseded destroyed := by
  obtain ⟨there, gone, owner, alive, current, attempt, hstarted, left, hsuperseded⟩ := h
  constructor <;> simp only [Function.update_apply] <;> grind

/-- The new client supersedes the one before it. -/
theorem Tells.create (h : s.Tells started superseded destroyed) (hi : (s.client i).isSome) :
    (s.create i).Tells started (fun j => superseded j ∨ started j ∧ j = i) destroyed := by
  obtain ⟨there, gone, owner, alive, current, attempt, hstarted, left, hsuperseded⟩ := h
  obtain ⟨old, hold⟩ := Option.isSome_iff_exists.mp hi
  have hlt (c : Nat) (client : Client) (hc : s.clients[c]? = some client) :
      c < s.clients.length := (List.getElem?_eq_some_iff.mp hc).1
  constructor <;> simp only [Shape.create, Function.update_apply, getElem?_concat_eq_some]
  case superseded =>
    rintro j (hj | ⟨hj, rfl⟩)
    · obtain ⟨c, hmem, hc, hne⟩ := hsuperseded j hj
      refine ⟨c, hmem, Or.inl hc, ?_⟩
      have := hlt c _ hc
      grind
    · -- the client of the attempt has not been destroyed, and it is not the new one
      obtain ⟨c, hmem⟩ := (hstarted j).mp hj
      obtain ⟨live, hc⟩ := attempt c j hmem
      have hlive := alive j c old live hold hc
      have := hlt c _ hc
      refine ⟨c, hmem, Or.inl (hlive ▸ hc), ?_⟩
      grind
  all_goals grind

/-- An attempt is one of the client that the endpoint has. -/
theorem Tells.start (h : s.Tells started superseded destroyed) (hstart : s.start i = some s') :
    s'.Tells (fun j => started j ∨ j = i) superseded destroyed := by
  obtain ⟨there, gone, owner, alive, current, attempt, hstarted, left, hsuperseded⟩ := h
  obtain ⟨c, hc, rfl⟩ := Option.map_eq_some_iff.mp hstart
  have hclient : s.client i = some (some c) := Option.join_eq_some_iff.mp hc
  constructor <;> simp only [List.mem_append, List.mem_singleton, Prod.mk.injEq]
  case superseded =>
    intro j hj
    obtain ⟨c, hmem, hc, hne⟩ := hsuperseded j hj
    exact ⟨c, Or.inl hmem, hc, hne⟩
  all_goals grind

theorem getElem?_destroyClient {clients : List Client} {client : Option Nat} {c : Nat}
    {j : Nat} {live : Bool} :
    (System.destroyClient clients client)[c]? = some ⟨j, live⟩ ↔
      (clients[c]? = some ⟨j, live⟩ ∧ client ≠ some c) ∨
        (client = some c ∧ live = false ∧ ∃ b : Bool, clients[c]? = some ⟨j, b⟩) := by
  cases client with
  | none => simp [System.destroyClient]
  | some d =>
    rw [System.destroyClient, List.getElem?_modify]
    by_cases hd : d = c
    · cases hc : clients[c]? with
      | none => simp [hd]
      | some client =>
        obtain ⟨owner, b⟩ := client
        simp [hd, and_comm, eq_comm]
    · simp [hd]

/-- The destructor destroys the client that the endpoint has. -/
theorem Tells.remove {client : Option Nat} (h : s.Tells started superseded destroyed)
    (hclient : s.client i = some client) :
    (s.remove i client).Tells started superseded (fun j => destroyed j ∨ j = i) := by
  obtain ⟨there, gone, owner, alive, current, attempt, hstarted, left, hsuperseded⟩ := h
  constructor <;> simp only [Shape.remove, Function.update_apply, getElem?_destroyClient]
  case superseded =>
    intro j hj
    obtain ⟨c, hmem, hc, hne⟩ := hsuperseded j hj
    refine ⟨c, hmem, Or.inl ⟨hc, ?_⟩, ?_⟩
    · rintro rfl
      have := current i c hclient
      grind
    · grind
  case attempt =>
    intro c j hmem
    obtain ⟨live, hc⟩ := attempt c j hmem
    by_cases hd : client = some c
    · exact ⟨false, Or.inr ⟨hd, rfl, live, hc⟩⟩
    · exact ⟨live, Or.inl ⟨hc, hd⟩⟩
  all_goals grind

/-- What is known behind the calls. -/
def Knows (ks : List Call) (s : Shape) : Prop :=
  s.Tells (System.Starts ks) (System.Supersedes ks) fun i => .destroy i ∈ ks

theorem Tells.congr {started' superseded' destroyed' : Nat → Prop}
    (h : s.Tells started superseded destroyed) (hstarted : ∀ i, started' i ↔ started i)
    (hsuperseded : ∀ i, superseded' i ↔ superseded i)
    (hdestroyed : ∀ i, destroyed' i ↔ destroyed i) :
    s.Tells started' superseded' destroyed' := by
  rwa [funext fun i => propext (hstarted i), funext fun i => propext (hsuperseded i),
    funext fun i => propext (hdestroyed i)]

variable {ks : List Call} {k : Call}

theorem Knows.step (h : s.Knows ks) (hstep : s.step k = some s') : s'.Knows (ks ++ [k]) := by
  cases k with
  | construct =>
    cases hstep
    exact h.construct.congr (by simp [System.starts_concat]) (by simp [System.supersedes_concat])
      (by simp)
  | connect i params created accepted =>
    rw [Shape.step] at hstep
    split at hstep
    case isFalse => cases hstep
    rename_i hsome
    have hcreated : Tells (if created then s.create i else s) (System.Starts ks)
        (System.Supersedes (ks ++ [.connect i params created accepted]))
        fun j => .destroy j ∈ ks ++ [.connect i params created accepted] := by
      cases created with
      | true =>
        refine (h.create hsome).congr (fun _ => Iff.rfl) ?_ (by simp)
        intro j
        rw [System.supersedes_concat]
        refine or_congr_right (and_congr_right fun _ => ?_)
        simp [eq_comm]
      | false =>
        exact h.congr (fun _ => Iff.rfl) (by simp [System.supersedes_concat]) (by simp)
    cases accepted with
    | true =>
      refine (hcreated.start hstep).congr ?_ (fun _ => Iff.rfl) fun _ => Iff.rfl
      intro j
      rw [System.starts_concat]
      refine or_congr_right ?_
      simp [eq_comm]
    | false =>
      cases hstep
      exact hcreated.congr (by simp [System.starts_concat]) (fun _ => Iff.rfl) fun _ => Iff.rfl
  | destroy i =>
    obtain ⟨client, hclient, rfl⟩ := Option.map_eq_some_iff.mp hstep
    exact (h.remove hclient).congr (by simp [System.starts_concat])
      (by simp [System.supersedes_concat]) (by simp)

theorem knows_init : init.Knows [] :=
  tells_init.congr (by simp [System.Starts]) (by simp [System.Supersedes]) (by simp)

theorem knows_run (h : run Shape.step init ks = some s) : s.Knows ks := by
  exact run_past [] (I := fun ks s => s.Knows ks)
    (fun _ _ _ _ hks hstep => hks.step hstep) knows_init h

end Shape

end Csics.Net.Connection
