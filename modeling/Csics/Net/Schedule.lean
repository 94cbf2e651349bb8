import Csics.Net.Clients

/-!
# A schedule for any calls

Calls that can be made one after another can be made so that Paho is as slow as the callers allow
(`run_schedule`): no attempt is answered, and every caller waits for ten seconds. Only the first
attempt of one endpoint, if there is a `target`, succeeds at once.
-/

namespace Csics.Net.Connection

open Base

namespace System

/-- `connected` of an endpoint. -/
def connected (s : System) (i : Nat) : Int :=
  match s.internals i with
  | none => 0
  | some x => x.connected

/-- What happens with a call. -/
def schedule (target : Option Nat) (s : System) : Call → List Event
  | .construct => [.call .construct]
  | .connect i params created false => [.call (.connect i params created false)]
  | .connect i params created true =>
    .call (.connect i params created true) ::
      if s.connected i = 0 then
        if target = some i then [.answer s.attempts.length true, .test i, .read i]
        else [.test i, .clock i true]
      else [.test i, .read i]
  | .destroy i => [.call (.destroy i)]

/-- The endpoint behind a call that has started an attempt. -/
def served (s : System) (i c : Nat) (params : MQTTConnectionParams) (created : Bool)
    (connected : Int) (answer : Option Bool) (status : MQTT.NetStatus) : System :=
  { s.put i ⟨some c, some params, connected, .idle⟩ with
    clients := s.newClients i created
    attempts := s.attempts ++ [⟨c, i, params.options, answer⟩]
    reports := s.reports ++ [⟨some s.attempts.length, status⟩] }

variable {s s' : System} {i c : Nat} {x : Internal} {k : Call} {ks : List Call}
  {target : Option Nat} {params : MQTTConnectionParams} {created : Bool}

/-- A call that starts an attempt, up to the loop. -/
theorem connect_of_started (hx : s.internals i = some x) (hidle : x.waiting = .idle)
    (hc : s.newClient x created = some c) :
    s.connect i params created true = some
      { s.put i ⟨some c, some params, x.connected, .testing s.attempts.length⟩ with
        clients := s.newClients i created
        attempts := s.attempts ++ [⟨c, i, params.options, none⟩] } := by
  simp only [connect, hx, hidle, hc, if_true]

/-- Nothing is answered, and the time is over. -/
theorem run_timeout (hx : s.internals i = some x) (hidle : x.waiting = .idle)
    (hc : s.newClient x created = some c) (hzero : x.connected = 0) :
    run step s [.call (.connect i params created true), .test i, .clock i true] =
      some (s.served i c params created 0 none .timeout) := by
  simp [run_cons, step, connect_of_started hx hidle hc, test, clock, put, hzero, served]

/-- An answer that was there before is returned. -/
theorem run_returns (hx : s.internals i = some x) (hidle : x.waiting = .idle)
    (hc : s.newClient x created = some c) (hone : x.connected = 1) :
    run step s [.call (.connect i params created true), .test i, .read i] =
      some (s.served i c params created 1 none .success) := by
  simp [run_cons, step, connect_of_started hx hidle hc, test, read, put, hone, served]

/-- The attempt succeeds. -/
theorem run_succeeds (hx : s.internals i = some x) (hidle : x.waiting = .idle)
    (hc : s.newClient x created = some c) (hlive : (s.newClients i created)[c]? = some ⟨i, true⟩) :
    run step s [.call (.connect i params created true), .answer s.attempts.length true, .test i,
      .read i] = some (s.served i c params created 1 (some true) .success) := by
  simp [run_cons, step, connect_of_started hx hidle hc, test, read, answer, put, served, IsLive,
    hlive]

/-! ## Between the calls -/

/-- A success is reported for an attempt that is not answered. -/
def Lies (s : System) : Prop :=
  ∃ a attempt, ⟨some a, .success⟩ ∈ s.reports ∧ s.attempts[a]? = some attempt ∧
    attempt.answer = none

/-- Between the calls of a schedule. Once the target has started an attempt, it is connected, so
that the second one is reported without an answer. -/
structure Resting (target : Option Nat) (ks : List Call) (s : System) : Prop where
  idle : ∀ i x, s.internals i = some x → x.waiting = .idle
  connected : ∀ i x, s.internals i = some x → x.connected = 0 ∨ x.connected = 1 ∧ target = some i
  unanswered : ∀ attempt ∈ s.attempts, attempt.answer ≠ none → target = some attempt.endpoint
  told : ∀ i x, target = some i → Starts ks i → s.internals i = some x → x.connected = 1
  lies : ∀ i, target = some i → Twice ks i → s.Lies

theorem resting_init (target : Option Nat) : init.Resting target [] where
  idle _ _ h := by cases h
  connected _ _ h := by cases h
  unanswered _ h := absurd h List.not_mem_nil
  told _ _ _ _ h := by cases h
  lies i _ h := by
    obtain ⟨_, _, _, _, hsub⟩ := h
    cases hsub

/-- What is reported stays, and so do the attempts that are not answered. -/
theorem Lies.mono (h : s.Lies) (hreports : s.reports <+: s'.reports)
    (hattempts : s.attempts <+: s'.attempts) : s'.Lies := by
  obtain ⟨a, attempt, hmem, ha, hanswer⟩ := h
  obtain ⟨rest, hrest⟩ := hattempts
  have hlt := (List.getElem?_eq_some_iff.mp ha).1
  refine ⟨a, attempt, hreports.subset hmem, ?_, hanswer⟩
  rw [← hrest, List.getElem?_append_left hlt]
  exact ha

/-- A call that starts no attempt leaves the endpoints as they are, or one of them is new, is without
a caller or is gone. -/
theorem Resting.step_of_not_started (h : s.Resting target ks)
    (hk : ∀ i params created, k ≠ .connect i params created true)
    (hinternals : ∀ i x, s'.internals i = some x → x.waiting = .idle ∧
      ((∃ y, s.internals i = some y ∧ x.connected = y.connected) ∨
        x.connected = 0 ∧ ¬ Starts ks i))
    (hreports : s.reports <+: s'.reports) (hattempts : s'.attempts = s.attempts) :
    s'.Resting target (ks ++ [k]) where
  idle i x hx := (hinternals i x hx).1
  connected i x hx := by
    rcases (hinternals i x hx).2 with ⟨y, hy, hconnected⟩ | ⟨hzero, -⟩
    · rw [hconnected]
      exact h.connected i y hy
    · exact Or.inl hzero
  unanswered := by
    rw [hattempts]
    exact h.unanswered
  told i x htarget hstarts hx := by
    have hstarts : Starts ks i := by
      rcases starts_concat.mp hstarts with hstarts | ⟨params, created, rfl⟩
      · exact hstarts
      · exact absurd rfl (hk i params created)
    rcases (hinternals i x hx).2 with ⟨y, hy, hconnected⟩ | ⟨-, hnot⟩
    · rw [hconnected]
      exact h.told i y htarget hstarts hy
    · exact absurd hstarts hnot
  lies i htarget htwice := by
    have hlies : s.Lies := by
      rcases twice_concat.mp htwice with htwice | ⟨-, params, created, rfl⟩
      · exact h.lies i htarget htwice
      · exact absurd rfl (hk i params created)
    exact hlies.mono hreports (hattempts ▸ List.prefix_refl _)

/-- A call that starts an attempt. -/
theorem Resting.served (h : s.Resting target ks) {connected : Int} {answer : Option Bool}
    {status : MQTT.NetStatus} (hconnected : connected = 0 ∨ connected = 1 ∧ target = some i)
    (hanswer : answer ≠ none → target = some i) (htold : target = some i → connected = 1)
    (hlies : target = some i → Starts ks i → answer = none ∧ status = .success) :
    (s.served i c params created connected answer status).Resting target
      (ks ++ [.connect i params created true]) where
  idle j x hx := by
    have hput : Function.update s.internals i (some ⟨some c, some params, connected, .idle⟩) j =
        some x := hx
    by_cases hj : j = i
    · rw [hj, Function.update_self] at hput
      cases hput
      rfl
    · rw [Function.update_of_ne hj] at hput
      exact h.idle j x hput
  connected j x hx := by
    have hput : Function.update s.internals i (some ⟨some c, some params, connected, .idle⟩) j =
        some x := hx
    by_cases hj : j = i
    · rw [hj, Function.update_self] at hput
      cases hput
      rw [hj]
      exact hconnected
    · rw [Function.update_of_ne hj] at hput
      exact h.connected j x hput
  unanswered attempt hmem hne := by
    rcases List.mem_append.mp hmem with hmem | hmem
    · exact h.unanswered attempt hmem hne
    · rw [List.mem_singleton] at hmem
      subst hmem
      exact hanswer hne
  told j x htarget hstarts hx := by
    have hput : Function.update s.internals i (some ⟨some c, some params, connected, .idle⟩) j =
        some x := hx
    by_cases hj : j = i
    · rw [hj, Function.update_self] at hput
      cases hput
      exact htold (hj ▸ htarget)
    · rw [Function.update_of_ne hj] at hput
      rcases starts_concat.mp hstarts with hstarts | ⟨params, created, heq⟩
      · exact h.told j x htarget hstarts hput
      · cases heq
        exact absurd rfl hj
  lies j htarget htwice := by
    rcases twice_concat.mp htwice with htwice | ⟨hstarts, params, created, heq⟩
    · exact (h.lies j htarget htwice).mono (List.prefix_append _ _) (List.prefix_append _ _)
    · cases heq
      obtain ⟨rfl, rfl⟩ := hlies htarget hstarts
      refine ⟨s.attempts.length, ⟨c, i, params.options, none⟩,
        List.mem_append_right _ (List.mem_singleton_self _), ?_, rfl⟩
      exact List.getElem?_concat_length

/-! ## The run -/

theorem Resting.construct (h : s.Resting target ks) (hks : s.shape.Knows ks) :
    s.construct.Resting target (ks ++ [.construct]) := by
  refine h.step_of_not_started (fun _ _ _ heq => by cases heq) ?_ (List.prefix_refl _) rfl
  intro i x hx
  have hput : Function.update s.internals s.constructed (some ⟨none, none, 0, .idle⟩) i =
      some x := hx
  by_cases hi : i = s.constructed
  · rw [hi, Function.update_self] at hput
    cases hput
    refine ⟨rfl, Or.inr ⟨rfl, ?_⟩⟩
    intro hstarts
    obtain ⟨c, hmem⟩ := (hks.started i).mp hstarts
    obtain ⟨live, hc⟩ := hks.attempt c i hmem
    exact absurd (hks.owner c i live hc) (by simp [shape, hi])
  · rw [Function.update_of_ne hi] at hput
    exact ⟨h.idle i x hput, Or.inl ⟨x, hput, rfl⟩⟩

/-- A call that Paho refuses. -/
theorem Resting.refused (h : s.Resting target ks) (hx : s.internals i = some x)
    (params : MQTTConnectionParams) (created : Bool) :
    ∃ s', s.connect i params created false = some s' ∧
      s'.Resting target (ks ++ [.connect i params created false]) := by
  have hidle := h.idle i x hx
  refine ⟨_, by simp only [connect, hx, hidle, if_true]; rfl, ?_⟩
  refine h.step_of_not_started (fun _ _ _ heq => by cases heq) ?_ (List.prefix_append _ _) rfl
  intro j y hy
  have hput : Function.update s.internals i (some ⟨s.newClient x created, some params, x.connected,
      .idle⟩) j = some y := hy
  by_cases hj : j = i
  · rw [hj, Function.update_self] at hput
    cases hput
    exact ⟨rfl, Or.inl ⟨x, hj ▸ hx, rfl⟩⟩
  · rw [Function.update_of_ne hj] at hput
    exact ⟨h.idle j y hput, Or.inl ⟨y, hput, rfl⟩⟩

theorem Resting.destroy (h : s.Resting target ks) (hx : s.internals i = some x) :
    ∃ s', s.destroy i = some s' ∧ s'.Resting target (ks ++ [.destroy i]) := by
  have hidle := h.idle i x hx
  refine ⟨_, by simp only [System.destroy, hx, hidle, if_true]; rfl, ?_⟩
  refine h.step_of_not_started (fun _ _ _ heq => by cases heq) ?_ (List.prefix_refl _) rfl
  intro j y hy
  have hupdate : Function.update s.internals i none j = some y := hy
  by_cases hj : j = i
  · rw [hj, Function.update_self] at hupdate
    cases hupdate
  · rw [Function.update_of_ne hj] at hupdate
    exact ⟨h.idle j y hupdate, Or.inl ⟨y, hupdate, rfl⟩⟩

/-- The client of an attempt that is about to start is there. -/
theorem exists_newClient (hks : s.shape.Knows ks) (hx : s.internals i = some x) {sh : Shape}
    (hstep : s.shape.step (.connect i params created true) = some sh) :
    ∃ c, s.newClient x created = some c ∧ (s.newClients i created)[c]? = some ⟨i, true⟩ := by
  have hsome : (s.shape.client i).isSome = true := by simp [shape, hx]
  cases created with
  | true => exact ⟨s.clients.length, rfl, List.getElem?_concat_length⟩
  | false =>
    rw [Shape.step, if_pos hsome] at hstep
    obtain ⟨c, hc, -⟩ := Option.map_eq_some_iff.mp hstep
    have hclient : s.shape.client i = some (some c) := Option.join_eq_some_iff.mp hc
    have hself : x.client = some c := by simpa [shape, hx] using hclient
    exact ⟨c, hself, hks.current i c hclient⟩

theorem Resting.connect (h : s.Resting target ks) (hks : s.shape.Knows ks)
    (hx : s.internals i = some x) {sh : Shape}
    (hstep : s.shape.step (.connect i params created true) = some sh) :
    ∃ s', run step s (schedule target s (.connect i params created true)) = some s' ∧
      s'.Resting target (ks ++ [.connect i params created true]) := by
  have hidle := h.idle i x hx
  have hconnected : s.connected i = x.connected := by rw [System.connected, hx]
  obtain ⟨c, hc, hlive⟩ := exists_newClient hks hx hstep
  rw [schedule, hconnected]
  rcases h.connected i x hx with hzero | ⟨hone, htarget⟩
  · rw [if_pos hzero]
    have hfirst : target = some i → ¬ Starts ks i := by
      intro htarget hstarts
      have := h.told i x htarget hstarts hx
      omega
    by_cases htarget : target = some i
    · rw [if_pos htarget]
      exact ⟨_, run_succeeds hx hidle hc hlive, h.served (Or.inr ⟨rfl, htarget⟩)
        (fun _ => htarget) (fun _ => rfl) fun _ hstarts => absurd hstarts (hfirst htarget)⟩
    · rw [if_neg htarget]
      exact ⟨_, run_timeout hx hidle hc hzero, h.served (Or.inl rfl) (absurd rfl)
        (absurd · htarget) fun h => absurd h htarget⟩
  · have hne : ¬ x.connected = 0 := by omega
    rw [if_neg hne]
    exact ⟨_, run_returns hx hidle hc hone, h.served (Or.inr ⟨rfl, htarget⟩) (absurd rfl)
      (fun _ => rfl) fun _ _ => ⟨rfl, rfl⟩⟩

/-- Every call that the shape allows can be made. -/
theorem Resting.step (h : s.Resting target ks) (hks : s.shape.Knows ks) {sh : Shape}
    (hstep : s.shape.step k = some sh) :
    ∃ s', run System.step s (schedule target s k) = some s' ∧ s'.Resting target (ks ++ [k]) := by
  cases k with
  | construct => exact ⟨s.construct, rfl, h.construct hks⟩
  | connect i params created accepted =>
    cases hx : s.internals i with
    | none => simp [Shape.step, shape, hx] at hstep
    | some x =>
      cases accepted with
      | true => exact h.connect hks hx hstep
      | false =>
        obtain ⟨s', hs', hresting⟩ := h.refused hx params created
        exact ⟨s', run_cons_eq_some.mpr ⟨s', hs', rfl⟩, hresting⟩
  | destroy i =>
    cases hx : s.internals i with
    | none => simp [Shape.step, shape, hx] at hstep
    | some x =>
      obtain ⟨s', hs', hresting⟩ := h.destroy hx
      exact ⟨s', run_cons_eq_some.mpr ⟨s', hs', rfl⟩, hresting⟩

theorem calls_schedule (target : Option Nat) (s : System) (k : Call) :
    calls (schedule target s k) = [k] := by
  cases k with
  | construct => rfl
  | connect i params created accepted =>
    cases accepted with
    | false => rfl
    | true =>
      rw [schedule]
      split
      · split <;> rfl
      · rfl
  | destroy i => rfl

theorem calls_append (events events' : List Event) :
    calls (events ++ events') = calls events ++ calls events' := List.filterMap_append

/-- The calls of a run can be made in this order with the other steps, too. -/
theorem run_schedule {ks' : List Call} {sh : Shape} (target : Option Nat)
    (h : s.Resting target ks) (hks : s.shape.Knows ks)
    (hrun : run Shape.step s.shape ks' = some sh) :
    ∃ events s', calls events = ks' ∧ run System.step s events = some s' ∧
      s'.Resting target (ks ++ ks') := by
  induction ks' generalizing s ks with
  | nil => exact ⟨[], s, rfl, rfl, (List.append_nil ks).symm ▸ h⟩
  | cons k ks' ih =>
    obtain ⟨sh', hstep, hrest⟩ := run_cons_eq_some.mp hrun
    obtain ⟨t, ht, hresting⟩ := h.step hks hstep
    have hshape : t.shape = sh' := by
      have hrun := run_shape ht
      rw [calls_schedule, run_cons, hstep, Option.bind_some, run_nil] at hrun
      exact (Option.some.inj hrun).symm
    have hknows := hks.step hstep
    rw [← hshape] at hknows hrest
    obtain ⟨events, s', hcalls, hs', hresting'⟩ := ih hresting hknows hrest
    refine ⟨schedule target s k ++ events, s', ?_, ?_, ?_⟩
    · rw [calls_append, calls_schedule, hcalls, List.singleton_append]
    · rw [run_append, ht]
      exact hs'
    · rw [List.append_cons]
      exact hresting'

/-- A schedule for calls that can be made. -/
theorem Feasible.exists_schedule (h : Feasible ks) (target : Option Nat) :
    ∃ events s', calls events = ks ∧ run System.step init events = some s' ∧
      s'.Resting target ks := by
  obtain ⟨events, rfl, hsome⟩ := h
  obtain ⟨t, ht⟩ := Option.isSome_iff_exists.mp hsome
  exact run_schedule target (resting_init target) Shape.knows_init (run_shape ht)

end System

end Csics.Net.Connection
