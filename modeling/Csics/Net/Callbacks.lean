import Csics.Net.Schedule

/-!
# Callbacks behind the end of an endpoint

A callback accesses a deleted `Internal` if its client has been superseded before the endpoint was
deleted. If there is such a client, its attempt may be answered when the endpoint is gone
(`callbacks_safe_iff`).
-/

namespace Csics.Net.Connection

open Base

namespace System

variable {s s' : System} {i : Nat} {x : Internal} {e : Event} {ks : List Call}

/-! ## What a callback accesses -/

theorem getElem?_shape_attempts {a : Nat} {attempt : Attempt} (h : s.attempts[a]? = some attempt) :
    (attempt.client, attempt.endpoint) ∈ s.shape.attempts :=
  List.mem_map.mpr ⟨attempt, List.mem_of_getElem? h, rfl⟩

theorem shape_client_eq_none : s.shape.client i = none ↔ s.internals i = none := Option.map_eq_none_iff

/-- The client of an attempt whose endpoint is gone has been superseded. -/
theorem superseded_of_gone (h : s.shape.Knows ks) {c : Nat} (hmem : (c, i) ∈ s.shape.attempts)
    (hlive : s.clients[c]? = some ⟨i, true⟩) (hgone : s.internals i = none) :
    .destroy i ∈ ks ∧ Supersedes ks i := by
  have hnone : s.shape.client i = none := shape_client_eq_none.mpr hgone
  have hlt := h.owner c i true hlive
  refine ⟨(h.gone i).mpr ⟨hlt, hnone⟩, ?_⟩
  rcases h.left c i hmem hlive with hclient | hsuperseded
  · rw [hnone] at hclient
    cases hclient
  · exact hsuperseded

/-- The endpoints that are deleted have not superseded a client. -/
def Sole (ks : List Call) : Prop := ∀ i, .destroy i ∈ ks → ¬ Supersedes ks i

theorem dangling_answer (h : s.shape.Knows ks) (hsole : Sole ks) {a : Nat} {success : Bool}
    (hstep : s.answer a success = some s') : s'.dangling = s.dangling := by
  unfold answer at hstep
  split at hstep
  · cases hstep
  rename_i attempt ha
  split at hstep
  case isFalse => cases hstep
  rename_i hpending
  obtain ⟨⟨client, hc, hlive⟩, -⟩ := hpending
  have hmem := getElem?_shape_attempts ha
  split at hstep
  · rename_i hgone
    obtain ⟨live, hclient⟩ := h.attempt _ _ hmem
    cases hc.symm.trans hclient
    cases hlive
    obtain ⟨hdestroy, hsuperseded⟩ := superseded_of_gone h hmem hclient hgone
    exact absurd hsuperseded (hsole _ hdestroy)
  · cases hstep
    rfl

theorem dangling_callback (h : s.shape.Knows ks) (hsole : Sole ks) {c : Nat} {k : Callback}
    (hstep : s.callback c k = some s') : s'.dangling = s.dangling := by
  unfold callback at hstep
  split at hstep
  · cases hstep
  rename_i client hc
  split at hstep
  case isFalse => cases hstep
  rename_i hpending
  obtain ⟨hlive, attempt, ha, rfl, -⟩ := hpending
  have hmem : (attempt.client, attempt.endpoint) ∈ s.shape.attempts :=
    List.mem_map.mpr ⟨attempt, ha, rfl⟩
  split at hstep
  · rename_i hgone
    obtain ⟨live, hclient⟩ := h.attempt _ _ hmem
    cases hc.symm.trans hclient
    cases hlive
    obtain ⟨hdestroy, hsuperseded⟩ := superseded_of_gone h hmem hclient hgone
    exact absurd hsuperseded (hsole _ hdestroy)
  · split at hstep
    · cases hstep
    · cases hstep
      rfl

/-- A step of a caller accesses nothing that is deleted. -/
theorem dangling_step (h : s.shape.Knows ks) (hsole : Sole ks) (hstep : s.step e = some s') :
    s'.dangling = s.dangling := by
  cases e with
  | call k =>
    cases k with
    | construct =>
      cases hstep
      rfl
    | connect i params created accepted =>
      simp only [step, connect] at hstep
      split at hstep
      · cases hstep
      split at hstep
      case isFalse => cases hstep
      split at hstep <;> cases hstep <;> rfl
    | destroy i =>
      simp only [step, destroy] at hstep
      split at hstep
      · cases hstep
      split at hstep <;> cases hstep
      rfl
  | test i =>
    simp only [step, test] at hstep
    split at hstep <;> cases hstep
    rfl
  | clock i late =>
    simp only [step, clock] at hstep
    split at hstep
    · split at hstep <;> cases hstep <;> rfl
    · cases hstep
  | read i =>
    simp only [step, read] at hstep
    split at hstep <;> cases hstep
    rfl
  | answer a success => exact dangling_answer h hsole hstep
  | callback c k => exact dangling_callback h hsole hstep

theorem Sole.of_append {ks' : List Call} (h : Sole (ks ++ ks')) : Sole ks := by
  intro i hdestroy hsuperseded
  obtain ⟨params, params', created, accepted, hsub⟩ := hsuperseded
  exact h i (List.mem_append_left _ hdestroy)
    ⟨params, params', created, accepted, hsub.trans (List.sublist_append_left _ _)⟩

/-- No order of the steps makes a callback access what is deleted. -/
theorem dangling_run {events : List Event} (h : run step init events = some s)
    (hsole : Sole (calls events)) : s.dangling = [] := by
  have hinv : run Shape.step Shape.init (calls ([] ++ events)) = some s.shape ∧
      (Sole (calls ([] ++ events)) → s.dangling = []) := by
    refine run_past [] (I := fun past s => run Shape.step Shape.init (calls past) = some s.shape ∧
      (Sole (calls past) → s.dangling = [])) ?_ ⟨rfl, fun _ => rfl⟩ h
    rintro past s e s' ⟨hshape, hdangling⟩ hstep
    rw [calls_concat]
    refine ⟨?_, ?_⟩
    · rw [run_append, hshape]
      exact shape_step hstep
    · intro hsole
      rw [dangling_step (Shape.knows_run hshape) hsole.of_append hstep]
      exact hdangling hsole.of_append
  exact hinv.2 hsole

/-- Behind a schedule without answers, the attempt of a superseded client is answered. -/
theorem exists_dangling (h : Feasible ks) (hdestroy : .destroy i ∈ ks)
    (hsuperseded : Supersedes ks i) :
    ∃ events t, calls events = ks ∧ run step init events = some t ∧ t.dangling ≠ [] := by
  obtain ⟨events, s, rfl, hs, hresting⟩ := h.exists_schedule none
  have hknows := Shape.knows_run (run_shape hs)
  obtain ⟨c, hmem, hlive, -⟩ := hknows.superseded i hsuperseded
  have hgone := shape_client_eq_none.mp ((hknows.gone i).mp hdestroy).2
  obtain ⟨attempt, hattempt, htarget⟩ := List.mem_map.mp hmem
  cases htarget
  obtain ⟨a, ha⟩ := List.getElem?_of_mem hattempt
  have hnone : attempt.answer = none := by
    by_contra hne
    cases hresting.unanswered attempt hattempt hne
  have hpending : s.IsLive attempt.client ∧ attempt.answer = none :=
    ⟨⟨_, hlive, rfl⟩, hnone⟩
  obtain ⟨t, ht, hne⟩ : ∃ t, s.step (.answer a true) = some t ∧ t.dangling ≠ [] := by
    refine ⟨_, by simp only [step, answer, ha, hpending, hgone, and_self, if_true]; rfl, ?_⟩
    exact List.append_ne_nil_of_right_ne_nil _ (List.cons_ne_nil _ _)
  refine ⟨events ++ [.answer a true], t, ?_, ?_, hne⟩
  · rw [calls_concat]
    exact List.append_nil _
  · rw [run_append, hs, Option.bind_some]
    exact run_cons_eq_some.mpr ⟨t, ht, rfl⟩

/-- However the calls are interleaved with the other steps, no callback accesses an `Internal` that
has been deleted, if and only if no endpoint is deleted that has created a client behind one that it
had told to connect. -/
theorem callbacks_safe_iff (h : Feasible ks) :
    (∀ events t, calls events = ks → run step init events = some t → t.dangling = []) ↔
      ∀ i, .destroy i ∈ ks → ¬ Supersedes ks i := by
  constructor
  · intro hsafe i hdestroy hsuperseded
    obtain ⟨events, t, hcalls, hrun, hne⟩ := exists_dangling h hdestroy hsuperseded
    exact hne (hsafe events t hcalls hrun)
  · rintro hsole events t rfl hrun
    exact dangling_run hrun hsole

/-- The answer to the first of two attempts may come when the endpoint is gone. -/
theorem not_safe_of_reconnect : ¬ ∀ events t, calls events = reconnect →
    run step init events = some t → t.dangling = [] := by
  rw [callbacks_safe_iff feasible_reconnect]
  intro hsole
  exact hsole 0 (by simp [reconnect]) ⟨broker, broker, true, true, by simp [reconnect]⟩

end System

end Csics.Net.Connection
