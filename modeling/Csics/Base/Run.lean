import Mathlib.Logic.Basic

/-!
# Runs of a partial step function

`step s a` is the state after the action `a`, or `none` when `a` is not available in `s`
or has no defined effect. `run` performs a list of actions in order. A condition
`ok s a` on an action and the state it starts from is lifted to a run by `Guarded`: every
action of the list meets the condition in the state where it is performed. `Ends` says that the
actions cannot go on for ever.

`run_induction` is the invariant rule: a property of the first state that every guarded
step keeps holds of the last state of every guarded run. `guarded_append` cuts a guarded
run at any of its states. `Always` is about the states on the way, and `always_iff_guarded` tells
when they all have a property.
-/

namespace Csics.Base

variable {σ α : Type*}

/-- Perform the actions in order. -/
def run (step : σ → α → Option σ) (s : σ) : List α → Option σ
  | [] => some s
  | a :: as => (step s a).bind fun s' => run step s' as

/-- Every action of the run meets the condition `ok` in the state it starts from. -/
def Guarded (step : σ → α → Option σ) (ok : σ → α → Prop) (s : σ) : List α → Prop
  | [] => True
  | a :: as => ok s a ∧ ∀ s', step s a = some s' → Guarded step ok s' as

/-- The run goes through, and the property holds of every state on its way. -/
def Always (step : σ → α → Option σ) (P : σ → Prop) (s : σ) : List α → Prop
  | [] => P s
  | a :: as => P s ∧ ∃ s', step s a = some s' ∧ Always step P s' as

/-- No run of the steps goes on for ever. -/
def Ends (step : σ → α → Option σ) (s : σ) : Prop :=
  ¬ ∃ u : Nat → σ, u 0 = s ∧ ∀ n, ∃ a, step (u n) a = some (u (n + 1))

/-- No run goes on for ever, and where nothing can go on the property holds. -/
def EndsIn (step : σ → α → Option σ) (P : σ → Prop) (s : σ) : Prop :=
  Ends step s ∧ ∀ as t, run step s as = some t → (∀ a, step t a = none) → P t

variable {step : σ → α → Option σ} {ok : σ → α → Prop} {s s' t : σ} {a : α} {as bs : List α}

@[simp] theorem run_nil : run step s [] = some s := rfl

theorem run_cons : run step s (a :: as) = (step s a).bind fun s' => run step s' as := rfl

theorem run_cons_eq_some :
    run step s (a :: as) = some t ↔ ∃ s', step s a = some s' ∧ run step s' as = some t := by
  rw [run_cons, Option.bind_eq_some_iff]

theorem run_append : run step s (as ++ bs) = (run step s as).bind fun t => run step t bs := by
  induction as generalizing s with
  | nil => rfl
  | cons a as ih =>
    rw [List.cons_append, run_cons, run_cons]
    cases step s a with
    | none => rfl
    | some s' => exact ih

theorem run_concat_eq_some :
    run step s (as ++ [a]) = some t ↔ ∃ s', run step s as = some s' ∧ step s' a = some t := by
  rw [run_append, Option.bind_eq_some_iff]
  simp only [run_cons, run_nil, Option.bind_fun_some]

theorem guarded_cons_of_eq_some (h : step s a = some s') :
    Guarded step ok s (a :: as) ↔ ok s a ∧ Guarded step ok s' as := by
  constructor
  · rintro ⟨hok, hrest⟩
    exact ⟨hok, hrest s' h⟩
  · rintro ⟨hok, hrest⟩
    refine ⟨hok, ?_⟩
    intro t ht
    cases h.symm.trans ht
    exact hrest

theorem guarded_cons_of_eq_none (h : step s a = none) :
    Guarded step ok s (a :: as) ↔ ok s a := by
  constructor
  · rintro ⟨hok, -⟩
    exact hok
  · intro hok
    refine ⟨hok, ?_⟩
    intro t ht
    cases h.symm.trans ht

theorem guarded_of_forall (hok : ∀ s a, ok s a) : Guarded step ok s as := by
  induction as generalizing s with
  | nil => trivial
  | cons a as ih => exact ⟨hok s a, fun _ _ => ih⟩

/-- A property that every guarded step keeps holds after every guarded run. -/
theorem run_induction {I : σ → Prop} (hstep : ∀ s a s', I s → ok s a → step s a = some s' → I s')
    (h0 : I s) (hok : Guarded step ok s as) (hrun : run step s as = some t) : I t := by
  induction as generalizing s with
  | nil =>
    cases hrun
    exact h0
  | cons a as ih =>
    obtain ⟨s', hs', hrest⟩ := run_cons_eq_some.mp hrun
    exact ih (hstep s a s' h0 hok.1 hs') (hok.2 s' hs') hrest

/-- A property that every step keeps holds after every run. -/
theorem run_preserves {I : σ → Prop} (hstep : ∀ s a s', I s → step s a = some s' → I s')
    (h0 : I s) (hrun : run step s as = some t) : I t := by
  induction as generalizing s with
  | nil =>
    cases hrun
    exact h0
  | cons a as ih =>
    obtain ⟨s', hs', hrest⟩ := run_cons_eq_some.mp hrun
    exact ih (hstep s a s' h0 hs') hrest

/-- The same for a property that is about the past actions too. -/
theorem run_past (past : List α) {I : List α → σ → Prop}
    (hstep : ∀ past s a s', I past s → step s a = some s' → I (past ++ [a]) s')
    (h0 : I past s) (hrun : run step s as = some t) : I (past ++ as) t := by
  induction as generalizing s past with
  | nil =>
    cases hrun
    rw [List.append_nil]
    exact h0
  | cons a as ih =>
    obtain ⟨s', hs', hrest⟩ := run_cons_eq_some.mp hrun
    rw [List.append_cons]
    exact ih (past ++ [a]) (hstep past s a s' h0 hs') hrest

/-- Two conditions that agree wherever the first one leads guard the same runs. -/
theorem guarded_congr {ok' : σ → α → Prop} {I : σ → Prop}
    (hiff : ∀ s a, I s → (ok s a ↔ ok' s a))
    (hstep : ∀ s a s', I s → ok s a → step s a = some s' → I s') (h0 : I s) :
    Guarded step ok s as ↔ Guarded step ok' s as := by
  induction as generalizing s with
  | nil => rfl
  | cons a as ih =>
    constructor
    · rintro ⟨hok, hrest⟩
      refine ⟨(hiff s a h0).mp hok, ?_⟩
      intro s' hs'
      exact (ih (hstep s a s' h0 hok hs')).mp (hrest s' hs')
    · rintro ⟨hok', hrest⟩
      have hok := (hiff s a h0).mpr hok'
      refine ⟨hok, ?_⟩
      intro s' hs'
      exact (ih (hstep s a s' h0 hok hs')).mpr (hrest s' hs')

/-- The same for a run that does not get stuck: the conditions need to agree on its steps only. -/
theorem guarded_congr_of_run {ok' : σ → α → Prop} {I : σ → Prop}
    (hiff : ∀ s a s', I s → step s a = some s' → (ok s a ↔ ok' s a))
    (hstep : ∀ s a s', I s → ok s a → step s a = some s' → I s') (h0 : I s)
    (hrun : run step s as = some t) : Guarded step ok s as ↔ Guarded step ok' s as := by
  induction as generalizing s with
  | nil => rfl
  | cons a as ih =>
    obtain ⟨s', hs', hrest⟩ := run_cons_eq_some.mp hrun
    rw [guarded_cons_of_eq_some hs', guarded_cons_of_eq_some hs', ← hiff s a s' h0 hs']
    apply and_congr_right
    intro hok
    exact ih (hstep s a s' h0 hok hs') hrest

/-- A step that does not meet the condition leads to where no step leads out: the end of the run
tells whether all of its steps did. -/
theorem run_guarded_or (ok : σ → α → Prop) {I J : σ → Prop}
    (hstep : ∀ s a s', I s → ok s a → step s a = some s' → I s')
    (hleave : ∀ s a s', I s → ¬ ok s a → step s a = some s' → J s')
    (hstay : ∀ s a s', J s → step s a = some s' → J s') (h0 : I s) (hrun : run step s as = some t) :
    Guarded step ok s as ∧ I t ∨ ¬ Guarded step ok s as ∧ J t := by
  induction as generalizing s with
  | nil =>
    cases hrun
    exact Or.inl ⟨trivial, h0⟩
  | cons a as ih =>
    obtain ⟨s', hs', hrest⟩ := run_cons_eq_some.mp hrun
    rw [guarded_cons_of_eq_some hs']
    by_cases hok : ok s a
    · rcases ih (hstep s a s' h0 hok hs') hrest with ⟨hguarded, hI⟩ | ⟨hguarded, hJ⟩
      · exact Or.inl ⟨⟨hok, hguarded⟩, hI⟩
      · exact Or.inr ⟨fun h => hguarded h.2, hJ⟩
    · have hJ := hleave s a s' h0 hok hs'
      exact Or.inr ⟨fun h => hok h.1, run_preserves hstay hJ hrest⟩

/-- Steps that lower a number are no more than this number. -/
theorem run_length_le {m : σ → Nat} {p : α → Prop}
    (hstep : ∀ s a s', p a → step s a = some s' → m s' < m s) (hp : ∀ a ∈ as, p a)
    (hrun : run step s as = some t) : as.length + m t ≤ m s := by
  induction as generalizing s with
  | nil =>
    cases hrun
    exact Nat.le_of_eq (Nat.zero_add _)
  | cons a as ih =>
    obtain ⟨s', hs', hrest⟩ := run_cons_eq_some.mp hrun
    have hlt := hstep s a s' (hp a List.mem_cons_self) hs'
    have hle := ih (fun b hb => hp b (List.mem_cons_of_mem _ hb)) hrest
    rw [List.length_cons]
    omega

/-- No run of such steps goes on for ever. -/
theorem ends_of_lt {I : σ → Prop} {m : σ → Nat}
    (hstep : ∀ s a s', I s → step s a = some s' → I s' ∧ m s' < m s) (h0 : I s) :
    Ends step s := by
  intro hrun
  obtain ⟨u, rfl, hu⟩ := hrun
  have hlower : ∀ n, I (u n) ∧ m (u n) + n ≤ m (u 0) := by
    intro n
    induction n with
    | zero => exact ⟨h0, Nat.le_refl _⟩
    | succ n ih =>
      obtain ⟨a, ha⟩ := hu n
      obtain ⟨hI, hlt⟩ := hstep _ a _ ih.1 ha
      exact ⟨hI, by omega⟩
  have hbound := (hlower (m (u 0) + 1)).2
  omega

/-- A step that leads back goes on for ever. -/
theorem not_ends_of_self (h : step s a = some s) : ¬ Ends step s := by
  intro hends
  exact hends ⟨fun _ => s, rfl, fun _ => ⟨a, h⟩⟩

instance Guarded.decide [∀ s a, Decidable (ok s a)] :
    ∀ (as : List α) (s : σ), Decidable (Guarded step ok s as)
  | [], _ => isTrue trivial
  | a :: as, s =>
    match h : step s a with
    | none => decidable_of_iff (ok s a) (by simp [Guarded, h])
    | some s' =>
      haveI := Guarded.decide as s'
      decidable_of_iff (ok s a ∧ Guarded step ok s' as) (by simp [Guarded, h])

/-- The prefix of a guarded run is guarded, and so is the rest from where it ends. -/
theorem guarded_append : Guarded step ok s (as ++ bs) ↔
    Guarded step ok s as ∧ ∀ t, run step s as = some t → Guarded step ok t bs := by
  induction as generalizing s with
  | nil => simp [Guarded]
  | cons a as ih =>
    simp only [List.cons_append, Guarded, ih, run_cons_eq_some]
    constructor
    · rintro ⟨h1, h2⟩
      exact ⟨⟨h1, fun s' hs' => (h2 s' hs').1⟩, fun t ⟨s', hs', ht⟩ => (h2 s' hs').2 t ht⟩
    · rintro ⟨⟨h1, h2⟩, h3⟩
      exact ⟨h1, fun s' hs' => ⟨h2 s' hs', fun t ht => h3 t ⟨s', hs', ht⟩⟩⟩

/-- Where a step is possible if and only if it meets the condition, a run is. -/
theorem exists_run_iff_guarded {valid : σ → α → Prop} {I : σ → Prop}
    (hstep : ∀ s a, I s → valid s a → ((∃ s', step s a = some s') ↔ ok s a))
    (hkeep : ∀ s a s', I s → valid s a → step s a = some s' → I s') (h0 : I s)
    (hvalid : Guarded step valid s as) : (∃ t, run step s as = some t) ↔ Guarded step ok s as := by
  induction as generalizing s with
  | nil => exact iff_of_true ⟨s, rfl⟩ trivial
  | cons a as ih =>
    obtain ⟨hvalid, hrest⟩ := hvalid
    constructor
    · rintro ⟨t, hrun⟩
      obtain ⟨s', hs', hrun'⟩ := run_cons_eq_some.mp hrun
      exact (guarded_cons_of_eq_some hs').mpr ⟨(hstep s a h0 hvalid).mp ⟨s', hs'⟩,
        (ih (hkeep s a s' h0 hvalid hs') (hrest s' hs')).mp ⟨t, hrun'⟩⟩
    · rintro ⟨hok, hguarded⟩
      obtain ⟨s', hs'⟩ := (hstep s a h0 hvalid).mpr hok
      obtain ⟨t, ht⟩ := (ih (hkeep s a s' h0 hvalid hs') (hrest s' hs')).mpr (hguarded s' hs')
      exact ⟨t, run_cons_eq_some.mpr ⟨s', hs', ht⟩⟩

/-- The property holds after every beginning of the run. -/
theorem always_iff {P : σ → Prop} : Always step P s as ↔
    ∀ before after, as = before ++ after → ∃ t, run step s before = some t ∧ P t := by
  induction as generalizing s with
  | nil =>
    constructor
    · intro h before after hsplit
      obtain ⟨rfl, -⟩ := List.append_eq_nil_iff.mp hsplit.symm
      exact ⟨s, rfl, h⟩
    · intro h
      obtain ⟨t, ht, hP⟩ := h [] [] rfl
      cases ht
      exact hP
  | cons a as ih =>
    constructor
    · rintro ⟨hs, s', hstep, hrest⟩ before after hsplit
      cases before with
      | nil => exact ⟨s, rfl, hs⟩
      | cons b before =>
        obtain ⟨rfl, hsplit'⟩ := List.cons.inj hsplit
        obtain ⟨t, ht, hP⟩ := ih.mp hrest before after hsplit'
        exact ⟨t, run_cons_eq_some.mpr ⟨s', hstep, ht⟩, hP⟩
    · intro h
      obtain ⟨t, ht, hs⟩ := h [] (a :: as) rfl
      cases ht
      obtain ⟨s', hs', -⟩ := h [a] as rfl
      obtain ⟨s', hstep, hnil⟩ := run_cons_eq_some.mp hs'
      refine ⟨hs, s', hstep, ih.mpr ?_⟩
      intro before after hsplit
      obtain ⟨t, ht, hP⟩ := h (a :: before) after (congrArg _ hsplit)
      obtain ⟨s'', hstep', hrest⟩ := run_cons_eq_some.mp ht
      cases hstep.symm.trans hstep'
      exact ⟨t, hrest, hP⟩

/-- Where a step leads to the property again if and only if it meets the condition, the property
always holds if and only if all steps do. -/
theorem always_iff_guarded {valid : σ → α → Prop} {P I : σ → Prop}
    (hstep : ∀ s a, I s → valid s a →
      ((∃ s', step s a = some s' ∧ P s') ↔ ok s a))
    (hkeep : ∀ s a s', I s → valid s a → ok s a → step s a = some s' → I s')
    (h0 : I s) (hP : P s) (hvalid : Guarded step valid s as) :
    Always step P s as ↔ Guarded step ok s as := by
  induction as generalizing s with
  | nil => exact iff_of_true hP trivial
  | cons a as ih =>
    obtain ⟨hvalid, hrest⟩ := hvalid
    constructor
    · rintro ⟨-, s', hs', halways⟩
      have hP' : P s' := by
        cases as with
        | nil => exact halways
        | cons b as => exact halways.1
      have hok := (hstep s a h0 hvalid).mp ⟨s', hs', hP'⟩
      exact (guarded_cons_of_eq_some hs').mpr ⟨hok,
        (ih (hkeep s a s' h0 hvalid hok hs') hP' (hrest s' hs')).mp halways⟩
    · rintro ⟨hok, hguarded⟩
      obtain ⟨s', hs', hP'⟩ := (hstep s a h0 hvalid).mpr hok
      exact ⟨hP, s', hs',
        (ih (hkeep s a s' h0 hvalid hok hs') hP' (hrest s' hs')).mpr (hguarded s' hs')⟩

section

variable {β : Type*} {small : σ → β → Option σ} {emit : σ → α → List β}

/-- The small actions that a run consists of, when `emit` gives those of each action. -/
def expand (step : σ → α → Option σ) (emit : σ → α → List β) : σ → List α → List β
  | _, [] => []
  | s, a :: as =>
    emit s a ++
      match step s a with
      | none => []
      | some s' => expand step emit s' as

/-- Where each action is a run of its small actions, so is each run. -/
theorem run_expand (h : ∀ s a s', step s a = some s' → run small s (emit s a) = some s')
    (hrun : run step s as = some t) : run small s (expand step emit s as) = some t := by
  induction as generalizing s with
  | nil => exact hrun
  | cons a as ih =>
    obtain ⟨s', hstep, hrest⟩ := run_cons_eq_some.mp hrun
    rw [expand, run_append, h s a s' hstep, Option.bind_some, hstep]
    exact ih hrest

end

end Csics.Base
