import Csics.Net.Schedule

/-!
# What connect returns

`connected` holds the answer to some attempt of the endpoint (`Told`), and `connect` returns it. It
is the answer to its own attempt if and only if there is no other one (`answers_own_iff`): a call
that comes behind an answered attempt does not wait.
-/

namespace Csics.Net.Connection

open Base

/-- What `connected` is set to. -/
def code (success : Bool) : Int := if success then 1 else -1

theorem code_ne_zero (success : Bool) : code success ≠ 0 := by
  cases success <;> decide

/-- The attempt that the caller waits for. -/
def Waiting.attempt : Waiting → Option Nat
  | .idle => none
  | .testing a => some a
  | .sleeping a => some a
  | .leaving a => some a

namespace System

variable {s s' : System} {i a : Nat} {x : Internal} {e : Event} {k : Call} {ks : List Call}

/-! ## The answers -/

/-- The attempts stay what they are about, and so do the answers. -/
def Keeps (l l' : List Attempt) : Prop :=
  ∀ (a : Nat) (attempt : Attempt), l[a]? = some attempt →
    ∃ attempt' : Attempt, l'[a]? = some attempt' ∧ attempt'.endpoint = attempt.endpoint ∧
      ∀ success, attempt.answer = some success → attempt'.answer = some success

theorem Keeps.refl (l : List Attempt) : Keeps l l :=
  fun _ attempt h => ⟨attempt, h, rfl, fun _ => id⟩

theorem keeps_append (l l' : List Attempt) : Keeps l (l ++ l') := by
  intro a attempt h
  have hlt := (List.getElem?_eq_some_iff.mp h).1
  exact ⟨attempt, (List.getElem?_append_left hlt).trans h, rfl, fun _ => id⟩

/-- An attempt that has not been answered is. -/
theorem keeps_set {l : List Attempt} {attempt : Attempt} (h : l[a]? = some attempt)
    (hanswer : attempt.answer = none) (success : Bool) :
    Keeps l (l.set a { attempt with answer := some success }) := by
  intro b other hb
  by_cases hab : a = b
  · subst hab
    cases h.symm.trans hb
    have hlt := (List.getElem?_eq_some_iff.mp h).1
    refine ⟨_, List.getElem?_set_self hlt, rfl, ?_⟩
    intro other hother
    rw [hanswer] at hother
    cases hother
  · exact ⟨other, (List.getElem?_set_ne hab).trans hb, rfl, fun _ => id⟩

/-- The rules for an endpoint, and the attempts. -/
def Follows (l : List Attempt) (i : Nat) (x : Internal) : Prop :=
  (∀ a, x.waiting.attempt = some a → ∃ attempt : Attempt, l[a]? = some attempt ∧
    attempt.endpoint = i) ∧
  (∀ a, x.waiting = .leaving a → x.connected ≠ 0) ∧
  (x.connected = 0 ∨ ∃ (a : Nat) (attempt : Attempt) (success : Bool), l[a]? = some attempt ∧
    attempt.endpoint = i ∧ attempt.answer = some success ∧ x.connected = code success)

/-- The caller waits for an attempt of the endpoint, and leaves the loop when `connected` is the
answer to some attempt of the endpoint. -/
def Told (s : System) : Prop := ∀ i x, s.internals i = some x → Follows s.attempts i x

theorem told_init : init.Told := fun _ _ h => by cases h

theorem Follows.mono {l l' : List Attempt} (h : Follows l i x) (hkeeps : Keeps l l') :
    Follows l' i x := by
  obtain ⟨hwaits, hleaves, hanswered⟩ := h
  refine ⟨?_, hleaves, hanswered.imp_right ?_⟩
  · intro a ha
    obtain ⟨attempt, hattempt, rfl⟩ := hwaits a ha
    obtain ⟨attempt', hattempt', hendpoint, -⟩ := hkeeps a attempt hattempt
    exact ⟨attempt', hattempt', hendpoint⟩
  · rintro ⟨a, attempt, success, ha, rfl, hanswer, hconnected⟩
    obtain ⟨attempt', ha', hendpoint, hanswer'⟩ := hkeeps a attempt ha
    exact ⟨a, attempt', success, ha', hendpoint, hanswer' success hanswer, hconnected⟩

/-- Only one endpoint is different. -/
theorem Told.of_update (h : s.Told) (hkeeps : Keeps s.attempts s'.attempts) {v : Option Internal}
    (hinternals : s'.internals = Function.update s.internals i v)
    (hnew : ∀ y, v = some y → Follows s'.attempts i y) : s'.Told := by
  intro j y hy
  rw [hinternals] at hy
  by_cases hj : j = i
  · subst hj
    rw [Function.update_self] at hy
    exact hnew y hy
  · rw [Function.update_of_ne hj] at hy
    exact (h j y hy).mono hkeeps

theorem Told.construct (h : s.Told) : s.construct.Told := by
  refine h.of_update (Keeps.refl _) rfl ?_
  rintro y ⟨⟩
  exact ⟨(fun _ ha => by cases ha), (fun _ ha => by cases ha), Or.inl rfl⟩

theorem Told.connect {params : MQTTConnectionParams} {created accepted : Bool} (h : s.Told)
    (hstep : s.connect i params created accepted = some s') : s'.Told := by
  unfold System.connect at hstep
  split at hstep
  · cases hstep
  rename_i x hx
  split at hstep
  case isFalse => cases hstep
  split at hstep
  · cases hstep
    have hkeeps := keeps_append s.attempts [⟨‹Nat›, i, params.options, none⟩]
    refine h.of_update hkeeps rfl ?_
    rintro y ⟨⟩
    refine ⟨?_, (fun _ ha => by cases ha), ((h i x hx).mono hkeeps).2.2⟩
    rintro a ⟨⟩
    exact ⟨_, List.getElem?_concat_length, rfl⟩
  · cases hstep
  · cases hstep
    refine h.of_update (Keeps.refl _) rfl ?_
    rintro y ⟨⟩
    exact ⟨(fun _ ha => by cases ha), (fun _ ha => by cases ha), (h i x hx).2.2⟩

theorem Told.destroy (h : s.Told) (hstep : s.destroy i = some s') : s'.Told := by
  unfold System.destroy at hstep
  split at hstep
  · cases hstep
  split at hstep
  case isFalse => cases hstep
  cases hstep
  refine h.of_update (Keeps.refl _) rfl ?_
  rintro y ⟨⟩

theorem Told.test (h : s.Told) (hstep : s.test i = some s') : s'.Told := by
  unfold System.test at hstep
  split at hstep
  · rename_i client params connected a hx
    obtain ⟨hwaits, -, hanswered⟩ := h i _ hx
    cases hstep
    refine h.of_update (Keeps.refl _) rfl ?_
    rintro y ⟨⟩
    by_cases hzero : connected = 0
    · rw [if_pos hzero]
      exact ⟨hwaits, (fun _ ha => by cases ha), hanswered⟩
    · rw [if_neg hzero]
      exact ⟨hwaits, fun _ _ => hzero, hanswered⟩
  · cases hstep

theorem Told.clock {late : Bool} (h : s.Told) (hstep : s.clock i late = some s') : s'.Told := by
  unfold System.clock at hstep
  split at hstep
  · rename_i client params connected a hx
    obtain ⟨hwaits, -, hanswered⟩ := h i _ hx
    split at hstep
    · cases hstep
      refine h.of_update (Keeps.refl _) rfl ?_
      rintro y ⟨⟩
      exact ⟨(fun _ ha => by cases ha), (fun _ ha => by cases ha), hanswered⟩
    · cases hstep
      refine h.of_update (Keeps.refl _) rfl ?_
      rintro y ⟨⟩
      exact ⟨hwaits, (fun _ ha => by cases ha), hanswered⟩
  · cases hstep

theorem Told.read (h : s.Told) (hstep : s.read i = some s') : s'.Told := by
  unfold System.read at hstep
  split at hstep
  · rename_i client params connected a hx
    cases hstep
    refine h.of_update (Keeps.refl _) rfl ?_
    rintro y ⟨⟩
    exact ⟨(fun _ ha => by cases ha), (fun _ ha => by cases ha), (h i _ hx).2.2⟩
  · cases hstep

theorem Told.answer {success : Bool} (h : s.Told) (hstep : s.answer a success = some s') :
    s'.Told := by
  unfold System.answer at hstep
  split at hstep
  · cases hstep
  rename_i attempt ha
  split at hstep
  case isFalse => cases hstep
  rename_i hpending
  have hkeeps := keeps_set ha hpending.2 success
  split at hstep
  · cases hstep
    intro i x hx
    exact (h i x hx).mono hkeeps
  · rename_i x hx
    cases hstep
    refine h.of_update hkeeps rfl ?_
    rintro y ⟨⟩
    have hlt := (List.getElem?_eq_some_iff.mp ha).1
    obtain ⟨hwaits, -, -⟩ := (h attempt.endpoint x hx).mono hkeeps
    exact ⟨hwaits, fun _ _ => code_ne_zero success,
      Or.inr ⟨a, _, success, List.getElem?_set_self hlt, rfl, rfl, rfl⟩⟩

theorem Told.step (h : s.Told) (hstep : s.step e = some s') : s'.Told := by
  cases e with
  | call k =>
    cases k with
    | construct =>
      cases hstep
      exact h.construct
    | connect i params created accepted => exact h.connect hstep
    | destroy i => exact h.destroy hstep
  | test i => exact h.test hstep
  | clock i late => exact h.clock hstep
  | read i => exact h.read hstep
  | answer a success => exact h.answer hstep
  | callback c k =>
    simp only [System.step, callback] at hstep
    split at hstep
    · cases hstep
    split at hstep
    case isFalse => cases hstep
    split at hstep
    · cases hstep
      exact h
    · split at hstep <;> cases hstep
      exact h

/-! ## One attempt -/

/-- An endpoint has two attempts only if it has started both. -/
def Single (ks : List Call) (l : List (Nat × Nat)) : Prop :=
  ∀ (a b c d i : Nat), l[a]? = some (c, i) → l[b]? = some (d, i) → a = b ∨ Twice ks i

theorem single_step {t t' : Shape} (h : Single ks t.attempts) (hks : t.Knows ks)
    (hstep : t.step k = some t') : Single (ks ++ [k]) t'.attempts := by
  have hold {a b c d i : Nat} (ha : t.attempts[a]? = some (c, i))
      (hb : t.attempts[b]? = some (d, i)) : a = b ∨ Twice (ks ++ [k]) i :=
    (h a b c d i ha hb).imp_right fun htwice => twice_concat.mpr (Or.inl htwice)
  cases k with
  | construct =>
    cases hstep
    exact fun a b c d i => hold
  | destroy i =>
    obtain ⟨client, -, rfl⟩ := Option.map_eq_some_iff.mp hstep
    exact fun a b c d i => hold
  | connect j params created accepted =>
    rw [Shape.step] at hstep
    split at hstep
    case isFalse => cases hstep
    have hattempts : (if created = true then t.create j else t).attempts = t.attempts := by
      cases created <;> rfl
    cases accepted with
    | false =>
      cases hstep
      rw [hattempts]
      exact fun a b c d i => hold
    | true =>
      obtain ⟨c', -, rfl⟩ := Option.map_eq_some_iff.mp hstep
      dsimp only
      rw [hattempts]
      -- a new attempt of an endpoint that has one is the second one that the endpoint has started
      have hnew {a c i : Nat} (ha : t.attempts[a]? = some (c, i)) (hi : j = i) :
          Twice (ks ++ [.connect j params created true]) i := by
        have hstarts : Starts ks i := (hks.started i).mpr ⟨c, List.mem_of_getElem? ha⟩
        exact twice_concat.mpr (Or.inr ⟨hstarts, params, created, by rw [hi]⟩)
      intro a b c d i ha hb
      rcases getElem?_concat_eq_some.mp ha with ha | ⟨rfl, heq⟩
      · rcases getElem?_concat_eq_some.mp hb with hb | ⟨rfl, heq⟩
        · exact hold ha hb
        · cases heq
          exact Or.inr (hnew ha rfl)
      · rcases getElem?_concat_eq_some.mp hb with hb | ⟨rfl, -⟩
        · cases heq
          exact Or.inr (hnew hb rfl)
        · exact Or.inl rfl

theorem single_run {t : Shape} (h : run Shape.step Shape.init ks = some t) :
    Single ks t.attempts := by
  have hinv := run_past []
    (I := fun ks t => t.Knows ks ∧ Single ks t.attempts) ?_
    ⟨Shape.knows_init, fun a b c d i ha => by cases ha⟩ h
  · exact hinv.2
  · rintro past t k t' ⟨hks, hsingle⟩ hstep
    exact ⟨hks.step hstep, single_step hsingle hks hstep⟩

/-! ## What is reported -/

/-- A true report stays true. -/
theorem Report.IsTrue.mono {l l' : List Attempt} {r : Report} (h : Report.IsTrue l r)
    (hkeeps : Keeps l l') : Report.IsTrue l' r := by
  intro a ha
  obtain ⟨attempt, hattempt, hsuccess, herror⟩ := h a ha
  obtain ⟨attempt', hattempt', -, hanswer⟩ := hkeeps a attempt hattempt
  exact ⟨attempt', hattempt', fun h => hanswer _ (hsuccess h), fun h => hanswer _ (herror h)⟩

theorem Truthful.of_append (h : s.Truthful) (hkeeps : Keeps s.attempts s'.attempts)
    {rs : List Report} (hreports : s'.reports = s.reports ++ rs)
    (hnew : ∀ r ∈ rs, Report.IsTrue s'.attempts r) : s'.Truthful := by
  intro r hr
  rw [hreports] at hr
  rcases List.mem_append.mp hr with hr | hr
  · exact Report.IsTrue.mono (h r hr) hkeeps
  · exact hnew r hr

theorem Truthful.of_eq (h : s.Truthful) (hkeeps : Keeps s.attempts s'.attempts)
    (hreports : s'.reports = s.reports) : s'.Truthful :=
  h.of_append hkeeps (hreports.trans (List.append_nil _).symm)
    fun _ hr => absurd hr List.not_mem_nil

theorem Truthful.connect {params : MQTTConnectionParams} {created accepted : Bool}
    (h : s.Truthful) (hstep : s.connect i params created accepted = some s') : s'.Truthful := by
  unfold System.connect at hstep
  split at hstep
  · cases hstep
  split at hstep
  case isFalse => cases hstep
  split at hstep
  · cases hstep
    exact h.of_eq (keeps_append _ _) rfl
  · cases hstep
  · cases hstep
    refine h.of_append (Keeps.refl _) rfl ?_
    intro r hr a ha
    cases List.mem_singleton.mp hr
    cases ha

theorem Truthful.destroy (h : s.Truthful) (hstep : s.destroy i = some s') : s'.Truthful := by
  unfold System.destroy at hstep
  split at hstep
  · cases hstep
  split at hstep
  case isFalse => cases hstep
  cases hstep
  exact h.of_eq (Keeps.refl _) rfl

theorem Truthful.test (h : s.Truthful) (hstep : s.test i = some s') : s'.Truthful := by
  unfold System.test at hstep
  split at hstep
  · cases hstep
    exact h.of_eq (Keeps.refl _) rfl
  · cases hstep

theorem Truthful.clock {late : Bool} (h : s.Truthful) (htold : s.Told)
    (hstep : s.clock i late = some s') : s'.Truthful := by
  unfold System.clock at hstep
  split at hstep
  · rename_i client params connected a hx
    split at hstep
    · cases hstep
      refine h.of_append (Keeps.refl _) rfl ?_
      intro r hr b hb
      cases List.mem_singleton.mp hr
      cases hb
      obtain ⟨hwaits, -, -⟩ := htold i _ hx
      obtain ⟨attempt, ha, -⟩ := hwaits a rfl
      exact ⟨attempt, ha, (fun h => by cases h), (fun h => by cases h)⟩
    · cases hstep
      exact h.of_eq (Keeps.refl _) rfl
  · cases hstep

/-- What is in `connected` is the answer to the only attempt there is. -/
theorem Truthful.read (h : s.Truthful) (htold : s.Told)
    (hsingle : Single ks s.shape.attempts) (hks : ∀ i, ¬ Twice ks i)
    (hstep : s.read i = some s') : s'.Truthful := by
  unfold System.read at hstep
  split at hstep
  case h_2 => cases hstep
  rename_i client params connected a hx
  obtain ⟨hwaits, hleaves, hanswered⟩ := htold i _ hx
  obtain ⟨attempt, ha, hendpoint⟩ := hwaits a rfl
  obtain ⟨b, answered, success, hb, hanswered, hanswer, hcode⟩ :=
    hanswered.resolve_left (hleaves a rfl)
  have htarget {n : Nat} {attempt : Attempt} (hn : s.attempts[n]? = some attempt)
      (hi : attempt.endpoint = i) : s.shape.attempts[n]? = some (attempt.client, i) := by
    have hmap : s.shape.attempts[n]? = (s.attempts[n]?).map Attempt.target := List.getElem?_map
    rw [hmap, hn, ← hi]
    rfl
  have hab : a = b :=
    (hsingle a b _ _ i (htarget ha hendpoint) (htarget hb hanswered)).resolve_right (hks i)
  subst hab
  cases ha.symm.trans hb
  cases hstep
  refine h.of_append (Keeps.refl _) rfl ?_
  intro r hr c hc
  cases List.mem_singleton.mp hr
  cases hc
  refine ⟨attempt, ha, ?_, ?_⟩
  · intro hstatus
    cases success with
    | true => exact hanswer
    | false =>
      have hminus : connected = -1 := hcode
      rw [if_pos hminus] at hstatus
      cases hstatus
  · intro hstatus
    cases success with
    | true =>
      have hone : connected = 1 := hcode
      rw [if_neg (by omega)] at hstatus
      cases hstatus
    | false => exact hanswer

theorem Truthful.answer {success : Bool} (h : s.Truthful)
    (hstep : s.answer a success = some s') : s'.Truthful := by
  unfold System.answer at hstep
  split at hstep
  · cases hstep
  rename_i attempt ha
  split at hstep
  case isFalse => cases hstep
  rename_i hpending
  have hkeeps := keeps_set ha hpending.2 success
  split at hstep <;> cases hstep <;> exact h.of_eq hkeeps rfl

theorem Truthful.callback {c : Nat} {k : Callback} (h : s.Truthful)
    (hstep : s.callback c k = some s') : s'.Truthful := by
  unfold System.callback at hstep
  split at hstep
  · cases hstep
  split at hstep
  case isFalse => cases hstep
  split at hstep
  · cases hstep
    exact h
  · split at hstep <;> cases hstep
    exact h

theorem Truthful.step (h : s.Truthful) (htold : s.Told) (hsingle : Single ks s.shape.attempts)
    (hks : ∀ i, ¬ Twice ks i) (hstep : s.step e = some s') : s'.Truthful := by
  cases e with
  | call k =>
    cases k with
    | construct =>
      cases hstep
      exact h
    | connect i params created accepted => exact h.connect hstep
    | destroy i => exact h.destroy hstep
  | test i => exact h.test hstep
  | clock i late => exact h.clock htold hstep
  | read i => exact h.read htold hsingle hks hstep
  | answer a success => exact h.answer hstep
  | callback c k => exact h.callback hstep

theorem not_twice_of_append {ks' : List Call} (h : ∀ i, ¬ Twice (ks ++ ks') i) (i : Nat) :
    ¬ Twice ks i := by
  rintro ⟨params, params', created, created', hsub⟩
  exact h i ⟨params, params', created, created', hsub.trans (List.sublist_append_left _ _)⟩

theorem truthful_run {events : List Event} (h : run System.step init events = some s)
    (hks : ∀ i, ¬ Twice (calls events) i) : s.Truthful := by
  have hinv := run_past []
    (I := fun past s => run Shape.step Shape.init (calls past) = some s.shape ∧ s.Told ∧
      ((∀ i, ¬ Twice (calls past) i) → s.Truthful)) ?_
    ⟨rfl, told_init, fun _ _ hr => absurd hr List.not_mem_nil⟩ h
  · exact hinv.2.2 hks
  · rintro past s e s' ⟨hshape, htold, htruthful⟩ hstep
    rw [calls_concat]
    refine ⟨?_, htold.step hstep, ?_⟩
    · rw [run_append, hshape]
      exact shape_step hstep
    · intro hks
      have hpast := not_twice_of_append hks
      exact (htruthful hpast).step htold (single_run hshape) hpast hstep

theorem Lies.not_truthful (h : s.Lies) : ¬ s.Truthful := by
  obtain ⟨a, attempt, hr, ha, hanswer⟩ := h
  intro htruthful
  obtain ⟨attempt', ha', hsuccess, -⟩ := htruthful _ hr a rfl
  cases ha.symm.trans ha'
  have htrue := hsuccess rfl
  rw [hanswer] at htrue
  cases htrue

/-- However the calls are interleaved with the other steps, every success and every error that
`connect` returns behind its loop is the answer to its own attempt, if and only if no endpoint
starts two attempts. -/
theorem answers_own_iff (h : Feasible ks) :
    (∀ events t, calls events = ks → run System.step init events = some t → t.Truthful) ↔
      ∀ i, ¬ Twice ks i := by
  constructor
  · intro htruthful i htwice
    obtain ⟨events, t, hcalls, hrun, hresting⟩ := h.exists_schedule (some i)
    exact (hresting.lies i rfl htwice).not_truthful (htruthful events t hcalls hrun)
  · rintro hks events t rfl hrun
    exact truthful_run hrun hks

/-- The second of two calls may report what the first one was told. -/
theorem not_truthful_of_reconnect : ¬ ∀ events t, calls events = reconnect →
    run System.step init events = some t → t.Truthful := by
  rw [answers_own_iff feasible_reconnect]
  intro hks
  exact hks 0 ⟨broker, broker, true, true, by simp [reconnect]⟩

end System

end Csics.Net.Connection
