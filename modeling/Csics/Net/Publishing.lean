import Csics.Net.MQTTEndpoint

/-!
# Messages that wait for their delivery

`publish` keeps a message in `pending_messages` until Paho reports its delivery. It does so in two
steps: `MQTTAsync_send` hands the message over and yields the token, and `emplace_back` appends the
entry. From the first step on, Paho's thread may call `dlv_cmplt` with the token. A callback that
comes between the two steps finds no entry, and the one that is appended behind it stays.

No other entry is lost or left over. An entry leaves `pending_messages` with its own callback only
(`run_keeps`), and at the end the vector is empty if and only if no callback came too early
(`run_pending_iff`).
-/

namespace Csics.Net.MQTT

open Base

/-- `MQTTAsync_token`. -/
abbrev Token := Int

/-- An element of `pending_messages`. -/
structure PendingMessage where
  timeStamp : Nat
  token : Token
  message : MQTTMessage
  deriving DecidableEq, Repr

/-- A call of `publish` that `MQTTAsync_send` has returned to. -/
structure Publication where
  token : Token
  message : MQTTMessage
  deriving DecidableEq, Repr

/-- The calls of `publish` between their steps and `pending_messages`. Of Paho the state has the
tokens so far, and those without a callback. -/
structure Publisher where
  publishing : List Publication
  pendingMessages : List PendingMessage
  sent : List Token
  undelivered : List Token
  deriving DecidableEq, Repr

namespace Publisher

def init : Publisher := ⟨[], [], [], []⟩

/-! ## The steps -/

/-- `MQTTAsync_send`, which yields a token if it succeeds. Otherwise `publish` returns. -/
def send (s : Publisher) (message : MQTTMessage) :
    Option Token → Publisher × Option NetResult
  | none => (s, some ⟨.error, 0⟩)
  | some token =>
    ({ s with
        publishing := s.publishing ++ [⟨token, message⟩]
        sent := s.sent ++ [token]
        undelivered := s.undelivered ++ [token] }, none)

/-- `emplace_back`, and the end of `publish`. -/
def append (s : Publisher) (p : Publication) (now : Nat) : Publisher × NetResult :=
  ({ s with
      publishing := s.publishing.erase p
      pendingMessages := s.pendingMessages ++ [⟨now, p.token, p.message.move.1⟩] },
    ⟨.success, p.message.payload.length⟩)

/-- `dlv_cmplt`. -/
def dlvCmplt (s : Publisher) (token : Token) : Publisher :=
  { s with
    pendingMessages := s.pendingMessages.filter fun entry => !(entry.token == token)
    undelivered := s.undelivered.erase token }

inductive Op where
  | send (message : MQTTMessage) (token : Option Token)
  | append (p : Publication) (now : Nat)
  | dlvCmplt (token : Token)
  deriving DecidableEq, Repr

/-- One step of a call of `publish`, or a callback. Tokens are fresh, and each of them has one
callback. -/
def step (s : Publisher) : Op → Option Publisher
  | .send message token =>
    if ∀ t ∈ token, t ∉ s.sent then some (s.send message token).1 else none
  | .append p now => if p ∈ s.publishing then some (s.append p now).1 else none
  | .dlvCmplt token => if token ∈ s.undelivered then some (s.dlvCmplt token) else none

/-- All calls of `publish` have returned, and all callbacks have run. -/
def Done (s : Publisher) : Prop := s.publishing = [] ∧ s.undelivered = []

/-- A callback finds the call of `publish` behind its second step. -/
def Appended (s : Publisher) : Op → Prop
  | .dlvCmplt token => ∀ p ∈ s.publishing, p.token ≠ token
  | _ => True

instance (s : Publisher) : Decidable s.Done := inferInstanceAs (Decidable (_ ∧ _))

instance (s : Publisher) : DecidablePred s.Appended
  | .dlvCmplt _ => inferInstanceAs (Decidable (∀ p ∈ s.publishing, _))
  | .send _ _ => isTrue trivial
  | .append _ _ => isTrue trivial

/-- The tokens of the messages that `publish` still has, or the vector. -/
def held (s : Publisher) : List Token :=
  s.publishing.map Publication.token ++ s.pendingMessages.map PendingMessage.token

/-! ## What a step does -/

variable {s s' : Publisher} {op : Op} {t : Token}

theorem step_cases (h : s.step op = some s') :
    (∃ message, op = .send message none ∧ s' = s) ∨
    (∃ message token, op = .send message (some token) ∧ token ∉ s.sent ∧
      s' = (s.send message (some token)).1) ∨
    (∃ p now, op = .append p now ∧ p ∈ s.publishing ∧ s' = (s.append p now).1) ∨
    (∃ token, op = .dlvCmplt token ∧ token ∈ s.undelivered ∧ s' = s.dlvCmplt token) := by
  cases op with
  | send message token =>
    simp only [step, Option.ite_none_right_eq_some, Option.some.injEq] at h
    obtain ⟨hfresh, rfl⟩ := h
    cases token with
    | none => exact Or.inl ⟨message, rfl, rfl⟩
    | some token => exact Or.inr (Or.inl ⟨message, token, rfl, hfresh token rfl, rfl⟩)
  | append p now =>
    simp only [step, Option.ite_none_right_eq_some, Option.some.injEq] at h
    obtain ⟨hp, rfl⟩ := h
    exact Or.inr (Or.inr (Or.inl ⟨p, now, rfl, hp, rfl⟩))
  | dlvCmplt token =>
    simp only [step, Option.ite_none_right_eq_some, Option.some.injEq] at h
    obtain ⟨htoken, rfl⟩ := h
    exact Or.inr (Or.inr (Or.inr ⟨token, rfl, htoken, rfl⟩))

/-- The second step of `publish` moves a token from the call to the vector. -/
theorem mem_held_append {p : Publication} {now : Nat} (hp : p ∈ s.publishing) :
    t ∈ (s.append p now).1.held ↔ t ∈ s.held := by
  have hperm := (List.perm_cons_erase hp).map Publication.token
  have hmem := hperm.mem_iff (a := t)
  simp only [List.map_cons, List.mem_cons] at hmem
  simp only [held, append, List.map_append, List.map_cons, List.map_nil, List.mem_append,
    List.mem_singleton, hmem]
  tauto

/-- The callback takes its own token from the vector, and from nowhere else. -/
theorem mem_held_dlvCmplt {token : Token} (hne : t ≠ token) :
    t ∈ (s.dlvCmplt token).held ↔ t ∈ s.held := by
  have hfilter : t ∈ ((s.dlvCmplt token).pendingMessages.map PendingMessage.token) ↔
      t ∈ s.pendingMessages.map PendingMessage.token := by
    simp only [dlvCmplt, List.mem_map, List.mem_filter]
    constructor
    · rintro ⟨entry, ⟨hentry, -⟩, rfl⟩
      exact ⟨entry, hentry, rfl⟩
    · rintro ⟨entry, hentry, rfl⟩
      refine ⟨entry, ⟨hentry, ?_⟩, rfl⟩
      simpa using hne
  rw [held, List.mem_append, hfilter, held, List.mem_append]
  rfl

/-- An entry leaves the vector with its own callback only. -/
theorem step_keeps {entry : PendingMessage} (h : s.step op = some s')
    (hentry : entry ∈ s.pendingMessages) (hop : op ≠ .dlvCmplt entry.token) :
    entry ∈ s'.pendingMessages := by
  rcases step_cases h with ⟨message, rfl, rfl⟩ | ⟨message, token, rfl, -, rfl⟩ |
    ⟨p, now, rfl, -, rfl⟩ | ⟨token, rfl, -, rfl⟩
  · exact hentry
  · exact hentry
  · exact List.mem_append_left _ hentry
  · refine List.mem_filter.mpr ⟨hentry, ?_⟩
    have hne : entry.token ≠ token := fun heq => hop (by rw [heq])
    simpa using hne

/-! ## Invariants -/

/-- Tokens are issued once. -/
structure Inv (s : Publisher) : Prop where
  nodup : s.undelivered.Nodup
  sent : ∀ t ∈ s.undelivered, t ∈ s.sent
  held : ∀ t ∈ s.held, t ∈ s.sent

/-- A message that is kept waits for its callback. -/
def Waiting (s : Publisher) : Prop := ∀ t ∈ s.held, t ∈ s.undelivered

/-- A message is kept whose callback has been. -/
def Forgotten (s : Publisher) : Prop := ∃ t ∈ s.held, t ∉ s.undelivered

theorem inv_init : init.Inv := ⟨List.nodup_nil, by simp [init], by simp [init, Publisher.held]⟩

theorem waiting_init : init.Waiting := by simp [Waiting, init, held]

theorem mem_held_send {message : MQTTMessage} {token : Token} :
    t ∈ (s.send message (some token)).1.held ↔ t = token ∨ t ∈ s.held := by
  simp only [held, send, List.map_append, List.map_cons, List.map_nil, List.mem_append,
    List.mem_singleton]
  tauto

theorem Inv.step (h : s.Inv) (hstep : s.step op = some s') : s'.Inv := by
  rcases step_cases hstep with ⟨message, rfl, rfl⟩ | ⟨message, token, rfl, hfresh, rfl⟩ |
    ⟨p, now, rfl, hp, rfl⟩ | ⟨token, rfl, htoken, rfl⟩
  · exact h
  · refine ⟨?_, ?_, ?_⟩
    · refine List.nodup_append.mpr ⟨h.nodup, List.nodup_singleton _, ?_⟩
      rintro a ha b hb rfl
      exact hfresh (List.mem_singleton.mp hb ▸ h.sent a ha)
    · intro t ht
      rcases List.mem_append.mp ht with ht | ht
      · exact List.mem_append_left _ (h.sent t ht)
      · exact List.mem_append_right _ ht
    · intro t ht
      rcases mem_held_send.mp ht with rfl | ht
      · exact List.mem_append_right _ (List.mem_singleton_self _)
      · exact List.mem_append_left _ (h.held t ht)
  · exact ⟨h.nodup, h.sent, fun t ht => h.held t ((mem_held_append hp).mp ht)⟩
  · refine ⟨h.nodup.erase _, fun t ht => h.sent t (List.mem_of_mem_erase ht), ?_⟩
    intro t ht
    by_cases hne : t = token
    · rw [hne]
      exact h.sent token htoken
    · exact h.held t ((mem_held_dlvCmplt hne).mp ht)

/-- Behind its second step a call is not affected by a callback, and the entry leaves with it. -/
theorem Waiting.step (h : s.Waiting) (hok : s.Appended op) (hstep : s.step op = some s') :
    s'.Waiting := by
  rcases step_cases hstep with ⟨message, rfl, rfl⟩ | ⟨message, token, rfl, -, rfl⟩ |
    ⟨p, now, rfl, hp, rfl⟩ | ⟨token, rfl, htoken, rfl⟩
  · exact h
  · intro t ht
    rcases mem_held_send.mp ht with rfl | ht
    · exact List.mem_append_right _ (List.mem_singleton_self _)
    · exact List.mem_append_left _ (h t ht)
  · exact fun t ht => h t ((mem_held_append hp).mp ht)
  · intro t ht
    have hne : t ≠ token := by
      rintro rfl
      rcases List.mem_append.mp ht with hpublishing | hpending
      · obtain ⟨p, hp, heq⟩ := List.mem_map.mp hpublishing
        exact hok p hp heq
      · obtain ⟨entry, hentry, heq⟩ := List.mem_map.mp hpending
        simpa [heq] using (List.mem_filter.mp hentry).2
    exact (List.mem_erase_of_ne hne).mpr (h t ((mem_held_dlvCmplt hne).mp ht))

/-- A callback that comes too early leaves its token to a call. -/
theorem Inv.forgotten (h : s.Inv) (hbad : ¬ s.Appended op) (hstep : s.step op = some s') :
    s'.Forgotten := by
  rcases step_cases hstep with ⟨message, rfl, rfl⟩ | ⟨message, token, rfl, -, rfl⟩ |
    ⟨p, now, rfl, hp, rfl⟩ | ⟨token, rfl, htoken, rfl⟩
  · exact absurd trivial hbad
  · exact absurd trivial hbad
  · exact absurd trivial hbad
  · simp only [Appended, not_forall, not_not] at hbad
    obtain ⟨p, hp, heq⟩ := hbad
    refine ⟨token, List.mem_append_left _ (List.mem_map.mpr ⟨p, hp, heq⟩), ?_⟩
    exact h.nodup.not_mem_erase

/-- No step makes good for it. -/
theorem Forgotten.step (h : s.Forgotten) (hinv : s.Inv) (hstep : s.step op = some s') :
    s'.Forgotten := by
  obtain ⟨t, ht, hdelivered⟩ := h
  refine ⟨t, ?_⟩
  rcases step_cases hstep with ⟨message, rfl, rfl⟩ | ⟨message, token, rfl, hfresh, rfl⟩ |
    ⟨p, now, rfl, hp, rfl⟩ | ⟨token, rfl, htoken, rfl⟩
  · exact ⟨ht, hdelivered⟩
  · refine ⟨mem_held_send.mpr (Or.inr ht), ?_⟩
    intro hmem
    rcases List.mem_append.mp hmem with hmem | hmem
    · exact hdelivered hmem
    · exact hfresh (List.mem_singleton.mp hmem ▸ hinv.held t ht)
  · exact ⟨(mem_held_append hp).mpr ht, hdelivered⟩
  · have hne : t ≠ token := fun heq => hdelivered (heq ▸ htoken)
    exact ⟨(mem_held_dlvCmplt hne).mpr ht, fun hmem => hdelivered (List.mem_of_mem_erase hmem)⟩

end Publisher

/-! ## Whole runs -/

variable {s t : Publisher} {ops : List Publisher.Op}

/-- An entry whose callback does not run stays in the vector. -/
theorem run_keeps {entry : PendingMessage} (hrun : run Publisher.step s ops = some t)
    (hentry : entry ∈ s.pendingMessages) (hops : .dlvCmplt entry.token ∉ ops) :
    entry ∈ t.pendingMessages := by
  induction ops generalizing s with
  | nil =>
    cases hrun
    exact hentry
  | cons op ops ih =>
    obtain ⟨s', hs', hrest⟩ := run_cons_eq_some.mp hrun
    have hop : op ≠ .dlvCmplt entry.token := by
      rintro rfl
      exact hops List.mem_cons_self
    exact ih hrest (Publisher.step_keeps hs' hentry hop) fun h => hops (List.mem_cons_of_mem _ h)

/-- In every interleaving an entry stays until its message is delivered. When all is done the
vector is empty, if and only if no callback has run before the entry was appended. -/
theorem run_pending_iff (hrun : run Publisher.step .init ops = some t) :
    (∀ before after m, ops = before ++ after → run Publisher.step .init before = some m →
      ∀ entry ∈ m.pendingMessages, .dlvCmplt entry.token ∉ after → entry ∈ t.pendingMessages) ∧
    (t.Done → (t.pendingMessages = [] ↔
      Guarded Publisher.step Publisher.Appended .init ops)) := by
  constructor
  · rintro before after m rfl hm entry hentry hafter
    rw [run_append, hm] at hrun
    exact run_keeps hrun hentry hafter
  · rintro ⟨hpublishing, hundelivered⟩
    have hcases := run_guarded_or Publisher.Appended
      (I := fun s => s.Inv ∧ s.Waiting) (J := fun s => s.Inv ∧ s.Forgotten)
      (fun s op s' h hok hs' => ⟨h.1.step hs', h.2.step hok hs'⟩)
      (fun s op s' h hbad hs' => ⟨h.1.step hs', h.1.forgotten hbad hs'⟩)
      (fun s op s' h hs' => ⟨h.1.step hs', h.2.step h.1 hs'⟩)
      ⟨Publisher.inv_init, Publisher.waiting_init⟩ hrun
    rcases hcases with ⟨hguarded, -, hwaiting⟩ | ⟨hguarded, -, token, htoken, -⟩
    · refine iff_of_true ?_ hguarded
      rw [List.eq_nil_iff_forall_not_mem]
      intro entry hentry
      have hheld : entry.token ∈ t.held := List.mem_append_right _ (List.mem_map_of_mem hentry)
      have hmem := hwaiting _ hheld
      rw [hundelivered] at hmem
      exact List.not_mem_nil hmem
    · refine iff_of_false ?_ hguarded
      intro hempty
      rw [Publisher.held, hpublishing, hempty] at htoken
      exact List.not_mem_nil htoken

/-- Two messages, each of them delivered behind its append. -/
def twoMessages : List Publisher.Op :=
  [.send (.ofViews ⟨none, []⟩ [1]) (some 1), .append ⟨1, .ofViews ⟨none, []⟩ [1]⟩ 0,
    .send (.ofViews ⟨none, []⟩ [2]) (some 2), .dlvCmplt 1,
    .append ⟨2, .ofViews ⟨none, []⟩ [2]⟩ 1, .dlvCmplt 2]

/-- Nothing is left of them. -/
theorem run_pending_iff_two :
    ∃ t, run Publisher.step .init twoMessages = some t ∧ t.pendingMessages = [] := by
  have hrun : ∃ t, run Publisher.step .init twoMessages = some t ∧ t.Done := ⟨_, rfl, rfl, rfl⟩
  obtain ⟨t, ht, hdone⟩ := hrun
  exact ⟨t, ht, ((run_pending_iff ht).2 hdone).mpr (by decide)⟩

/-- The callback comes first, and the message stays for ever. -/
theorem not_pending_early : ∃ t, run Publisher.step .init
      [.send (.ofViews ⟨none, []⟩ [1]) (some 1), .dlvCmplt 1,
        .append ⟨1, .ofViews ⟨none, []⟩ [1]⟩ 0] = some t ∧
    t.Done ∧ t.pendingMessages = [⟨0, 1, .ofViews ⟨none, []⟩ [1]⟩] :=
  ⟨_, rfl, ⟨rfl, rfl⟩, rfl⟩

end Csics.Net.MQTT
