import Mathlib.Algebra.Order.Ring.Nat
import Mathlib.Data.List.Basic

/-!
# Parsers of byte strings

A parser takes bytes off the front of a string; a fault ends it. `Runs g bs a` is the
round-trip side of a parser: on every string that starts with `bs` it returns `a` and leaves
the rest. `Takes g n` is the counting side: a run that returns a value has taken `n` bytes.
`Leaves g cut` says on which strings there is a value, and `Extends cut` that more bytes behind
a string do not matter.
-/

namespace Csics.Base

/-- A parser with faults in `ε`. -/
abbrev Parser (ε α : Type) := StateT (List UInt8) (Except ε) α

variable {ε α β δ : Type}

namespace Parser

theorem run_bind_eq_ok {g : Parser ε α} {f : α → Parser ε β} {bs rest : List UInt8} {b : β} :
    (g >>= f).run bs = .ok (b, rest) ↔
      ∃ a mid, g.run bs = .ok (a, mid) ∧ (f a).run mid = .ok (b, rest) := by
  rw [StateT.run_bind]
  cases g.run bs with
  | error e => simp [bind, Except.bind]
  | ok r =>
    obtain ⟨a, mid⟩ := r
    simp [bind, Except.bind]

theorem run_bind_of_ok {g : Parser ε α} {f : α → Parser ε β} {bs mid : List UInt8} {a : α}
    (h : g.run bs = .ok (a, mid)) : (g >>= f).run bs = (f a).run mid := by
  rw [StateT.run_bind, h]
  rfl

theorem run_bind_of_error {g : Parser ε α} {f : α → Parser ε β} {bs : List UInt8} {e : ε}
    (h : g.run bs = .error e) : (g >>= f).run bs = .error e := by
  rw [StateT.run_bind, h]
  rfl

theorem run_bind_congr {g g' : Parser ε α} {f : α → Parser ε β} {bs bs' : List UInt8}
    (h : g.run bs = g'.run bs') : (g >>= f).run bs = (g' >>= f).run bs' := by
  rw [StateT.run_bind, StateT.run_bind, h]

theorem run_pure_eq_ok {a b : α} {bs rest : List UInt8} :
    (pure a : Parser ε α).run bs = .ok (b, rest) ↔ a = b ∧ bs = rest := by
  rw [StateT.run_pure]
  simp [pure, Except.pure]

/-- Run `g` up to `n` times and collect the values; `none` if one of the runs fails. -/
def many (g : Parser ε (Except δ α)) : Nat → Parser ε (Option (List α))
  | 0 => pure (some [])
  | n + 1 => do
    match ← g with
    | .error _ => pure none
    | .ok x =>
      match ← many g n with
      | none => pure none
      | some xs => pure (some (x :: xs))

theorem run_many_zero_eq_ok {g : Parser ε (Except δ α)} {xs : List α} {bs rest : List UInt8} :
    (many g 0).run bs = .ok (some xs, rest) ↔ xs = [] ∧ bs = rest := by
  rw [many, run_pure_eq_ok, Option.some.injEq, eq_comm]

theorem run_many_succ_eq_ok {g : Parser ε (Except δ α)} {n : Nat} {ys : List α}
    {bs rest : List UInt8} :
    (many g (n + 1)).run bs = .ok (some ys, rest) ↔
      ∃ x xs mid, ys = x :: xs ∧ g.run bs = .ok (.ok x, mid) ∧
        (many g n).run mid = .ok (some xs, rest) := by
  constructor
  · intro h
    obtain ⟨r, mid, hg, h⟩ := run_bind_eq_ok.mp h
    cases r with
    | error e => nomatch (run_pure_eq_ok.mp h).1
    | ok x =>
      obtain ⟨r, mid', hmany, h⟩ := run_bind_eq_ok.mp h
      cases r with
      | none => nomatch (run_pure_eq_ok.mp h).1
      | some xs =>
        obtain ⟨hys, rfl⟩ := run_pure_eq_ok.mp h
        exact ⟨x, xs, mid, (Option.some.inj hys).symm, hg, hmany⟩
  · rintro ⟨x, xs, mid, rfl, hg, hmany⟩
    rw [many, run_bind_of_ok hg]
    show (many g n >>= _).run mid = _
    rw [run_bind_of_ok hmany]
    rfl

theorem length_of_run_many {g : Parser ε (Except δ α)} {n : Nat} {xs : List α}
    {bs rest : List UInt8} (h : (many g n).run bs = .ok (some xs, rest)) : xs.length = n := by
  induction n generalizing bs xs with
  | zero => rw [(run_many_zero_eq_ok.mp h).1, List.length_nil]
  | succ n ih =>
    obtain ⟨x, xs, mid, rfl, -, hmany⟩ := run_many_succ_eq_ok.mp h
    rw [List.length_cons, ih hmany]

end Parser

/-! ## Exact runs -/

/-- On every string that starts with `bs` the parser returns `a` and leaves the rest. -/
def Runs (g : Parser ε α) (bs : List UInt8) (a : α) : Prop :=
  ∀ rest, g.run (bs ++ rest) = .ok (a, rest)

namespace Runs

variable {g : Parser ε α} {f : α → Parser ε β} {bs cs : List UInt8} {a : α} {b : β}

theorem pure (a : α) : Runs (pure a : Parser ε α) [] a := fun _ => rfl

theorem bind (hg : Runs g bs a) (hf : Runs (f a) cs b) : Runs (g >>= f) (bs ++ cs) b := by
  intro rest
  rw [List.append_assoc]
  exact Parser.run_bind_eq_ok.mpr ⟨a, cs ++ rest, hg _, hf rest⟩

theorem unique (h : Runs g bs a) {c : α} (h' : Runs g bs c) : a = c := by
  have hrun := (h []).symm.trans (h' [])
  simpa using hrun

/-- `f x` is what the parser makes of the bytes of `x`. -/
theorem many {γ : Type} {g : Parser ε (Except δ γ)} {enc : α → List UInt8} {f : α → γ}
    {xs : List α} (h : ∀ x ∈ xs, Runs g (enc x) (.ok (f x))) :
    Runs (Parser.many g xs.length) (xs.flatMap enc) (some (xs.map f)) := by
  induction xs with
  | nil => exact Runs.pure _
  | cons x xs ih =>
    have hxs := ih fun y hy => h y (List.mem_cons_of_mem _ hy)
    rw [List.flatMap_cons, ← List.append_nil (xs.flatMap enc)]
    exact (h x List.mem_cons_self).bind (hxs.bind (Runs.pure _))

end Runs

/-! ## Counting -/

/-- A run that returns a value takes `n` bytes. -/
def Takes (g : Parser ε (Except δ α)) (n : Nat) : Prop :=
  ∀ ⦃bs rest x⦄, g.run bs = .ok (.ok x, rest) → bs.length = n + rest.length

/-- A continuation that takes nothing and has no value without one. -/
theorem Takes.map {g : Parser ε (Except δ α)} {k : Except δ α → Parser ε (Except δ β)} {n : Nat}
    (hg : Takes g n)
    (hk : ∀ r bs rest y, (k r).run bs = .ok (.ok y, rest) → (∃ x, r = .ok x) ∧ bs = rest) :
    Takes (g >>= k) n := by
  intro bs rest y h
  obtain ⟨r, mid, hrun, h⟩ := Parser.run_bind_eq_ok.mp h
  obtain ⟨⟨x, rfl⟩, rfl⟩ := hk r mid rest y h
  exact hg hrun

/-- A run that returns a value needs `m` bytes, and takes `n` unless fewer than `m` are left. -/
def TakesUnless (g : Parser ε (Except δ α)) (n m : Nat) : Prop :=
  ∀ ⦃bs rest x⦄, g.run bs = .ok (.ok x, rest) →
    m ≤ bs.length ∧ (rest.length < m ∨ bs.length = n + rest.length)

theorem TakesUnless.many {g : Parser ε (Except δ α)} {n m count : Nat} (h : TakesUnless g n m)
    {bs rest : List UInt8} {xs : List α}
    (hrun : (Parser.many g count).run bs = .ok (some xs, rest)) :
    rest.length ≤ bs.length ∧ (rest.length < m ∨ bs.length = count * n + rest.length) := by
  induction count generalizing bs xs with
  | zero =>
    obtain ⟨-, rfl⟩ := Parser.run_many_zero_eq_ok.mp hrun
    exact ⟨Nat.le_refl _, Or.inr (by rw [Nat.zero_mul, Nat.zero_add])⟩
  | succ count ih =>
    obtain ⟨x, xs, mid, rfl, hg, hmany⟩ := Parser.run_many_succ_eq_ok.mp hrun
    obtain ⟨hle, hleft⟩ := ih hmany
    obtain ⟨hneed, htaken⟩ := h hg
    rw [Nat.succ_mul]
    exact ⟨by omega, by omega⟩

/-! ## Strings with a value -/

/-- What is behind the first `n` bytes. -/
def leave (n : Nat) (bs : List UInt8) : Option (List UInt8) :=
  if n ≤ bs.length then some (bs.drop n) else none

/-- What a read of `n` bytes leaves whose result is dropped. -/
def skipped (n : Nat) (bs : List UInt8) : List UInt8 := (leave n bs).getD bs

/-- What `cut` leaves when it is done `n` times. -/
def leaveMany (cut : List UInt8 → Option (List UInt8)) :
    Nat → List UInt8 → Option (List UInt8)
  | 0, bs => some bs
  | n + 1, bs => (cut bs).bind (leaveMany cut n)

/-- The parser has a value on the strings that `cut` cuts, and leaves what `cut` leaves. -/
def Leaves (g : Parser ε (Except δ α)) (cut : List UInt8 → Option (List UInt8)) : Prop :=
  ∀ bs rest, (∃ x, g.run bs = .ok (.ok x, rest)) ↔ cut bs = some rest

theorem leave_eq_some {n : Nat} {bs rest : List UInt8} :
    leave n bs = some rest ↔ n ≤ bs.length ∧ bs.drop n = rest := by
  unfold leave
  split
  · simp [*]
  · simp [*]

theorem leave_bind_eq_some {f : List UInt8 → Option (List UInt8)} {n : Nat}
    {bs rest : List UInt8} :
    (leave n bs).bind f = some rest ↔ n ≤ bs.length ∧ f (bs.drop n) = some rest := by
  rw [leave]
  by_cases h : n ≤ bs.length
  · rw [if_pos h, Option.bind_some, and_iff_right h]
  · rw [if_neg h, Option.bind_none]
    simp [h]

@[simp] theorem skipped_zero (bs : List UInt8) : skipped 0 bs = bs := rfl

theorem leaveMany_leave (m n : Nat) (bs : List UInt8) :
    leaveMany (leave m) n bs = leave (n * m) bs := by
  induction n generalizing bs with
  | zero => simp [leaveMany, leave]
  | succ n ih =>
    rw [leaveMany, leave, leave, Nat.succ_mul]
    by_cases h : m ≤ bs.length
    · have hlen : (bs.drop m).length = bs.length - m := List.length_drop
      rw [if_pos h, Option.bind_some, ih, leave, hlen, List.drop_drop, Nat.add_comm (n * m)]
      congr 1
      exact propext ⟨fun h' => by omega, fun h' => by omega⟩
    · rw [if_neg h, if_neg (by omega), Option.bind_none]

theorem Leaves.many {g : Parser ε (Except δ α)} {cut : List UInt8 → Option (List UInt8)}
    (h : Leaves g cut) (n : Nat) (bs rest : List UInt8) :
    (∃ xs, (Parser.many g n).run bs = .ok (some xs, rest)) ↔ leaveMany cut n bs = some rest := by
  induction n generalizing bs with
  | zero => simp only [Parser.run_many_zero_eq_ok, exists_eq_left, leaveMany, Option.some.injEq]
  | succ n ih =>
    simp only [Parser.run_many_succ_eq_ok, leaveMany, Option.bind_eq_some_iff]
    constructor
    · rintro ⟨_, x, xs, mid, rfl, hg, hmany⟩
      exact ⟨mid, (h bs mid).mp ⟨x, hg⟩, (ih mid).mp ⟨xs, hmany⟩⟩
    · intro ⟨mid, hcut, hrest⟩
      obtain ⟨x, hg⟩ := (h bs mid).mpr hcut
      obtain ⟨xs, hmany⟩ := (ih mid).mpr hrest
      exact ⟨x :: xs, x, xs, mid, rfl, hg, hmany⟩

/-- What `cut` takes off a string it also takes off a longer one. -/
def Extends (cut : List UInt8 → Option (List UInt8)) : Prop :=
  ∀ ⦃bs rest⦄ more, cut bs = some rest → cut (bs ++ more) = some (rest ++ more)

theorem extends_leave (n : Nat) : Extends (leave n) := by
  intro bs rest more h
  obtain ⟨hle, rfl⟩ := leave_eq_some.mp h
  refine leave_eq_some.mpr ⟨?_, List.drop_append_of_le_length hle⟩
  rw [List.length_append]
  omega

namespace Extends

/-- A cut of `n` bytes and of what they announce. -/
theorem bind {n : Nat} {cut : List UInt8 → List UInt8 → Option (List UInt8)}
    (hcut : ∀ bs, n ≤ bs.length → Extends (cut bs))
    (hsame : ∀ bs more, n ≤ bs.length → cut (bs ++ more) = cut bs) :
    Extends fun bs => (leave n bs).bind (cut bs) := by
  intro bs rest more h
  obtain ⟨hle, hrest⟩ := leave_bind_eq_some.mp h
  refine leave_bind_eq_some.mpr ⟨?_, ?_⟩
  · rw [List.length_append]
    omega
  · rw [hsame bs more hle, List.drop_append_of_le_length hle]
    exact hcut bs hle more hrest

theorem many {cut : List UInt8 → Option (List UInt8)} (h : Extends cut) (n : Nat) :
    Extends (leaveMany cut n) := by
  induction n with
  | zero =>
    intro bs rest more hrest
    cases hrest
    rfl
  | succ n ih =>
    intro bs rest more hrest
    obtain ⟨mid, hmid, hrest⟩ := Option.bind_eq_some_iff.mp hrest
    rw [leaveMany, h more hmid]
    exact ih more hrest

/-- If a string is cut off as a whole, nothing shorter is. -/
theorem eq_nil_of_append {cut : List UInt8 → Option (List UInt8)} (h : Extends cut)
    {bs rest more : List UInt8} (hwhole : cut (bs ++ more) = some []) (hrest : cut bs = some rest) :
    more = [] := by
  have hmore := h more hrest
  rw [hwhole] at hmore
  exact (List.append_eq_nil_iff.mp (Option.some.inj hmore).symm).2

end Extends

/-- A list that comes back up to `κ`: if the records that have `P` are read back, and no other
one can look like one that is, then all of them have `P`. -/
theorem all_of_many {γ : Type} {g : Parser ε (Except δ α)} {enc : α → List UInt8} {f : α → α}
    {κ : α → γ} {P : α → Prop} (hruns : ∀ x, P x → Runs g (enc x) (.ok (f x)))
    (hP : ∀ x y rest mid, g.run (enc x ++ rest) = .ok (.ok y, mid) → κ y = κ x → P x)
    {xs ys : List α} {rest mid : List UInt8}
    (h : (Parser.many g xs.length).run (xs.flatMap enc ++ rest) = .ok (some ys, mid))
    (hsame : ys.map κ = xs.map κ) : ∀ x ∈ xs, P x := by
  induction xs generalizing ys mid with
  | nil => exact fun x hx => nomatch hx
  | cons x xs ih =>
    rw [List.flatMap_cons, List.append_assoc] at h
    obtain ⟨y, zs, mid', rfl, hg, hmany⟩ := Parser.run_many_succ_eq_ok.mp h
    obtain ⟨hy, hzs⟩ := List.cons.inj hsame
    have hx := hP x y _ mid' hg hy
    have hrun := hruns x hx (xs.flatMap enc ++ rest)
    rw [hg] at hrun
    cases hrun
    intro x' hx'
    rcases List.mem_cons.mp hx' with rfl | hx'
    · exact hx
    · exact ih hmany hzs x' hx'

/-! ## Total runs -/

/-- On every string the parser returns without a fault, and its value meets `P`. -/
def Returns (g : Parser ε α) (P : α → Prop) : Prop :=
  ∀ bs, ∃ a rest, g.run bs = .ok (a, rest) ∧ P a

theorem returns_pure {P : α → Prop} {a : α} (h : P a) : Returns (pure a : Parser ε α) P :=
  fun bs => ⟨a, bs, rfl, h⟩

namespace Returns

theorem bind {g : Parser ε α} {f : α → Parser ε β} {P : α → Prop} {Q : β → Prop}
    (hg : Returns g P) (hf : ∀ a, P a → Returns (f a) Q) : Returns (g >>= f) Q := by
  intro bs
  obtain ⟨a, mid, hrun, ha⟩ := hg bs
  obtain ⟨b, rest, hrun', hb⟩ := hf a ha mid
  exact ⟨b, rest, Parser.run_bind_eq_ok.mpr ⟨a, mid, hrun, hrun'⟩, hb⟩

theorem many {g : Parser ε (Except δ α)} {P : Except δ α → Prop} (hg : Returns g P) (n : Nat) :
    Returns (Parser.many g n) fun _ => True := by
  induction n with
  | zero => exact returns_pure trivial
  | succ n ih =>
    apply hg.bind
    intro r _
    cases r with
    | error e => exact returns_pure trivial
    | ok x =>
      apply ih.bind
      intro xs _
      cases xs with
      | none => exact returns_pure trivial
      | some xs => exact returns_pure trivial

end Returns

end Csics.Base
