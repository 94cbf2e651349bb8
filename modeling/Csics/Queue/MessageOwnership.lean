import Csics.Base.Run
import Csics.Queue.Holdings

/-!
# Who owns a message

`SPSCMessageQueue` is to own each message once: an object that is constructed in a slot is destroyed
by the `try_pop` that returns it or with the queue that holds it, and moves with that queue.
`Accounted` compares the objects that the queues hold and have destroyed with the ledger.

It fails where a queue with messages is moved: the move constructor leaves them behind, and the move
assignment to a queue with messages destroys none of them. It also fails where `write_index_` wraps
around. In every other run it holds, and `run_accounted_iff` says that these are the only ones.
-/

namespace Csics.Queue

open Base

variable {size line : UInt64} {s t : Owners size}

namespace Owners

/-! ## The property -/

/-- The queues hold, and the destructor calls so far were for, the objects that the ledger says.
Together these are all the objects that were constructed, each of them once. -/
structure Accounted (line : UInt64) (s : Owners size) : Prop where
  live : ∀ q, q ∈ s.ledger.live ↔ (s.rings q).isSome
  holds : ∀ q r, s.rings q = some r →
    r.destruct line = some ((s.ledger.holds q).map Item.destroyed)
  destroyed : s.destroyed = s.ledger.gone.map Item.destroyed
  once : s.ledger.bag.map Item.id = Multiset.range s.constructed

/-- The objects are accounted for after the call. -/
def Keeps (line : UInt64) (s : Owners size) (op : OwnerOp size) : Prop :=
  ∀ t, s.step line op = some t → t.Accounted line

/-- A message is turned down or ends below index `2 ^ 64`. A queue that is moved to another one by
its constructor is empty, and so is the queue that another one is assigned to. -/
def Meets (line : UInt64) (s : Owners size) : OwnerOp size → Prop
  | .tryPush q _ => ∀ r ∈ s.rings q,
    r.queue.queue.TurnsDown size ∨ r.queue.queue.nextWriteIndex line size < 2 ^ 64
  | .moveConstruct _ src _ => ∀ r ∈ s.rings src, r.queue.queue.Empty
  | .moveAssign dst src => dst = src ∨ ∀ r ∈ s.rings dst, r.queue.queue.Empty
  | .make _ _ _ | .tryPop _ | .destruct _ => True

instance (line : UInt64) (s : Owners size) : DecidablePred (s.Meets line)
  | .tryPush q _ => inferInstanceAs (Decidable (∀ r ∈ s.rings q, _))
  | .moveConstruct _ src _ => inferInstanceAs (Decidable (∀ r ∈ s.rings src, _))
  | .moveAssign dst _ => inferInstanceAs (Decidable (_ ∨ ∀ r ∈ s.rings dst, _))
  | .make _ _ _ | .tryPop _ | .destruct _ => isTrue trivial

/-! ## The invariant -/

/-- The rings hold what the ledger says. -/
structure Tracks (line : UInt64) (rings : Nat → Option (Ring size))
    (l : Ledger Nat (Item size)) : Prop where
  live : ∀ q, q ∈ l.live ↔ (rings q).isSome
  holds : ∀ q r, rings q = some r → r.Holds line (l.holds q)

structure Sound (line : UInt64) (s : Owners size) : Prop where
  tracks : Tracks line s.rings s.ledger
  destroyed : s.destroyed = s.ledger.gone.map Item.destroyed
  once : s.ledger.bag.map Item.id = Multiset.range s.constructed

theorem Sound.accounted (h : s.Sound line) : s.Accounted line where
  live := h.tracks.live
  holds q r hr := (h.tracks.holds q r hr).destruct
  destroyed := h.destroyed
  once := h.once

namespace Tracks

variable {rings : Nat → Option (Ring size)} {l : Ledger Nat (Item size)} {q : Nat} {r : Ring size}
  {items : List (Item size)}

theorem mem_live (h : Tracks line rings l) (hq : rings q = some r) : q ∈ l.live := by
  rw [h.live, hq]
  rfl

theorem notMem_live (h : Tracks line rings l) (hq : rings q = none) : q ∉ l.live := by
  rw [h.live, hq]
  exact Bool.false_ne_true

/-- One owner changes. -/
theorem update {l' : Ledger Nat (Item size)} {o : Option (Ring size)} (h : Tracks line rings l)
    (hlive : q ∈ l'.live ↔ o.isSome) (hlive' : ∀ q', q' ≠ q → (q' ∈ l'.live ↔ q' ∈ l.live))
    (hholds : ∀ r, o = some r → r.Holds line (l'.holds q))
    (hholds' : ∀ q', q' ≠ q → l'.holds q' = l.holds q') :
    Tracks line (Function.update rings q o) l' where
  live q' := by
    by_cases heq : q' = q
    · subst heq
      rw [Function.update_self, hlive]
    · rw [Function.update_of_ne heq, hlive' q' heq, h.live]
  holds q' r' hr' := by
    by_cases heq : q' = q
    · subst heq
      rw [Function.update_self] at hr'
      exact hholds r' hr'
    · rw [Function.update_of_ne heq] at hr'
      rw [hholds' q' heq]
      exact h.holds q' r' hr'

theorem set (h : Tracks line rings l) (hq : (rings q).isSome) (hr : r.Holds line items) :
    Tracks line (Function.update rings q (some r)) (l.set q items) := by
  apply h.update
  · exact iff_of_true ((h.live q).mpr hq) rfl
  · intro q' _
    rw [Ledger.live_set]
  · rintro r' ⟨⟩
    rwa [Ledger.holds_set_self]
  · intro q' hne
    exact Ledger.holds_set_of_ne hne

theorem create (h : Tracks line rings l) (hr : r.Holds line []) :
    Tracks line (Function.update rings q (some r)) (l.create q) := by
  apply h.update
  · exact iff_of_true (Finset.mem_insert_self _ _) rfl
  · intro q' hne
    exact Finset.mem_insert.trans (or_iff_right hne)
  · rintro r' ⟨⟩
    rwa [Ledger.holds_create_self]
  · intro q' hne
    exact Ledger.holds_create_of_ne hne

theorem close (h : Tracks line rings l) :
    Tracks line (Function.update rings q none) (l.close q) := by
  apply h.update
  · exact iff_of_false (Finset.notMem_erase _ _) Bool.false_ne_true
  · intro q' hne
    exact Finset.mem_erase.trans (and_iff_right hne)
  · rintro r' ⟨⟩
  · intro q' hne
    exact Ledger.holds_drop_of_ne hne

end Tracks

namespace Sound

theorem init : (init : Owners size).Sound line where
  tracks :=
    ⟨fun q => iff_of_false (Finset.notMem_empty q) Bool.false_ne_true, fun q r hr => by cases hr⟩
  destroyed := rfl
  once := rfl

variable {q dst src : Nat}

theorem make {k : Nat} (hline : line.toNat = 2 ^ k) (hk : 4 ≤ k) {capacity : UInt64} {buffer : Mem}
    (h : s.Sound line) (ht : s.make line q capacity buffer = some t) : t.Sound line := by
  unfold Owners.make at ht
  split at ht
  · cases ht
  rename_i hq
  split at ht
  · rename_i hptr
    cases ht
    refine ⟨h.tracks.create (.make hline hk hptr buffer), h.destroyed, ?_⟩
    show (s.ledger.create q).bag.map Item.id = Multiset.range s.constructed
    rw [Ledger.bag_create (h.tracks.notMem_live hq), h.once]
  · cases ht

/-- A push that is turned down, or ends below `2 ^ 64`, keeps the accounts; any other one does
not. -/
theorem tryPush_iff (hsize : size ≠ 0) {value : Object size} (h : s.Sound line)
    (ht : s.tryPush line q value = some t) :
    (s.Meets line (.tryPush q value) → t.Sound line) ∧
      (t.Accounted line → s.Meets line (.tryPush q value)) := by
  unfold Owners.tryPush at ht
  split at ht
  · cases ht
  rename_i r hq
  have hlive := h.tracks.mem_live hq
  have hsome : (s.rings q).isSome := by
    rw [hq]
    rfl
  rcases (h.tracks.holds q r hq).tryPush_cases hsize ⟨s.constructed, value⟩ with
    ⟨hdown, err, herr, hpush⟩ | ⟨hdown, r', hpush, hafter⟩
  · rw [hpush] at ht
    have hsame : t = s := by
      cases err with
      | none => exact absurd rfl herr
      | full | empty | tooBig =>
        cases ht
        rw [setRing, ← hq, Function.update_eq_self]
    subst hsame
    refine ⟨fun _ => h, ?_⟩
    intro _ r' hr'
    cases hq.symm.trans hr'
    exact Or.inl hdown
  · rw [hpush] at ht
    cases ht
    constructor
    · intro hmeets
      have hnext := (hmeets r hq).resolve_left hdown
      rw [if_pos hnext] at hafter
      refine ⟨h.tracks.set hsome hafter, h.destroyed, ?_⟩
      show (s.ledger.push q _).bag.map Item.id = _
      rw [Ledger.bag_push hlive, Multiset.map_add, h.once, Multiset.map_singleton,
        Multiset.range_succ, ← Multiset.singleton_add, add_comm]
    · intro hacc r'' hr''
      cases hq.symm.trans hr''
      right
      by_contra hnext
      rw [if_neg hnext] at hafter
      have hholds := hacc.holds q r' (Function.update_self _ _ _)
      have hself : (s.ledger.push q ⟨s.constructed, value⟩).holds q = _ := Ledger.holds_set_self
      rw [hafter, hself, Option.some.injEq] at hholds
      exact absurd hholds.symm (by simp)

theorem tryPop (h : s.Sound line) (ht : s.tryPop line q = some t) : t.Sound line := by
  unfold Owners.tryPop at ht
  split at ht
  · cases ht
  rename_i r hq
  have hlive := h.tracks.mem_live hq
  have hsome : (s.rings q).isSome := by
    rw [hq]
    rfl
  rcases (h.tracks.holds q r hq).tryPop_cases with
    ⟨hnil, hpop⟩ | ⟨m, rest, r', hcons, hpop, hafter⟩
  · rw [hpop] at ht
    cases ht
    rw [setRing, ← hq, Function.update_eq_self]
    exact h
  · rw [hpop] at ht
    cases ht
    have hledger := Ledger.pop_of_cons hcons
    refine ⟨?_, ?_, ?_⟩
    · show Tracks line (Function.update s.rings q (some r')) (s.ledger.pop q)
      rw [hledger]
      have htracks := h.tracks.set hsome hafter
      exact ⟨htracks.live, htracks.holds⟩
    · show s.destroyed ++ [m.destroyed] = (s.ledger.pop q).gone.map Item.destroyed
      rw [hledger, h.destroyed, List.map_append]
      rfl
    · show (s.ledger.pop q).bag.map Item.id = Multiset.range s.constructed
      rw [Ledger.bag_pop hlive, h.once]

theorem destruct (h : s.Sound line) (ht : s.destruct line q = some t) : t.Sound line := by
  unfold Owners.destruct at ht
  split at ht
  · cases ht
  rename_i r hq
  rw [(h.tracks.holds q r hq).destruct] at ht
  cases ht
  refine ⟨h.tracks.close, ?_, ?_⟩
  · show s.destroyed ++ _ = (s.ledger.gone ++ s.ledger.holds q).map Item.destroyed
    rw [h.destroyed, List.map_append]
  · show (s.ledger.close q).bag.map Item.id = Multiset.range s.constructed
    rw [Ledger.bag_close (h.tracks.mem_live hq), h.once]

/-- A queue that is empty may be moved by its constructor; any other one is left behind. -/
theorem moveConstruct_iff {storage : SPSCQueue} (h : s.Sound line)
    (ht : s.moveConstruct dst src storage = some t) :
    (s.Meets line (.moveConstruct dst src storage) → t.Sound line) ∧
      (t.Accounted line → s.Meets line (.moveConstruct dst src storage)) := by
  unfold Owners.moveConstruct at ht
  split at ht
  case h_2 => cases ht
  rename_i r hdst hsrc
  cases ht
  have hne : dst ≠ src := by
    rintro rfl
    rw [hdst] at hsrc
    cases hsrc
  have hnotMem := h.tracks.notMem_live hdst
  have hmem := h.tracks.mem_live hsrc
  have hholds := h.tracks.holds src r hsrc
  constructor
  · intro hmeets
    have hnil : s.ledger.holds src = [] := hholds.empty_iff.mp (hmeets r hsrc)
    have hnil' : (s.ledger.create dst).holds src = [] :=
      (Ledger.holds_create_of_ne hne.symm).trans hnil
    rw [hnil] at hholds
    refine ⟨?_, h.destroyed, ?_⟩
    · have hcreate := h.tracks.create (q := dst) (.null fun _ => none)
      have hset := hcreate.set (q := dst) (by rw [Function.update_self]; rfl) (.null fun _ => none)
      rw [Function.update_idem, ← hnil'] at hset
      refine hset.set ?_ hholds
      rw [Function.update_of_ne hne.symm, hsrc]
      rfl
    · show ((s.ledger.create dst).move dst src).bag.map Item.id = Multiset.range s.constructed
      rw [Ledger.bag_move hne (Finset.mem_insert_self _ _) (Finset.mem_insert_of_mem hmem)
        Ledger.holds_create_self, Ledger.bag_create hnotMem, h.once]
  · intro hacc r' hr'
    cases hsrc.symm.trans hr'
    have hdestruct := hacc.holds dst _ (by
      show Function.update (Function.update s.rings dst _) src _ dst = _
      rw [Function.update_of_ne hne, Function.update_self])
    have hmove : ((s.ledger.create dst).move dst src).holds dst = s.ledger.holds src := by
      rw [Ledger.holds_move_dst hne, Ledger.holds_create_of_ne hne.symm]
    have hnull : (r.moveConstruct storage).1.destruct line = some [] := if_pos rfl
    rw [hnull, hmove, Option.some.injEq] at hdestruct
    exact hholds.empty_iff.mpr (List.map_eq_nil_iff.mp hdestruct.symm)

/-- A queue may be assigned to an empty one, or to itself; any other one loses its messages. -/
theorem moveAssign_iff (h : s.Sound line) (ht : s.moveAssign dst src = some t) :
    (s.Meets line (.moveAssign dst src) → t.Sound line) ∧
      (t.Accounted line → s.Meets line (.moveAssign dst src)) := by
  unfold Owners.moveAssign at ht
  split at ht
  case h_2 => cases ht
  rename_i d r hdst hsrc
  split at ht
  · rename_i heq
    cases ht
    exact ⟨fun _ => h, fun _ => Or.inl heq⟩
  rename_i hne
  cases ht
  have hempty := (h.tracks.holds dst d hdst).empty_iff
  constructor
  · intro hmeets
    have hnil := hempty.mp (hmeets.resolve_left hne d hdst)
    refine ⟨?_, ?_, ?_⟩
    · have hdrop := h.tracks.set (q := dst) (by rw [hdst]; rfl) (.null fun _ => none)
      have htake := hdrop.set (q := dst) (by rw [Function.update_self]; rfl)
        (h.tracks.holds src r hsrc)
      rw [Function.update_idem] at htake
      have hleave := htake.set (q := src)
        (by rw [Function.update_of_ne (Ne.symm hne), hsrc]; rfl) (.null fun _ => none)
      have hsame : (s.ledger.drop dst).holds src = s.ledger.holds src :=
        Ledger.holds_drop_of_ne (Ne.symm hne)
      show Tracks line _ (((s.ledger.drop dst).set dst ((s.ledger.drop dst).holds src)).set src [])
      rw [hsame]
      exact ⟨hleave.live, hleave.holds⟩
    · show s.destroyed = (s.ledger.gone ++ s.ledger.holds dst).map Item.destroyed
      rw [hnil, List.append_nil, h.destroyed]
    · show (s.ledger.replace dst src).bag.map Item.id = Multiset.range s.constructed
      rw [Ledger.bag_replace hne (h.tracks.mem_live hdst) (h.tracks.mem_live hsrc), h.once]
  · intro hacc
    right
    intro d' hd'
    cases hdst.symm.trans hd'
    have hdestroyed : s.destroyed = (s.ledger.gone ++ s.ledger.holds dst).map Item.destroyed :=
      hacc.destroyed
    rw [h.destroyed, List.map_append, List.self_eq_append_right] at hdestroyed
    exact hempty.mpr (List.map_eq_nil_iff.mp hdestroyed)

/-! ## Every call -/

/-- The condition is exact for one call. -/
theorem step_iff {k : Nat} (hline : line.toNat = 2 ^ k) (hk : 4 ≤ k) (hsize : size ≠ 0)
    {op : OwnerOp size} (h : s.Sound line) (ht : s.step line op = some t) :
    (s.Meets line op → t.Sound line) ∧ (t.Accounted line → s.Meets line op) := by
  cases op with
  | make q capacity buffer => exact ⟨fun _ => h.make hline hk ht, fun _ => trivial⟩
  | tryPush q value => exact h.tryPush_iff hsize ht
  | tryPop q => exact ⟨fun _ => h.tryPop ht, fun _ => trivial⟩
  | moveConstruct dst src storage => exact h.moveConstruct_iff ht
  | moveAssign dst src => exact h.moveAssign_iff ht
  | destruct q => exact ⟨fun _ => h.destruct ht, fun _ => trivial⟩

end Sound

end Owners

/-! ## Whole runs -/

/-- In a run of any calls on any queues, the objects are accounted for after every call if and only
if every call meets the condition. -/
theorem run_accounted_iff {k : Nat} (hline : line.toNat = 2 ^ k) (hk : 4 ≤ k) (hsize : size ≠ 0)
    {ops : List (OwnerOp size)} (hrun : run (Owners.step line) .init ops = some s) :
    Guarded (Owners.step line) (Owners.Keeps line) .init ops ↔
      Guarded (Owners.step line) (Owners.Meets line) .init ops := by
  symm
  apply guarded_congr_of_run (I := Owners.Sound line) ?_ ?_ Owners.Sound.init hrun
  · intro s op t hs ht
    obtain ⟨hsound, hmeets⟩ := hs.step_iff hline hk hsize ht
    constructor
    · intro hok t' ht'
      cases ht.symm.trans ht'
      exact (hsound hok).accounted
    · intro hkeeps
      exact hmeets (hkeeps t ht)
  · intro s op t hs hok ht
    exact (hs.step_iff hline hk hsize ht).1 hok

/-- Two messages are pushed, one is popped, and the queue is assigned to an empty one and
destroyed. -/
def assigned : List (OwnerOp 4) :=
  [.make 0 2 (fun _ => 0), .make 1 2 (fun _ => 0), .tryPush 0 (.replicate 4 1),
    .tryPush 0 (.replicate 4 2), .tryPop 0, .moveAssign 1 0, .destruct 1, .destruct 0]

theorem run_accounted_iff_assigned :
    ∃ s, run (Owners.step 64) .init assigned = some s ∧
      Guarded (Owners.step 64) (Owners.Keeps 64) .init assigned :=
  ⟨_, rfl, (run_accounted_iff (k := 6) rfl (by omega) (by decide) rfl).mpr (by decide +kernel)⟩

/-- A queue that is constructed by a move is empty, and the message stays where it was. A queue that
is assigned to loses its message, and nothing is destroyed. -/
theorem not_accounted_move :
    (∃ s source target, run (Owners.step 64) .init
        [.make 0 2 (fun _ => 0), .tryPush 0 (.replicate 4 1), .moveConstruct 1 0 .null] = some s ∧
      s.rings 0 = some source ∧ s.rings 1 = some target ∧
      (source.destruct 64).map List.length = some 1 ∧ target.destruct 64 = some [] ∧
      ¬ s.Accounted 64) ∧
    ∃ s, run (Owners.step 64) .init
        [.make 0 2 (fun _ => 0), .make 1 2 (fun _ => 0), .tryPush 1 (.replicate 4 1),
          .moveAssign 1 0] = some s ∧
      s.destroyed = [] ∧ ¬ s.Accounted 64 := by
  refine ⟨⟨_, _, _, rfl, rfl, rfl, by decide +kernel, if_pos rfl, ?_⟩, _, rfl, rfl, ?_⟩
  · intro hacc
    have hholds := congrArg (Option.map List.length) (hacc.holds 1 _ rfl)
    exact absurd hholds (by decide +kernel)
  · intro hacc
    exact absurd (congrArg List.length hacc.destroyed) (by decide +kernel)

end Csics.Queue
