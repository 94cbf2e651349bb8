import Mathlib.Data.List.Nodup
import Csics.Base.Run

/-!
# The queues of a receiver

`start_stream`, `stop_stream` and the destructor of `USRPRadioRx`, as far as they are about
`queue_`, `rx_thread_` and the two flags. A queue gets a number when it is allocated.

A receiver that streams deletes its queue when it is started again. One that is stopped keeps it, so
that the last blocks can be read, and the next `start_stream` puts a new queue in its place without
deleting it. These queues are the ones that are never deleted (`deleted_iff`). The thread of the
loop always has a queue, and no queue is deleted twice (`Sound`).
-/

namespace Csics.Radio

open Base

/-- The members, the number of queues that were allocated and the queues that were deleted. -/
structure Receiver where
  queue : Option Nat
  streaming : Bool
  stopSignal : Bool
  joinable : Bool
  created : Nat
  deleted : List Nat
  deriving DecidableEq

namespace Receiver

/-- The calls of a user; `hardware` is whether `uhd_usrp_get_rx_stream` succeeds. -/
inductive Call where
  | start (hardware : Bool)
  | stop

def init : Receiver := ⟨none, false, false, false, 0, []⟩

/-- `rx_thread_.join()` behind `joinable()`. -/
def join (r : Receiver) : Receiver := if r.joinable then { r with joinable := false } else r

/-- `stop_stream`, once the thread has returned. -/
def stopStream (r : Receiver) : Receiver :=
  if r.streaming then
    let r := { r with stopSignal := true }
    let r := r.join
    { r with streaming := false, stopSignal := false }
  else r

/-- `delete queue_; queue_ = nullptr`. -/
def deleteQueue (r : Receiver) : Receiver :=
  { r with queue := none, deleted := r.deleted ++ r.queue.toList }

/-- `queue_ = new SPSCQueue(...)`. -/
def newQueue (r : Receiver) : Receiver :=
  { r with queue := some r.created, created := r.created + 1 }

/-- `start_stream`. The program ends when a thread that has not been joined is assigned to. -/
def startStream (r : Receiver) (hardware : Bool) : Option Receiver :=
  let r := if r.streaming then r.stopStream.deleteQueue else r
  let r := r.newQueue
  if hardware then
    if r.joinable then none else some { r with streaming := true, joinable := true }
  else some r.deleteQueue

/-- The destructor, up to what it gives back of the driver. -/
def destroy (r : Receiver) : Receiver :=
  let r := r.stopStream
  if r.queue.isSome then r.deleteQueue else r

def step (r : Receiver) : Call → Option Receiver
  | .start hardware => r.startStream hardware
  | .stop => some r.stopStream

/-! ## Between the calls -/

/-- The thread runs while the receiver streams, and has a queue. No queue is deleted twice, and
`queue_` is not deleted. -/
structure Sound (r : Receiver) : Prop where
  joinable_eq : r.joinable = r.streaming
  queue : r.streaming = true → r.queue.isSome
  below : ∀ id ∈ r.queue.toList ++ r.deleted, id < r.created
  nodup : (r.queue.toList ++ r.deleted).Nodup

variable {r r' : Receiver}

theorem sound_init : Sound init := ⟨rfl, nofun, nofun, List.nodup_nil⟩

/-- `stop_stream` is about the flags and the thread only. -/
theorem stopStream_eq (h : r.Sound) : ∃ signal, r.stopStream =
    { r with streaming := false, joinable := false, stopSignal := signal } := by
  obtain ⟨queue, streaming, signal, joinable, created, deleted⟩ := r
  have hjoinable : joinable = streaming := h.joinable_eq
  subst hjoinable
  cases joinable with
  | false => exact ⟨signal, rfl⟩
  | true => exact ⟨false, rfl⟩

/-- What `start_stream` does to the queues. It deletes the old one if the receiver streams, and the
new one if the hardware fails. -/
theorem startStream_eq (h : r.Sound) (hardware : Bool) : ∃ signal,
    r.startStream hardware = some {
      queue := if hardware then some r.created else none
      streaming := hardware
      stopSignal := signal
      joinable := hardware
      created := r.created + 1
      deleted := r.deleted ++ (if r.streaming then r.queue.toList else []) ++
        if hardware then [] else [r.created] } := by
  obtain ⟨signal, hstop⟩ := stopStream_eq h
  obtain ⟨queue, streaming, signal', joinable, created, deleted⟩ := r
  have hjoinable : joinable = streaming := h.joinable_eq
  subst hjoinable
  cases joinable with
  | false =>
    refine ⟨signal', ?_⟩
    cases hardware <;> simp [startStream, newQueue, deleteQueue]
  | true =>
    refine ⟨signal, ?_⟩
    cases hardware <;> simp [startStream, hstop, newQueue, deleteQueue]

theorem Sound.stopStream (h : r.Sound) : r.stopStream.Sound := by
  obtain ⟨signal, hstop⟩ := stopStream_eq h
  rw [hstop]
  exact ⟨rfl, nofun, h.below, h.nodup⟩

theorem Sound.step {call : Call} (h : r.Sound) (ht : r.step call = some r') : r'.Sound := by
  cases call with
  | stop =>
    cases ht
    exact h.stopStream
  | start hardware =>
    obtain ⟨signal, hstart⟩ := startStream_eq h hardware
    cases hstart.symm.trans ht
    have hbelow := h.below
    have hnodup := h.nodup
    have hnew : r.created ∉ r.queue.toList ++ r.deleted :=
      fun hmem => Nat.lt_irrefl _ (hbelow _ hmem)
    -- the old queue, if it is deleted, and the new one are not among those deleted before
    have hold : (r.deleted ++ if r.streaming then r.queue.toList else []).Sublist
        (r.deleted ++ r.queue.toList) := by
      apply List.Sublist.append_left
      split
      · exact List.Sublist.refl _
      · exact List.nil_sublist _
    have hperm : (r.created :: (r.queue.toList ++ r.deleted)).Perm
        (r.created :: (r.deleted ++ r.queue.toList)) := List.perm_append_comm.cons _
    have hall : (r.created :: (r.deleted ++ if r.streaming then r.queue.toList else [])).Nodup := by
      have hcons := hperm.nodup_iff.mp (List.nodup_cons.mpr ⟨hnew, hnodup⟩)
      exact hcons.sublist (hold.cons_cons _)
    have hlt : ∀ id ∈ r.created :: (r.deleted ++ if r.streaming then r.queue.toList else []),
        id < r.created + 1 := by
      intro id hid
      rcases List.mem_cons.mp hid with rfl | hid
      · exact Nat.lt_succ_self _
      · exact Nat.lt_succ_of_lt (hbelow id (List.perm_append_comm.mem_iff.mp (hold.subset hid)))
    cases hardware with
    | true =>
      simp only [if_true, List.append_nil]
      exact ⟨rfl, fun _ => rfl, hlt, hall⟩
    | false =>
      simp only [Bool.false_eq_true, if_false]
      have hlast := List.perm_append_singleton r.created
        (r.deleted ++ if r.streaming then r.queue.toList else [])
      refine ⟨rfl, nofun, ?_, hlast.nodup_iff.mpr hall⟩
      intro id hid
      exact hlt id (hlast.mem_iff.mp hid)

/-! ## Queues that are lost -/

/-- A call that loses no queue: the receiver is not started again after it was stopped. -/
def Keeps (r : Receiver) : Call → Prop
  | .start _ => r.streaming = true ∨ r.queue = none
  | .stop => True

/-- A queue that is neither deleted nor in use. -/
def Lost (r : Receiver) (id : Nat) : Prop := id < r.created ∧ id ∉ r.queue.toList ++ r.deleted

/-- After a call, the known queues are those that were, without the one that is lost. -/
theorem Sound.lost_iff {call : Call} {id : Nat} (h : r.Sound) (ht : r.step call = some r') :
    r'.Lost id ↔ r.Lost id ∨ ¬ r.Keeps call ∧ r.queue = some id := by
  have hbelow := h.below
  cases call with
  | stop =>
    obtain ⟨signal, hstop⟩ := stopStream_eq h
    cases ht
    rw [hstop]
    simp [Lost, Keeps]
  | start hardware =>
    obtain ⟨signal, hstart⟩ := startStream_eq h hardware
    cases hstart.symm.trans ht
    have hmem : id ∈ (if hardware then some r.created else none).toList ++
        (r.deleted ++ (if r.streaming then r.queue.toList else []) ++
          if hardware then [] else [r.created]) ↔
        id = r.created ∨ id ∈ r.deleted ∨ r.streaming = true ∧ r.queue = some id := by
      cases hardware <;> cases r.streaming <;> simp [or_comm, or_left_comm]
    have hknown : id ∈ r.queue.toList ++ r.deleted ↔ r.queue = some id ∨ id ∈ r.deleted := by
      simp
    have hlt : r.queue = some id ∨ id ∈ r.deleted → id < r.created :=
      fun hid => hbelow id (hknown.mpr hid)
    have hone : r.queue = some id → id ∉ r.deleted := by
      intro hqueue
      have hnodup := h.nodup
      rw [hqueue] at hnodup
      exact (List.nodup_cons.mp hnodup).1
    have hnone : r.queue = some id → r.queue ≠ none := by
      intro hqueue
      rw [hqueue]
      exact Option.some_ne_none id
    unfold Lost Keeps
    rw [hmem, hknown]
    dsimp only
    constructor
    · rintro ⟨hid, hnot⟩
      obtain ⟨hne, hdeleted, hstreaming⟩ : id ≠ r.created ∧ id ∉ r.deleted ∧
          ¬ (r.streaming = true ∧ r.queue = some id) := by tauto
      by_cases hqueue : r.queue = some id
      · right
        exact ⟨fun hkeeps => hkeeps.elim (fun hs => hstreaming ⟨hs, hqueue⟩) (hnone hqueue), hqueue⟩
      · left
        exact ⟨by omega, fun hid => hid.elim hqueue hdeleted⟩
    · rintro (⟨hid, hnot⟩ | ⟨hkeeps, hqueue⟩)
      · refine ⟨by omega, ?_⟩
        rintro (rfl | hdeleted | ⟨-, hqueue⟩)
        · exact Nat.lt_irrefl _ hid
        · exact hnot (Or.inr hdeleted)
        · exact hnot (Or.inl hqueue)
      · have hid := hlt (Or.inl hqueue)
        refine ⟨by omega, ?_⟩
        rintro (rfl | hdeleted | ⟨hstreaming, -⟩)
        · exact Nat.lt_irrefl _ hid
        · exact hone hqueue hdeleted
        · exact hkeeps (Or.inl hstreaming)

/-! ## Runs -/

theorem Sound.exists_run (h : r.Sound) (calls : List Call) :
    ∃ r', run Receiver.step r calls = some r' ∧ r'.Sound := by
  induction calls generalizing r with
  | nil => exact ⟨r, rfl, h⟩
  | cons call calls ih =>
    obtain ⟨s, hs⟩ : ∃ s, r.step call = some s := by
      cases call with
      | stop => exact ⟨_, rfl⟩
      | start hardware =>
        obtain ⟨signal, hstart⟩ := startStream_eq h hardware
        exact ⟨_, hstart⟩
    obtain ⟨r', hrun, hsound⟩ := ih (h.step hs)
    exact ⟨r', run_cons_eq_some.mpr ⟨s, hs, hrun⟩, hsound⟩

/-- What is lost stays lost. -/
theorem run_lost_iff {calls : List Call} (h : r.Sound) (hnone : ∀ id, ¬ r.Lost id)
    (hrun : run step r calls = some r') : (∀ id, ¬ r'.Lost id) ↔ Guarded step Keeps r calls := by
  have hor := run_guarded_or Keeps (I := fun r => r.Sound ∧ ∀ id, ¬ r.Lost id)
    (J := fun r => r.Sound ∧ ∃ id, r.Lost id) ?_ ?_ ?_ ⟨h, hnone⟩ hrun
  · rcases hor with ⟨hguarded, -, hnot⟩ | ⟨hguarded, -, id, hlost⟩
    · exact iff_of_true hnot hguarded
    · exact iff_of_false (fun hnot => hnot id hlost) hguarded
  · rintro s call t ⟨hs, hnot⟩ hkeeps ht
    refine ⟨hs.step ht, ?_⟩
    intro id hlost
    rcases (hs.lost_iff ht).mp hlost with hlost | ⟨hnot', -⟩
    · exact hnot id hlost
    · exact hnot' hkeeps
  · rintro s call t ⟨hs, -⟩ hkeeps ht
    obtain ⟨id, hqueue⟩ : ∃ id, s.queue = some id := by
      cases call with
      | stop => exact absurd trivial hkeeps
      | start hardware => exact Option.ne_none_iff_exists'.mp fun hq => hkeeps (Or.inr hq)
    exact ⟨hs.step ht, id, (hs.lost_iff ht).mpr (Or.inr ⟨hkeeps, hqueue⟩)⟩
  · rintro s call t ⟨hs, id, hlost⟩ ht
    exact ⟨hs.step ht, id, (hs.lost_iff ht).mpr (Or.inl hlost)⟩

/-- The destructor deletes the queue that is left. -/
theorem deleted_destroy (h : r.Sound) :
    r.destroy.deleted.Perm (r.queue.toList ++ r.deleted) ∧ r.destroy.created = r.created := by
  obtain ⟨signal, hstop⟩ := stopStream_eq h
  rw [destroy, hstop]
  cases hqueue : r.queue with
  | none => exact ⟨List.Perm.refl _, rfl⟩
  | some id => exact ⟨List.perm_append_comm, rfl⟩

/-- No queue is ever deleted twice, and when the receiver is gone all of them are deleted, if and
only if it was never started again after it was stopped. -/
theorem deleted_iff (calls : List Call) : ∃ r, run step init calls = some r ∧
    r.destroy.deleted.Nodup ∧
      ((∀ id < r.destroy.created, id ∈ r.destroy.deleted) ↔ Guarded step Keeps init calls) := by
  obtain ⟨r, hrun, hsound⟩ := sound_init.exists_run calls
  obtain ⟨hperm, hcreated⟩ := deleted_destroy hsound
  refine ⟨r, hrun, hperm.nodup_iff.mpr hsound.nodup, ?_⟩
  rw [← run_lost_iff sound_init (fun id hlost => Nat.not_lt_zero id hlost.1) hrun, hcreated]
  refine forall_congr' fun id => ?_
  rw [hperm.mem_iff, Lost, not_and, not_not]

end Receiver

end Csics.Radio
