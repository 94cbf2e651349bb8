import Mathlib.Data.List.Nodup
import Csics.Executor.ThreadPool

/-!
# Every accepted task is executed once

The tasks that have left the queue and those in it are the accepted ones, in their order, and
what is executed or held by a worker is what has left the queue (`Accounts`). A worker returns only
when `m_stop` is set and the queue is empty (`Stops`), so that nothing is left behind when all of
them are joined.

`Awake` says that no notification is lost: while there is a task, some worker is not asleep or a
`notify_one` is still to come, and behind the `notify_all` of the destructor nobody sleeps. A pool
in which nothing can go on has therefore executed every task, and `work` bounds the steps until
it gets there.
-/

namespace Csics.Executor

open Base

/-- The tasks that the workers hold. -/
def held (workers : List Worker) : List Task := workers.filterMap Worker.task?

/-- Steps of the pool itself: not a `submit`, not a call of the destructor, and no wake-up without a
notification. -/
def Op.Pool : Op → Prop
  | .submit | .wakeUp _ | .stop => False
  | _ => True

/-- What a worker adds to the steps that are left. -/
def Worker.weight : Worker → Nat
  | .ready => 1
  | .waiting => 0
  | .holding _ => 2
  | .returned => 0

/-- What the destructor adds, in a pool of `n` workers: it may wake all of them. -/
def Destructor.weight (n : Nat) : Destructor → Nat
  | .notCalled => 0
  | .stopped => n + 2
  | .notified => 1
  | .joined => 0

namespace System

/-- No step of the pool is available. -/
def Idle (s : System) : Prop := ∀ op : Op, op.Pool → s.step op = none

/-! ## The workers -/

theorem count_held (before : List Worker) (w : Worker) (after : List Worker) (t : Task) :
    (held (before ++ w :: after)).count t =
      w.task?.toList.count t + (held (before ++ after)).count t := by
  have hcons : held (w :: after) = w.task?.toList ++ held after := by
    cases w <;> rfl
  have happend : ∀ ws, held (before ++ ws) = held before ++ held ws :=
    fun ws => List.filterMap_append
  rw [happend, happend, hcons, List.count_append, List.count_append, List.count_append,
    Nat.add_left_comm]

theorem held_notified (ws : List Worker) : held (ws.map Worker.notified) = held ws := by
  unfold held
  rw [List.filterMap_map]
  congr 1
  ext w : 1
  cases w <;> rfl

/-! ## What becomes of the tasks -/

/-- Where the accepted tasks are. -/
structure Accounts (s : System) : Prop where
  inOrder : s.taken ++ s.pool.tasks = s.accepted
  increasing : s.accepted.Pairwise (· < ·)
  fresh : ∀ t ∈ s.accepted, t < s.next
  count : ∀ t, s.executed.count t + (held s.pool.workers).count t = s.taken.count t

variable {s s' : System} {op : Op}

theorem accounts_init (nThreads : Nat) : Accounts (init nThreads) := by
  refine ⟨rfl, List.Pairwise.nil, by simp [init], ?_⟩
  intro t
  have hheld : held (List.replicate nThreads .ready) = [] := by
    unfold held
    rw [List.filterMap_eq_nil_iff]
    intro w hw
    rw [List.eq_of_mem_replicate hw]
    rfl
  show List.count t [] + List.count t (held (List.replicate nThreads .ready)) = _
  rw [hheld]
  rfl

/-- A worker may change as long as it holds the same task. -/
theorem Accounts.set {before after : List Worker} {w w' : Worker} (h : Accounts s)
    (hws : s.pool.workers = before ++ w :: after) (hw : w.task? = w'.task?) :
    Accounts { s with pool := { s.pool with workers := before ++ w' :: after } } := by
  refine ⟨h.inOrder, h.increasing, h.fresh, ?_⟩
  intro t
  have hcount := h.count t
  rw [hws, count_held, hw] at hcount
  dsimp only
  rwa [count_held]

/-- A step keeps the tasks accounted for. -/
theorem Accounts.step (h : Accounts s) (hstep : s.step op = some s') : Accounts s' := by
  obtain ⟨inOrder, increasing, fresh, count⟩ := h
  cases op with
  | submit =>
    rcases (submit_cases hstep).2 with ⟨-, rfl⟩ | ⟨-, rfl⟩
    · exact ⟨inOrder, increasing, fun t ht => Nat.lt_succ_of_lt (fresh t ht), count⟩
    · refine ⟨?_, ?_, ?_, count⟩
      · show s.taken ++ (s.pool.tasks ++ [s.next]) = s.accepted ++ [s.next]
        rw [← inOrder, List.append_assoc]
      · show (s.accepted ++ [s.next]).Pairwise (· < ·)
        rw [List.pairwise_append]
        refine ⟨increasing, List.pairwise_singleton _ _, ?_⟩
        intro t ht u hu
        rw [List.mem_singleton.mp hu]
        exact fresh t ht
      · intro t ht
        rcases List.mem_append.mp ht with ht | ht
        · exact Nat.lt_succ_of_lt (fresh t ht)
        · rw [List.mem_singleton.mp ht]
          exact Nat.lt_succ_self _
  | notifyOne worker =>
    rcases (notifyOne_cases hstep).2 with ⟨-, rfl⟩ | ⟨before, after, hws, rfl⟩
    · exact ⟨inOrder, increasing, fresh, count⟩
    · have hset : Accounts { s with pool := { s.pool with
          workers := before ++ .ready :: after } } :=
        set ⟨inOrder, increasing, fresh, count⟩ hws rfl
      exact ⟨hset.inOrder, hset.increasing, hset.fresh, hset.count⟩
  | wakeUp worker =>
    obtain ⟨before, after, hws, rfl⟩ := wakeUp_cases hstep
    exact set ⟨inOrder, increasing, fresh, count⟩ hws rfl
  | lock worker =>
    obtain ⟨before, after, w, tasks, hws, hiterate, rfl⟩ := lock_cases hstep
    refine ⟨?_, increasing, fresh, ?_⟩
    · show s.taken ++ w.task?.toList ++ tasks = s.accepted
      rw [← inOrder, List.append_assoc]
      congr 1
      rcases ThreadPoolExecutor.iterate_cases hiterate with
        ⟨rfl, -, htasks, rfl⟩ | ⟨rfl, -, htasks, rfl⟩ | ⟨task, rfl, htasks⟩
      · exact htasks.symm
      · exact htasks.symm
      · exact htasks.symm
    · intro t
      have hcount := count t
      rw [hws, count_held] at hcount
      have hready : (Worker.task? .ready).toList.count t = 0 := rfl
      dsimp only
      rw [count_held, List.count_append]
      omega
  | execute worker =>
    obtain ⟨before, after, task, hws, rfl⟩ := execute_cases hstep
    refine ⟨inOrder, increasing, fresh, ?_⟩
    intro t
    have hcount := count t
    rw [hws, count_held] at hcount
    have hready : (Worker.task? .ready).toList.count t = 0 := rfl
    have hholding : (Worker.task? (.holding task)).toList.count t = [task].count t := rfl
    dsimp only
    rw [count_held, List.count_append]
    omega
  | stop =>
    obtain ⟨-, rfl⟩ := stop_cases hstep
    exact ⟨inOrder, increasing, fresh, count⟩
  | notifyAll =>
    obtain ⟨-, rfl⟩ := notifyAll_cases hstep
    refine ⟨inOrder, increasing, fresh, ?_⟩
    intro t
    dsimp only
    rw [held_notified]
    exact count t
  | join =>
    obtain ⟨-, -, rfl⟩ := join_cases hstep
    exact ⟨inOrder, increasing, fresh, count⟩

/-! ## When a worker returns -/

/-- The workers and the destructor. -/
structure Stops (s : System) : Prop where
  nonempty : s.pool.workers ≠ []
  stopped : s.pool.stop = true ↔ s.destructor ≠ .notCalled
  returned : .returned ∈ s.pool.workers → s.pool.stop = true ∧ s.pool.tasks = []
  joined : s.destructor = .joined → ∀ w ∈ s.pool.workers, w = .returned

theorem stops_init {nThreads : Nat} (h : 0 < nThreads) : Stops (init nThreads) := by
  refine ⟨?_, by simp [init, ThreadPoolExecutor.init], ?_, by simp [init]⟩
  · intro hnil
    have hzero : nThreads = 0 := by
      rw [← List.length_replicate (n := nThreads) (a := Worker.ready)]
      exact List.length_eq_zero_iff.mpr hnil
    omega
  · intro hmem
    cases List.eq_of_mem_replicate hmem

/-- Another worker takes the place of one in the middle. -/
theorem mem_of_set {before after : List Worker} {w w' x : Worker} (hw' : w' ≠ x)
    (h : x ∈ before ++ w' :: after) : x ∈ before ++ w :: after := by
  rw [List.mem_append, List.mem_cons] at h ⊢
  rcases h with h | h | h
  · exact Or.inl h
  · exact absurd h.symm hw'
  · exact Or.inr (Or.inr h)

/-- Not all workers are behind their `return` when one is not. -/
theorem not_all_returned {before after : List Worker} {w : Worker} (hw : w ≠ .returned) :
    ¬ ∀ w' ∈ before ++ w :: after, w' = .returned :=
  fun h => hw (h w (List.mem_append_right _ List.mem_cons_self))

/-- A worker that has not returned may change as long as it does not return. -/
theorem Stops.set {before after : List Worker} {w w' : Worker} (h : Stops s)
    (hws : s.pool.workers = before ++ w :: after) (hw : w ≠ .returned) (hw' : w' ≠ .returned)
    (hset : s'.pool.workers = before ++ w' :: after) (hstop : s'.pool.stop = s.pool.stop)
    (htasks : s'.pool.tasks = s.pool.tasks) (hdestructor : s'.destructor = s.destructor) :
    Stops s' := by
  obtain ⟨-, stopped, returned, joined⟩ := h
  rw [hws] at returned joined
  refine ⟨?_, ?_, ?_, ?_⟩
  · rw [hset]
    exact List.append_ne_nil_of_right_ne_nil _ (List.cons_ne_nil _ _)
  · rw [hstop, hdestructor]
    exact stopped
  · intro hmem
    rw [hset] at hmem
    rw [hstop, htasks]
    exact returned (mem_of_set hw' hmem)
  · intro hjoined
    rw [hdestructor] at hjoined
    exact absurd (joined hjoined) (not_all_returned hw)

theorem Stops.step (h : Stops s) (hstep : s.step op = some s') : Stops s' := by
  obtain ⟨nonempty, stopped, returned, joined⟩ := h
  cases op with
  | submit =>
    obtain ⟨hnot, hsubmit⟩ := submit_cases hstep
    rcases hsubmit with ⟨-, rfl⟩ | ⟨hstop, rfl⟩
    · exact ⟨nonempty, stopped, returned, joined⟩
    · refine ⟨nonempty, stopped, ?_, joined⟩
      intro hmem
      rw [(returned hmem).1] at hstop
      cases hstop
  | notifyOne worker =>
    rcases (notifyOne_cases hstep).2 with ⟨-, rfl⟩ | ⟨before, after, hws, rfl⟩
    · exact ⟨nonempty, stopped, returned, joined⟩
    · exact set ⟨nonempty, stopped, returned, joined⟩ hws Worker.noConfusion Worker.noConfusion rfl
        rfl rfl rfl
  | wakeUp worker =>
    obtain ⟨before, after, hws, rfl⟩ := wakeUp_cases hstep
    exact set ⟨nonempty, stopped, returned, joined⟩ hws Worker.noConfusion Worker.noConfusion rfl
      rfl rfl rfl
  | lock worker =>
    obtain ⟨before, after, w, tasks, hws, hiterate, rfl⟩ := lock_cases hstep
    rw [hws] at returned joined
    refine ⟨by simp, stopped, ?_, ?_⟩
    · intro hmem
      show s.pool.stop = true ∧ tasks = []
      rcases ThreadPoolExecutor.iterate_cases hiterate with
        ⟨rfl, -, -, rfl⟩ | ⟨rfl, hstop, -, rfl⟩ | ⟨task, rfl, htasks⟩
      · exact ⟨(returned (mem_of_set Worker.noConfusion hmem)).1, rfl⟩
      · exact ⟨hstop, rfl⟩
      · -- a worker that has returned has left no task to take
        have hnil := (returned (mem_of_set Worker.noConfusion hmem)).2
        rw [htasks] at hnil
        cases hnil
    · intro hjoined
      exact absurd (joined hjoined) (not_all_returned Worker.noConfusion)
  | execute worker =>
    obtain ⟨before, after, task, hws, rfl⟩ := execute_cases hstep
    exact set ⟨nonempty, stopped, returned, joined⟩ hws Worker.noConfusion Worker.noConfusion rfl
      rfl rfl rfl
  | stop =>
    obtain ⟨-, rfl⟩ := stop_cases hstep
    refine ⟨nonempty, by simp, ?_, by simp⟩
    intro hmem
    exact ⟨rfl, (returned hmem).2⟩
  | notifyAll =>
    obtain ⟨hdestructor, rfl⟩ := notifyAll_cases hstep
    refine ⟨by simpa using nonempty, ?_, ?_, by simp⟩
    · rw [hdestructor] at stopped
      simpa using stopped
    · intro hmem
      obtain ⟨w, hw, heq⟩ := List.mem_map.mp hmem
      cases w with
      | returned => exact returned hw
      | ready | waiting | holding => cases heq
  | join =>
    obtain ⟨hdestructor, hall, rfl⟩ := join_cases hstep
    refine ⟨nonempty, ?_, returned, fun _ => hall⟩
    rw [hdestructor] at stopped
    simpa using stopped

/-! ## Nobody is forgotten -/

/-- The notifications. -/
structure Awake (s : System) : Prop where
  tasks : s.pool.stop = false → s.pool.tasks ≠ [] →
    0 < s.notifications ∨ ∃ w ∈ s.pool.workers, w ≠ .waiting
  notified : s.destructor = .notified ∨ s.destructor = .joined → .waiting ∉ s.pool.workers

theorem awake_init (nThreads : Nat) : Awake (init nThreads) := by
  refine ⟨fun _ hne => absurd rfl hne, ?_⟩
  rintro (h | h)
  · cases h
  · cases h

theorem exists_awake {before after : List Worker} {w : Worker} (hw : w ≠ .waiting) :
    ∃ w' ∈ before ++ w :: after, w' ≠ .waiting :=
  ⟨w, List.mem_append_right _ List.mem_cons_self, hw⟩

/-- A worker may change as long as it does not go to sleep. -/
theorem Awake.set {before after : List Worker} {w w' : Worker} (h : Awake s)
    (hws : s.pool.workers = before ++ w :: after) (hw' : w' ≠ .waiting)
    (hset : s'.pool.workers = before ++ w' :: after) (hdestructor : s'.destructor = s.destructor) :
    Awake s' := by
  obtain ⟨-, notified⟩ := h
  rw [hws] at notified
  refine ⟨?_, ?_⟩
  · intro _ _
    rw [hset]
    exact Or.inr (exists_awake hw')
  · intro hd hmem
    rw [hdestructor] at hd
    rw [hset] at hmem
    exact notified hd (mem_of_set hw' hmem)

theorem Awake.step (h : Awake s) (hstops : Stops s) (hstep : s.step op = some s') :
    Awake s' := by
  obtain ⟨tasks, notified⟩ := h
  cases op with
  | submit =>
    rcases (submit_cases hstep).2 with ⟨-, rfl⟩ | ⟨-, rfl⟩
    · exact ⟨tasks, notified⟩
    · exact ⟨fun _ _ => Or.inl (Nat.succ_pos _), notified⟩
  | notifyOne worker =>
    rcases (notifyOne_cases hstep).2 with ⟨hnone, rfl⟩ | ⟨before, after, hws, rfl⟩
    · refine ⟨?_, notified⟩
      intro _ _
      obtain ⟨w, hw⟩ := List.exists_mem_of_ne_nil _ hstops.nonempty
      refine Or.inr ⟨w, hw, ?_⟩
      rintro rfl
      exact hnone hw
    · exact set ⟨tasks, notified⟩ hws Worker.noConfusion rfl rfl
  | wakeUp worker =>
    obtain ⟨before, after, hws, rfl⟩ := wakeUp_cases hstep
    exact set ⟨tasks, notified⟩ hws Worker.noConfusion rfl rfl
  | lock worker =>
    obtain ⟨before, after, w, rest, hws, hiterate, rfl⟩ := lock_cases hstep
    rcases ThreadPoolExecutor.iterate_cases hiterate with
      ⟨rfl, hstop, -, rfl⟩ | ⟨rfl, -, -, rfl⟩ | ⟨task, rfl, -⟩
    · -- a worker goes to sleep only with nothing to do and before the destructor
      refine ⟨fun _ hne => absurd rfl hne, ?_⟩
      intro hdestructor
      have hcalled : s.destructor ≠ .notCalled := by
        rcases hdestructor with hd | hd
        · rw [show s.destructor = .notified from hd]
          decide
        · rw [show s.destructor = .joined from hd]
          decide
      rw [hstops.stopped.mpr hcalled] at hstop
      cases hstop
    · exact set ⟨tasks, notified⟩ hws Worker.noConfusion rfl rfl
    · exact set ⟨tasks, notified⟩ hws Worker.noConfusion rfl rfl
  | execute worker =>
    obtain ⟨before, after, task, hws, rfl⟩ := execute_cases hstep
    exact set ⟨tasks, notified⟩ hws Worker.noConfusion rfl rfl
  | stop =>
    obtain ⟨-, rfl⟩ := stop_cases hstep
    refine ⟨fun hstop => absurd hstop Bool.noConfusion, ?_⟩
    rintro (h | h)
    · cases h
    · cases h
  | notifyAll =>
    obtain ⟨hdestructor, rfl⟩ := notifyAll_cases hstep
    refine ⟨?_, ?_⟩
    · intro hstop
      have hcalled := hstops.stopped.mpr (by rw [hdestructor]; decide)
      rw [show s.pool.stop = false from hstop] at hcalled
      cases hcalled
    · intro _ hmem
      obtain ⟨w, -, heq⟩ := List.mem_map.mp hmem
      cases w <;> cases heq
  | join =>
    obtain ⟨hdestructor, -, rfl⟩ := join_cases hstep
    exact ⟨tasks, fun _ => notified (Or.inl hdestructor)⟩

/-! ## Idle pools -/

namespace Idle

/-- Every worker sleeps or has returned. -/
theorem worker (hidle : s.Idle) {w : Worker} (hw : w ∈ s.pool.workers) :
    w = .waiting ∨ w = .returned := by
  obtain ⟨i, hi⟩ := List.mem_iff_getElem?.mp hw
  cases w with
  | waiting => exact Or.inl rfl
  | returned => exact Or.inr rfl
  | ready =>
    have hlock : s.lock i = none := hidle (.lock i) trivial
    rw [lock, if_pos hi, Option.map_eq_none_iff] at hlock
    exact absurd hlock s.pool.iterate_ne_none
  | holding task =>
    have hexecute : s.execute i = none := hidle (.execute i) trivial
    rw [execute, hi] at hexecute
    cases hexecute

theorem held_eq (hidle : s.Idle) : held s.pool.workers = [] := by
  unfold held
  rw [List.filterMap_eq_nil_iff]
  intro w hw
  rcases hidle.worker hw with rfl | rfl
  · rfl
  · rfl

/-- Every notification has arrived. -/
theorem notifications (hidle : s.Idle) : s.notifications = 0 := by
  by_contra hne
  by_cases hmem : Worker.waiting ∈ s.pool.workers
  · obtain ⟨i, hi⟩ := List.mem_iff_getElem?.mp hmem
    have hnotify : s.notifyOne (some i) = none := hidle (.notifyOne (some i)) trivial
    rw [notifyOne, if_neg hne] at hnotify
    dsimp only at hnotify
    rw [if_pos hi] at hnotify
    cases hnotify
  · have hnotify : s.notifyOne none = none := hidle (.notifyOne none) trivial
    rw [notifyOne, if_neg hne] at hnotify
    dsimp only at hnotify
    rw [if_neg hmem] at hnotify
    cases hnotify

/-- A destructor that was called has notified all workers. -/
theorem notified (hidle : s.Idle) (hcalled : s.destructor ≠ .notCalled) :
    s.destructor = .notified ∨ s.destructor = .joined := by
  cases hd : s.destructor with
  | notCalled => exact absurd hd hcalled
  | stopped =>
    have hall : s.notifyAll = none := hidle .notifyAll trivial
    rw [notifyAll, if_pos hd] at hall
    cases hall
  | notified => exact Or.inl rfl
  | joined => exact Or.inr rfl

end Idle

/-- A pool that cannot go on has nothing in the queue and nothing in the hands of a worker, and its
destructor has returned if it was called. -/
theorem tasks_of_idle (hstops : Stops s) (hawake : Awake s) (hidle : s.Idle) :
    s.pool.tasks = [] ∧ held s.pool.workers = [] ∧
      (s.destructor = .notCalled ∨ s.destructor = .joined) := by
  cases hstop : s.pool.stop with
  | false =>
    have hdestructor : s.destructor = .notCalled := by
      by_contra hne
      rw [hstops.stopped.mpr hne] at hstop
      cases hstop
    refine ⟨?_, hidle.held_eq, Or.inl hdestructor⟩
    by_contra htasks
    rcases hawake.tasks hstop htasks with hpos | ⟨w, hw, hne⟩
    · exact hpos.ne hidle.notifications.symm
    · rcases hidle.worker hw with rfl | rfl
      · exact hne rfl
      · rw [(hstops.returned hw).1] at hstop
        cases hstop
  | true =>
    have hnotified := hidle.notified (hstops.stopped.mp hstop)
    -- behind the `notify_all` nobody sleeps, so that all workers have returned
    have hreturned : ∀ w ∈ s.pool.workers, w = .returned := by
      intro w hw
      rcases hidle.worker hw with rfl | rfl
      · exact absurd hw (hawake.notified hnotified)
      · rfl
    obtain ⟨w, hw⟩ := List.exists_mem_of_ne_nil _ hstops.nonempty
    have hmem : Worker.returned ∈ s.pool.workers := hreturned w hw ▸ hw
    refine ⟨(hstops.returned hmem).2, hidle.held_eq, Or.inr ?_⟩
    rcases hnotified with hd | hd
    · have hjoin : s.join = none := hidle .join trivial
      rw [join, if_pos ⟨hd, hreturned⟩] at hjoin
      cases hjoin
    · exact hd

/-! ## The steps that are left -/

/-- The steps of the pool that can follow before the next `submit` are no more than this. -/
def work (s : System) : Nat :=
  2 * s.pool.tasks.length + 2 * s.notifications + (s.pool.workers.map Worker.weight).sum +
    s.destructor.weight s.pool.workers.length

theorem sum_weight (before : List Worker) (w : Worker) (after : List Worker) :
    ((before ++ w :: after).map Worker.weight).sum =
      w.weight + ((before ++ after).map Worker.weight).sum := by
  rw [List.map_append, List.map_append, List.map_cons, List.sum_append, List.sum_append,
    List.sum_cons, Nat.add_left_comm]

theorem sum_weight_notified (ws : List Worker) :
    ((ws.map Worker.notified).map Worker.weight).sum ≤
      (ws.map Worker.weight).sum + ws.length := by
  induction ws with
  | nil => exact Nat.le_refl _
  | cons w ws ih =>
    have hw : w.notified.weight ≤ w.weight + 1 := by
      cases w with
      | holding task => exact Nat.le_succ 2
      | ready | waiting | returned => decide
    simp only [List.map_cons, List.sum_cons, List.length_cons]
    omega

theorem length_set (before : List Worker) (w w' : Worker) (after : List Worker) :
    (before ++ w :: after).length = (before ++ w' :: after).length := by
  simp only [List.length_append, List.length_cons]

/-- Every step of the pool gets nearer to an idle pool. -/
theorem work_step (hpool : op.Pool) (hstep : s.step op = some s') : s'.work < s.work := by
  cases op with
  | submit | wakeUp worker | stop => cases hpool
  | notifyOne worker =>
    obtain ⟨hpos, ⟨-, rfl⟩ | ⟨before, after, hws, rfl⟩⟩ := notifyOne_cases hstep
    · unfold work
      dsimp only
      omega
    · have hlen := length_set before .waiting .ready after
      unfold work
      dsimp only
      rw [hws, sum_weight, sum_weight, hlen]
      simp only [Worker.weight]
      omega
  | lock worker =>
    obtain ⟨before, after, w, tasks, hws, hiterate, rfl⟩ := lock_cases hstep
    have hlen := length_set before .ready w after
    unfold work
    dsimp only
    rw [hws, sum_weight, sum_weight, hlen]
    rcases ThreadPoolExecutor.iterate_cases hiterate with
      ⟨rfl, -, htasks, rfl⟩ | ⟨rfl, -, htasks, rfl⟩ | ⟨task, rfl, htasks⟩
    · rw [htasks]
      simp only [Worker.weight]
      omega
    · rw [htasks]
      simp only [Worker.weight]
      omega
    · rw [htasks, List.length_cons]
      simp only [Worker.weight]
      omega
  | execute worker =>
    obtain ⟨before, after, task, hws, rfl⟩ := execute_cases hstep
    have hlen := length_set before (.holding task) .ready after
    unfold work
    dsimp only
    rw [hws, sum_weight, sum_weight, hlen]
    simp only [Worker.weight]
    omega
  | notifyAll =>
    obtain ⟨hdestructor, rfl⟩ := notifyAll_cases hstep
    have hsum := sum_weight_notified s.pool.workers
    unfold work
    dsimp only
    rw [hdestructor, List.length_map]
    simp only [Destructor.weight]
    omega
  | join =>
    obtain ⟨hdestructor, -, rfl⟩ := join_cases hstep
    unfold work
    dsimp only
    rw [hdestructor]
    simp only [Destructor.weight]
    omega

/-! ## Runs -/

/-- What the executor promises about the tasks that `submit` has accepted: they leave the queue in
their order, none is executed twice, all are executed when the destructor has joined the workers,
and the pool comes to rest only when all are executed. -/
structure RunsOnce (s : System) : Prop where
  inOrder : s.taken <+: s.accepted
  atMostOnce : ∀ t, s.executed.count t ≤ s.accepted.count t ∧ s.accepted.count t ≤ 1
  joined : s.destructor = .joined →
    s.pool.tasks = [] ∧ ∀ t ∈ s.accepted, s.executed.count t = 1
  idle : s.Idle → ∀ t ∈ s.accepted, s.executed.count t = 1
  bounded : ∀ ops t, (∀ op ∈ ops, op.Pool) → run System.step s ops = some t →
    ops.length ≤ s.work

/-- What is accepted and neither waits nor is held is executed once. -/
theorem Accounts.executed_once (h : Accounts s) (htasks : s.pool.tasks = [])
    (hheld : held s.pool.workers = []) : ∀ t ∈ s.accepted, s.executed.count t = 1 := by
  intro t ht
  have hcount := h.count t
  have horder := h.inOrder
  have hnodup : s.accepted.Nodup := h.increasing.imp fun hlt => Nat.ne_of_lt hlt
  rw [htasks, List.append_nil] at horder
  rw [hheld, List.count_nil, Nat.add_zero, horder] at hcount
  rw [hcount]
  exact List.count_eq_one_of_mem hnodup ht

theorem runsOnce_of_invariants (haccounts : Accounts s) (hstops : Stops s) (hawake : Awake s) :
    RunsOnce s := by
  refine ⟨⟨s.pool.tasks, haccounts.inOrder⟩, ?_, ?_, ?_, ?_⟩
  · intro t
    have hnodup : s.accepted.Nodup := haccounts.increasing.imp fun hlt => Nat.ne_of_lt hlt
    refine ⟨?_, List.nodup_iff_count_le_one.mp hnodup t⟩
    have hcount := haccounts.count t
    rw [← haccounts.inOrder, List.count_append]
    omega
  · intro hjoined
    have hall := hstops.joined hjoined
    obtain ⟨w, hw⟩ := List.exists_mem_of_ne_nil _ hstops.nonempty
    have hmem : Worker.returned ∈ s.pool.workers := hall w hw ▸ hw
    have htasks := (hstops.returned hmem).2
    refine ⟨htasks, haccounts.executed_once htasks ?_⟩
    unfold held
    rw [List.filterMap_eq_nil_iff]
    intro w hw
    rw [hall w hw]
    rfl
  · intro hidle
    obtain ⟨htasks, hheld, -⟩ := tasks_of_idle hstops hawake hidle
    exact haccounts.executed_once htasks hheld
  · intro ops t hpool hrun
    have hle := run_length_le (fun _ _ _ => work_step) hpool hrun
    omega

end System

/-- A pool with a worker runs every accepted task exactly once. -/
theorem runs_exactly_once {nThreads : Nat} {ops : List Op} {s : System} (hn : 0 < nThreads)
    (hrun : run System.step (.init nThreads) ops = some s) : s.RunsOnce := by
  have hinv : s.Accounts ∧ s.Stops ∧ s.Awake := by
    refine run_preserves (I := fun s => s.Accounts ∧ s.Stops ∧ s.Awake) ?_
      ⟨System.accounts_init nThreads, System.stops_init hn, System.awake_init nThreads⟩ hrun
    rintro s op s' ⟨haccounts, hstops, hawake⟩ hstep
    exact ⟨haccounts.step hstep, hstops.step hstep, hawake.step hstops hstep⟩
  exact System.runsOnce_of_invariants hinv.1 hinv.2.1 hinv.2.2

/-- Two workers and a destructor that runs while one task is held and another one waits; the third
`submit` throws. -/
theorem runs_exactly_once_destroyed :
    System.RunsOnce ⟨⟨[.returned, .returned], [], true⟩, 1, .joined, 3, [0, 1], [0, 1], [0, 1]⟩ :=
  runs_exactly_once (by decide : 0 < 2)
    (rfl : run System.step (.init 2) [.lock 1, .submit, .notifyOne (some 1), .submit, .lock 0,
      .stop, .submit, .notifyAll, .lock 1, .execute 0, .lock 0, .execute 1, .lock 1, .join] =
        some _)

end Csics.Executor
