import Mathlib.Algebra.Order.Ring.Nat
import Csics.Base.Run

/-!
# The thread pool

`ThreadPoolExecutor` of `include/csics/executor/Executors.hpp`: workers that take tasks from one
queue under `m_mutex` and execute them outside of it, `submit` from any thread, and the destructor,
which sets `m_stop`, wakes the workers and joins them.

A critical section is one step, and so are a call of a task, a `notify_one`, the `notify_all` and
the end of the joins. A worker whose predicate is false in `m_cv.wait` sleeps until a notification
or a spurious wake-up. What a task does is left out: a `packaged_task` keeps its exceptions, so
that the call returns.
-/

namespace Csics.Executor

open Base

/-- The `packaged_task` of a `submit`, by its number among all that were made. -/
abbrev Task := Nat

/-- Where a worker is in its loop: in front of its critical section, asleep in `m_cv.wait`, with
its `task` outside of the lock, or behind `return`. -/
inductive Worker where
  | ready
  | waiting
  | holding (task : Task)
  | returned
  deriving DecidableEq, Repr

/-- The task that a worker has taken and not yet executed. -/
def Worker.task? : Worker → Option Task
  | .holding task => some task
  | _ => none

/-- A notification ends the wait. -/
def Worker.notified : Worker → Worker
  | .waiting => .ready
  | w => w

structure ThreadPoolExecutor where
  workers : List Worker
  tasks : List Task
  stop : Bool
  deriving DecidableEq, Repr

namespace ThreadPoolExecutor

/-- The constructor. -/
def init (nThreads : Nat) : ThreadPoolExecutor := ⟨List.replicate nThreads .ready, [], false⟩

/-- The critical section of `submit`; `none` is the exception. -/
def submit (pool : ThreadPoolExecutor) (task : Task) : Option ThreadPoolExecutor :=
  if pool.stop then none else some { pool with tasks := pool.tasks ++ [task] }

/-- The critical section of a worker: where the worker is behind it, and `m_tasks`. `none` would
be the front of an empty queue. -/
def iterate (pool : ThreadPoolExecutor) : Option (Worker × List Task) :=
  if ¬ (pool.stop ∨ pool.tasks ≠ []) then some (.waiting, pool.tasks)
  else if pool.stop ∧ pool.tasks = [] then some (.returned, pool.tasks)
  else
    match pool.tasks with
    | [] => none
    | task :: rest => some (.holding task, rest)

end ThreadPoolExecutor

/-- How far the destructor is. -/
inductive Destructor where
  | notCalled
  | stopped
  | notified
  | joined
  deriving DecidableEq, Repr

/-- The pool with the threads around it: the `submit` calls that are in front of their
`notify_one`, the destructor, and what has happened to the tasks so far. -/
structure System where
  pool : ThreadPoolExecutor
  notifications : Nat
  destructor : Destructor
  next : Task
  accepted : List Task
  taken : List Task
  executed : List Task
  deriving DecidableEq, Repr

/-- The steps. `notifyOne` names the worker it wakes, if one sleeps. -/
inductive Op where
  | submit
  | notifyOne (worker : Option Nat)
  | wakeUp (worker : Nat)
  | lock (worker : Nat)
  | execute (worker : Nat)
  | stop
  | notifyAll
  | join
  deriving DecidableEq, Repr

namespace System

/-- The state after the constructor. -/
def init (nThreads : Nat) : System := ⟨.init nThreads, 0, .notCalled, 0, [], [], []⟩

/-- The worker goes on to `w`. -/
def setWorker (s : System) (worker : Nat) (w : Worker) : System :=
  { s with pool := { s.pool with workers := s.pool.workers.set worker w } }

/-- `submit` up to the end of its critical section. Behind the destructor there is no pool. -/
def submit (s : System) : Option System :=
  if s.destructor = .joined then none
  else
    match s.pool.submit s.next with
    | none => some { s with next := s.next + 1 }
    | some pool =>
      some { s with
        pool := pool
        notifications := s.notifications + 1
        next := s.next + 1
        accepted := s.accepted ++ [s.next] }

/-- `notify_one` of a `submit`. It wakes one of the workers that sleep. -/
def notifyOne (s : System) (worker : Option Nat) : Option System :=
  if s.notifications = 0 then none
  else
    let s' := { s with notifications := s.notifications - 1 }
    match worker with
    | none => if .waiting ∈ s.pool.workers then none else some s'
    | some i => if s.pool.workers[i]? = some .waiting then some (s'.setWorker i .ready) else none

/-- A worker wakes without a notification. -/
def wakeUp (s : System) (worker : Nat) : Option System :=
  if s.pool.workers[worker]? = some .waiting then some (s.setWorker worker .ready) else none

/-- A worker goes through its critical section. -/
def lock (s : System) (worker : Nat) : Option System :=
  if s.pool.workers[worker]? = some .ready then
    s.pool.iterate.map fun (w, tasks) =>
      { s with
        pool := { s.pool with workers := s.pool.workers.set worker w, tasks := tasks }
        taken := s.taken ++ w.task?.toList }
  else none

/-- `task()`. -/
def execute (s : System) (worker : Nat) : Option System :=
  match s.pool.workers[worker]? with
  | some (.holding task) =>
    some { s.setWorker worker .ready with executed := s.executed ++ [task] }
  | _ => none

/-- The critical section of the destructor. -/
def stop (s : System) : Option System :=
  if s.destructor = .notCalled then
    some { s with pool := { s.pool with stop := true }, destructor := .stopped }
  else none

/-- `m_cv.notify_all()`. -/
def notifyAll (s : System) : Option System :=
  if s.destructor = .stopped then
    some { s with
      pool := { s.pool with workers := s.pool.workers.map Worker.notified }
      destructor := .notified }
  else none

/-- The end of the loop that joins the workers. -/
def join (s : System) : Option System :=
  if s.destructor = .notified ∧ ∀ w ∈ s.pool.workers, w = .returned then
    some { s with destructor := .joined }
  else none

def step (s : System) : Op → Option System
  | .submit => s.submit
  | .notifyOne worker => s.notifyOne worker
  | .wakeUp worker => s.wakeUp worker
  | .lock worker => s.lock worker
  | .execute worker => s.execute worker
  | .stop => s.stop
  | .notifyAll => s.notifyAll
  | .join => s.join

end System

/-! ## What a step can do -/

/-- The list with the worker at `i` cut out. -/
theorem exists_workers {ws : List Worker} {i : Nat} {w : Worker} (h : ws[i]? = some w) :
    ∃ before after, ws = before ++ w :: after ∧
      ∀ w', ws.set i w' = before ++ w' :: after := by
  obtain ⟨hlt, hget⟩ := List.getElem?_eq_some_iff.mp h
  obtain ⟨before, after, hws, hlen, -⟩ : ∃ before after, ws = before ++ ws[i] :: after ∧
      before.length = i ∧ ws.set i w = before ++ w :: after := List.exists_of_set hlt
  rw [hget] at hws
  refine ⟨before, after, hws, ?_⟩
  intro w'
  rw [hws, ← hlen, List.set_append_right _ _ (Nat.le_refl _), Nat.sub_self, List.set_cons_zero]

/-- A worker sleeps, returns, or takes the first task. -/
theorem ThreadPoolExecutor.iterate_cases {pool : ThreadPoolExecutor} {w : Worker}
    {tasks : List Task} (h : pool.iterate = some (w, tasks)) :
    (w = .waiting ∧ pool.stop = false ∧ pool.tasks = [] ∧ tasks = []) ∨
      (w = .returned ∧ pool.stop = true ∧ pool.tasks = [] ∧ tasks = []) ∨
      ∃ task, w = .holding task ∧ pool.tasks = task :: tasks := by
  obtain ⟨workers, queue, stop⟩ := pool
  cases queue with
  | nil =>
    cases stop with
    | false =>
      cases h
      exact Or.inl ⟨rfl, rfl, rfl, rfl⟩
    | true =>
      cases h
      exact Or.inr (Or.inl ⟨rfl, rfl, rfl, rfl⟩)
  | cons task rest =>
    simp only [iterate, ne_eq, reduceCtorEq, not_false_eq_true, or_true, not_true_eq_false,
      if_false, and_false] at h
    cases h
    exact Or.inr (Or.inr ⟨task, rfl, rfl⟩)

theorem ThreadPoolExecutor.iterate_ne_none (pool : ThreadPoolExecutor) :
    pool.iterate ≠ none := by
  obtain ⟨workers, queue, stop⟩ := pool
  cases queue with
  | nil =>
    cases stop with
    | false => exact Option.some_ne_none _
    | true => exact Option.some_ne_none _
  | cons task rest =>
    simp only [iterate, ne_eq, reduceCtorEq, not_false_eq_true, or_true, not_true_eq_false,
      if_false, and_false]

namespace System

variable {s s' : System}

/-- A `submit` throws, or puts its task at the end of the queue. -/
theorem submit_cases (h : s.submit = some s') :
    s.destructor ≠ .joined ∧
      ((s.pool.stop = true ∧ s' = { s with next := s.next + 1 }) ∨
        (s.pool.stop = false ∧ s' =
          { s with
            pool := { s.pool with tasks := s.pool.tasks ++ [s.next] }
            notifications := s.notifications + 1
            next := s.next + 1
            accepted := s.accepted ++ [s.next] })) := by
  unfold submit at h
  by_cases hjoined : s.destructor = .joined
  · rw [if_pos hjoined] at h
    cases h
  · rw [if_neg hjoined, ThreadPoolExecutor.submit] at h
    refine ⟨hjoined, ?_⟩
    cases hstop : s.pool.stop with
    | true =>
      rw [hstop] at h
      cases h
      exact Or.inl ⟨rfl, rfl⟩
    | false =>
      rw [hstop] at h
      cases h
      exact Or.inr ⟨rfl, by rw [← hstop]⟩

/-- A notification wakes a worker that sleeps, or there is none. -/
theorem notifyOne_cases {worker : Option Nat} (h : s.notifyOne worker = some s') :
    0 < s.notifications ∧
      ((.waiting ∉ s.pool.workers ∧ s' = { s with notifications := s.notifications - 1 }) ∨
        ∃ before after, s.pool.workers = before ++ .waiting :: after ∧ s' =
          { s with
            pool := { s.pool with workers := before ++ .ready :: after }
            notifications := s.notifications - 1 }) := by
  unfold notifyOne at h
  by_cases hzero : s.notifications = 0
  · rw [if_pos hzero] at h
    cases h
  · rw [if_neg hzero] at h
    refine ⟨Nat.pos_of_ne_zero hzero, ?_⟩
    cases worker with
    | none =>
      dsimp only at h
      split at h
      · cases h
      · rename_i hwaiting
        cases h
        exact Or.inl ⟨hwaiting, rfl⟩
    | some i =>
      dsimp only at h
      split at h
      · rename_i hwaiting
        cases h
        obtain ⟨before, after, hws, hset⟩ := exists_workers hwaiting
        exact Or.inr ⟨before, after, hws, by rw [setWorker, hset]⟩
      · cases h

theorem wakeUp_cases {worker : Nat} (h : s.wakeUp worker = some s') :
    ∃ before after, s.pool.workers = before ++ .waiting :: after ∧
      s' = { s with pool := { s.pool with workers := before ++ .ready :: after } } := by
  unfold wakeUp at h
  split at h
  · rename_i hwaiting
    cases h
    obtain ⟨before, after, hws, hset⟩ := exists_workers hwaiting
    exact ⟨before, after, hws, by rw [setWorker, hset]⟩
  · cases h

theorem lock_cases {worker : Nat} (h : s.lock worker = some s') :
    ∃ before after w tasks, s.pool.workers = before ++ .ready :: after ∧
      s.pool.iterate = some (w, tasks) ∧ s' =
        { s with
          pool := { s.pool with workers := before ++ w :: after, tasks := tasks }
          taken := s.taken ++ w.task?.toList } := by
  unfold lock at h
  split at h
  · rename_i hready
    obtain ⟨⟨w, tasks⟩, hiterate, rfl⟩ := Option.map_eq_some_iff.mp h
    obtain ⟨before, after, hws, hset⟩ := exists_workers hready
    exact ⟨before, after, w, tasks, hws, hiterate, by rw [← hset]⟩
  · cases h

theorem execute_cases {worker : Nat} (h : s.execute worker = some s') :
    ∃ before after task, s.pool.workers = before ++ .holding task :: after ∧ s' =
      { s with
        pool := { s.pool with workers := before ++ .ready :: after }
        executed := s.executed ++ [task] } := by
  unfold execute at h
  split at h
  · rename_i task hholding
    cases h
    obtain ⟨before, after, hws, hset⟩ := exists_workers hholding
    exact ⟨before, after, task, hws, by rw [setWorker, hset]⟩
  · cases h

theorem stop_cases (h : s.stop = some s') :
    s.destructor = .notCalled ∧
      s' = { s with pool := { s.pool with stop := true }, destructor := .stopped } := by
  unfold stop at h
  split at h
  · cases h
    exact ⟨by assumption, rfl⟩
  · cases h

theorem notifyAll_cases (h : s.notifyAll = some s') :
    s.destructor = .stopped ∧ s' =
      { s with
        pool := { s.pool with workers := s.pool.workers.map Worker.notified }
        destructor := .notified } := by
  unfold notifyAll at h
  split at h
  · cases h
    exact ⟨by assumption, rfl⟩
  · cases h

theorem join_cases (h : s.join = some s') :
    s.destructor = .notified ∧ (∀ w ∈ s.pool.workers, w = .returned) ∧
      s' = { s with destructor := .joined } := by
  unfold join at h
  split at h
  · rename_i hjoin
    cases h
    exact ⟨hjoin.1, hjoin.2, rfl⟩
  · cases h

end System

end Csics.Executor
