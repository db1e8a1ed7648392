import Mathlib.Data.Nat.Notation
import Mathlib.Tactic.SplitIfs

/-! # The thread pool

A queue of tasks served by worker threads. Each section under `mutex_` is one atomic action: a submit,
a look at the queue's length, the request to stop, and the part of `WorkerLoop` in which a worker
either takes the front task or, once asked to stop, leaves. A worker that finds neither waits. What
a task does is the business of the program the pool is part of.
-/

namespace Illuminator

/-- The pool's shared state: how many workers it was given and how many of them have returned. -/
structure ThreadPool (T : Type*) where
  workers_ : ℕ
  returned : ℕ
  tasks_ : List T
  stop_ : Bool

namespace ThreadPool

variable {T : Type*}

/-- The constructor, which never makes a pool without workers. -/
def make (num_threads : ℕ) : ThreadPool T := ⟨if num_threads = 0 then 1 else num_threads, 0, [], false⟩

def NumThreads (pool : ThreadPool T) : ℕ := pool.workers_

def Submit (pool : ThreadPool T) (task : T) : ThreadPool T := { pool with tasks_ := pool.tasks_ ++ [task] }

def PendingTasks (pool : ThreadPool T) : ℕ := pool.tasks_.length

/-- The destructor's first part; the second waits until every worker is `joined`. -/
def requestStop (pool : ThreadPool T) : ThreadPool T := { pool with stop_ := true }

def joined (pool : ThreadPool T) : Bool := pool.returned == pool.workers_

/-- What a worker does under the lock: it takes the front task, or returns, or waits. -/
def WorkerLoop (pool : ThreadPool T) : Option (ThreadPool T × Option T) :=
  match pool.tasks_ with
  | task :: rest => some ({ pool with tasks_ := rest }, some task)
  | [] => if pool.stop_ then some ({ pool with returned := pool.returned + 1 }, none) else none

@[simp] theorem Submit_tasks (pool : ThreadPool T) (task : T) : (pool.Submit task).tasks_ = pool.tasks_ ++ [task] := rfl

@[simp] theorem requestStop_tasks (pool : ThreadPool T) : pool.requestStop.tasks_ = pool.tasks_ := rfl

/-- A worker takes from the front, and returns only when nothing is left. -/
theorem WorkerLoop_tasks {pool next : ThreadPool T} {taken : Option T} (worked : pool.WorkerLoop = some (next, taken)) :
    pool.tasks_ = taken.toList ++ next.tasks_ := by
  unfold WorkerLoop at worked
  split at worked
  · next front rest waiting =>
    cases worked
    exact waiting
  · next empty =>
    split_ifs at worked
    cases worked
    exact empty.trans empty.symm

/-- A worker's return is counted, and nothing else is. -/
theorem WorkerLoop_counts {pool next : ThreadPool T} {taken : Option T} (worked : pool.WorkerLoop = some (next, taken)) :
    next.workers_ = pool.workers_ ∧
      next.returned = if taken.isSome then pool.returned else pool.returned + 1 := by
  unfold WorkerLoop at worked
  split at worked
  · cases worked
    exact ⟨rfl, rfl⟩
  · split_ifs at worked
    cases worked
    exact ⟨rfl, rfl⟩

end ThreadPool

end Illuminator
