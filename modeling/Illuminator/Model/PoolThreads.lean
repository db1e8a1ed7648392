import Illuminator.Model.ThreadPool
import Mathlib.Logic.Function.Basic

/-! # The threads of a pool

`ThreadPool` with its workers, the callers of `Submit` and the thread that destroys it. A section under
`mutex_` is one step, and so is a notification, a deed of a running task and a `join`. A worker that waits is
woken by a notification, or for no reason, and then looks under the lock again. The pool is destroyed when no
thread outside is inside `Submit`, and no such thread calls it after that; running tasks may.
-/

namespace Illuminator

namespace ThreadPool

/-- What the function given to `Submit` does: it may submit tasks, and returns or throws in the end. -/
inductive Body (V E : Type*) where
  | ret (value : V)
  | throw (error : E)
  | Submit (task rest : Body V E)

/-- One thing that a body does. -/
inductive Deed (V E : Type*) where
  | ret (value : V)
  | throw (error : E)
  | Submit (task : Body V E)

variable {V E : Type*}

def Body.deeds : Body V E → List (Deed V E)
  | .ret value => [.ret value]
  | .throw error => [.throw error]
  | .Submit task rest => .Submit task :: rest.deeds

/-- What `packaged_task` stores in the future. -/
def Body.outcome : Body V E → Except E V
  | .ret value => .ok value
  | .throw error => .error error
  | .Submit _ rest => rest.outcome

/-- A task in the queue: which one it is, counted from the first one submitted, and its body. -/
structure Packaged (V E : Type*) where
  id : ℕ
  body : Body V E

/-- Where a worker stands: before the section under the lock, blocked in `cv_.wait`, inside a task, inside a call
of `Submit` that its task makes, or past the end of `WorkerLoop`. -/
inductive Stage (V E : Type*) where
  | lock
  | wait
  | run (id : ℕ) (rest : Body V E)
  | notify (id : ℕ) (rest : Body V E)
  | returned

def Stage.waits : Stage V E → Bool
  | .wait => true
  | _ => false

def Stage.isReturned : Stage V E → Bool
  | .returned => true
  | _ => false

/-- How far `~ThreadPool` has come. -/
inductive Destruction where
  | alive
  | notify_all
  | join (worker : ℕ)
  | destroyed
  deriving DecidableEq

/-- `calls` is the number of threads outside that have put a task in the queue and are yet to notify. `bodies` are
the tasks submitted so far, `taken` those that were taken from the queue, and `deeds` what tasks have done. -/
structure World (V E : Type*) where
  pool : ThreadPool (Packaged V E)
  stage : ℕ → Stage V E
  calls : ℕ
  destruction : Destruction
  bodies : List (Body V E)
  taken : List ℕ
  deeds : List (ℕ × Deed V E)
  futures : ℕ → Option (Except E V)

namespace World

/-- Every worker is about to look at the queue. -/
def make (num_threads : ℕ) : World V E where
  pool := ThreadPool.make num_threads
  stage worker := if worker < (ThreadPool.make num_threads : ThreadPool (Packaged V E)).workers_ then .lock else .returned
  calls := 0
  destruction := .alive
  bodies := []
  taken := []
  deeds := []
  futures _ := none

def place (w : World V E) (worker : ℕ) (stage : Stage V E) : World V E :=
  { w with stage := Function.update w.stage worker stage }

/-- The section of `Submit` under the lock. -/
def insert (w : World V E) (body : Body V E) : World V E :=
  { w with pool := w.pool.Submit ⟨w.bodies.length, body⟩, bodies := w.bodies ++ [body] }

/-- One of the workers that wait is woken, and nothing happens where none waits. -/
def notify_one (w : World V E) (woken : ℕ) : Option (World V E) :=
  if (w.stage woken).waits then some (w.place woken .lock)
  else if ∀ worker < w.pool.workers_, (w.stage worker).waits = false then some w
  else none

def notify_all (w : World V E) : World V E :=
  { w with stage := fun worker => if (w.stage worker).waits then .lock else w.stage worker }

/-- The section of `WorkerLoop` under the lock. -/
def look (w : World V E) (worker : ℕ) : World V E :=
  match w.pool.WorkerLoop with
  | some (pool, some task) =>
    { w.place worker (.run task.id task.body) with pool := pool, taken := w.taken ++ [task.id] }
  | some (pool, none) => { w.place worker .returned with pool := pool }
  | none => w.place worker .wait

/-- The body ends, and its future is ready. The worker goes on, also after an exception. -/
def finish (w : World V E) (worker id : ℕ) (deed : Deed V E) (outcome : Except E V) : World V E :=
  { w.place worker .lock with
    deeds := w.deeds ++ [(id, deed)], futures := Function.update w.futures id (some outcome) }

/-- What a worker does next. `woken` is whom it wakes when it notifies. -/
def work (w : World V E) (worker woken : ℕ) : Option (World V E) :=
  match w.stage worker with
  | .lock => some (w.look worker)
  | .wait => none
  | .run id (.ret value) => some (w.finish worker id (.ret value) (.ok value))
  | .run id (.throw error) => some (w.finish worker id (.throw error) (.error error))
  | .run id (.Submit task rest) =>
    some { (w.insert task).place worker (.notify id rest) with deeds := w.deeds ++ [(id, .Submit task)] }
  | .notify id rest => (w.notify_one woken).map fun w => w.place worker (.run id rest)
  | .returned => none

/-- What `~ThreadPool` does after its section under the lock. -/
def teardown (w : World V E) : Option (World V E) :=
  match w.destruction with
  | .alive => none
  | .notify_all => some { w.notify_all with destruction := .join 0 }
  | .join worker =>
    if worker < w.pool.workers_ then
      if (w.stage worker).isReturned then some { w with destruction := .join (worker + 1) } else none
    else some { w with destruction := .destroyed }
  | .destroyed => none

end World

/-- A thread outside submits a task, or notifies at the end of its `Submit`; a worker wakes for no reason, or does
what it does next; the destructor begins, or goes on. -/
inductive Action (V E : Type*) where
  | Submit (body : Body V E)
  | notify_one (woken : ℕ)
  | wake (worker : ℕ)
  | work (worker woken : ℕ)
  | destroy
  | teardown

def step (w : World V E) : Action V E → Option (World V E)
  | .Submit body => if w.destruction = .alive then some { w.insert body with calls := w.calls + 1 } else none
  | .notify_one woken =>
    if w.calls = 0 then none else (w.notify_one woken).map fun w => { w with calls := w.calls - 1 }
  | .wake worker => if (w.stage worker).waits then some (w.place worker .lock) else none
  | .work worker woken => w.work worker woken
  | .destroy =>
    if w.destruction = .alive ∧ w.calls = 0 then
      some { w with pool := w.pool.requestStop, destruction := .notify_all }
    else none
  | .teardown => w.teardown

end ThreadPool

end Illuminator
