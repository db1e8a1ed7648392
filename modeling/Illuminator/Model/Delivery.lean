import Illuminator.Model.Pipeline
import Illuminator.Model.Status

/-! # Handling one item, with plugins that may throw

`HandleData` and `HandleFlush` as the process thread runs them, where each call of a plugin returns or
throws. Nothing on the process thread catches. A task in the sink pool is a `packaged_task`, which
keeps what its call throws for a future that `SubmitToSinks` has thrown away. Plugins answer by what
they are given, and a batch is known by its pointer, so that every behaviour is covered.
-/

namespace Illuminator

namespace Delivery

/-- What a call does. -/
inductive Answer (α : Type*) where
  | returns (a : α)
  | throws

structure Aggregator (B : Type*) where
  Add : B → Answer Status
  Flush : Answer (Except Status (List B))

/-- A pipeline's plugins. `sink_pool_` is what `PendingTasks` returns, if there is a pool. -/
structure Plugins (B : Type*) where
  Empty : B → Bool
  processors_ : List (B → Answer (Except Status B))
  aggregator_ : Option (Aggregator B)
  sinks_ : List (B → Answer Status)
  sink_pool_ : Option (B → ℕ)

/-- A call on a plugin with whether its status was `Ok`, or a batch dropped. -/
inductive Call where
  | Process (ok : Answer Bool)
  | Add
  | dropped
  | Write (ok : Answer Bool)

/-- How a batch ends. The last is an exception that leaves the process thread's function. -/
inductive Ending where
  | rejected
  | filtered
  | added
  | overloaded
  | offered
  | escaped
  deriving DecidableEq

/-- The calls made for a batch, by the process thread and then by the pool, what `error_count_` and
`batches_processed_` grow by, and how the batch ends. -/
structure Handled where
  calls : List Call
  errors : ℕ
  batches : ℕ
  ends : Ending

/-- One more call before the rest. -/
def Handled.after (call : Call) (errors : ℕ) (h : Handled) : Handled :=
  { h with calls := call :: h.calls, errors := errors + h.errors }

variable {B : Type*}

def Answer.ok : Answer Status → Answer Bool
  | .returns status => .returns status.ok
  | .throws => .throws

/-- The loop over the sinks without a pool. -/
def writeInline (batch : B) : List (B → Answer Status) → Handled
  | [] => ⟨[], 0, 0, .offered⟩
  | Write :: rest =>
    match Write batch with
    | .throws => ⟨[.Write .throws], 0, 0, .escaped⟩
    | .returns status => (writeInline batch rest).after (.Write (.returns status.ok)) (if status.ok then 0 else 1)

/-- A task as a worker runs it. The exception that it may throw is kept in its future. -/
def runTask (batch : B) (Write : B → Answer Status) : Call × ℕ :=
  match Write batch with
  | .returns status => (.Write (.returns status.ok), if status.ok then 0 else 1)
  | .throws => (.Write .throws, 0)

/-- The tasks that the loop over the sinks gives the pool, once they have run. -/
def writePooled (batch : B) (sinks_ : List (B → Answer Status)) : Handled :=
  let ran := sinks_.map (runTask batch)
  ⟨ran.map Prod.fst, (ran.map Prod.snd).sum, 0, .offered⟩

def SubmitToSinks (p : Plugins B) (batch : B) : Handled :=
  match p.sink_pool_ with
  | none => writeInline batch p.sinks_
  | some PendingTasks =>
    if Pipeline.kMaxPendingTasks < PendingTasks batch then ⟨[.dropped], 1, 0, .overloaded⟩
    else writePooled batch p.sinks_

/-- `HandleData` counts the batch unless it is left by an exception. -/
def Handled.counted (h : Handled) : Handled := if h.ends = .escaped then h else { h with batches := h.batches + 1 }

/-- What follows the processors. -/
def deliver (p : Plugins B) (batch : B) : Handled :=
  match p.aggregator_ with
  | none => (SubmitToSinks p batch).counted
  | some aggregator =>
    match aggregator.Add batch with
    | .throws => ⟨[.Add], 0, 0, .escaped⟩
    | .returns _ => ⟨[.Add], 0, 1, .added⟩

def runProcessors (p : Plugins B) : List (B → Answer (Except Status B)) → B → Handled
  | [], batch => deliver p batch
  | Process :: rest, batch =>
    match Process batch with
    | .throws => ⟨[.Process .throws], 0, 0, .escaped⟩
    | .returns (.error _) => ⟨[.Process (.returns false)], 1, 0, .rejected⟩
    | .returns (.ok result) =>
      if p.Empty result then ⟨[.Process (.returns true)], 0, 0, .filtered⟩
      else (runProcessors p rest result).after (.Process (.returns true)) 0

def HandleData (p : Plugins B) (batch : B) : Handled := runProcessors p p.processors_ batch

/-- `Pipeline::RunProcessors`, which the HTTP interface calls. -/
def RunProcessors : List (B → Answer (Except Status B)) → B → Answer (Except Status B)
  | [], batch => .returns (.ok batch)
  | Process :: rest, batch =>
    match Process batch with
    | .throws => .throws
    | .returns (.error status) => .returns (.error status)
    | .returns (.ok result) => RunProcessors rest result

/-- The batches of a flush, one after another. -/
def submitEach (p : Plugins B) : List B → List Handled
  | [] => []
  | batch :: rest =>
    let h := SubmitToSinks p batch
    h :: if h.ends = .escaped then [] else submitEach p rest

/-- `HandleFlush`, and whether an exception leaves it before there are batches. -/
def HandleFlush (p : Plugins B) : List Handled × Bool :=
  match p.aggregator_ with
  | none => ([], false)
  | some aggregator =>
    match aggregator.Flush with
    | .throws => ([], true)
    | .returns (.error _) => ([], false)
    | .returns (.ok batches) => (submitEach p batches, false)

end Delivery

end Illuminator
