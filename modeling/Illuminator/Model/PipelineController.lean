import Illuminator.Machine.Components
import Illuminator.Model.Pipeline
import Illuminator.Model.ThreadPool

/-! # The controller's threads

Any number of pipelines share one sink pool, one collect pool and one timer. The main thread runs
`StopAll`, pipeline by pipeline, and then the destructor, which lets the sink pool finish its queue.
Process threads and push-mode sources are pipeline threads; `SubmitToSinks` puts one task for each
sink into the sink pool. The timer thread submits collections and prunings and injects flushes, a
collect worker that was given a batch enqueues it, and a sink worker runs one `Write` after another.
-/

namespace Illuminator

namespace PipelineController

/-- The tasks of the sink pool: one sink's write of one batch, or the pruning of the storage backend. -/
inductive SinkTask (n : ℕ) (B : Type*) where
  | write (pipeline : Fin n) (sink : ℕ) (batch : B)
  | prune
  deriving DecidableEq

/-- The tasks of the collect pool: one collection by a pull-mode source, or the metrics sync. -/
inductive CollectTask (n : ℕ) where
  | collect (pipeline : Fin n)
  | metrics
  deriving DecidableEq

/-- The timer thread waits, runs a callback, or is over. -/
inductive TimerThread where
  | waiting
  | firing
  | over
  deriving DecidableEq

/-- What was configured. Every pipeline has the sink pool. -/
structure Setup (n : ℕ) (B : Type*) where
  pipelines_ : Fin n → Pipeline.Setup B
  IsPushMode : Fin n → Bool
  storage_backend_ : Bool

/-- The configuration of one pipeline, after `InitSinkPool`. -/
def Setup.pipeline {n : ℕ} {B : Type*} (setup : Setup n B) (k : Fin n) : Pipeline.Setup B :=
  { setup.pipelines_ k with sink_pool_ := true }

end PipelineController

structure PipelineController (n : ℕ) (B : Type*) where
  pipelines_ : Fin n → Pipeline B
  sink_pool_ : ThreadPool (PipelineController.SinkTask n B)
  collect_pool_ : ThreadPool (PipelineController.CollectTask n)
  timer_ : PipelineController.TimerThread

namespace PipelineController

variable {n : ℕ} {B : Type*} [Inhabited B]

/-- Where the main thread stands: before, inside and after `StopAll`, and inside the destructor. -/
inductive Stage where
  | running
  | timer
  | collectStop
  | collectJoin
  | pipelines (index : ℕ) (stage : Pipeline.StopStage)
  | stopped
  | sinkJoin
  | destroyed
  deriving DecidableEq

/-- Where the timer thread stands. -/
inductive TimerPc (n : ℕ) (B : Type*) where
  | waiting
  | submitting (task : CollectTask n)
  | pruning
  | injecting (k : Fin n) (pc : Pipeline.Pc B)
  deriving DecidableEq

/-- Where a collect worker stands. -/
inductive CollectPc (n : ℕ) (B : Type*) where
  | waiting
  | metrics
  | collecting (k : Fin n)
  | collected (k : Fin n) (batch : B)
  | enqueueing (k : Fin n) (pc : Pipeline.Pc B)
  | returned
  deriving DecidableEq

/-- Where a sink worker stands: it has taken a task, or is inside a sink's `Write`. -/
inductive SinkPc (n : ℕ) (B : Type*) where
  | waiting
  | taken (task : SinkTask n B)
  | writing (k : Fin n) (sink : ℕ) (batch : B)
  | returned
  deriving DecidableEq

inductive Pc (n : ℕ) (B : Type*) where
  | main (stage : Stage)
  | thread (k : Fin n) (pc : Pipeline.Pc B)
  | timer (pc : TimerPc n B)
  | collector (pc : CollectPc n B)
  | worker (pc : SinkPc n B)
  deriving DecidableEq

/-- The registered timers. -/
inductive Fire (n : ℕ) where
  | collect (k : Fin n)
  | flush (k : Fin n)
  | metrics
  | prune

/-- A thread's freedom: a pipeline thread's own, which timer fires, and what `Collect` and `Write` do. -/
inductive Choice (n : ℕ) (B : Type*) where
  | proceed
  | StopAll
  | pipeline (choice : Pipeline.Choice B)
  | fire (timer : Fire n)
  | collected (result : Option B)
  | wrote (ok : Bool)
  | threw

/-- What an action shows. A sink's `Write` starts with `began` and ends with `wrote` or `threw`. -/
inductive Event (n : ℕ) (B : Type*) where
  | local
  | pipeline (k : Fin n) (event : Pipeline.Event B)
  | pruning
  | scheduled (task : CollectTask n)
  | collecting (k : Fin n)
  | collected (k : Fin n)
  | took (task : SinkTask n B)
  | began (k : Fin n) (sink : ℕ) (batch : B)
  | wrote (k : Fin n) (sink : ℕ) (batch : B) (ok : Bool)
  | threw (k : Fin n) (sink : ℕ) (batch : B)
  | pruned
  | timerStopped
  | collectPoolJoined
  | sinkPoolJoined

/-- The pool after an event of a pipeline: `SubmitToSinks` submits one task for each sink. -/
def submit (pool : ThreadPool (SinkTask n B)) (k : Fin n) : Pipeline.Event B → ThreadPool (SinkTask n B)
  | .submitted sink batch => pool.Submit (.write k sink batch)
  | _ => pool

/-- One action of a thread inside a pipeline. `PendingTasks` answers what the pool holds. -/
def inPipeline (setup : Setup n B) (c : PipelineController n B) (k : Fin n) (pc : Pipeline.Pc B)
    (choice : Pipeline.Choice B) : Option (PipelineController n B × Pipeline.Pc B × Event n B) :=
  match Pipeline.act (setup.pipeline k) (c.pipelines_ k) pc choice with
  | some (next, after, event) =>
    some ({ c with
        pipelines_ := Function.update c.pipelines_ k next
        sink_pool_ := submit c.sink_pool_ k event },
      after, .pipeline k event)
  | none => none

/-- What a process thread or a source's own thread may do by itself: only a push-mode source enqueues. -/
def permits (setup : Setup n B) (c : PipelineController n B) (k : Fin n) : Pipeline.Choice B → Bool
  | .Enqueue _ => setup.IsPushMode k
  | .InjectFlush | .failed => false
  | .pending tasks => tasks == c.sink_pool_.PendingTasks
  | _ => true

/-- How `Stop` is entered and goes on. -/
def stopChoice : Pipeline.StopStage → Pipeline.Choice B
  | .idle => .Stop
  | _ => .proceed

/-- How `InjectFlush` is entered and goes on. -/
def injectChoice : Pipeline.Pc B → Pipeline.Choice B
  | .outside => .InjectFlush
  | _ => .proceed

/-- One action of the main thread. -/
def mainAct (setup : Setup n B) (c : PipelineController n B) :
    Stage → Choice n B → Option (PipelineController n B × Stage × Event n B)
  | .running, .StopAll => some (c, .timer, .local)
  | .timer, .proceed => if c.timer_ = .firing then none else some ({ c with timer_ := .over }, .collectStop, .timerStopped)
  | .collectStop, .proceed => some ({ c with collect_pool_ := c.collect_pool_.requestStop }, .collectJoin, .local)
  | .collectJoin, .proceed => if c.collect_pool_.joined then some (c, .pipelines 0 .idle, .collectPoolJoined) else none
  | .pipelines index stage, .proceed =>
    if bound : index < n then
      if stage = .returned then some (c, .pipelines (index + 1) .idle, .local)
      else do
        match ← inPipeline setup c ⟨index, bound⟩ (.stop stage) (stopChoice stage) with
        | (next, .stop after, event) => some (next, .pipelines index after, event)
        | _ => none
    else some (c, .stopped, .local)
  -- the destructor; the pipelines are destroyed after the pool, and their `Stop` finds them stopped
  | .stopped, .proceed => some ({ c with sink_pool_ := c.sink_pool_.requestStop }, .sinkJoin, .local)
  | .sinkJoin, .proceed => if c.sink_pool_.joined then some (c, .destroyed, .sinkPoolJoined) else none
  | _, _ => none

/-- One action of the timer thread. -/
def timerAct (setup : Setup n B) (c : PipelineController n B) :
    TimerPc n B → Choice n B → Option (PipelineController n B × TimerPc n B × Event n B)
  | .waiting, .fire timer =>
    if c.timer_ = .waiting then
      let busy := { c with timer_ := .firing }
      match timer with
      | .collect k =>
        if setup.IsPushMode k then none
        else if (c.pipelines_ k).running_ then some (busy, .submitting (.collect k), .local)
        else some (c, .waiting, .local)
      | .metrics => some (busy, .submitting .metrics, .local)
      | .prune => if setup.storage_backend_ then some (busy, .pruning, .local) else none
      | .flush k => if (setup.pipelines_ k).aggregator_ then some (busy, .injecting k .outside, .local) else none
    else none
  | .submitting task, .proceed =>
    some ({ c with timer_ := .waiting, collect_pool_ := c.collect_pool_.Submit task }, .waiting, .scheduled task)
  | .pruning, .proceed =>
    some ({ c with timer_ := .waiting, sink_pool_ := c.sink_pool_.Submit .prune }, .waiting, .pruning)
  | .injecting k pc, .proceed => do
    match ← inPipeline setup c k pc (injectChoice pc) with
    | (next, .outside, event) => some ({ next with timer_ := .waiting }, .waiting, event)
    | (next, after, event) => some (next, .injecting k after, event)
  | _, _ => none

/-- One action of a collect worker. -/
def collectAct (setup : Setup n B) (c : PipelineController n B) :
    CollectPc n B → Choice n B → Option (PipelineController n B × CollectPc n B × Event n B)
  | .waiting, .proceed =>
    match c.collect_pool_.WorkerLoop with
    | some (pool, some (.collect k)) => some ({ c with collect_pool_ := pool }, .collecting k, .collecting k)
    | some (pool, some .metrics) => some ({ c with collect_pool_ := pool }, .metrics, .local)
    | some (pool, none) => some ({ c with collect_pool_ := pool }, .returned, .local)
    | none => none
  | .metrics, .proceed => some (c, .waiting, .local)
  | .collecting k, .collected none => some (c, .waiting, .collected k)
  | .collecting k, .collected (some batch) =>
    if (setup.pipelines_ k).Empty batch then some (c, .waiting, .collected k)
    else some (c, .collected k batch, .collected k)
  | .collected k batch, .proceed => do
    match ← inPipeline setup c k .outside (.Enqueue batch) with
    | (next, .outside, event) => some (next, .waiting, event)
    | (next, after, event) => some (next, .enqueueing k after, event)
  | .enqueueing k pc, .proceed => do
    match ← inPipeline setup c k pc .proceed with
    | (next, .outside, event) => some (next, .waiting, event)
    | (next, after, event) => some (next, .enqueueing k after, event)
  | _, _ => none

/-- One action of a sink worker. A `Write` that reports an error is counted by its pipeline; the
exception of one that throws ends in the task's future. -/
def sinkAct (setup : Setup n B) (c : PipelineController n B) :
    SinkPc n B → Choice n B → Option (PipelineController n B × SinkPc n B × Event n B)
  | .waiting, .proceed =>
    match c.sink_pool_.WorkerLoop with
    | some (pool, some task) => some ({ c with sink_pool_ := pool }, .taken task, .took task)
    | some (pool, none) => some ({ c with sink_pool_ := pool }, .returned, .local)
    | none => none
  | .taken .prune, .proceed => some (c, .waiting, .pruned)
  | .taken (.write k sink batch), .proceed => some (c, .writing k sink batch, .began k sink batch)
  | .writing k sink batch, .wrote true => some (c, .waiting, .wrote k sink batch true)
  | .writing k sink batch, .wrote false => do
    let (next, _, _) ← inPipeline setup c k .outside .failed
    some (next, .waiting, .wrote k sink batch false)
  | .writing k sink batch, .threw => some (c, .waiting, .threw k sink batch)
  | _, _ => none

/-- One atomic action of a thread. -/
def act (setup : Setup n B) (c : PipelineController n B) :
    Pc n B → Choice n B → Option (PipelineController n B × Pc n B × Event n B)
  | .main stage, choice => (mainAct setup c stage choice).map fun (next, after, event) => (next, .main after, event)
  | .thread k pc, .pipeline choice =>
    if permits setup c k choice then
      (inPipeline setup c k pc choice).map fun (next, after, event) => (next, .thread k after, event)
    else none
  | .timer pc, choice => (timerAct setup c pc choice).map fun (next, after, event) => (next, .timer after, event)
  | .collector pc, choice => (collectAct setup c pc choice).map fun (next, after, event) => (next, .collector after, event)
  | .worker pc, choice => (sinkAct setup c pc choice).map fun (next, after, event) => (next, .worker after, event)
  | _, _ => none

/-- The threads that are neither the main thread nor a process thread. -/
inductive Helper (n : ℕ) (ι : Type*) (collectors workers : ℕ) where
  | source (k : Fin n) (index : ι)
  | timer
  | collector (index : Fin collectors)
  | worker (index : Fin workers)
  deriving DecidableEq

inductive Party (n : ℕ) (ι : Type*) (collectors workers : ℕ) where
  | main
  | process (k : Fin n)
  | helper (helper : Helper n ι collectors workers)
  deriving DecidableEq

def program (setup : Setup n B) : Interleaving.Program (PipelineController n B) (Pc n B) (Choice n B) (Event n B) :=
  ⟨act setup⟩

/-- Where each thread stands when `StartAll` has returned or, having failed, calls `StopAll`. A
pipeline that was not started has no process thread. -/
def Party.start {ι : Type*} {collectors workers : ℕ} (running : Fin n → Bool) :
    Party n ι collectors workers → Pc n B
  | .main => .main .running
  | .process k => .thread k (if running k then .loopTest else .exited)
  | .helper (.source k _) => .thread k .outside
  | .helper .timer => .timer .waiting
  | .helper (.collector _) => .collector .waiting
  | .helper (.worker _) => .worker .waiting

/-- The state in which `StartAll` has started the pipelines that are `running` and, unless one has
failed, the timer. -/
def initial (ι : Type*) (collectors workers : ℕ) (channels : Fin n → AsyncChannel B) (running : Fin n → Bool) :
    Interleaving.State (PipelineController n B) (Pc n B) (Party n ι collectors workers) where
  shared :=
    { pipelines_ := fun k => if running k then Pipeline.started (channels k) else Pipeline.unstarted (channels k)
      sink_pool_ := .make workers
      collect_pool_ := .make collectors
      timer_ := if ∀ k, running k then .waiting else .over }
  pc := Party.start running

end PipelineController

end Illuminator
