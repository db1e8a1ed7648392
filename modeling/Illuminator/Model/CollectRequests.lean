import Illuminator.Model.AsyncChannel
import Illuminator.Model.CpuUtilization
import Illuminator.Model.OffcpuProfiler
import Illuminator.Model.Processors
import Illuminator.Model.SchedAnalyzer

/-! # A pipeline under collect requests

One pipeline with its source, its processors and the way from there to the sinks, while handlers of
`GET /api/v1/pipelines/<name>/collect` call `Collect` and the processors themselves. A source is what its
callers and everything else that acts on it do to its state. A call of a processor is one step. The channel
and the aggregator are parameters: no request comes near them.
-/

namespace Illuminator

namespace CollectRequests

open Interleaving Processors

/-- A source, with where a thread stands that is in no `Collect`. An action may end a `Collect` with a batch. -/
structure Source (D : Type) where
  Shared : Type
  Pc : Type
  Choice : Type
  caller : Pc
  act : Shared → Pc → Choice → Option (Shared × Pc × Option (DataBatch D))

variable {D S Q A : Type}

/-- The queue of the channel, and an aggregator with what it gives to the sinks: without one every batch. -/
structure Plumbing (D Q A : Type) where
  TryEnqueue : Q → DataBatch D → Q
  InjectFlush : Q → Q
  Dequeue : Q → Option (ChannelItem (DataBatch D) × Q)
  Add : A → DataBatch D → A × List (DataBatch D)
  Flush : A → A × List (DataBatch D)

structure Shared (source : Source D) (S Q A : Type) where
  source_ : source.Shared
  processors_ : List (Processor S)
  ingest_channel_ : Q
  aggregator_ : A
  sinks_ : List (DataBatch D)
  clock : Instant

/-- Where a thread stands: one that acts on the source, a caller in the collect pool, the timer that injects
flushes, the process thread, or a handler. `done` processors have had the batch. -/
inductive Pc (source : Source D) where
  | acting (pc : source.Pc)
  | collecting (pc : source.Pc)
  | flushing
  | waiting
  | handling (done : ℕ) (batch : DataBatch D)
  | submitting (batches : List (DataBatch D))
  | requested (pc : source.Pc)
  | responding (done : ℕ) (batch : DataBatch D)

inductive Choice (source : Source D) (S : Type) where
  | act (choice : source.Choice)
  | inject
  | dequeue
  | process (world : World S)
  | submit (overloaded : Bool)
  | respond

variable {source : Source D}

/-- `Pipeline::Enqueue` takes only batches that are not empty. -/
def Enqueue (plumbing : Plumbing D Q A) (p : Shared source S Q A) : Option (DataBatch D) → Shared source S Q A
  | none => p
  | some batch =>
    if batch.Empty then p else { p with ingest_channel_ := plumbing.TryEnqueue p.ingest_channel_ batch }

/-- One more processor has a batch. The clock does not run backwards. -/
def process (p : Shared source S Q A) (done : ℕ) (world : World S) (batch : DataBatch D) :
    Option (Shared source S Q A × DataBatch D) :=
  match p.processors_[done]? with
  | none => none
  | some processor =>
    if p.clock ≤ world.now then
      some ({ p with processors_ := p.processors_.set done (processor.Process world batch).2, clock := world.now },
        (processor.Process world batch).1)
    else none

/-- `HandleData` after the last processor. -/
def deliver (plumbing : Plumbing D Q A) (p : Shared source S Q A) (batch : DataBatch D) : Shared source S Q A × Pc source :=
  ({ p with aggregator_ := (plumbing.Add p.aggregator_ batch).1 }, .submitting (plumbing.Add p.aggregator_ batch).2)

def act (plumbing : Plumbing D Q A) (p : Shared source S Q A) :
    Pc source → Choice source S → Option (Shared source S Q A × Pc source × Unit)
  | .acting pc, .act choice =>
    (source.act p.source_ pc choice).map fun moved => ({ p with source_ := moved.1 }, .acting moved.2.1, ())
  | .collecting pc, .act choice =>
    (source.act p.source_ pc choice).map fun moved =>
      (Enqueue plumbing { p with source_ := moved.1 } moved.2.2, .collecting moved.2.1, ())
  | .flushing, .inject =>
    some ({ p with ingest_channel_ := plumbing.InjectFlush p.ingest_channel_ }, .flushing, ())
  | .waiting, .dequeue =>
    match plumbing.Dequeue p.ingest_channel_ with
    | none => none
    | some (.batch batch, queue) => some ({ p with ingest_channel_ := queue }, .handling 0 batch, ())
    | some (.flush, queue) =>
      some ({ p with ingest_channel_ := queue, aggregator_ := (plumbing.Flush p.aggregator_).1 },
        .submitting (plumbing.Flush p.aggregator_).2, ())
  | .handling done batch, .process world =>
    (process p done world batch).map fun moved =>
      (moved.1, if moved.2.Empty then .waiting else .handling (done + 1) moved.2, ())
  | .handling done batch, .respond =>
    if done = p.processors_.length then
      some ((deliver plumbing p batch).1, (deliver plumbing p batch).2, ())
    else none
  | .submitting [], .respond => some (p, .waiting, ())
  | .submitting (batch :: rest), .submit overloaded =>
    some ({ p with sinks_ := p.sinks_ ++ if overloaded then [] else [batch] }, .submitting rest, ())
  | .requested pc, .act choice =>
    (source.act p.source_ pc choice).map fun moved =>
      ({ p with source_ := moved.1 },
        match moved.2.2 with
        | none => .requested moved.2.1
        | some batch => .responding 0 batch, ())
  | .responding done batch, .process world =>
    (process p done world batch).map fun moved => (moved.1, .responding (done + 1) moved.2, ())
  | .responding done _, .respond => if done = p.processors_.length then some (p, .requested source.caller, ()) else none
  | _, _ => none

def program (plumbing : Plumbing D Q A) :
    Program (Shared source S Q A) (Pc source) (Choice source S) Unit := ⟨act plumbing⟩

/-- A thread of the running pipeline. -/
inductive Role (source : Source D) where
  | acts (pc : source.Pc)
  | collects
  | flushes
  | processes

def Role.start : Role source → Pc source
  | .acts pc => .acting pc
  | .collects => .collecting source.caller
  | .flushes => .flushing
  | .processes => .waiting

/-- No Collect, batch or request is under way. -/
def start {τ : Type*} (Handler : Type*) (p : Shared source S Q A) (role : τ → Role source) :
    State (Shared source S Q A) (Pc source) (τ ⊕ Handler) where
  shared := p
  pc := Sum.elim (fun t => (role t).start) fun _ => .requested source.caller

/-! ## The sources -/

/-- The batch that a `Collect` of the off-CPU profiler returns. -/
def offcpuBatch : OffcpuProfiler.Event → Option (DataBatch D)
  | .returned stack_samples => some { type := .kProfile, stack_samples }
  | _ => none

/-- Off-CPU profiles in pull mode. -/
def offcpu_profiler (D : Type) (config : OffcpuProfiler.Config) : Source D where
  Shared := OffcpuProfiler.Shared
  Pc := OffcpuProfiler.Pc
  Choice := OffcpuProfiler.Choice
  caller := .caller
  act s pc choice :=
    (OffcpuProfiler.act config s pc choice).map fun moved => (moved.1, moved.2.1, offcpuBatch moved.2.2)

/-- A record of the scheduler analyzer as a `Record`. -/
def schedRecord (rec : SchedAnalyzer.SchedRecord) (timestamp : Timestamp) : Record D :=
  ((((⟨timestamp, rec.labels, ∅⟩ : Record D).SetField (ascii "pid") (.uint64 rec.pid.toUInt64)
    |>.SetField (ascii "switch_count") (.uint64 (UInt64.ofNat rec.switch_count)))
    |>.SetField (ascii "total_runqueue_latency_ns") (.uint64 (UInt64.ofNat rec.total_runqueue_latency_ns)))
    |>.SetField (ascii "max_runqueue_latency_ns") (.uint64 (UInt64.ofNat rec.max_runqueue_latency_ns)))
    |>.SetField (ascii "migrate_count") (.uint64 (UInt64.ofNat rec.migrate_count))

/-- The batch that a `Collect` of the scheduler analyzer returns. -/
def schedBatch (now : ℕ → Timestamp) : SchedAnalyzer.Event → Option (DataBatch D)
  | .returned batch => some { type := .kTrace, records := batch.mapIdx fun i rec => schedRecord rec (now i) }
  | _ => none

/-- The scheduler analyzer in aggregating mode. A choice says when each record was added. -/
def sched_analyzer (D : Type) (config : SchedAnalyzer.Config) : Source D where
  Shared := SchedAnalyzer.Maps
  Pc := SchedAnalyzer.Pc
  Choice := SchedAnalyzer.Choice × (ℕ → Timestamp)
  caller := .idle
  act m pc choice :=
    ((SchedAnalyzer.program config).act m pc choice.1).map fun moved =>
      (moved.1, moved.2.1, schedBatch choice.2 moved.2.2)

/-- CPU utilization. A choice says what a Collect reads. -/
def cpu_utilization [Add D] [Sub D] [Mul D] [Div D] [NatCast D] [LT D] [DecidableLT D]
    (config : CpuUtilization.Config D) : Source D where
  Shared := CpuUtilization.Shared D
  Pc := Unit
  Choice := CpuUtilization.Readings D
  caller := ()
  act s _ read :=
    some ((CpuUtilization.Collect config s read).1, (), some (CpuUtilization.Collect config s read).2)

end CollectRequests

end Illuminator
