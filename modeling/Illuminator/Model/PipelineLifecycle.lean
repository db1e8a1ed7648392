import Illuminator.Model.Status
import Mathlib.Data.Nat.Notation

/-! # Starting and stopping pipelines

`Pipeline::Start` and `Stop`, and `StartAll` and `StopAll` over a list of pipelines, as the calls they
make on the plugins. A plugin is what its `Start` returns; every call is logged, the controller's with
the pipeline's position. A pipeline's process thread exists from the end of a successful `Start` until
`Stop` has joined it.
-/

namespace Illuminator

namespace Lifecycle

/-- A component's place in its pipeline. -/
inductive Part where
  | source
  | processor (index : ℕ)
  | aggregator
  | sink (index : ℕ)
  deriving DecidableEq

/-- A call on a component: a `Start` with its outcome, a `Stop`, or a sink's `Flush`. -/
inductive Event where
  | started (part : Part)
  | failed (part : Part) (status : Status)
  | stopped (part : Part)
  | flushed (part : Part)
  deriving DecidableEq

/-- A configured pipeline, each plugin being what its `Start` returns. -/
structure Plugins where
  name_ : String
  source_ : Option Status
  processors_ : List Status
  aggregator_ : Option Status
  sinks_ : List Status

/-- A pipeline's own state. -/
structure Pipeline where
  plugins : Plugins
  running_ : Bool
  process_thread_ : Bool

/-- A pipeline that was built and not started. -/
def Pipeline.built (plugins : Plugins) : Pipeline := ⟨plugins, false, false⟩

def indexed (part : ℕ → Part) (statuses : List Status) : List (Part × Status) :=
  statuses.zipIdx.map fun entry => (part entry.2, entry.1)

/-- The components behind a source, in the order of `Start` and of `Stop`. -/
def Plugins.rest (p : Plugins) : List (Part × Status) :=
  indexed .processor p.processors_ ++ p.aggregator_.toList.map (Prod.mk .aggregator) ++ indexed .sink p.sinks_

/-- Start one component after another; return at the first error. -/
def startEach : List (Part × Status) → List Event × Option Status
  | [] => ([], none)
  | (part, status) :: rest =>
    if status.ok then (.started part :: (startEach rest).1, (startEach rest).2)
    else ([.failed part status], some status)

def Pipeline.Start (p : Pipeline) : Pipeline × List Event × Status :=
  match p.plugins.source_ with
  | none => (p, [], .Error .kInvalidArgument ("Pipeline has no source: " ++ p.plugins.name_))
  | some source =>
    if p.plugins.sinks_.isEmpty then
      (p, [], .Error .kInvalidArgument ("Pipeline has no sinks: " ++ p.plugins.name_))
    else
      match startEach ((.source, source) :: p.plugins.rest) with
      | (log, some status) => (p, log, status)
      | (log, none) => ({ p with running_ := true, process_thread_ := true }, log, .Ok)

/-- A sink is flushed before it is stopped. -/
def stopEvents : Part → List Event
  | .sink index => [.flushed (.sink index), .stopped (.sink index)]
  | part => [.stopped part]

def Pipeline.Stop (p : Pipeline) : Pipeline × List Event :=
  if p.running_ then
    ({ p with running_ := false, process_thread_ := false },
      .stopped .source :: p.plugins.rest.flatMap fun entry => stopEvents entry.1)
  else (p, [])

structure PipelineController where
  pipelines_ : List Pipeline
  timer_ : Bool
  collect_pool_ : Bool

/-- A controller after `BuildFromConfig`. -/
def PipelineController.built (pipelines : List Plugins) : PipelineController :=
  ⟨pipelines.map .built, false, true⟩

/-- The loop of `StartAll`. -/
def startPipelines : ℕ → List Pipeline → List Pipeline × List (ℕ × Event) × Option Status
  | _, [] => ([], [], none)
  | index, p :: rest =>
    if p.Start.2.2.ok then
      (p.Start.1 :: (startPipelines (index + 1) rest).1,
        p.Start.2.1.map (Prod.mk index) ++ (startPipelines (index + 1) rest).2.1,
        (startPipelines (index + 1) rest).2.2)
    else (p.Start.1 :: rest, p.Start.2.1.map (Prod.mk index), some p.Start.2.2)

def PipelineController.StopAll (c : PipelineController) : PipelineController × List (ℕ × Event) :=
  (⟨c.pipelines_.map fun p => p.Stop.1, false, false⟩,
    c.pipelines_.zipIdx.flatMap fun entry => entry.1.Stop.2.map (Prod.mk entry.2))

def PipelineController.StartAll (c : PipelineController) : PipelineController × List (ℕ × Event) × Status :=
  match startPipelines 0 c.pipelines_ with
  | (pipelines, log, some status) =>
    let (stopped, cleanup) := StopAll { c with pipelines_ := pipelines }
    (stopped, log ++ cleanup, status)
  | (pipelines, log, none) => ({ c with pipelines_ := pipelines, timer_ := true }, log, .Ok)

end Lifecycle

end Illuminator
