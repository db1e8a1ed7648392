import Illuminator.Model.DataBatch
import Illuminator.Model.Pipeline
import Illuminator.Model.PipelineLifecycle

/-! # Starting a pipeline behind a push-mode source

`Pipeline::Start` starts the source first, whose thread polls a ring buffer from then on, and installs
the callback last. The main thread runs `Start` and then `Stop`; the source's thread hands each record
to the source's event callback, which enqueues a batch if the pipeline's callback is installed. The
process thread moves once `Start` has created it, and any number of other threads inject flushes. What
BPF and the components answer, and which records arrive when, is the environment's choice.
-/

namespace Illuminator

/-- What a source's `Start` comes to: its status, and whether it has left a thread polling, as it does
only when all went well. -/
structure Launch where
  status : Status
  polls : Bool
  ok_of_polls : polls = true → status.ok = true

/-- A source that polls a ring buffer: how large its events are, and the batch made of one. -/
structure RingBufferSource (R B : Type*) (Empty : B → Bool) where
  Start : Launch
  sizeof_event : ℕ
  build : R → B
  filled : ∀ event, Empty (build event) = false

/-- `HandleEvent`: the batch that is passed to `callback_`, if any. -/
def RingBufferSource.HandleEvent {R B : Type*} {Empty : B → Bool} (source : RingBufferSource R B Empty)
    (callback_ : Bool) (event : R) (size : ℕ) : Option B :=
  if size < source.sizeof_event then none
  else if callback_ then some (source.build event) else none

/-- The answers of BPF while a source starts. -/
structure BpfProgramManager where
  LoadObject : Status
  AttachPrograms : Status
  GetMapFd : String → ℤ
  GetProgFd : String → ℤ
  CreateRingBuffer : ℤ → Bool

structure EbpfSourceBpfConfig where
  object_name : String
  map_name : String

/-- `EbpfRingBufferSource::Start`, with what the subclass supplies. -/
def EbpfRingBufferSource.Start (bpf_obj_path_ : String) (bpf_cfg : EbpfSourceBpfConfig) (bpf_mgr_ : BpfProgramManager)
    (OnStubStart : Status) : Launch :=
  if bpf_obj_path_ = "" then ⟨OnStubStart, false, nofun⟩
  else if bpf_mgr_.LoadObject.ok = false then ⟨bpf_mgr_.LoadObject, false, nofun⟩
  else if bpf_mgr_.AttachPrograms.ok = false then ⟨bpf_mgr_.AttachPrograms, false, nofun⟩
  else if bpf_mgr_.GetMapFd bpf_cfg.map_name < 0 then
    ⟨.Error .kInternal (bpf_cfg.map_name ++ " map not found"), false, nofun⟩
  else if bpf_mgr_.CreateRingBuffer (bpf_mgr_.GetMapFd bpf_cfg.map_name) = false then
    ⟨.Error .kInternal ("Failed to create ring buffer for " ++ bpf_cfg.object_name), false, nofun⟩
  else ⟨.Ok, true, fun _ => rfl⟩

namespace CpuProfilerSource

def MAX_STACK_DEPTH : ℕ := 127

structure il_cpu_sample_event where
  pid : UInt32
  tid : UInt32
  cpu : UInt32
  comm : Vector UInt8 16
  kernel_stack_id : Int32
  user_stack_id : Int32

/-- `sizeof(il_cpu_sample_event)`, whose first member is a 64-bit timestamp. -/
def sizeof_event : ℕ := 48

/-- A record as it arrives: the clock is read, and the kernel's map of stack traces looked up, while it
is handled. -/
structure Arrival where
  event : il_cpu_sample_event
  NowTimestamp : Timestamp
  bpf_map_lookup_elem : Int32 → Option (List UInt64)

/-- `LookupBpfStackTrace`, of a map that is there if `stacks_fd` is not negative. -/
def LookupBpfStackTrace (lookup : Int32 → Option (List UInt64)) (stacks_fd : ℤ) (stack_id : Int32)
    (max_depth : ℕ) : List StackFrame :=
  if stack_id ≤ 0 ∨ stacks_fd < 0 then []
  else
    match lookup stack_id with
    | none => []
    | some ips =>
      ((ips.take (min max_depth MAX_STACK_DEPTH)).takeWhile (· ≠ 0)).map fun ip => ⟨ip, [], [], 0, []⟩

/-- The batch of one sample that `HandleStreamEvent` makes. -/
def build (D : Type) (stacks_fd_ : ℤ) (stack_depth_ : ℕ) (arrival : Arrival) : DataBatch D where
  type := .kProfile
  stack_samples := [{
    timestamp := arrival.NowTimestamp
    pid := arrival.event.pid
    tid := arrival.event.tid
    cpu := arrival.event.cpu
    comm := arrival.event.comm.toList.takeWhile (· ≠ 0)
    count := 1
    sample_type := .kOnCpu
    kernel_stack_id := arrival.event.kernel_stack_id
    user_stack_id := arrival.event.user_stack_id
    kernel_stack :=
      LookupBpfStackTrace arrival.bpf_map_lookup_elem stacks_fd_ arrival.event.kernel_stack_id stack_depth_
    user_stack :=
      LookupBpfStackTrace arrival.bpf_map_lookup_elem stacks_fd_ arrival.event.user_stack_id stack_depth_ }]

def HandleStreamEvent (D : Type) (stacks_fd_ : ℤ) (stack_depth_ : ℕ) (callback_ : Bool) (arrival : Arrival)
    (size : ℕ) : Option (DataBatch D) :=
  if size < sizeof_event then none
  else if callback_ = false then none
  else some (build D stacks_fd_ stack_depth_ arrival)

/-- `CpuProfilerSource::Start` in stream mode. A CPU in `opens` is one whose perf event was opened, given
the program and enabled. -/
def Start (bpf_obj_path_ : String) (bpf_mgr_ : BpfProgramManager) (cpus : List ℕ) (opens : ℕ → Bool) : Launch :=
  if bpf_obj_path_ = "" then ⟨.Ok, false, nofun⟩
  else if bpf_mgr_.LoadObject.ok = false then ⟨bpf_mgr_.LoadObject, false, nofun⟩
  else if bpf_mgr_.GetMapFd "stacks" < 0 ∨ bpf_mgr_.GetMapFd "stack_counts" < 0 then
    ⟨.Error .kInternal "cpu_profiler: stacks/stack_counts maps missing", false, nofun⟩
  else if bpf_mgr_.GetProgFd "on_cpu_sample" < 0 then
    ⟨.Error .kInternal "cpu_profiler: on_cpu_sample program missing", false, nofun⟩
  else if ((if cpus.isEmpty then [0] else cpus).filter opens).isEmpty then
    ⟨.Error .kInternal "cpu_profiler: failed to open any perf events", false, nofun⟩
  else if bpf_mgr_.GetMapFd "cpu_events" < 0 then
    ⟨.Error .kInternal "cpu_profiler: cpu_events ringbuf missing", false, nofun⟩
  else if bpf_mgr_.CreateRingBuffer (bpf_mgr_.GetMapFd "cpu_events") = false then
    ⟨.Error .kInternal "cpu_profiler: ring buffer init failed", false, nofun⟩
  else ⟨.Ok, true, fun _ => rfl⟩

instance (D : Type) : Inhabited (DataBatch D) := ⟨{ type := .kGeneric }⟩

/-- The CPU profiler in stream mode, as a source that polls a ring buffer. -/
def stream (D : Type) (launch : Launch) (stacks_fd_ : ℤ) (stack_depth_ : ℕ) :
    RingBufferSource Arrival (DataBatch D) DataBatch.Empty where
  Start := launch
  sizeof_event := sizeof_event
  build := build D stacks_fd_ stack_depth_
  filled _ := rfl

/-- The profiler tests its callback before it builds a batch, the other sources after; what is passed on
is the same. -/
theorem HandleStreamEvent_eq_HandleEvent (D : Type) (launch : Launch) (stacks_fd_ : ℤ) (stack_depth_ : ℕ)
    (callback_ : Bool) (arrival : Arrival) (size : ℕ) :
    HandleStreamEvent D stacks_fd_ stack_depth_ callback_ arrival size =
      (stream D launch stacks_fd_ stack_depth_).HandleEvent callback_ arrival size := by
  cases callback_ <;> rfl

end CpuProfilerSource

namespace PushPipeline

/-- A source's polling thread: not created, alive, or over. -/
inductive PollThread where
  | absent
  | running
  | exited
  deriving DecidableEq

/-- What was configured; a component other than the source is what its `Start` returns. -/
structure Setup (R B : Type*) where
  name_ : String
  Empty : B → Bool
  Size : B → ℕ
  source_ : RingBufferSource R B Empty
  processors_ : List Status
  aggregator_ : Option Status
  sinks_ : List Status
  sink_pool_ : Bool

def Setup.plugins {R B : Type*} (setup : Setup R B) : Lifecycle.Plugins where
  name_ := setup.name_
  source_ := some setup.source_.Start.status
  processors_ := setup.processors_
  aggregator_ := setup.aggregator_
  sinks_ := setup.sinks_

def Setup.pipeline {R B : Type*} (setup : Setup R B) : Pipeline.Setup B where
  Empty := setup.Empty
  Size := setup.Size
  processors_ := setup.processors_.length
  aggregator_ := setup.aggregator_.isSome
  sinks_ := setup.sinks_.length
  sink_pool_ := setup.sink_pool_

end PushPipeline

/-- A pipeline with its source's own `callback_`, `running_` and `poll_thread_`. -/
structure PushPipeline (B : Type*) where
  pipeline : Pipeline B
  callback_ : Bool
  running_ : Bool
  poll_thread_ : PushPipeline.PollThread

namespace PushPipeline

variable {R B : Type*} [Inhabited B]

/-- Where the main thread stands in `Start`, or, after it has returned `Ok`, in `Stop`. -/
inductive Stage where
  | begin
  | source
  | sourceReturns
  | components (rest : List (Lifecycle.Part × Status))
  | run
  | spawn
  | install
  | refused (status : Status)
  | failed (status : Status)
  | stop (stage : Pipeline.StopStage)
  deriving DecidableEq

/-- Where the source's thread stands: in its polling loop, in the event callback with a record, or in the
pipeline's callback with a batch. -/
inductive SourcePc (R B : Type*) where
  | loopTest
  | polling
  | received (event : R) (size : ℕ)
  | pushing (batch : B)
  | calling (pc : Pipeline.Pc B)
  | exited

inductive Pc (R B : Type*) where
  | main (stage : Stage)
  | process (pc : Pipeline.Pc B)
  | source (pc : SourcePc R B)
  | other (pc : Pipeline.Pc B)

/-- A thread's freedom: the records that arrive, and a pipeline thread's own. -/
inductive Choice (R B : Type*) where
  | proceed
  | record (event : R) (size : ℕ)
  | pipeline (choice : Pipeline.Choice B)

/-- What an action shows. `component` is the return of a component's `Start`, and `handled` is the
handling of a record that is not too short to be an event. -/
inductive Event (R B : Type*) where
  | local
  | component (event : Lifecycle.Event)
  | installed
  | received (event : R) (size : ℕ)
  | handled (event : R)
  | pipeline (event : Pipeline.Event B)

/-- One action of a thread inside the pipeline. -/
def inPipeline (setup : Setup R B) (s : PushPipeline B) (pc : Pipeline.Pc B) (choice : Pipeline.Choice B) :
    Option (PushPipeline B × Pipeline.Pc B × Event R B) :=
  (Pipeline.act setup.pipeline s.pipeline pc choice).map fun (next, after, event) =>
    ({ s with pipeline := next }, after, .pipeline event)

/-- One action of the main thread. `Stop` on a pipeline whose `Start` has failed does nothing. -/
def mainAct (setup : Setup R B) (s : PushPipeline B) :
    Stage → Choice R B → Option (PushPipeline B × Stage × Event R B)
  | .begin, .proceed =>
    if setup.sinks_.isEmpty then
      some (s, .refused (.Error .kInvalidArgument ("Pipeline has no sinks: " ++ setup.name_)), .local)
    else some (s, .source, .local)
  | .source, .proceed =>
    some ({ s with
        running_ := setup.source_.Start.polls
        poll_thread_ := if setup.source_.Start.polls then .running else .absent },
      .sourceReturns, .local)
  | .sourceReturns, .proceed =>
    if setup.source_.Start.status.ok then
      some (s, .components setup.plugins.rest, .component (.started .source))
    else
      some (s, .refused setup.source_.Start.status, .component (.failed .source setup.source_.Start.status))
  | .components [], .proceed => some (s, .run, .local)
  | .components ((part, status) :: rest), .proceed =>
    if status.ok then some (s, .components rest, .component (.started part))
    else some (s, .failed status, .component (.failed part status))
  | .run, .proceed => some ({ s with pipeline := { s.pipeline with running_ := true } }, .spawn, .local)
  | .spawn, .proceed =>
    some ({ s with pipeline := { s.pipeline with process_thread_ := .running } }, .install, .local)
  | .install, .proceed => some ({ s with callback_ := true }, .stop .idle, .installed)
  -- the source's `Stop` lets its thread leave the polling loop and joins it
  | .stop .source, .pipeline choice =>
    if s.running_ then some ({ s with running_ := false }, .stop .source, .local)
    else if s.poll_thread_ = .running then none
    else
      (Pipeline.stop setup.pipeline s.pipeline .source choice).map fun (next, after, event) =>
        ({ s with pipeline := next }, .stop after, .pipeline event)
  | .stop stage, .pipeline choice =>
    (Pipeline.stop setup.pipeline s.pipeline stage choice).map fun (next, after, event) =>
      ({ s with pipeline := next }, .stop after, .pipeline event)
  | _, _ => none

/-- Where the source's thread is after an action inside the pipeline's callback. -/
def SourcePc.calls : Pipeline.Pc B → SourcePc R B
  | .outside => .polling
  | pc => .calling pc

/-- One action of the source's thread, which exists while `poll_thread_` is running. -/
def sourceAct (setup : Setup R B) (s : PushPipeline B) :
    SourcePc R B → Choice R B → Option (PushPipeline B × SourcePc R B × Event R B)
  | .loopTest, .proceed =>
    if s.running_ then some (s, .polling, .local)
    else some ({ s with poll_thread_ := .exited }, .exited, .local)
  | .polling, .record event size => some (s, .received event size, .received event size)
  | .polling, .proceed => some (s, .loopTest, .local)
  | .received event size, .proceed =>
    some (s, ((setup.source_.HandleEvent s.callback_ event size).map SourcePc.pushing).getD .polling,
      if size < setup.source_.sizeof_event then .local else .handled event)
  | .pushing batch, .proceed =>
    (inPipeline setup s .outside (.Enqueue batch)).map fun (next, after, event) => (next, .calls after, event)
  | .calling pc, .proceed =>
    (inPipeline setup s pc .proceed).map fun (next, after, event) => (next, .calls after, event)
  | _, _ => none

/-- The other threads inject flushes and count failed writes. -/
def permits : Pipeline.Choice B → Bool
  | .Enqueue _ => false
  | _ => true

/-- One atomic action of a thread. -/
def act (setup : Setup R B) (s : PushPipeline B) :
    Pc R B → Choice R B → Option (PushPipeline B × Pc R B × Event R B)
  | .main stage, choice => (mainAct setup s stage choice).map fun (next, after, event) => (next, .main after, event)
  | .source pc, choice =>
    if s.poll_thread_ = .running then
      (sourceAct setup s pc choice).map fun (next, after, event) => (next, .source after, event)
    else none
  | .process pc, .pipeline choice =>
    if s.pipeline.process_thread_ = .exited then none
    else (inPipeline setup s pc choice).map fun (next, after, event) => (next, .process after, event)
  | .other pc, .pipeline choice =>
    if permits choice then
      (inPipeline setup s pc choice).map fun (next, after, event) => (next, .other after, event)
    else none
  | _, _ => none

inductive Party (ι : Type*) where
  | main
  | process
  | source
  | other (index : ι)
  deriving DecidableEq

def program (setup : Setup R B) : Interleaving.Program (PushPipeline B) (Pc R B) (Choice R B) (Event R B) :=
  ⟨act setup⟩

/-- Where each thread stands before `Start`; the process thread and the source's do not exist yet. -/
def Party.start {ι : Type*} : Party ι → Pc R B
  | .main => .main .begin
  | .process => .process .loopTest
  | .source => .source .loopTest
  | .other _ => .other .outside

/-- A pipeline that was built and not started. -/
def built (channel : AsyncChannel B) : PushPipeline B where
  pipeline := { Pipeline.unstarted channel with sourceStopped := false }
  callback_ := false
  running_ := false
  poll_thread_ := .absent

def initial (R ι : Type*) (channel : AsyncChannel B) : Interleaving.State (PushPipeline B) (Pc R B) (Party ι) :=
  ⟨built channel, Party.start⟩

end PushPipeline

end Illuminator
