import Illuminator.Machine.Descriptors
import Illuminator.Model.SourceStart

/-! # What the sources hold

`BpfProgramManager` and the sources that use it, with an identity for everything that libbpf, the kernel and the C++
library make for them, and a log of the calls about these: what is made, what is used and what is released. What the
calls answer is an input. A source that has no perf events or no second thread has nothing in these fields; its `Stop`
then passes over them.
-/

namespace Illuminator

namespace BpfResources

open SourceStart (Bpf Perf EbpfSourceBpfConfig ProfilerConfig SchedConfig)

inductive HandleType where
  | bpf_object
  | bpf_link
  | perf_event
  | ring_buffer
  | thread
  deriving DecidableEq

/-- Something that was made for a source, by its number in the order of making. -/
structure Handle where
  type : HandleType
  number : ℕ
  deriving DecidableEq

structure Source where
  objects_ : List (String × Handle) := []
  links_ : List Handle := []
  perf_fds_ : List Handle := []
  ring_buf_ : Option Handle := none
  poll_thread_ : Option Handle := none
  agg_thread_ : Option Handle := none
  made : ℕ := 0
  calls : List (Descriptors.Call Handle) := []

namespace Source

/-- The handle that is made next. -/
def fresh (s : Source) (type : HandleType) : Handle := ⟨type, s.made⟩

def make (s : Source) (type : HandleType) : Source :=
  { s with made := s.made + 1, calls := s.calls ++ [.opened (s.fresh type)] }

def use (s : Source) (a : Handle) : Source := { s with calls := s.calls ++ [.used a] }

def release (s : Source) (a : Handle) : Source := { s with calls := s.calls ++ [.closed a] }

def releaseAll (s : Source) (l : List Handle) : Source := { s with calls := s.calls ++ l.map .closed }

end Source

/-! ## The program manager -/

def LoadObject (bpf : Bpf) (name path : String) (s : Source) : Status × Source :=
  if bpf.bpf_object__open = false then (.Error .kInternal ("Failed to open BPF object: " ++ path), s)
  else
    let obj := s.fresh .bpf_object
    let s := (s.make .bpf_object).use obj
    if bpf.bpf_object__load ≠ 0 then
      (.Error .kInternal ("Failed to load BPF object: " ++ path ++ " (err=" ++ toString bpf.bpf_object__load ++ ")"),
        s.release obj)
    else (.Ok, { s with objects_ := (name, obj) :: s.objects_.filter fun entry => entry.1 ≠ name })

/-- `objects_.find(obj_name)`, and the call that looks something up in the object. -/
def lookIn (obj_name : String) (s : Source) : Option Source := (s.objects_.lookup obj_name).map s.use

def GetMapFd (bpf : Bpf) (obj_name map_name : String) (s : Source) : ℤ × Source :=
  match lookIn obj_name s with
  | none => (-1, s)
  | some s => (bpf.map_fd map_name, s)

def GetProgFd (bpf : Bpf) (obj_name prog_name : String) (s : Source) : ℤ × Source :=
  match lookIn obj_name s with
  | none => (-1, s)
  | some s => (bpf.prog_fd prog_name, s)

def AttachProgram (bpf : Bpf) (obj_name prog_name : String) (s : Source) : Status × Source :=
  match lookIn obj_name s with
  | none => (.Error .kNotFound ("BPF object not found: " ++ obj_name), s)
  | some s =>
    if bpf.find_program prog_name = false then (.Error .kNotFound ("BPF program not found: " ++ prog_name), s)
    else if bpf.bpf_program__attach prog_name = false then (.Error .kInternal ("Failed to attach: " ++ prog_name), s)
    else (.Ok, { s.make .bpf_link with links_ := s.links_ ++ [s.fresh .bpf_link] })

/-- The loop of `AttachPrograms`, with the failures that it counts. -/
def attachEach (bpf : Bpf) (obj_name : String) : List String → Source → ℕ × Source
  | [], s => (0, s)
  | name :: rest, s =>
    let attached := AttachProgram bpf obj_name name s
    let later := attachEach bpf obj_name rest attached.2
    (if attached.1.ok then later.1 else later.1 + 1, later.2)

def AttachPrograms (bpf : Bpf) (obj_name : String) (prog_names : List String) (s : Source) : Status × Source :=
  let attached := attachEach bpf obj_name prog_names s
  if prog_names ≠ [] ∧ attached.1 = prog_names.length then
    (.Error .kInternal ("Failed to attach all " ++ toString attached.1 ++ " BPF program(s) for object: " ++ obj_name),
      attached.2)
  else (.Ok, attached.2)

/-- `ring_buf_ = CreateRingBuffer(map_fd, ...)`, and the thread that polls it. -/
def launchPoll (bpf : Bpf) (map_fd : ℤ) (message : String) (s : Source) : Status × Source :=
  if bpf.ring_buffer__new map_fd = false then (.Error .kInternal message, { s with ring_buf_ := none })
  else
    let s := { s.make .ring_buffer with ring_buf_ := some (s.fresh .ring_buffer) }
    (.Ok, { s.make .thread with poll_thread_ := some (s.fresh .thread) })

def DetachAll (s : Source) : Source := { s.releaseAll s.links_ with links_ := [] }

/-- `~BpfProgramManager`. -/
def destroy (s : Source) : Source := (DetachAll s).releaseAll (s.objects_.map Prod.snd)

/-! ## The sources -/

/-- A call whose error status the caller returns. -/
def orReturn (called : Status × Source) (rest : Source → Status × Source) : Status × Source :=
  if called.1.ok then rest called.2 else called

def EbpfRingBufferSource.Start (bpf_obj_path_ : String) (bpf_cfg : EbpfSourceBpfConfig) (bpf : Bpf) (s : Source) :
    Status × Source :=
  if bpf_obj_path_ = "" then (.Ok, s)
  else
    orReturn (LoadObject bpf bpf_cfg.object_name bpf_obj_path_ s) fun s =>
    orReturn (AttachPrograms bpf bpf_cfg.object_name bpf_cfg.program_names s) fun s =>
    let (map_fd, s) := GetMapFd bpf bpf_cfg.object_name bpf_cfg.map_name s
    if map_fd < 0 then (.Error .kInternal (bpf_cfg.map_name ++ " map not found"), s)
    else launchPoll bpf map_fd ("Failed to create ring buffer for " ++ bpf_cfg.object_name) s

def OffcpuProfilerSource.Start (bpf_obj_path_ : String) (bpf : Bpf) (s : Source) : Status × Source :=
  if bpf_obj_path_ = "" then (.Ok, s)
  else
    orReturn (LoadObject bpf "offcpu_profiler" bpf_obj_path_ s) fun s =>
    orReturn (AttachProgram bpf "offcpu_profiler" "trace_offcpu" s) fun s =>
    let (_, s) := GetMapFd bpf "offcpu_profiler" "offcpu_stacks" s
    let (rb_fd, s) := GetMapFd bpf "offcpu_profiler" "offcpu_events" s
    if rb_fd < 0 then (.Error .kInternal "offcpu_events ringbuf missing", s)
    else launchPoll bpf rb_fd "offcpu ring buffer init failed" s

/-- What comes after attaching. -/
def SchedAnalyzerSource.poll (config : SchedConfig) (bpf : Bpf) (s : Source) : Status × Source :=
  let (_, s) := GetMapFd bpf "sched_analyzer" "sched_agg" s
  if config.detailed_mode_ then
    let (rb_fd, s) := GetMapFd bpf "sched_analyzer" "sched_analyzer_events" s
    if rb_fd < 0 then (.Error .kInternal "sched_analyzer_events ringbuf missing", s)
    else launchPoll bpf rb_fd "sched_analyzer ring buffer failed" s
  else (.Ok, s)

def SchedAnalyzerSource.Start (config : SchedConfig) (bpf : Bpf) (s : Source) : Status × Source :=
  if config.bpf_obj_path_ = "" then (.Ok, s)
  else
    orReturn (LoadObject bpf "sched_analyzer" config.bpf_obj_path_ s) fun s =>
    let (_, s) := GetMapFd bpf "sched_analyzer" "sched_analyzer_cfg" s
    orReturn (AttachPrograms bpf "sched_analyzer" config.progs s) (poll config bpf)

def ApplyFilterMaps (bpf : Bpf) (s : Source) : Source :=
  let (_, s) := GetMapFd bpf "cpu_profiler" "cpu_profiler_cfg" s
  let (_, s) := GetMapFd bpf "cpu_profiler" "target_pids" s
  (GetMapFd bpf "cpu_profiler" "target_comms" s).2

/-- One turn of the loop over the CPUs. -/
def openPerf (perf : Perf) (s : Source) (cpu : ℕ) : Source :=
  if perf.perf_event_open cpu < 0 then s
  else
    let fd := s.fresh .perf_event
    let s := (s.make .perf_event).use fd
    if perf.SET_BPF cpu = false then s.release fd
    else if perf.RESET cpu = false ∨ perf.ENABLE cpu = false then (s.use fd).release fd
    else { s.use fd with perf_fds_ := s.perf_fds_ ++ [fd] }

/-- What comes after the perf events are open. -/
def CpuProfilerSource.launch (config : ProfilerConfig) (bpf : Bpf) (s : Source) : Status × Source :=
  if config.stream_mode_ then
    let (rb_fd, s) := GetMapFd bpf "cpu_profiler" "cpu_events" s
    if rb_fd < 0 then (.Error .kInternal "cpu_profiler: cpu_events ringbuf missing", s)
    else launchPoll bpf rb_fd "cpu_profiler: ring buffer init failed" s
  else (.Ok, { s.make .thread with agg_thread_ := some (s.fresh .thread) })

/-- What comes after the program is found. -/
def CpuProfilerSource.sample (config : ProfilerConfig) (bpf : Bpf) (perf : Perf) (s : Source) : Status × Source :=
  let s := perf.sampled.foldl (openPerf perf) s
  if s.perf_fds_.isEmpty then (.Error .kInternal "cpu_profiler: failed to open any perf events", s)
  else launch config bpf s

def CpuProfilerSource.Start (config : ProfilerConfig) (bpf : Bpf) (perf : Perf) (s : Source) : Status × Source :=
  if config.bpf_obj_path_ = "" then (.Ok, s)
  else
    orReturn (LoadObject bpf "cpu_profiler" config.bpf_obj_path_ s) fun s =>
    let (stacks_fd, s) := GetMapFd bpf "cpu_profiler" "stacks" s
    let (counts_fd, s) := GetMapFd bpf "cpu_profiler" "stack_counts" s
    if stacks_fd < 0 ∨ counts_fd < 0 then (.Error .kInternal "cpu_profiler: stacks/stack_counts maps missing", s)
    else
      let (prog_fd, s) := GetProgFd bpf "cpu_profiler" "on_cpu_sample" (ApplyFilterMaps bpf s)
      if prog_fd < 0 then (.Error .kInternal "cpu_profiler: on_cpu_sample program missing", s)
      else sample config bpf perf s

/-- A source with its configuration. -/
inductive Kind where
  | CpuProfilerSource (config : ProfilerConfig)
  | OffcpuProfilerSource (bpf_obj_path_ : String)
  | SchedAnalyzerSource (config : SchedConfig)
  | EbpfRingBufferSource (bpf_obj_path_ : String) (bpf_cfg : EbpfSourceBpfConfig)

def Kind.Start (kind : Kind) (bpf : Bpf) (perf : Perf) (s : Source) : Status × Source :=
  match kind with
  | .CpuProfilerSource config => CpuProfilerSource.Start config bpf perf s
  | .OffcpuProfilerSource path => OffcpuProfilerSource.Start path bpf s
  | .SchedAnalyzerSource config => SchedAnalyzerSource.Start config bpf s
  | .EbpfRingBufferSource path bpf_cfg => EbpfRingBufferSource.Start path bpf_cfg bpf s

/-- `Stop`: the threads are joined, the ring buffer is freed, each perf event is disabled and closed. -/
def Stop (s : Source) : Source :=
  let s := { s.releaseAll s.poll_thread_.toList with poll_thread_ := none }
  let s := { s.releaseAll s.agg_thread_.toList with agg_thread_ := none }
  let s := { s.releaseAll s.ring_buf_.toList with ring_buf_ := none }
  let s := { s with
    calls := s.calls ++ s.perf_fds_.flatMap fun fd => [.used fd, .closed fd]
    perf_fds_ := [] }
  DetachAll s

/-! ## Runs -/

inductive Act where
  | Start (bpf : Bpf) (perf : Perf)
  | Stop
  /-- The polling thread calls `ring_buffer__poll`. -/
  | poll

/-- A source that has a thread is not started again before it is stopped. -/
def Kind.step (kind : Kind) (s : Source) : Act → Option Source
  | .Start bpf perf => if s.poll_thread_ = none ∧ s.agg_thread_ = none then some (kind.Start bpf perf s).2 else none
  | .Stop => some (Stop s)
  | .poll =>
    match s.poll_thread_ with
    | none => none
    | some _ => some { s with calls := s.calls ++ s.ring_buf_.toList.map .used }

end BpfResources

end Illuminator
