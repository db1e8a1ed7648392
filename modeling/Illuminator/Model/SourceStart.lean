import Illuminator.Model.Status
import Mathlib.Data.Nat.Notation
import Mathlib.Data.UInt

/-! # Starting a source

What the `Start` of three sources acquires, call by call: a loaded object, links, perf events, a ring buffer,
a thread and the running flag. What the kernel answers to each call is an input.
-/

namespace Illuminator

namespace SourceStart

/-- What a source has. `open_fds` are the perf events that the kernel has open for it, with whether each is
enabled, and `perf_fds_` those that the source remembers. -/
structure Source where
  stub_mode_ : Bool := false
  running_ : Bool := false
  objects_ : List String := []
  links_ : List String := []
  open_fds : List (ℤ × Bool) := []
  perf_fds_ : List ℤ := []
  ring_buf_ : Bool := false
  thread : Option String := none
  cfg_flags : Option UInt32 := none
  agg_fd_ : ℤ := -1
  stacks_fd_ : ℤ := -1
  counts_fd_ : ℤ := -1
  deriving DecidableEq

/-- The answers to the calls of libbpf about an object. -/
structure Bpf where
  bpf_object__open : Bool
  bpf_object__load : ℤ
  map_fd : String → ℤ
  prog_fd : String → ℤ
  find_program : String → Bool
  bpf_program__attach : String → Bool
  ring_buffer__new : ℤ → Bool

/-- The CPUs that are online, and the answers to the calls about the perf event of each. -/
structure Perf where
  cpus : List ℕ
  perf_event_open : ℕ → ℤ
  SET_BPF : ℕ → Bool
  RESET : ℕ → Bool
  ENABLE : ℕ → Bool

/-! ## The program manager -/

def LoadObject (bpf : Bpf) (name path : String) (s : Source) : Status × Source :=
  if bpf.bpf_object__open = false then (.Error .kInternal ("Failed to open BPF object: " ++ path), s)
  else if bpf.bpf_object__load ≠ 0 then
    (.Error .kInternal ("Failed to load BPF object: " ++ path ++ " (err=" ++ toString bpf.bpf_object__load ++ ")"), s)
  else (.Ok, { s with objects_ := name :: s.objects_ })

def GetMapFd (bpf : Bpf) (obj_name map_name : String) (s : Source) : ℤ :=
  if s.objects_.contains obj_name then bpf.map_fd map_name else -1

def GetProgFd (bpf : Bpf) (obj_name prog_name : String) (s : Source) : ℤ :=
  if s.objects_.contains obj_name then bpf.prog_fd prog_name else -1

def AttachProgram (bpf : Bpf) (obj_name prog_name : String) (s : Source) : Status × Source :=
  if s.objects_.contains obj_name = false then (.Error .kNotFound ("BPF object not found: " ++ obj_name), s)
  else if bpf.find_program prog_name = false then (.Error .kNotFound ("BPF program not found: " ++ prog_name), s)
  else if bpf.bpf_program__attach prog_name = false then (.Error .kInternal ("Failed to attach: " ++ prog_name), s)
  else (.Ok, { s with links_ := s.links_ ++ [prog_name] })

/-- The loop of `AttachPrograms`, with the failures that it counts. -/
def attachEach (bpf : Bpf) (obj_name : String) : List String → Source → ℕ × Source
  | [], s => (0, s)
  | name :: rest, s =>
    let attached := AttachProgram bpf obj_name name s
    let later := attachEach bpf obj_name rest attached.2
    (if attached.1.ok then later.1 else later.1 + 1, later.2)

def AttachPrograms (bpf : Bpf) (obj_name : String) (prog_names : List String) (s : Source) : Status × Source :=
  let attached := attachEach bpf obj_name prog_names s
  if prog_names ≠ [] ∧ attached.1 = prog_names.length then
    (.Error .kInternal ("Failed to attach all " ++ toString attached.1 ++ " BPF program(s) for object: " ++ obj_name),
      attached.2)
  else (.Ok, attached.2)

/-- A call whose error status the caller returns. -/
def orReturn (called : Status × Source) (rest : Source → Status × Source) : Status × Source :=
  if called.1.ok then rest called.2 else called

/-! ## The three sources -/

structure EbpfSourceBpfConfig where
  object_name : String
  program_names : List String
  map_name : String
  thread_name : String

/-- `EbpfNetTracer` overrides it with one that sets the running flag. -/
def OnStubStart (overridden : Bool) (s : Source) : Status × Source :=
  if overridden then (.Ok, { s with running_ := true }) else (.Ok, s)

/-- `EbpfRingBufferSource::Start`, with what the subclass supplies. -/
def EbpfRingBufferSource.Start (bpf_obj_path_ : String) (bpf_cfg : EbpfSourceBpfConfig) (overridden : Bool)
    (bpf : Bpf) (s : Source) : Status × Source :=
  if bpf_obj_path_ = "" then OnStubStart overridden { s with stub_mode_ := true }
  else
    orReturn (LoadObject bpf bpf_cfg.object_name bpf_obj_path_ s) fun s =>
    orReturn (AttachPrograms bpf bpf_cfg.object_name bpf_cfg.program_names s) fun s =>
    let map_fd := GetMapFd bpf bpf_cfg.object_name bpf_cfg.map_name s
    if map_fd < 0 then (.Error .kInternal (bpf_cfg.map_name ++ " map not found"), s)
    else if bpf.ring_buffer__new map_fd = false then
      (.Error .kInternal ("Failed to create ring buffer for " ++ bpf_cfg.object_name), s)
    else (.Ok, { s with ring_buf_ := true, running_ := true, thread := some bpf_cfg.thread_name })

structure SchedConfig where
  bpf_obj_path_ : String
  detailed_mode_ : Bool
  track_migrations_ : Bool

/-- The programs that `SchedAnalyzerSource::Start` attaches. -/
def SchedConfig.progs (config : SchedConfig) : List String :=
  ["sched_analyzer_wakeup", "sched_analyzer_switch"] ++
    if config.track_migrations_ then ["sched_analyzer_migrate"] else []

/-- The configuration flags are written to the object, when it has the map for them. -/
def SchedAnalyzerSource.writeFlags (config : SchedConfig) (bpf : Bpf) (s : Source) : Source :=
  let cfg_flags := (if config.detailed_mode_ then 1 else 0) ||| (if config.track_migrations_ then 2 else 0)
  if 0 ≤ GetMapFd bpf "sched_analyzer" "sched_analyzer_cfg" s then { s with cfg_flags := some cfg_flags } else s

/-- What comes after attaching. -/
def SchedAnalyzerSource.poll (config : SchedConfig) (bpf : Bpf) (s : Source) : Status × Source :=
  let s := { s with agg_fd_ := GetMapFd bpf "sched_analyzer" "sched_agg" s }
  if config.detailed_mode_ then
    let rb_fd := GetMapFd bpf "sched_analyzer" "sched_analyzer_events" s
    if rb_fd < 0 then (.Error .kInternal "sched_analyzer_events ringbuf missing", s)
    else if bpf.ring_buffer__new rb_fd = false then (.Error .kInternal "sched_analyzer ring buffer failed", s)
    else (.Ok, { s with ring_buf_ := true, running_ := true, thread := some "sched-poll" })
  else (.Ok, { s with running_ := true })

def SchedAnalyzerSource.Start (config : SchedConfig) (bpf : Bpf) (s : Source) : Status × Source :=
  if config.bpf_obj_path_ = "" then (.Ok, { s with stub_mode_ := true, running_ := false })
  else
    orReturn (LoadObject bpf "sched_analyzer" config.bpf_obj_path_ s) fun s =>
    orReturn (AttachPrograms bpf "sched_analyzer" config.progs (writeFlags config bpf s)) (poll config bpf)

structure ProfilerConfig where
  bpf_obj_path_ : String
  stream_mode_ : Bool
  target_pids_ : List UInt32
  target_comms_ : List String

/-- What `ApplyFilterMaps` writes as configuration. The lists of pids and names go to maps of the object. -/
def ApplyFilterMaps (config : ProfilerConfig) (bpf : Bpf) (s : Source) : Source :=
  let flags := (if config.stream_mode_ then 1 else 0) ||| (if config.target_pids_.isEmpty then 0 else 2) |||
    (if config.target_comms_.isEmpty then 0 else 4)
  if 0 ≤ GetMapFd bpf "cpu_profiler" "cpu_profiler_cfg" s then { s with cfg_flags := some flags } else s

/-- `close(fd)`. -/
def close (fd : ℤ) (s : Source) : Source := { s with open_fds := s.open_fds.eraseP fun event => event.1 = fd }

/-- One turn of the loop over the CPUs. -/
def openPerf (perf : Perf) (cpu : ℕ) (s : Source) : Source :=
  let fd := perf.perf_event_open cpu
  if fd < 0 then s
  else
    let opened := { s with open_fds := (fd, false) :: s.open_fds }
    if perf.SET_BPF cpu = false then close fd opened
    else if perf.RESET cpu = false ∨ perf.ENABLE cpu = false then close fd opened
    else
      { opened with
        open_fds := opened.open_fds.map fun event => if event.1 = fd then (fd, true) else event
        perf_fds_ := s.perf_fds_ ++ [fd] }

/-- The CPUs to sample: those online, or CPU 0 where they cannot be read. -/
def Perf.sampled (perf : Perf) : List ℕ := if perf.cpus.isEmpty then [0] else perf.cpus

/-- What comes after the perf events are open. -/
def CpuProfilerSource.launch (config : ProfilerConfig) (bpf : Bpf) (s : Source) : Status × Source :=
  let s := { s with running_ := true }
  if config.stream_mode_ then
    let rb_fd := GetMapFd bpf "cpu_profiler" "cpu_events" s
    if rb_fd < 0 then (.Error .kInternal "cpu_profiler: cpu_events ringbuf missing", s)
    else if bpf.ring_buffer__new rb_fd = false then (.Error .kInternal "cpu_profiler: ring buffer init failed", s)
    else (.Ok, { s with ring_buf_ := true, thread := some "cpuprofiler-poll" })
  else (.Ok, { s with thread := some "cpuprofiler-agg" })

/-- What comes after the program is found. -/
def CpuProfilerSource.sample (config : ProfilerConfig) (bpf : Bpf) (perf : Perf) (s : Source) : Status × Source :=
  let s := perf.sampled.foldl (fun s cpu => openPerf perf cpu s) s
  if s.perf_fds_.isEmpty then (.Error .kInternal "cpu_profiler: failed to open any perf events", s)
  else launch config bpf s

def CpuProfilerSource.Start (config : ProfilerConfig) (bpf : Bpf) (perf : Perf) (s : Source) : Status × Source :=
  if config.bpf_obj_path_ = "" then (.Ok, { s with stub_mode_ := true, running_ := false })
  else
    orReturn (LoadObject bpf "cpu_profiler" config.bpf_obj_path_ s) fun s =>
    let stacks_fd := GetMapFd bpf "cpu_profiler" "stacks" s
    let counts_fd := GetMapFd bpf "cpu_profiler" "stack_counts" s
    if stacks_fd < 0 ∨ counts_fd < 0 then
      (.Error .kInternal "cpu_profiler: stacks/stack_counts maps missing", s)
    else
      let s := ApplyFilterMaps config bpf { s with stacks_fd_ := stacks_fd, counts_fd_ := counts_fd }
      if GetProgFd bpf "cpu_profiler" "on_cpu_sample" s < 0 then
        (.Error .kInternal "cpu_profiler: on_cpu_sample program missing", s)
      else sample config bpf perf s

/-- A source with its configuration. -/
inductive Kind where
  | CpuProfilerSource (config : ProfilerConfig) (perf : Perf)
  | SchedAnalyzerSource (config : SchedConfig)
  | EbpfRingBufferSource (bpf_obj_path_ : String) (bpf_cfg : EbpfSourceBpfConfig) (overridden : Bool)

def Kind.Start (kind : Kind) (bpf : Bpf) (s : Source) : Status × Source :=
  match kind with
  | .CpuProfilerSource config perf => CpuProfilerSource.Start config bpf perf s
  | .SchedAnalyzerSource config => SchedAnalyzerSource.Start config bpf s
  | .EbpfRingBufferSource path bpf_cfg overridden => EbpfRingBufferSource.Start path bpf_cfg overridden bpf s

end SourceStart

end Illuminator
