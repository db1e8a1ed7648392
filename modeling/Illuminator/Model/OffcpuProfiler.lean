import Illuminator.Machine.Components
import Illuminator.Model.DataBatch

/-! # Off-CPU profiles

`trace_offcpu` runs at every `sched_switch`: it notes in `offcpu_start` when and where a task has left
its CPU, and when the task comes back it sends an event unless too little time has passed. The poll
thread of `OffcpuProfilerSource` takes the events from the ring buffer, and `HandleEvent` caches a
sample for each, until a `Collect` takes what is cached. The map and the ring buffer are never full. A
CPU may go over to any task but the one it runs. What the stack map holds is a parameter.
-/

namespace Illuminator

namespace OffcpuProfiler

open Interleaving

abbrev Tid := UInt32

structure OffcpuKey where
  pid : Tid
  tid : Tid
  deriving DecidableEq

structure OffcpuVal where
  timestamp_ns : UInt64
  kernel_stack_id : Int32
  user_stack_id : Int32
  comm : Bytes
  deriving DecidableEq

/-- `struct il_offcpu_event`. -/
structure IlOffcpuEvent where
  timestamp_ns : UInt64
  pid : Tid
  tid : Tid
  cpu : UInt32
  duration_ns : UInt64
  kernel_stack_id : Int32
  user_stack_id : Int32
  comm : Bytes
  deriving DecidableEq

/-- A `sched_switch` as the probe sees it, with the stacks of the task that leaves. -/
structure Switch where
  cpu : UInt32
  ts : UInt64
  prev_pid : Tid
  prev_comm : Bytes
  kernel_stack_id : Int32
  user_stack_id : Int32
  next_pid : Tid
  deriving DecidableEq

/-- What `Init` has read, the constant of the probe, and the contents of the stack map. -/
structure Config where
  min_duration_us_ : UInt32 := 100
  target_pid_allow_ : List UInt32 := []
  min_duration_ns : UInt64 := 100000
  LookupBpfStackTrace : Int32 → List StackFrame := fun _ => []

/-- `Init` accepts every configuration, here with its list of pids already parsed. The configured duration
is kept in a field that nothing reads, and the probe's constant is left as it is. -/
def Init (min_duration_us : Int64) (target_pids : List UInt32) : Config where
  min_duration_us_ := UInt32.ofInt min_duration_us.toInt
  target_pid_allow_ := target_pids

def Config.AllowPid (config : Config) (pid : UInt32) : Bool :=
  config.target_pid_allow_.isEmpty || config.target_pid_allow_.contains pid

/-- The maps, the event that the poll thread is handling, and the cached batch. -/
structure Shared where
  offcpu_start : OffcpuKey → Option OffcpuVal
  offcpu_events : List IlOffcpuEvent
  handling : Option IlOffcpuEvent
  cached_batch_ : Option (List StackSample)
  clock : UInt64

def Shared.started : Shared := ⟨fun _ => none, [], none, none, 0⟩

/-! ## The probe -/

def Switch.left (ctx : Switch) : OffcpuVal := ⟨ctx.ts, ctx.kernel_stack_id, ctx.user_stack_id, ctx.prev_comm⟩

def switchOut (offcpu_start : OffcpuKey → Option OffcpuVal) (ctx : Switch) : OffcpuKey → Option OffcpuVal :=
  if ctx.prev_pid ≠ 0 then Function.update offcpu_start ⟨ctx.prev_pid, ctx.prev_pid⟩ (some ctx.left)
  else offcpu_start

def offcpuEvent (ctx : Switch) (start : OffcpuVal) : IlOffcpuEvent where
  timestamp_ns := start.timestamp_ns
  pid := ctx.next_pid
  tid := ctx.next_pid
  cpu := ctx.cpu
  duration_ns := ctx.ts - start.timestamp_ns
  kernel_stack_id := start.kernel_stack_id
  user_stack_id := start.user_stack_id
  comm := start.comm

/-- What the map becomes, and the event that is sent. -/
def switchIn (min_duration_ns : UInt64) (offcpu_start : OffcpuKey → Option OffcpuVal) (ctx : Switch) :
    (OffcpuKey → Option OffcpuVal) × Option IlOffcpuEvent :=
  if ctx.next_pid = 0 then (offcpu_start, none)
  else match offcpu_start ⟨ctx.next_pid, ctx.next_pid⟩ with
    | none => (offcpu_start, none)
    | some start =>
      if ctx.ts - start.timestamp_ns < min_duration_ns then
        (Function.update offcpu_start ⟨ctx.next_pid, ctx.next_pid⟩ none, none)
      else
        (Function.update offcpu_start ⟨ctx.next_pid, ctx.next_pid⟩ none, some (offcpuEvent ctx start))

def trace_offcpu (config : Config) (s : Shared) (ctx : Switch) : Shared :=
  { s with
    offcpu_start := (switchIn config.min_duration_ns (switchOut s.offcpu_start ctx) ctx).1
    offcpu_events := s.offcpu_events ++ (switchIn config.min_duration_ns (switchOut s.offcpu_start ctx) ctx).2.toList
    clock := ctx.ts }

/-! ## The source -/

def offcpuSample (config : Config) (ev : IlOffcpuEvent) (now : Timestamp) : StackSample where
  timestamp := now
  pid := ev.pid
  tid := ev.tid
  cpu := ev.cpu
  comm := ev.comm
  sample_type := .kOffCpu
  duration_ns := ev.duration_ns
  count := 1
  kernel_stack_id := ev.kernel_stack_id
  user_stack_id := ev.user_stack_id
  kernel_stack := config.LookupBpfStackTrace ev.kernel_stack_id
  user_stack := config.LookupBpfStackTrace ev.user_stack_id

/-- The callback ends with the section in which `cache_mu_` is held. In pull mode no callback of the
source is installed that would push the sample as well. -/
def HandleEvent (config : Config) (s : Shared) (ev : IlOffcpuEvent) (now : Timestamp) : Shared :=
  if config.AllowPid ev.pid then
    { s with handling := none, cached_batch_ := some (s.cached_batch_.getD [] ++ [offcpuSample config ev now]) }
  else { s with handling := none }

/-- All of `Collect` is a section in which `cache_mu_` is held. -/
def Collect (s : Shared) : Shared × List StackSample := ({ s with cached_batch_ := some [] }, s.cached_batch_.getD [])

/-- Where a thread stands: a CPU with the task it runs, the poll thread, or a caller of `Collect`. -/
inductive Pc where
  | cpu (id : UInt32) (current : Tid)
  | poll
  | caller
  deriving DecidableEq

inductive Choice where
  | switch (next_pid : Tid) (ts : UInt64) (prev_comm : Bytes) (kernel_stack_id user_stack_id : Int32)
  | poll
  | handle (now : Timestamp)
  | collect

inductive Event where
  | switched (ctx : Switch)
  | returned (batch : List StackSample)
  | quiet
  deriving DecidableEq

def act (config : Config) (s : Shared) : Pc → Choice → Option (Shared × Pc × Event)
  | .cpu id current, .switch next_pid ts prev_comm kernel_stack_id user_stack_id =>
    if current ≠ next_pid ∧ s.clock ≤ ts then
      some (trace_offcpu config s ⟨id, ts, current, prev_comm, kernel_stack_id, user_stack_id, next_pid⟩,
        .cpu id next_pid, .switched ⟨id, ts, current, prev_comm, kernel_stack_id, user_stack_id, next_pid⟩)
    else none
  | .poll, .poll =>
    match s.handling, s.offcpu_events with
    | none, ev :: rest => some ({ s with handling := some ev, offcpu_events := rest }, .poll, .quiet)
    | _, _ => none
  | .poll, .handle now =>
    match s.handling with
    | some ev => some (HandleEvent config s ev now, .poll, .quiet)
    | none => none
  | .caller, .collect => some ((Collect s).1, .caller, .returned (Collect s).2)
  | _, _ => none

def program (config : Config) : Program Shared Pc Choice Event := ⟨act config⟩

/-- The probe has just been attached, while each CPU runs some task or the idle task. -/
def start (Caller : Type*) (running : UInt32 → Tid) : State Shared Pc (UInt32 ⊕ Option Caller) where
  shared := .started
  pc := Sum.elim (fun id => .cpu id (running id)) fun caller => if caller.isSome then .caller else .poll

end OffcpuProfiler

end Illuminator
