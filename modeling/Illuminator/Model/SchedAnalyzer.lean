import Illuminator.Machine.Components
import Illuminator.Model.DataBatch

/-! # Scheduler statistics per process

Three tracepoint probes keep `sched_agg` and `wakeup_ts`, and `SchedAnalyzerSource::Collect` lists
the keys of `sched_agg`, looks each of them up and deletes it. A probe is one step, on any CPU; every
map operation of a Collect is one step, and any number of Collects may be under way. The key that
follows another is whichever the kernel returns, since the order of a hash map is not promised and an
iteration whose key has gone starts over. Maps are never full. Counters are natural numbers.
-/

namespace Illuminator

namespace SchedAnalyzer

open Interleaving

abbrev Pid := UInt32

/-- `struct il_sched_stats`. -/
@[ext] structure IlSchedStats where
  switch_count : ℕ := 0
  total_runqueue_latency_ns : ℕ := 0
  max_runqueue_latency_ns : ℕ := 0
  migrate_count : ℕ := 0
  comm : Bytes := []
  deriving DecidableEq

/-- The maps that the probes share with the source, and the kernel's clock. -/
structure Maps where
  sched_agg : Pid → Option IlSchedStats
  wakeup_ts : Pid → Option ℕ
  clock : ℕ

def Maps.fresh : Maps := ⟨fun _ => none, fun _ => none, 0⟩

/-- What `Init` has read. -/
structure Config where
  track_migrations_ : Bool := true
  target_pid_allow_ : List Pid := []

def Config.AllowPid (config : Config) (pid : Pid) : Bool :=
  config.target_pid_allow_.isEmpty || config.target_pid_allow_.contains pid

/-! ## The probes -/

def sched_agg_add_latency (st : Option IlSchedStats) (latency_ns : ℕ) (comm : Bytes) : IlSchedStats :=
  match st with
  | none => ⟨1, latency_ns, latency_ns, 0, comm⟩
  | some st =>
    { st with
      switch_count := st.switch_count + 1
      total_runqueue_latency_ns := st.total_runqueue_latency_ns + latency_ns
      max_runqueue_latency_ns :=
        if latency_ns > st.max_runqueue_latency_ns then latency_ns else st.max_runqueue_latency_ns
      comm := comm }

def sched_analyzer_wakeup (m : Maps) (pid : Pid) (ts : ℕ) : Maps :=
  { m with wakeup_ts := Function.update m.wakeup_ts pid (some ts), clock := ts }

/-- The time since the wakeup that is on record, if one is. -/
def runqueue_latency (enqueue_ts : Option ℕ) (ts : ℕ) : ℕ :=
  match enqueue_ts with
  | none => 0
  | some enqueued => ts - enqueued

def sched_analyzer_switch (m : Maps) (next_pid : Pid) (ts : ℕ) (next_comm : Bytes) : Maps where
  wakeup_ts := Function.update m.wakeup_ts next_pid none
  sched_agg :=
    if next_pid = 0 then m.sched_agg
    else Function.update m.sched_agg next_pid (some (sched_agg_add_latency (m.sched_agg next_pid)
      (runqueue_latency (m.wakeup_ts next_pid) ts) next_comm))
  clock := ts

def migrated (st : Option IlSchedStats) : IlSchedStats :=
  match st with
  | some st => { st with migrate_count := st.migrate_count + 1 }
  | none => { migrate_count := 1 }

def sched_analyzer_migrate (m : Maps) (pid : Pid) : Maps :=
  { m with sched_agg := Function.update m.sched_agg pid (some (migrated (m.sched_agg pid))) }

section

variable (m : Maps) (pid : Pid) (ts : ℕ)

theorem woken_wakeup : (sched_analyzer_wakeup m pid ts).wakeup_ts pid = some ts := Function.update_self ..

theorem woken_switch (next_comm : Bytes) : (sched_analyzer_switch m pid ts next_comm).wakeup_ts pid = none :=
  Function.update_self ..

variable {pid} in
theorem agg_switch (task : pid ≠ 0) (next_comm : Bytes) : (sched_analyzer_switch m pid ts next_comm).sched_agg pid =
    some (sched_agg_add_latency (m.sched_agg pid) (runqueue_latency (m.wakeup_ts pid) ts) next_comm) := by
  unfold sched_analyzer_switch
  rw [if_neg task]
  exact Function.update_self ..

theorem agg_migrate : (sched_analyzer_migrate m pid).sched_agg pid = some (migrated (m.sched_agg pid)) :=
  Function.update_self ..

end

/-! ## Collect -/

/-- A record of a Collect, with its fields by name. -/
structure SchedRecord where
  labels : List Label
  pid : Pid
  switch_count : ℕ
  total_runqueue_latency_ns : ℕ
  max_runqueue_latency_ns : ℕ
  migrate_count : ℕ
  deriving DecidableEq

def schedRecord (pid : Pid) (stats : IlSchedStats) : SchedRecord where
  labels := [⟨ascii "type", ascii "sched"⟩, ⟨ascii "mode", ascii "aggregated"⟩] ++
    if stats.comm.isEmpty then [] else [⟨ascii "comm", stats.comm⟩]
  pid := pid
  switch_count := stats.switch_count
  total_runqueue_latency_ns := stats.total_runqueue_latency_ns
  max_runqueue_latency_ns := stats.max_runqueue_latency_ns
  migrate_count := stats.migrate_count

def Maps.delete (m : Maps) (pid : Pid) : Maps := { m with sched_agg := Function.update m.sched_agg pid none }

theorem agg_delete (m : Maps) (pid : Pid) : (m.delete pid).sched_agg pid = none := Function.update_self ..

/-- Where a thread stands: a CPU on which probes fire, or a caller of `Collect`. -/
inductive Pc where
  | cpu
  | idle
  | listing (pids : List Pid)
  | looking (pids : List Pid) (batch : List SchedRecord)
  | deleting (pid : Pid) (stats : IlSchedStats) (pids : List Pid) (batch : List SchedRecord)
  deriving DecidableEq

inductive Choice where
  | wakeup (pid : Pid) (ts : ℕ)
  | switch (next_pid : Pid) (ts : ℕ) (next_comm : Bytes)
  | migrate (pid : Pid)
  | next (key : Option Pid)
  | go

inductive Event where
  | woken (pid : Pid) (ts : ℕ)
  | switched (next_pid : Pid) (ts : ℕ)
  | migrated (pid : Pid)
  | recorded (record : SchedRecord)
  | dropped (pid : Pid)
  | returned (batch : List SchedRecord)
  | quiet
  deriving DecidableEq

/-- A probe that fires. The clock does not run backwards, and the migration probe is attached only when
migrations are tracked. -/
def probe (config : Config) (m : Maps) : Choice → Option (Maps × Event)
  | .wakeup pid ts => if m.clock ≤ ts then some (sched_analyzer_wakeup m pid ts, .woken pid ts) else none
  | .switch next_pid ts next_comm =>
    if m.clock ≤ ts then some (sched_analyzer_switch m next_pid ts next_comm, .switched next_pid ts) else none
  | .migrate pid =>
    if config.track_migrations_ then some (sched_analyzer_migrate m pid, .migrated pid) else none
  | _ => none

/-- `bpf_map_get_next_key` may return a key only if the map holds it. -/
def Maps.Lists (m : Maps) : Option Pid → Prop
  | none => True
  | some key => m.sched_agg key ≠ none

instance (m : Maps) (key : Option Pid) : Decidable (m.Lists key) := by
  cases key <;> unfold Maps.Lists <;> infer_instance

/-- The keys listed so far, and what the next call has returned. -/
def listed (pids : List Pid) : Option Pid → Pc
  | some key => .listing (pids ++ [key])
  | none => .looking pids []

def collect (config : Config) (m : Maps) : Pc → Choice → Option (Maps × Pc × Event)
  | .idle, .next key => if m.Lists key then some (m, listed [] key, .quiet) else none
  | .listing pids, .next key => if m.Lists key then some (m, listed pids key, .quiet) else none
  | .looking [] batch, .go => some (m, .idle, .returned batch)
  | .looking (pid :: pids) batch, .go =>
    match m.sched_agg pid with
    | none => some (m, .looking pids batch, .quiet)
    | some stats => some (m, .deleting pid stats pids batch, .quiet)
  | .deleting pid stats pids batch, .go =>
    if config.AllowPid pid then
      some (m.delete pid, .looking pids (batch ++ [schedRecord pid stats]), .recorded (schedRecord pid stats))
    else some (m.delete pid, .looking pids batch, .dropped pid)
  | _, _ => none

def program (config : Config) : Program Maps Pc Choice Event where
  act m pc choice :=
    match pc with
    | .cpu => (probe config m choice).map fun result => (result.1, .cpu, result.2)
    | _ => collect config m pc choice

/-- Freshly loaded probes, and no Collect under way. -/
def start (Cpu Caller : Type*) : State Maps Pc (Cpu ⊕ Caller) where
  shared := .fresh
  pc := Sum.elim (fun _ => .cpu) (fun _ => .idle)

end SchedAnalyzer

end Illuminator
