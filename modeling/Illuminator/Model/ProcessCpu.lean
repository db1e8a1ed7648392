import Illuminator.Model.CpuUtilization
import Mathlib.Logic.Function.Basic

/-! # CPU of processes and threads

`ProcessCpuSource::Collect` compares each process with the entry of its pid in the table of the Collect
before, and each thread of an expanded process with what it last stored under the thread's key. The order
that `std::sort` gives to equal shares is left open. The type of a `double` is a parameter with its arithmetic.
-/

namespace Illuminator

namespace ProcessCpu

structure ProcessStat where
  pid : UInt32
  comm : Bytes := []
  state : UInt8 := 63
  utime : UInt64 := 0
  stime : UInt64 := 0
  starttime : UInt64 := 0
  num_threads : UInt32 := 0
  vsize : UInt64 := 0
  rss_pages : Int64 := 0
  voluntary_ctxt_switches : UInt64 := 0
  nonvoluntary_ctxt_switches : UInt64 := 0
  deriving DecidableEq

/-- The stat files of a directory of `/proc`, which lists no number twice. -/
structure Table where
  entries : List ProcessStat
  distinct : (entries.map ProcessStat.pid).Nodup

structure ThreadSnapshot where
  tid : UInt32
  comm : Bytes
  utime : UInt64
  stime : UInt64
  state : UInt8
  deriving DecidableEq

/-- What `Init` has read: a regex is the test of `std::regex_search`, and at least one CPU is counted. -/
structure Config (D : Type) where
  top_n_ : UInt32 := 50
  thread_detail_threshold_pct_ : D
  thread_detail_pids_ : List UInt32 := []
  num_cpus_ : ℕ
  include_regex_ : Option (Bytes → Bool) := none
  exclude_regex_ : Option (Bytes → Bool) := none
  positive : 0 < num_cpus_

structure Shared where
  prev_total_jiffies_ : UInt64
  prev_snapshots_ : UInt32 → Option ProcessStat := fun _ => none
  prev_thread_snapshots_ : UInt64 → Option ThreadSnapshot := fun _ => none

/-- What `/proc` shows at a Collect. `tasks` has the threads of every process that has a directory, also of
those that the Collect does not expand. -/
structure Readings where
  cur_total_jiffies : UInt64
  raw_processes : Table
  tasks : UInt32 → Option Table
  now : ℕ → Timestamp

structure RankedProcess (D : Type) where
  snap : ProcessStat
  cpu_user_pct : D
  cpu_sys_pct : D
  cpu_total_pct : D
  has_prev : Bool

/-- An order that `std::sort` may give. -/
structure Sorting (D : Type) [LT D] where
  sort : List (RankedProcess D) → List (RankedProcess D)
  perm : ∀ ranked, (sort ranked).Perm ranked
  sorted : ∀ ranked, (sort ranked).Pairwise fun a b => ¬ a.cpu_total_pct < b.cpu_total_pct

/-- What a record is about. -/
inductive Subject where
  | process (ps : ProcessStat)
  | thread (pid : UInt32) (ts : ProcessStat)
  deriving DecidableEq

def MakeThreadKey (pid tid : UInt32) : UInt64 := pid.toUInt64 <<< 32 ||| tid.toUInt64

section

variable {D : Type} [Add D] [Mul D] [Div D] [NatCast D] [LT D] [DecidableLT D]

/-- The growth of a counter, or 0 where it has not grown. -/
def grown (cv pv : UInt64) : UInt64 := if pv < cv then cv - pv else 0

def delta_total (s : Shared) (read : Readings) : UInt64 :=
  if read.cur_total_jiffies - s.prev_total_jiffies_ = 0 then 1 else read.cur_total_jiffies - s.prev_total_jiffies_

def pct (config : Config D) (delta_total cv pv : UInt64) : D :=
  ((100 : ℕ) : D) * ((grown cv pv).toNat : D) / (delta_total.toNat : D) * (config.num_cpus_ : D)

def selected (config : Config D) (ps : ProcessStat) : Bool :=
  (config.include_regex_.all fun regex_search => regex_search ps.comm) &&
    !(config.exclude_regex_.any fun regex_search => regex_search ps.comm)

/-- A process with its shares, which stay 0 when its pid was not there at the Collect before. -/
def rank (config : Config D) (s : Shared) (read : Readings) (ps : ProcessStat) : RankedProcess D :=
  match s.prev_snapshots_ ps.pid with
  | some prev =>
    let user := pct config (delta_total s read) ps.utime prev.utime
    let sys := pct config (delta_total s read) ps.stime prev.stime
    ⟨ps, user, sys, user + sys, true⟩
  | none => ⟨ps, ((0 : ℕ) : D), ((0 : ℕ) : D), ((0 : ℕ) : D), false⟩

def ranked (config : Config D) (sorting : Sorting D) (s : Shared) (read : Readings) : List (RankedProcess D) :=
  (sorting.sort ((read.raw_processes.entries.filter fun ps => selected config ps).map (rank config s read))).take
    config.top_n_.toNat

def processRecord (rp : RankedProcess D) : Record D :=
  CpuUtilization.record
    [⟨ascii "source", ascii "process_cpu"⟩, ⟨ascii "type", ascii "process"⟩,
      ⟨ascii "pid", to_string rp.snap.pid.toNat⟩, ⟨ascii "comm", rp.snap.comm⟩]
    [(ascii "cpu_user_pct", .double rp.cpu_user_pct), (ascii "cpu_sys_pct", .double rp.cpu_sys_pct),
      (ascii "cpu_total_pct", .double rp.cpu_total_pct), (ascii "state", .string [rp.snap.state]),
      (ascii "num_threads", .uint64 rp.snap.num_threads.toUInt64),
      (ascii "rss_kb", .uint64 (rp.snap.rss_pages * 4).toUInt64), (ascii "vsize_kb", .uint64 (rp.snap.vsize / 1024)),
      (ascii "voluntary_ctxt_switches", .uint64 rp.snap.voluntary_ctxt_switches),
      (ascii "nonvoluntary_ctxt_switches", .uint64 rp.snap.nonvoluntary_ctxt_switches)]

def threadRecord (config : Config D) (pid : UInt32) (parent_comm : Bytes) (delta_total : UInt64) (ts : ProcessStat)
    (prev : ThreadSnapshot) : Record D :=
  let user : D := pct config delta_total ts.utime prev.utime
  let sys : D := pct config delta_total ts.stime prev.stime
  CpuUtilization.record
    [⟨ascii "source", ascii "process_cpu"⟩, ⟨ascii "type", ascii "thread"⟩, ⟨ascii "pid", to_string pid.toNat⟩,
      ⟨ascii "tid", to_string ts.pid.toNat⟩, ⟨ascii "comm", ts.comm⟩, ⟨ascii "parent_comm", parent_comm⟩]
    [(ascii "cpu_user_pct", .double user), (ascii "cpu_sys_pct", .double sys),
      (ascii "cpu_total_pct", .double (user + sys)), (ascii "state", .string [ts.state])]

/-- The loop of `CollectThreads`. What is stored under a key stays there until the key is visited again. -/
def CollectThreads (config : Config D) (pid : UInt32) (parent_comm : Bytes) (delta_total : UInt64) :
    List ProcessStat → (UInt64 → Option ThreadSnapshot) →
      List (Subject × Record D) × (UInt64 → Option ThreadSnapshot)
  | [], prev => ([], prev)
  | ts :: rest, prev =>
    let key := MakeThreadKey pid ts.pid
    let later := CollectThreads config pid parent_comm delta_total rest
      (Function.update prev key (some ⟨ts.pid, ts.comm, ts.utime, ts.stime, ts.state⟩))
    match prev key with
    | some it => ((.thread pid ts, threadRecord config pid parent_comm delta_total ts it) :: later.1, later.2)
    | none => later

def expand_threads (config : Config D) (rp : RankedProcess D) : Bool :=
  config.thread_detail_pids_.contains rp.snap.pid || !decide (rp.cpu_total_pct < config.thread_detail_threshold_pct_)

/-- The threads of a process, where it is expanded and its directory can be opened. -/
def expanded (config : Config D) (delta_total : UInt64) (tasks : UInt32 → Option Table) (rp : RankedProcess D)
    (prev : UInt64 → Option ThreadSnapshot) : List (Subject × Record D) × (UInt64 → Option ThreadSnapshot) :=
  match tasks rp.snap.pid with
  | some table =>
    if expand_threads config rp then
      CollectThreads config rp.snap.pid rp.snap.comm delta_total table.entries prev
    else ([], prev)
  | none => ([], prev)

/-- The loop over the ranked processes. -/
def emit (config : Config D) (delta_total : UInt64) (tasks : UInt32 → Option Table) :
    List (RankedProcess D) → (UInt64 → Option ThreadSnapshot) →
      List (Subject × Record D) × (UInt64 → Option ThreadSnapshot)
  | [], prev => ([], prev)
  | rp :: rest, prev =>
    if rp.has_prev then
      let threads := expanded config delta_total tasks rp prev
      let later := emit config delta_total tasks rest threads.2
      ((.process rp.snap, processRecord rp) :: threads.1 ++ later.1, later.2)
    else emit config delta_total tasks rest prev

/-- The records of a Collect with what they are about, and the threads that are stored after it. -/
def emitted (config : Config D) (sorting : Sorting D) (s : Shared) (read : Readings) :
    List (Subject × Record D) × (UInt64 → Option ThreadSnapshot) :=
  emit config (delta_total s read) read.tasks (ranked config sorting s read) s.prev_thread_snapshots_

/-- `prev_snapshots_` after it is cleared and filled. -/
def snapshots (raw_processes : List ProcessStat) : UInt32 → Option ProcessStat :=
  raw_processes.foldl (fun prev ps => Function.update prev ps.pid (some ps)) fun _ => none

def Collect (config : Config D) (sorting : Sorting D) (s : Shared) (read : Readings) : Shared × DataBatch D :=
  (⟨read.cur_total_jiffies, snapshots read.raw_processes.entries, (emitted config sorting s read).2⟩,
    { type := .kMetrics
      records := (emitted config sorting s read).1.mapIdx fun i e => { e.2 with timestamp := read.now i } })

/-- After `Init`, which has read `/proc/stat` once. -/
def Init (total_jiffies : UInt64) : Shared := { prev_total_jiffies_ := total_jiffies }

end

end ProcessCpu

end Illuminator
