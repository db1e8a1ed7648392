import Illuminator.Model.DataBatch

/-! # CPU utilization

`CpuUtilizationSource::Collect` reads `/proc/stat`, `/proc/loadavg` and the frequencies, compares the
counters with those of the Collect before, and smooths the shares when `ema_alpha_` says so. All of it is a
section in which `collect_mutex_` is held. Counters wrap at 2^64. The type of a `double` is a parameter with
its arithmetic.
-/

namespace Illuminator

namespace CpuUtilization

structure CoreJiffies where
  name : Bytes
  user : UInt64 := 0
  nice : UInt64 := 0
  system : UInt64 := 0
  idle : UInt64 := 0
  iowait : UInt64 := 0
  irq : UInt64 := 0
  softirq : UInt64 := 0
  steal : UInt64 := 0
  deriving DecidableEq

def CoreJiffies.Total (c : CoreJiffies) : UInt64 :=
  c.user + c.nice + c.system + c.idle + c.iowait + c.irq + c.softirq + c.steal

def CoreJiffies.Busy (c : CoreJiffies) : UInt64 := c.Total - c.idle - c.iowait

structure CpuSnapshot where
  cores : List CoreJiffies := []
  ctxt : UInt64 := 0
  intr : UInt64 := 0
  procs_running : UInt32 := 0
  procs_blocked : UInt32 := 0
  deriving DecidableEq

structure LoadAvg (D : Type) where
  load1 : D
  load5 : D
  load15 : D

structure EmaState (D : Type) where
  user : D
  system : D
  idle : D
  iowait : D
  busy : D
  initialized : Bool

/-- What `Init` has read from the configuration. -/
structure Config (D : Type) where
  interval_ms_ : UInt32 := 1000
  collect_per_core_ : Bool := true
  collect_freq_ : Bool := false
  ema_alpha_ : D

structure Shared (D : Type) where
  has_prev_ : Bool
  prev_ : CpuSnapshot
  ema_states_ : List (EmaState D)

/-- What a Collect reads: the three files, and the clock each time it adds a record. -/
structure Readings (D : Type) where
  cur : CpuSnapshot
  la : LoadAvg D
  freqs : List D
  now : ℕ → Timestamp

/-- After `Init`, which has read `/proc/stat` once. -/
def Init {D : Type} (snapshot : CpuSnapshot) : Shared D := ⟨false, snapshot, []⟩

section

variable {D : Type} [Add D] [Sub D] [Mul D] [Div D] [NatCast D] [LT D] [DecidableLT D]

/-- A new record with labels and fields, in the order in which they are set. -/
def record (labels : List Label) (fields : List (Bytes × FieldValue D)) : Record D :=
  fields.foldl (fun rec field => rec.SetField field.1 field.2) ⟨0, labels, ∅⟩

def labelled (type : Bytes) : List Label :=
  [⟨ascii "source", ascii "cpu_utilization"⟩, ⟨ascii "type", type⟩]

/-- The share of `dt` by which a counter has grown, in percent. -/
def pct (dt cv pv : UInt64) : D :=
  ((100 : ℕ) : D) * ((cv - pv).toNat : D) / (dt.toNat : D)

/-- The jiffies between two readings of a core, or 1 where there are none. -/
def deltaTotal (c p : CoreJiffies) : UInt64 := if c.Total - p.Total = 0 then 1 else c.Total - p.Total

/-- One step of the moving average. -/
def smoothed (a current ema : D) : D := a * current + (((1 : ℕ) : D) - a) * ema

def emaNext (a user system idle iowait busy : D) (ema : EmaState D) : EmaState D :=
  if !ema.initialized then ⟨user, system, idle, iowait, busy, true⟩
  else ⟨smoothed a user ema.user, smoothed a system ema.system, smoothed a idle ema.idle,
    smoothed a iowait ema.iowait, smoothed a busy ema.busy, true⟩

/-- The average of a core after a Collect that emits its record. -/
def emaAfter (config : Config D) (c p : CoreJiffies) (ema : EmaState D) : EmaState D :=
  let dt := deltaTotal c p
  if ((0 : ℕ) : D) < config.ema_alpha_ then
    emaNext config.ema_alpha_ (pct dt c.user p.user) (pct dt c.system p.system) (pct dt c.idle p.idle)
      (pct dt c.iowait p.iowait) (pct dt c.Busy p.Busy) ema
  else ema

/-- A core of `/proc/stat` is shown: the total, or any core when cores are collected, and the one that stood
there before. -/
def shown (config : Config D) (c p : CoreJiffies) : Bool :=
  (c.name = ascii "cpu" || config.collect_per_core_) && c.name = p.name

def coreRecord (config : Config D) (c p : CoreJiffies) (ema : EmaState D) : Record D :=
  let dt := deltaTotal c p
  record (labelled (if c.name = ascii "cpu" then ascii "cpu_total" else ascii "cpu_core") ++ [⟨ascii "cpu", c.name⟩])
    ([(ascii "user_pct", .double (pct dt c.user p.user)),
      (ascii "nice_pct", .double (pct dt c.nice p.nice)),
      (ascii "system_pct", .double (pct dt c.system p.system)),
      (ascii "idle_pct", .double (pct dt c.idle p.idle)),
      (ascii "iowait_pct", .double (pct dt c.iowait p.iowait)),
      (ascii "irq_pct", .double (pct dt c.irq p.irq)),
      (ascii "softirq_pct", .double (pct dt c.softirq p.softirq)),
      (ascii "steal_pct", .double (pct dt c.steal p.steal)),
      (ascii "busy_pct", .double (pct dt c.Busy p.Busy))] ++
    if ((0 : ℕ) : D) < config.ema_alpha_ then
      [(ascii "user_pct_ema", .double ema.user), (ascii "system_pct_ema", .double ema.system),
        (ascii "busy_pct_ema", .double ema.busy)]
    else [])

/-- `ema_states_.resize(n)` where this makes it longer. -/
def resized (ema_states_ : List (EmaState D)) (n : ℕ) : List (EmaState D) :=
  ema_states_ ++ List.replicate (n - ema_states_.length)
    ⟨((0 : ℕ) : D), ((0 : ℕ) : D), ((0 : ℕ) : D), ((0 : ℕ) : D), ((0 : ℕ) : D), false⟩

/-- The loop over the cores, each with the one at its place before and its average. -/
def emitCores (config : Config D) : List CoreJiffies → List CoreJiffies → List (EmaState D) →
    List (Record D) × List (EmaState D)
  | c :: cur, p :: prev, ema :: rest =>
    let later := emitCores config cur prev rest
    if shown config c p then
      (coreRecord config c p (emaAfter config c p ema) :: later.1, emaAfter config c p ema :: later.2)
    else (later.1, ema :: later.2)
  | _, _, ema => ([], ema)

def EmitCpuUtilization (config : Config D) (s : Shared D) (cur : CpuSnapshot) :
    List (Record D) × List (EmaState D) :=
  emitCores config cur.cores s.prev_.cores (resized s.ema_states_ cur.cores.length)

def elapsed_sec (config : Config D) : D :=
  let seconds := (config.interval_ms_.toNat : D) / ((1000 : ℕ) : D)
  if ((0 : ℕ) : D) < seconds then seconds else ((1 : ℕ) : D)

def EmitSystemCounters (config : Config D) (s : Shared D) (cur : CpuSnapshot) : Record D :=
  record (labelled (ascii "system_counters"))
    [(ascii "context_switches_per_sec", .double (((cur.ctxt - s.prev_.ctxt).toNat : D) / elapsed_sec config)),
      (ascii "interrupts_per_sec", .double (((cur.intr - s.prev_.intr).toNat : D) / elapsed_sec config))]

def EmitLoadAvg (la : LoadAvg D) : Record D :=
  record (labelled (ascii "loadavg"))
    [(ascii "load_1m", .double la.load1), (ascii "load_5m", .double la.load5), (ascii "load_15m", .double la.load15)]

def EmitRunQueue (cur : CpuSnapshot) : Record D :=
  record (labelled (ascii "runqueue"))
    [(ascii "procs_running", .uint64 cur.procs_running.toUInt64),
      (ascii "procs_blocked", .uint64 cur.procs_blocked.toUInt64)]

def EmitCpuFrequency (freqs : List D) : List (Record D) :=
  freqs.mapIdx fun i freq =>
    record (labelled (ascii "cpu_freq") ++ [⟨ascii "cpu", ascii "cpu" ++ to_string i⟩]) [(ascii "freq_mhz", .double freq)]

/-- The shares and the counters, which need a Collect before. -/
def emitted (config : Config D) (s : Shared D) (cur : CpuSnapshot) : List (Record D) × List (EmaState D) :=
  if s.has_prev_ then
    ((EmitCpuUtilization config s cur).1 ++ [EmitSystemCounters config s cur], (EmitCpuUtilization config s cur).2)
  else ([], s.ema_states_)

def Collect (config : Config D) (s : Shared D) (read : Readings D) : Shared D × DataBatch D :=
  let records := (emitted config s read.cur).1 ++ [EmitLoadAvg read.la, EmitRunQueue read.cur] ++
    if config.collect_freq_ then EmitCpuFrequency read.freqs else []
  (⟨true, read.cur, (emitted config s read.cur).2⟩,
    { type := .kMetrics, records := records.mapIdx fun i rec => { rec with timestamp := read.now i } })

end

end CpuUtilization

end Illuminator
