import Illuminator.Model.DataBatch
import Illuminator.Model.JsonDocument
import Illuminator.Model.SchedAnalyzer
import Illuminator.Model.Status
import Illuminator.ToMathlib.LastEntries
import Mathlib.Data.List.AList

/-! # Scheduler events one by one

In its detailed mode the scheduler analyzer also sends every event through a ring buffer. One poll thread takes the
events out, logs those of the target processes under two locks in turn, and hands them on; a Collect ends by adding a
point to the history; and any number of threads put queries, each answered from one log under its lock. The ring
buffer may be full, and then an event is lost before it is seen.
-/

namespace Illuminator

namespace SchedAnalyzer

open Interleaving JsonValue

/-! ## Names -/

def TASK_COMM_LEN : ℕ := 16

/-- `char[TASK_COMM_LEN]`. -/
abbrev Comm := Vector UInt8 TASK_COMM_LEN

def Comm.empty : Comm := Vector.replicate TASK_COMM_LEN 0

/-- `strnlen(s, TASK_COMM_LEN)`. -/
def Comm.strnlen (s : Comm) : ℕ := (s.toList.takeWhile (· ≠ 0)).length

/-- `memcpy(dst, src, n)`. -/
def Comm.memcpy (dst src : Comm) (n : ℕ) : Comm := Vector.ofFn fun i => if i.val < n then src[i] else dst[i]

/-- `std::string(s, strnlen(s, TASK_COMM_LEN))`. -/
def Comm.string (s : Comm) : Bytes := s.toList.take s.strnlen

/-- A name that is copied into an empty one. -/
def Comm.copied (s : Comm) : Comm := Comm.empty.memcpy s s.strnlen

/-! ## Events -/

/-- `struct il_sched_event`. -/
structure IlSchedEvent where
  timestamp_ns : UInt64
  prev_pid : UInt32
  next_pid : UInt32
  prev_tid : UInt32
  next_tid : UInt32
  cpu : UInt32
  latency_ns : UInt64
  prev_comm : Comm
  next_comm : Comm
  event_type : UInt8
  deriving DecidableEq

/-- What the wakeup probe reads of its context and of the task that is running. -/
structure Wakeup where
  pid : UInt32
  comm : Comm
  pid_tgid : UInt64
  current_comm : Comm
  cpu : UInt32

structure Switch where
  prev_pid : UInt32
  prev_comm : Comm
  next_pid : UInt32
  next_comm : Comm
  cpu : UInt32

structure Migrate where
  pid : UInt32
  comm : Comm
  dest_cpu : UInt32

def wakeupEvent (ctx : Wakeup) (ts : ℕ) : IlSchedEvent where
  timestamp_ns := UInt64.ofNat ts
  prev_pid := (ctx.pid_tgid >>> 32).toUInt32
  next_pid := ctx.pid
  prev_tid := ctx.pid_tgid.toUInt32
  next_tid := ctx.pid
  cpu := ctx.cpu
  latency_ns := 0
  prev_comm := ctx.current_comm
  next_comm := ctx.comm
  event_type := 1

def switchEvent (ctx : Switch) (ts latency_ns : ℕ) : IlSchedEvent where
  timestamp_ns := UInt64.ofNat ts
  prev_pid := ctx.prev_pid
  next_pid := ctx.next_pid
  prev_tid := ctx.prev_pid
  next_tid := ctx.next_pid
  cpu := ctx.cpu
  latency_ns := UInt64.ofNat latency_ns
  prev_comm := ctx.prev_comm
  next_comm := ctx.next_comm
  event_type := 0

def migrateEvent (ctx : Migrate) (ts : ℕ) : IlSchedEvent where
  timestamp_ns := UInt64.ofNat ts
  prev_pid := ctx.pid
  next_pid := ctx.pid
  prev_tid := ctx.pid
  next_tid := ctx.pid
  cpu := ctx.dest_cpu
  latency_ns := 0
  prev_comm := ctx.comm
  next_comm := ctx.comm
  event_type := 2

structure SchedHistoryPoint (D : Type) where
  timestamp_ms : UInt64
  total_switches : UInt64
  avg_latency_us : D
  max_latency_ns : UInt64
  total_migrations : UInt64
  process_count : UInt32

structure SchedEventRecord where
  timestamp_ms : UInt64
  event_type : UInt32
  prev_pid : UInt32
  next_pid : UInt32
  cpu : UInt32
  latency_ns : UInt64
  prev_comm : Comm
  next_comm : Comm
  deriving DecidableEq

structure WakeupRecord where
  timestamp_ms : UInt64
  waker_pid : UInt32
  wakee_pid : UInt32
  waker_comm : Comm
  wakee_comm : Comm
  deriving DecidableEq

def eventRecord (event : IlSchedEvent) (now_ms : UInt64) : SchedEventRecord where
  timestamp_ms := now_ms
  event_type := event.event_type.toUInt32
  prev_pid := event.prev_pid
  next_pid := event.next_pid
  cpu := event.cpu
  latency_ns := event.latency_ns
  prev_comm := event.prev_comm.copied
  next_comm := event.next_comm.copied

def wakeupRecord (event : IlSchedEvent) (now_ms : UInt64) : WakeupRecord where
  timestamp_ms := now_ms
  waker_pid := event.prev_pid
  wakee_pid := event.next_pid
  waker_comm := event.prev_comm.copied
  wakee_comm := event.next_comm.copied

/-! ## The logs -/

def kMaxHistory : ℕ := 360
def kMaxEvents : ℕ := 5000
def kMaxWakeups : ℕ := 2000

structure Logs (D : Type) where
  history_ : List (SchedHistoryPoint D) := []
  recent_events_ : List SchedEventRecord := []
  wakeups_ : List WakeupRecord := []

/-- The arithmetic of `double` that an average is made with. -/
structure Doubles (D : Type) where
  ofUInt64 : UInt64 → D
  div : D → D → D

/-- The totals that a Collect adds up, record by record. -/
structure Totals where
  total_sw : UInt64 := 0
  total_lat : UInt64 := 0
  max_lat : UInt64 := 0
  total_mig : UInt64 := 0
  proc_count : UInt32 := 0

def Totals.add (t : Totals) (stats : SchedRecord) : Totals where
  total_sw := t.total_sw + UInt64.ofNat stats.switch_count
  total_lat := t.total_lat + UInt64.ofNat stats.total_runqueue_latency_ns
  max_lat :=
    if UInt64.ofNat stats.max_runqueue_latency_ns > t.max_lat then UInt64.ofNat stats.max_runqueue_latency_ns
    else t.max_lat
  total_mig := t.total_mig + UInt64.ofNat stats.migrate_count
  proc_count := t.proc_count + 1

variable {D : Type}

def Totals.point (doubles : Doubles D) (t : Totals) (now_ms : UInt64) : SchedHistoryPoint D where
  timestamp_ms := now_ms
  total_switches := t.total_sw
  avg_latency_us :=
    if t.total_sw > 0 then
      doubles.div (doubles.div (doubles.ofUInt64 t.total_lat) (doubles.ofUInt64 t.total_sw)) (doubles.ofUInt64 1000)
    else doubles.ofUInt64 0
  max_latency_ns := t.max_lat
  total_migrations := t.total_mig
  process_count := t.proc_count

def Logs.addHistory (doubles : Doubles D) (logs : Logs D) (batch : List SchedRecord) (now_ms : UInt64) : Logs D :=
  { logs with
    history_ := List.shed kMaxHistory (logs.history_ ++ [(batch.foldl Totals.add {}).point doubles now_ms]) }

def Logs.addEvent (logs : Logs D) (event : IlSchedEvent) (now_ms : UInt64) : Logs D :=
  { logs with recent_events_ := List.shed kMaxEvents (logs.recent_events_ ++ [eventRecord event now_ms]) }

def Logs.addWakeup (logs : Logs D) (event : IlSchedEvent) (now_ms : UInt64) : Logs D :=
  { logs with wakeups_ := List.shed kMaxWakeups (logs.wakeups_ ++ [wakeupRecord event now_ms]) }

def GetHistory (logs : Logs D) (max_n : ℕ) : List (SchedHistoryPoint D) :=
  if max_n = 0 ∨ max_n ≥ logs.history_.length then logs.history_
  else logs.history_.drop (logs.history_.length - max_n)

def SchedEventRecord.passes (filter_pid : UInt32) (e : SchedEventRecord) : Bool :=
  filter_pid == 0 || e.prev_pid == filter_pid || e.next_pid == filter_pid

/-- The events from the newest on, until enough of them have passed. -/
def recentLoop (filter_pid : UInt32) (max_n : ℕ) : List SchedEventRecord → List SchedEventRecord → List SchedEventRecord
  | [], out => out
  | e :: rest, out =>
    if out.length < max_n then recentLoop filter_pid max_n rest (if e.passes filter_pid then out ++ [e] else out)
    else out

def GetRecentEvents (logs : Logs D) (filter_pid : UInt32) (max_n : ℕ) : List SchedEventRecord :=
  (recentLoop filter_pid max_n logs.recent_events_.reverse []).reverse

def GetRecentWakeups (logs : Logs D) (max_n : ℕ) : List WakeupRecord :=
  logs.wakeups_.drop (if logs.wakeups_.length > max_n then logs.wakeups_.length - max_n else 0)

/-! ## Queries -/

/-- `std::atoi`: a `long` that is read from the start of the text, as far as it can be held, cut to an `int`. -/
def atoi (text : Bytes) : Int32 :=
  let signed := text.dropWhile isspace
  let negative := signed.head? == some 0x2D
  let unsigned := if negative || signed.head? == some 0x2B then signed.tail else signed
  let magnitude : ℤ := of_decimal (unsigned.takeWhile isdigit)
  Int32.ofInt (max (-2 ^ 63) (min (2 ^ 63 - 1) (if negative then -magnitude else magnitude)))

/-- `std::unordered_map<std::string, std::string>`. -/
abbrev QueryParams := AList fun _ : Bytes => Bytes

/-- `uint32_t pid = std::atoi(..)`. -/
def pidParam (params : QueryParams) : UInt32 := ((params.lookup (ascii "pid")).map fun s => (atoi s).toUInt32).getD 0

/-- `size_t limit = std::atoi(..)`. -/
def limitParam (params : QueryParams) (otherwise : ℕ) : ℕ :=
  ((params.lookup (ascii "limit")).map fun s => (atoi s).toInt64.toUInt64.toNat).getD otherwise

/-- `types[ti]`. -/
def eventType (event_type : UInt32) : Bytes :=
  if event_type = 1 then ascii "wakeup" else if event_type = 2 then ascii "migrate" else ascii "switch"

/-- An object with these members. -/
def jsonObject (entries : Members D) : JsonValue D := .object (Members.setAll entries [])

def pointJson (p : SchedHistoryPoint D) : JsonValue D :=
  jsonObject [(ascii "timestamp_ms", .number_unsigned p.timestamp_ms),
    (ascii "total_switches", .number_unsigned p.total_switches), (ascii "avg_latency_us", .number_float p.avg_latency_us),
    (ascii "max_latency_ns", .number_unsigned p.max_latency_ns),
    (ascii "total_migrations", .number_unsigned p.total_migrations),
    (ascii "process_count", .number_unsigned p.process_count.toUInt64)]

def eventJson (e : SchedEventRecord) : JsonValue D :=
  jsonObject [(ascii "timestamp_ms", .number_unsigned e.timestamp_ms),
    (ascii "event_type", .string (eventType e.event_type)), (ascii "prev_pid", .number_unsigned e.prev_pid.toUInt64),
    (ascii "next_pid", .number_unsigned e.next_pid.toUInt64), (ascii "cpu", .number_unsigned e.cpu.toUInt64),
    (ascii "latency_ns", .number_unsigned e.latency_ns), (ascii "prev_comm", .string e.prev_comm.string),
    (ascii "next_comm", .string e.next_comm.string)]

def wakeupJson (w : WakeupRecord) : JsonValue D :=
  jsonObject [(ascii "timestamp_ms", .number_unsigned w.timestamp_ms),
    (ascii "waker_pid", .number_unsigned w.waker_pid.toUInt64),
    (ascii "wakee_pid", .number_unsigned w.wakee_pid.toUInt64), (ascii "waker_comm", .string w.waker_comm.string),
    (ascii "wakee_comm", .string w.wakee_comm.string)]

/-- The only member is an array. -/
def listing (name : Bytes) (elements : List (JsonValue D)) : JsonValue D := .object [(name, .array elements)]

/-- What a query returns, `none` where the library throws. -/
abbrev Answer := Option (Except (StatusCode × Bytes) Bytes)

def QueryExtra (json : Library D) (logs : Logs D) (query : Bytes) (params : QueryParams) : Answer :=
  if query = ascii "history" then
    (json.dump (listing (ascii "history") ((GetHistory logs 0).map pointJson))).map .ok
  else if query = ascii "events" then
    (json.dump (listing (ascii "events")
      ((GetRecentEvents logs (pidParam params) (limitParam params 200)).map eventJson))).map .ok
  else if query = ascii "wakeups" then
    (json.dump (listing (ascii "wakeups") ((GetRecentWakeups logs (limitParam params 500)).map wakeupJson))).map .ok
  else some (.error (.kNotFound, ascii "unknown query: " ++ query))

/-! ## Threads -/

/-- What `Init` and `SetCallback` have set. -/
structure DetailConfig extends Config where
  detailed_mode_ : Bool := true
  callback_ : Bool := false

structure DetailShared (D : Type) where
  maps : Maps
  sched_analyzer_events : List IlSchedEvent
  logs : Logs D

/-- The record that the callback is given. -/
def pushedRecord (event : IlSchedEvent) (timestamp : Timestamp) : Record D :=
  let rec_ : Record D := ⟨timestamp, [⟨ascii "type", ascii "sched"⟩,
    ⟨ascii "event", eventType event.event_type.toUInt32⟩], ∅⟩
  (((((rec_.SetField (ascii "prev_pid") (.uint64 event.prev_pid.toUInt64)).SetField (ascii "next_pid")
    (.uint64 event.next_pid.toUInt64)).SetField (ascii "cpu") (.uint64 event.cpu.toUInt64)).SetField
    (ascii "latency_ns") (.uint64 event.latency_ns)).SetField (ascii "prev_comm")
    (.string event.prev_comm.string)).SetField (ascii "next_comm") (.string event.next_comm.string)

/-- Where a thread stands: a CPU, a caller of `Collect` within the maps or before the history's lock, the poll thread
between two events or after one of an event's steps, or a thread that puts queries. -/
inductive DetailPc where
  | cpu
  | agg (pc : Pc)
  | closing (batch : List SchedRecord)
  | polling
  | waking (event : IlSchedEvent) (now_ms : UInt64)
  | calling (event : IlSchedEvent)
  | asking

inductive DetailChoice where
  | wakeup (ctx : Wakeup) (ts : ℕ) (reserved : Bool)
  | switch (ctx : Switch) (ts : ℕ) (reserved : Bool)
  | migrate (ctx : Migrate) (ts : ℕ) (reserved : Bool)
  | agg (choice : Choice)
  | now (ms : UInt64)
  | stamp (timestamp : Timestamp)
  | go
  | query (query : Bytes) (params : QueryParams)

inductive DetailEvent (D : Type) where
  | submitted (event : IlSchedEvent)
  | agg (event : Event)
  | collected (batch : List SchedRecord) (now_ms : UInt64)
  | took (event : IlSchedEvent) (now_ms : UInt64)
  | woke (event : IlSchedEvent) (now_ms : UInt64)
  | pushed (record : Record D)
  | answered (query : Bytes) (params : QueryParams) (answer : Answer)
  | quiet

/-- An event goes into the ring buffer when the mode asks for it and there is room. -/
def submit (config : DetailConfig) (s : DetailShared D) (maps : Maps) (event : IlSchedEvent) (reserved : Bool) :
    DetailShared D × DetailEvent D :=
  if config.detailed_mode_ && reserved then
    ({ s with maps := maps, sched_analyzer_events := s.sched_analyzer_events ++ [event] }, .submitted event)
  else ({ s with maps := maps }, .quiet)

def detailProbe (config : DetailConfig) (s : DetailShared D) : DetailChoice → Option (DetailShared D × DetailEvent D)
  | .wakeup ctx ts reserved =>
    (probe config.toConfig s.maps (.wakeup ctx.pid ts)).map fun result =>
      submit config s result.1 (wakeupEvent ctx ts) reserved
  | .switch ctx ts reserved =>
    (probe config.toConfig s.maps (.switch ctx.next_pid ts ctx.next_comm.string)).map fun result =>
      submit config s result.1
        (switchEvent ctx ts (runqueue_latency (s.maps.wakeup_ts ctx.next_pid) ts)) reserved
  | .migrate ctx ts reserved =>
    (probe config.toConfig s.maps (.migrate ctx.pid)).map fun result =>
      submit config s result.1 (migrateEvent ctx ts) reserved
  | _ => none

/-- A step of `Collect` within the maps. -/
def detailCollect (config : DetailConfig) (s : DetailShared D) (pc : Pc) (choice : Choice) :
    Option (DetailShared D × DetailPc × DetailEvent D) :=
  match collect config.toConfig s.maps pc choice with
  | none => none
  | some (maps, _, .returned batch) => some ({ s with maps := maps }, .closing batch, .quiet)
  | some (maps, after, event) => some ({ s with maps := maps }, .agg after, .agg event)

/-- Whether an event concerns a target process. -/
def DetailConfig.Allows (config : DetailConfig) (event : IlSchedEvent) : Bool :=
  config.AllowPid event.prev_pid || config.AllowPid event.next_pid

/-- `HandleDetailedEvent` up to the first log. -/
def takeEvent (config : DetailConfig) (s : DetailShared D) (event : IlSchedEvent) (now_ms : UInt64) :
    DetailShared D × DetailPc :=
  if config.Allows event then
    ({ s with logs := s.logs.addEvent event now_ms },
      if event.event_type = 1 then .waking event now_ms else .calling event)
  else (s, .polling)

def detail (doubles : Doubles D) (json : Library D) (config : DetailConfig) (s : DetailShared D) :
    DetailPc → DetailChoice → Option (DetailShared D × DetailPc × DetailEvent D)
  | .cpu, choice => (detailProbe config s choice).map fun result => (result.1, .cpu, result.2)
  | .agg pc, .agg choice => detailCollect config s pc choice
  | .closing batch, .now ms =>
    some ({ s with logs := s.logs.addHistory doubles batch ms }, .agg .idle, .collected batch ms)
  | .polling, .now ms =>
    match s.sched_analyzer_events with
    | [] => none
    | event :: later =>
      let (left, after) := takeEvent config { s with sched_analyzer_events := later } event ms
      some (left, after, .took event ms)
  | .waking event now_ms, .go =>
    some ({ s with logs := s.logs.addWakeup event now_ms }, .calling event, .woke event now_ms)
  | .calling event, .stamp timestamp =>
    some (s, .polling, if config.callback_ then .pushed (pushedRecord event timestamp) else .quiet)
  | .asking, .query query params => some (s, .asking, .answered query params (QueryExtra json s.logs query params))
  | _, _ => none

def detailProgram (doubles : Doubles D) (json : Library D) (config : DetailConfig) :
    Program (DetailShared D) DetailPc DetailChoice (DetailEvent D) :=
  ⟨detail doubles json config⟩

/-- The threads there are: CPUs, callers of `Collect`, the poll thread and threads that put queries. -/
inductive DetailThread (Cpu Caller : Type*) where
  | cpu (cpu : Cpu)
  | collector (caller : Caller)
  | poller
  | asker (caller : Caller)
  deriving DecidableEq

/-- Freshly loaded probes, and every thread at its start. -/
def detailStart (D : Type) (Cpu Caller : Type*) : State (DetailShared D) DetailPc (DetailThread Cpu Caller) where
  shared := ⟨.fresh, [], {}⟩
  pc
    | .cpu _ => .cpu
    | .collector _ => .agg .idle
    | .poller => .polling
    | .asker _ => .asking

end SchedAnalyzer

/-! ## The scheduler tracer

`sched_tracer.bpf.c` notes in `wakeup_ts` when a task was woken, and turns every wakeup and every switch into an event,
that of a switch with the time since the note of the task that is switched in, which it deletes. Whether the ring buffer
has room for an event, and whether the table has room for a task that it does not hold, are the kernel's answers. The
polling thread of `EbpfSchedTracer` makes a batch of each event that it takes, for the pipeline's callback if there is
one by then.
-/

namespace SchedTracer

open SchedAnalyzer (IlSchedEvent Wakeup Switch wakeupEvent switchEvent Comm)

structure Maps where
  wakeup_ts : UInt32 → Option ℕ
  sched_events : List IlSchedEvent

/-- `bpf_map_update_elem`, which overwrites what is there and may have no room for more. -/
def Maps.update_elem (m : Maps) (pid : UInt32) (ts : ℕ) (admitted : Bool) : Maps :=
  if admitted || (m.wakeup_ts pid).isSome then { m with wakeup_ts := Function.update m.wakeup_ts pid (some ts) } else m

def trace_sched_wakeup (m : Maps) (ctx : Wakeup) (ts : ℕ) (admitted reserved : Bool) : Maps :=
  let m := m.update_elem ctx.pid ts admitted
  if reserved then { m with sched_events := m.sched_events ++ [wakeupEvent ctx ts] } else m

/-- `ts - *enqueue_ts`, of 64 bits, or zero without a note. -/
def latency_ns (enqueue_ts : Option ℕ) (ts : ℕ) : ℕ :=
  match enqueue_ts with
  | some enqueued => (UInt64.ofNat ts - UInt64.ofNat enqueued).toNat
  | none => 0

/-- Without room for the event the probe returns before it looks at the table. -/
def trace_sched_switch (m : Maps) (ctx : Switch) (ts : ℕ) (reserved : Bool) : Maps :=
  if reserved = false then m
  else
    { wakeup_ts := Function.update m.wakeup_ts ctx.next_pid none
      sched_events := m.sched_events ++ [switchEvent ctx ts (latency_ns (m.wakeup_ts ctx.next_pid) ts)] }

/-! ### The source -/

def evt_types : UInt8 → Bytes
  | 1 => ascii "wakeup"
  | _ => ascii "switch"

/-- The batch of one record, at the time that the clock shows. -/
def batchOf (D : Type) (event : IlSchedEvent) (now : Timestamp) : DataBatch D where
  type := .kTrace
  records :=
    let rec_ : Record D := ⟨now, [⟨ascii "type", ascii "sched"⟩, ⟨ascii "event", evt_types event.event_type⟩], ∅⟩
    let rec_ := rec_.SetField (ascii "prev_pid") (.uint64 event.prev_pid.toUInt64)
    let rec_ := rec_.SetField (ascii "next_pid") (.uint64 event.next_pid.toUInt64)
    let rec_ := rec_.SetField (ascii "cpu") (.uint64 event.cpu.toUInt64)
    let rec_ := rec_.SetField (ascii "latency_us") (.uint64 (event.latency_ns / 1000))
    let rec_ := rec_.SetField (ascii "prev_comm") (.string event.prev_comm.string)
    [rec_.SetField (ascii "next_comm") (.string event.next_comm.string)]

/-- `sizeof(il_sched_event)`. -/
def sizeof_event : ℕ := 80

def HandleEvent (D : Type) (callback_ : Bool) (event : IlSchedEvent) (now : Timestamp) (size : ℕ) :
    Option (DataBatch D) :=
  if size < sizeof_event then none
  else if callback_ then some (batchOf D event now)
  else none

/-- The probes with their maps, and the source with the batches that it has handed on. -/
structure State (D : Type) where
  maps : Maps := ⟨fun _ => none, []⟩
  callback_ : Bool := false
  batches : List (DataBatch D) := []

inductive Act where
  | wakeup (ctx : Wakeup) (ts : ℕ) (admitted reserved : Bool)
  | switch (ctx : Switch) (ts : ℕ) (reserved : Bool)
  | SetCallback
  /-- The polling thread takes an event out of the ring buffer. -/
  | poll (now : Timestamp)

def act {D : Type} (s : State D) : Act → State D
  | .wakeup ctx ts admitted reserved => { s with maps := trace_sched_wakeup s.maps ctx ts admitted reserved }
  | .switch ctx ts reserved => { s with maps := trace_sched_switch s.maps ctx ts reserved }
  | .SetCallback => { s with callback_ := true }
  | .poll now =>
    match s.maps.sched_events with
    | [] => s
    | event :: rest =>
      { s with
        maps := { s.maps with sched_events := rest }
        batches := s.batches ++ (HandleEvent D s.callback_ event now sizeof_event).toList }

def run (D : Type) (history : List Act) : State D := history.foldl act {}

end SchedTracer

end Illuminator
