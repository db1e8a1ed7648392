import Illuminator.Machine.Interleaving
import Illuminator.Model.GlobalConfig
import Illuminator.Model.PipelineLifecycle

/-! # The daemon's start and its timers

`RunDaemon` of `cli/main.cc` builds the pipelines, starts them with the timers, and then gives the
controller the first storage backend that it finds among their sinks. What the plugins and the storage
backends do by themselves is an input. A backend is known by its position among those created, and its
database by its directory; of a database only the timestamps of the rows are kept. The clocks are one
clock, and the timer thread, the sink pool, and whoever writes to a store run beside the main thread.
-/

namespace Illuminator

namespace Daemon

structure SourcePlugin where
  IsPushMode : Bool
  IntervalMs : ℕ
  Start : Status

structure AggregatorPlugin where
  FlushIntervalMs : ℕ
  Start : Status

structure LocalStorageSink where
  backend_name_ : Bytes
  data_dir_ : Bytes
  pipeline_name_ : Bytes
  backend_ : Option ℕ

/-- A sink, which is a `LocalStorageSink` or another whose `Start` returns a status. -/
inductive SinkPlugin where
  | local_storage (sink : LocalStorageSink)
  | other (Start : Status)

/-- What a type's plugin is once its `Init` has returned `Ok`, in `PluginRegistry`, and what the `Init` of a
backend returns for a directory, in `StorageFactory`. The registered name `local_storage` is left to `CreateSink`. -/
structure Registry where
  CreateSource : String → Option (ConfigValue → Except Status SourcePlugin)
  CreateProcessor : String → Option (ConfigValue → Except Status Status)
  CreateAggregator : String → Option (ConfigValue → Except Status AggregatorPlugin)
  sinks_ : String → Option (ConfigValue → Except Status Status)
  creators_ : Bytes → Option (Bytes → Status)

structure Pipeline where
  name_ : String
  source_ : SourcePlugin
  processors_ : List Status
  aggregator_ : Option AggregatorPlugin
  sinks_ : List SinkPlugin
  running_ : Bool

/-! ## Building -/

def LocalStorageSink.Init (config : ConfigValue) : LocalStorageSink where
  backend_name_ := (config.subscript (ascii "backend")).AsString (ascii "sqlite")
  data_dir_ := (config.subscript (ascii "path")).AsString (ascii "/var/lib/illuminator")
  pipeline_name_ := (config.subscript (ascii "pipeline")).AsString (ascii "default")
  backend_ := none

def Registry.CreateSink (registry : Registry) (type : String) : Option (ConfigValue → Except Status SinkPlugin) :=
  if type = "local_storage" then some fun config => .ok (.local_storage (.Init config))
  else (registry.sinks_ type).map fun Init config => (Init config).map .other

/-- Create a plugin and call its `Init`. -/
def create {α : Type} (kind pipeline : String) (Create : String → Option (ConfigValue → Except Status α))
    (stage : StageConfig) : Except Status α :=
  match Create stage.type with
  | none =>
    .error (.Error .kNotFound (kind ++ " plugin not found: " ++ stage.type ++ " (pipeline: " ++ pipeline ++ ")"))
  | some Init => Init stage.config

/-- The body of the loop of `BuildFromConfig`. -/
def buildPipeline (registry : Registry) (pc : PipelineConfig) : Except Status Pipeline := do
  let source_ ← create "Source" pc.name registry.CreateSource pc.source
  let processors_ ← pc.processors.mapM (create "Processor" pc.name registry.CreateProcessor)
  let aggregator_ ← pc.aggregator.mapM (create "Aggregator" pc.name registry.CreateAggregator)
  let sinks_ ← pc.sinks.mapM (create "Sink" pc.name registry.CreateSink)
  return ⟨pc.name, source_, processors_, aggregator_, sinks_, false⟩

def BuildFromConfig (registry : Registry) (config : GlobalConfig) : Except Status (List Pipeline) :=
  config.pipelines.mapM (buildPipeline registry)

/-! ## Starting -/

/-- A string's bytes as characters. -/
def shown (text : Bytes) : String := String.ofList (text.map fun byte => Char.ofNat byte.toNat)

/-- The sink after `Start`, the directories of the backends created, and the status. -/
def LocalStorageSink.Start (registry : Registry) (backends : List Bytes) (sink : LocalStorageSink) :
    LocalStorageSink × List Bytes × Status :=
  match registry.creators_ sink.backend_name_ with
  | none =>
    ({ sink with backend_ := none }, backends,
      .Error .kNotFound ("Storage backend not found: " ++ shown sink.backend_name_))
  | some Init => ({ sink with backend_ := some backends.length }, backends ++ [sink.data_dir_], Init sink.data_dir_)

def SinkPlugin.Start (registry : Registry) (backends : List Bytes) : SinkPlugin → SinkPlugin × List Bytes × Status
  | .local_storage sink => ((.local_storage (sink.Start registry backends).1), (sink.Start registry backends).2)
  | .other Start => (.other Start, backends, Start)

/-- The sinks one after another, up to the first error. -/
def startSinks (registry : Registry) (backends : List Bytes) : List SinkPlugin → List SinkPlugin × List Bytes × Option Status
  | [] => ([], backends, none)
  | sink :: rest =>
    match sink.Start registry backends with
    | (started, backends, status) =>
      if status.ok then
        match startSinks registry backends rest with
        | (later, backends, failed) => (started :: later, backends, failed)
      else (started :: rest, backends, some status)

/-- The statuses that the components before the sinks return. -/
def Pipeline.before (p : Pipeline) : List Status :=
  p.source_.Start :: p.processors_ ++ (p.aggregator_.map AggregatorPlugin.Start).toList

def Pipeline.Start (registry : Registry) (backends : List Bytes) (p : Pipeline) : Pipeline × List Bytes × Status :=
  if p.sinks_.isEmpty then (p, backends, .Error .kInvalidArgument ("Pipeline has no sinks: " ++ p.name_))
  else
    match p.before.find? fun status => !status.ok with
    | some status => (p, backends, status)
    | none =>
      match startSinks registry backends p.sinks_ with
      | (sinks_, backends, some status) => ({ p with sinks_ }, backends, status)
      | (sinks_, backends, none) => ({ p with sinks_, running_ := true }, backends, .Ok)

/-! ## Timers and stores -/

/-- What a registered timer calls. -/
inductive Callback where
  | collect (pipeline : ℕ)
  | flush (pipeline : ℕ)
  | metrics
  | prune
  deriving DecidableEq

/-- Intervals are milliseconds, and the clock shows nanoseconds. -/
structure TimerEntry where
  next_fire : ℕ
  interval : ℕ
  callback : Callback
  deriving DecidableEq

/-- The controller, whether its timer thread runs, the prunings that the sink pool has yet to run, the
directories of the backends created, and the rows in each directory by their timestamps. -/
structure State where
  pipelines_ : List Pipeline
  storage_backend_ : Option ℕ
  timers_ : List TimerEntry
  timing : Bool
  prunings : ℕ
  backends : List Bytes
  rows : List (Bytes × ℕ)
  now : ℕ

def kRetentionNs : ℕ := 30 * 60 * 1000000000

/-- The interval of the pruning, in milliseconds. -/
def pruneInterval : ℕ := 60000

def AddRepeating (now interval : ℕ) (callback : Callback) : TimerEntry := ⟨now + interval * 1000000, interval, callback⟩

/-- The timers that `StartAll` registers, in their order. -/
def registered (d : State) : List TimerEntry :=
  let entries := d.pipelines_.zipIdx
  (entries.filter fun entry => !entry.1.source_.IsPushMode).map (fun entry =>
      AddRepeating d.now entry.1.source_.IntervalMs (.collect entry.2)) ++
    entries.filterMap (fun entry =>
      entry.1.aggregator_.map fun aggregator => AddRepeating d.now aggregator.FlushIntervalMs (.flush entry.2)) ++
    [AddRepeating d.now 10000 .metrics] ++
    if d.storage_backend_.isSome then [AddRepeating d.now pruneInterval .prune] else []

/-- The timer at a position has fired. -/
def fired (timers_ : List TimerEntry) (index : ℕ) : List TimerEntry :=
  timers_.modify index fun entry => { entry with next_fire := entry.next_fire + entry.interval * 1000000 }

/-- `SqliteBackend::Prune` of an open database. -/
def Prune (rows : List (Bytes × ℕ)) (dir : Bytes) (now max_age : ℕ) : List (Bytes × ℕ) :=
  if max_age = 0 then rows
  else rows.filter fun row => row.1 ≠ dir ∨ (now + 2 ^ 64 - max_age) % 2 ^ 64 ≤ row.2

def SinkPlugin.backend : SinkPlugin → Option ℕ
  | .local_storage sink => sink.backend_
  | .other _ => none

/-- The first backend that the loop of `RunDaemon` finds. -/
def firstBackend (pipelines_ : List Pipeline) : Option ℕ :=
  (pipelines_.flatMap Pipeline.sinks_).findSome? SinkPlugin.backend

/-- `StopAll` stops the timer thread and every pipeline. -/
def StopAll (d : State) : State :=
  { d with timing := false, pipelines_ := d.pipelines_.map fun p => { p with running_ := false } }

/-! ## The threads -/

/-- Where `RunDaemon` stands: it builds, starts one pipeline after another, registers the timers, looks for a
backend, and serves until a signal. -/
inductive Stage where
  | build
  | start (index : ℕ)
  | register
  | expose
  | serving
  | exited (code : ℕ)
  deriving DecidableEq

inductive Pc where
  | main (stage : Stage)
  | timer
  | worker
  | writer
  | clock
  deriving DecidableEq

/-- What the program does not decide: signals, which timer is due first, what a sink writes, and time. -/
inductive Choice where
  | proceed
  | signal
  | fire (index : ℕ)
  | write (backend timestamp : ℕ)
  | tick (ns : ℕ)

inductive Event where
  | local
  | fired (callback : Callback)
  | pruned (backend : ℕ)
  | wrote (dir : Bytes) (timestamp : ℕ)
  deriving DecidableEq

def mainAct (registry : Registry) (config : GlobalConfig) (d : State) : Stage → Choice → Option (State × Stage)
  | .build, .proceed =>
    match BuildFromConfig registry config with
    | .error _ => some (d, .exited 1)
    | .ok pipelines_ => some ({ d with pipelines_ }, .start 0)
  | .start index, .proceed =>
    match d.pipelines_[index]? with
    | none => some (d, .register)
    | some p =>
      match p.Start registry d.backends with
      | (started, backends, status) =>
        let next := { d with pipelines_ := d.pipelines_.set index started, backends }
        if status.ok then some (next, .start (index + 1)) else some (StopAll next, .exited 1)
  | .register, .proceed => some ({ d with timers_ := registered d, timing := true }, .expose)
  | .expose, .proceed =>
    match firstBackend d.pipelines_ with
    | none => some (d, .serving)
    | some backend => some ({ d with storage_backend_ := some backend }, .serving)
  | .serving, .signal => some (StopAll d, .exited 0)
  | _, _ => none

/-- Only the pruning of the timers' callbacks matters to the stores. -/
def timerAct (d : State) : Choice → Option (State × Event)
  | .fire index =>
    match d.timers_[index]? with
    | none => none
    | some entry =>
      if d.timing = true ∧ entry.next_fire ≤ d.now then
        let prunings := if entry.callback = .prune then d.prunings + 1 else d.prunings
        some ({ d with timers_ := fired d.timers_ index, prunings }, .fired entry.callback)
      else none
  | _ => none

/-- A worker of the sink pool runs a pruning. -/
def workerAct (d : State) : Choice → Option (State × Event)
  | .proceed =>
    if d.prunings = 0 then none
    else do
      let backend ← d.storage_backend_
      let dir ← d.backends[backend]?
      some ({ d with prunings := d.prunings - 1, rows := Prune d.rows dir d.now kRetentionNs }, .pruned backend)
  | _ => none

/-- A running pipeline has a sink with the backend. -/
def State.Open (d : State) (backend : ℕ) : Prop :=
  ∃ p ∈ d.pipelines_, p.running_ = true ∧ ∃ sink ∈ p.sinks_, sink.backend = some backend

instance (d : State) (backend : ℕ) : Decidable (d.Open backend) := inferInstanceAs (Decidable (∃ p ∈ d.pipelines_, _))

/-- A local storage sink writes a row. -/
def writerAct (d : State) : Choice → Option (State × Event)
  | .write backend timestamp =>
    if d.Open backend then do
      let dir ← d.backends[backend]?
      some ({ d with rows := d.rows ++ [(dir, timestamp)] }, .wrote dir timestamp)
    else none
  | _ => none

def act (registry : Registry) (config : GlobalConfig) (d : State) : Pc → Choice → Option (State × Pc × Event)
  | .main stage, choice => (mainAct registry config d stage choice).map fun r => (r.1, .main r.2, .local)
  | .timer, choice => (timerAct d choice).map fun r => (r.1, .timer, r.2)
  | .worker, choice => (workerAct d choice).map fun r => (r.1, .worker, r.2)
  | .writer, choice => (writerAct d choice).map fun r => (r.1, .writer, r.2)
  | .clock, .tick ns => some ({ d with now := d.now + ns }, .clock, .local)
  | .clock, _ => none

def program (registry : Registry) (config : GlobalConfig) : Interleaving.Program State Pc Choice Event :=
  ⟨act registry config⟩

inductive Party where
  | main
  | timer
  | worker (index : ℕ)
  | writer (index : ℕ)
  | clock
  deriving DecidableEq

def Party.begins : Party → Pc
  | .main => .main .build
  | .timer => .timer
  | .worker _ => .worker
  | .writer _ => .writer
  | .clock => .clock

/-- The daemon is started at some time, with rows that are left from before. -/
def source (rows : List (Bytes × ℕ)) (now : ℕ) : Interleaving.State State Pc Party :=
  ⟨⟨[], none, [], false, 0, [], rows, now⟩, Party.begins⟩

end Daemon

end Illuminator
