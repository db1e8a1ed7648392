import Illuminator.Model.FlameGraph
import Illuminator.Model.JsonSerializer
import Illuminator.ToMathlib.LastEntries

/-! # The pages

What the pages make of the server's answers: the flame graph page of a profile, the CPU pages of the records of a
source. What a page does not find where it looks for it is `undefined`.
-/

namespace Illuminator

/-! ## The flame graph page

`loadData` asks the server for a profile, which is the document of a batch and a line break, and draws the tree of its
samples. The browser parses the document and decodes its strings.
-/

namespace FlameGraph

open JsonValue

variable {D : Type}

/-- `JSON.parse`, which throws on a text that is not JSON, and what a string of the text is to the page. -/
structure Browser (D : Type) where
  parse : Bytes → Option (JsonValue D)
  decode : Bytes → JsString

/-- `v.key`. -/
def property (key : Bytes) : JsonValue D → Option (JsonValue D)
  | .object members => members.lookup key
  | _ => none

def asString (browser : Browser D) : JsonValue D → Option JsString
  | .string s => some (browser.decode s)
  | _ => none

def asNumber : JsonValue D → Option ℕ
  | .number_unsigned u => some u.toNat
  | _ => none

def asArray : JsonValue D → Option (List (JsonValue D))
  | .array elements => some elements
  | _ => none

def readFrame (browser : Browser D) (f : JsonValue D) : StackFrame :=
  ⟨(property (ascii "function_name") f).bind (asString browser)⟩

def readStack (browser : Browser D) (key : Bytes) (sample : JsonValue D) : Option (List StackFrame) :=
  ((property key sample).bind asArray).map fun stack => stack.map (readFrame browser)

def readSample (browser : Browser D) (sample : JsonValue D) : StackSample where
  comm := (property (ascii "comm") sample).bind (asString browser)
  user_stack := readStack browser (ascii "user_stack") sample
  kernel_stack := readStack browser (ascii "kernel_stack") sample
  duration_ns := (property (ascii "duration_ns") sample).bind asNumber
  count := (property (ascii "count") sample).bind asNumber

/-- `stack_samples`. -/
def readSamples (browser : Browser D) (d : JsonValue D) : Option (List StackSample) :=
  ((property (ascii "stack_samples") d).bind asArray).map fun samples => samples.map (readSample browser)

/-- What the page shows: a tree, the server's error, that there are no samples, or that the answer is no JSON. -/
inductive Shown where
  | tree (node : FlameNode)
  | error (text : JsString)
  | noSamples
  | thrown

/-- `loadData` from the body of the answer on. -/
def loadData (browser : Browser D) (isOffCpu : Bool) (body : Bytes) : Shown :=
  match browser.parse body with
  | none => .thrown
  | some d =>
    let error := ((property (ascii "error") d).bind (asString browser)).getD []
    if error ≠ [] then .error error
    else if ((readSamples browser d).getD []).length > 0 then
      .tree (convertToFlameNode (readSamples browser d) isOffCpu)
    else .noSamples

end FlameGraph

/-! ## The CPU pages

The hooks of the CPU pages fetch the records of a source and make a table of processes or a set of gauges with their
history out of them. A number of the page is a `double`, and what `Number` and `String` make of other values is an
input. Reading a property of `null` throws.
-/

namespace CpuMetrics

open JsonValue
open FlameGraph (Browser JsString literal property asString)

variable {D : Type}

/-- The numbers of the page: which of them are neither zero nor `NaN`, what number a literal without a point is, and
what `Number` makes of a value that is neither a number nor `null`. -/
structure Numbers (D : Type) where
  zero : D
  truthy : D → Bool
  unsigned : UInt64 → D
  integer : Int64 → D
  other : JsonValue D → D

/-- What `String` makes of a value that is neither a string nor `null`. -/
abbrev Shows (D : Type) := JsonValue D → JsString

/-- `Number(v) || 0`. -/
def numberOr0 (numbers : Numbers D) (v : Option (JsonValue D)) : D :=
  let number :=
    match v with
    | some (.number_float d) => d
    | some (.number_unsigned u) => numbers.unsigned u
    | some (.number_integer i) => numbers.integer i
    | some .null => numbers.zero
    | some other => numbers.other other
    | none => numbers.zero
  if numbers.truthy number then number else numbers.zero

/-! ### Labels -/

/-- `v != null ? String(v) : ''`. -/
def stringOr (browser : Browser D) (shows : Shows D) : Option (JsonValue D) → JsString
  | some (.string s) => browser.decode s
  | some .null => []
  | some other => shows other
  | none => []

/-- `v ?? other`. -/
def orElse (v other : Option (JsonValue D)) : Option (JsonValue D) :=
  match v with
  | some .null => other
  | some found => some found
  | none => other

/-- The properties of an object, the one assigned last in front. -/
abbrev Properties := List (JsString × JsString)

/-- The entries of the array that have a key, each a label. -/
def assignItem (browser : Browser D) (shows : Shows D) (out : Properties) (item : JsonValue D) : Properties :=
  match orElse (property (ascii "key") item) (property (ascii "name") item) with
  | none => out
  | some .null => out
  | some key =>
    (stringOr browser shows (some key),
      stringOr browser shows (orElse (property (ascii "value") item) (property (ascii "val") item))) :: out

def normalizeLabels (browser : Browser D) (shows : Shows D) : Option (JsonValue D) → Properties
  | some (.array items) => items.foldl (assignItem browser shows) []
  | some (.object members) =>
    members.foldl (fun out entry => (browser.decode entry.1, stringOr browser shows (some entry.2)) :: out) []
  | _ => []

/-- `labels.key || ''`. -/
def label (labels : Properties) (key : String) : JsString := (labels.lookup (literal key)).getD []

/-! ### Records -/

/-- `d.records` as a list to loop over: none where it is not truthy, and an exception where it cannot be looped over.
The characters of a string have no properties that are read. -/
def recordsOf (numbers : Numbers D) (d : JsonValue D) : Option (List (JsonValue D)) :=
  match property (ascii "records") d with
  | some (.array records) => some records
  | some (.string s) => some (s.map fun c => .string [c])
  | some (.number_float d) => if numbers.truthy d then none else some []
  | some (.number_unsigned u) => if numbers.truthy (numbers.unsigned u) then none else some []
  | some (.number_integer i) => if numbers.truthy (numbers.integer i) then none else some []
  | some (.boolean true) => none
  | some (.object _) => none
  | _ => some []

/-- Labels and fields of a record, unless reading them throws. -/
def readRecord (browser : Browser D) (shows : Shows D) (rec : JsonValue D) :
    Option (Properties × (Bytes → Option (JsonValue D))) :=
  match rec with
  | .null => none
  | r => some (normalizeLabels browser shows (property (ascii "labels") r),
      fun key => (property (ascii "fields") r).bind (property key))

/-! ### Processes -/

structure ThreadInfo (D : Type) where
  pid : JsString
  tid : JsString
  comm : JsString
  parent_comm : JsString
  cpu_user_pct : D
  cpu_sys_pct : D
  cpu_total_pct : D
  state : JsString

structure ProcessInfo (D : Type) where
  pid : JsString
  comm : JsString
  cpu_user_pct : D
  cpu_sys_pct : D
  cpu_total_pct : D
  state : JsString
  num_threads : D
  rss_kb : D
  vsize_kb : D
  voluntary_ctxt_switches : D
  nonvoluntary_ctxt_switches : D
  threads : List (ThreadInfo D)

/-- A `Map` by what `labels.pid` is, in the order in which the keys were first set. -/
abbrev ProcessMap (D : Type) := List (Option JsString × ProcessInfo D)

def ProcessMap.set (map : ProcessMap D) (key : Option JsString) (info : ProcessInfo D) : ProcessMap D :=
  if (map.map Prod.fst).contains key then map.map fun entry => if entry.1 = key then (key, info) else entry
  else map ++ [(key, info)]

/-- `typeof v === 'string' ? v : ''`. -/
def textOr (browser : Browser D) (v : Option (JsonValue D)) : JsString := (v.bind (asString browser)).getD []

def processInfo (browser : Browser D) (numbers : Numbers D) (labels : Properties)
    (fields : Bytes → Option (JsonValue D)) : ProcessInfo D where
  pid := label labels "pid"
  comm := label labels "comm"
  cpu_user_pct := numberOr0 numbers (fields (ascii "cpu_user_pct"))
  cpu_sys_pct := numberOr0 numbers (fields (ascii "cpu_sys_pct"))
  cpu_total_pct := numberOr0 numbers (fields (ascii "cpu_total_pct"))
  state := textOr browser (fields (ascii "state"))
  num_threads := numberOr0 numbers (fields (ascii "num_threads"))
  rss_kb := numberOr0 numbers (fields (ascii "rss_kb"))
  vsize_kb := numberOr0 numbers (fields (ascii "vsize_kb"))
  voluntary_ctxt_switches := numberOr0 numbers (fields (ascii "voluntary_ctxt_switches"))
  nonvoluntary_ctxt_switches := numberOr0 numbers (fields (ascii "nonvoluntary_ctxt_switches"))
  threads := []

def threadInfo (browser : Browser D) (numbers : Numbers D) (labels : Properties)
    (fields : Bytes → Option (JsonValue D)) : ThreadInfo D where
  pid := label labels "pid"
  tid := label labels "tid"
  comm := label labels "comm"
  parent_comm := label labels "parent_comm"
  cpu_user_pct := numberOr0 numbers (fields (ascii "cpu_user_pct"))
  cpu_sys_pct := numberOr0 numbers (fields (ascii "cpu_sys_pct"))
  cpu_total_pct := numberOr0 numbers (fields (ascii "cpu_total_pct"))
  state := textOr browser (fields (ascii "state"))

/-- The body of the loop over the records. -/
def takeRecord (browser : Browser D) (numbers : Numbers D) (shows : Shows D)
    (found : ProcessMap D × List (ThreadInfo D)) (rec : JsonValue D) : Option (ProcessMap D × List (ThreadInfo D)) := do
  let (labels, fields) ← readRecord browser shows rec
  if label labels "type" = literal "process" then
    return (found.1.set (labels.lookup (literal "pid")) (processInfo browser numbers labels fields), found.2)
  else if label labels "type" = literal "thread" then
    return (found.1, found.2 ++ [threadInfo browser numbers labels fields])
  else return found

/-- The threads are added to their processes. -/
def attach (map : ProcessMap D) (t : ThreadInfo D) : ProcessMap D :=
  map.map fun entry =>
    if entry.1 = some t.pid then (entry.1, { entry.2 with threads := entry.2.threads ++ [t] }) else entry

def parseProcessResponse (browser : Browser D) (numbers : Numbers D) (shows : Shows D) (data : JsonValue D) :
    Option (List (ProcessInfo D)) := do
  let records ← recordsOf numbers data
  let (processMap, threads) ← records.foldlM (takeRecord browser numbers shows) ([], [])
  return (threads.foldl attach processMap).map Prod.snd

/-- What makes a fetch fail: the connection, a status that is not a success, a body that is no JSON, or an exception
while it is read. -/
inductive Failure where
  | network
  | http (status : ℕ)
  | syntax_
  | type
  deriving DecidableEq

/-- What a request comes to: no answer, or a status and a body. -/
inductive Answer where
  | none
  | response (status : ℕ) (body : Bytes)

/-- `pipeline_collect` for a pipeline without processors, from the batch of its source on. An exception of the handler
is answered with the status 500. -/
def pipeline_collect (json : Library D) (batch : DataBatch D) (pipeline_name : Bytes) : Answer :=
  match JsonSerializer.BatchToJson json batch pipeline_name with
  | some text => .response 200 (text ++ [0x0A])
  | none => .response 500 []

/-- The value that the body of an answer is. -/
def json (browser : Browser D) : Answer → Except Failure (JsonValue D)
  | .none => .error .network
  | .response status body =>
    if 200 ≤ status ∧ status ≤ 299 then
      match browser.parse body with
      | none => .error .syntax_
      | some data => .ok data
    else .error (.http status)

structure ProcessState (D : Type) where
  processes : List (ProcessInfo D) := []
  error : Option Failure := none

/-- `fetchData` of `useProcessCpu`. -/
def ProcessState.fetchData (browser : Browser D) (numbers : Numbers D) (shows : Shows D) (page : ProcessState D)
    (answer : Answer) : ProcessState D :=
  match json browser answer with
  | .error failure => { page with error := some failure }
  | .ok data =>
    match parseProcessResponse browser numbers shows data with
    | none => { page with error := some .type }
    | some processes => ⟨processes, none⟩

/-! ### Utilization -/

/-- What a property of the page's numbers can be. -/
inductive Value (D : Type) where
  | number (d : D)
  | undefined
  | other (v : JsonValue D)

/-- A property that was parsed. -/
def value (numbers : Numbers D) : Option (JsonValue D) → Value D
  | some (.number_float d) => .number d
  | some (.number_unsigned u) => .number (numbers.unsigned u)
  | some (.number_integer i) => .number (numbers.integer i)
  | some v => .other v
  | none => .undefined

/-- `v ?? 0`. -/
def or0 (numbers : Numbers D) (v : Option (JsonValue D)) : Value D :=
  match v with
  | some .null => .number numbers.zero
  | some found => value numbers (some found)
  | none => .number numbers.zero

/-- `a + b`, where what is made of operands that are not both numbers is an input. -/
def plus [Add D] (mixed : Value D → Value D → Value D) : Value D → Value D → Value D
  | .number a, .number b => .number (a + b)
  | a, b => mixed a b

structure CpuCoreMetrics (D : Type) where
  cpu : JsString
  type : JsString
  user_pct : Value D
  system_pct : Value D
  nice_pct : Value D
  idle_pct : Value D
  iowait_pct : Value D
  irq_pct : Value D
  softirq_pct : Value D
  steal_pct : Value D
  busy_pct : Value D
  user_pct_ema : Value D
  system_pct_ema : Value D
  busy_pct_ema : Value D

structure SystemCounters (D : Type) where
  context_switches_per_sec : Value D
  interrupts_per_sec : Value D

structure LoadAvg (D : Type) where
  load_1m : Value D
  load_5m : Value D
  load_15m : Value D

structure RunQueue (D : Type) where
  procs_running : Value D
  procs_blocked : Value D

structure CpuUtilizationData (D : Type) where
  cores : List (CpuCoreMetrics D) := []
  total : Option (CpuCoreMetrics D) := none
  counters : Option (SystemCounters D) := none
  loadavg : Option (LoadAvg D) := none
  runqueue : Option (RunQueue D) := none

def coreMetrics (numbers : Numbers D) (labels : Properties) (fields : Bytes → Option (JsonValue D)) :
    CpuCoreMetrics D where
  cpu := label labels "cpu"
  type := label labels "type"
  user_pct := or0 numbers (fields (ascii "user_pct"))
  system_pct := or0 numbers (fields (ascii "system_pct"))
  nice_pct := or0 numbers (fields (ascii "nice_pct"))
  idle_pct := or0 numbers (fields (ascii "idle_pct"))
  iowait_pct := or0 numbers (fields (ascii "iowait_pct"))
  irq_pct := or0 numbers (fields (ascii "irq_pct"))
  softirq_pct := or0 numbers (fields (ascii "softirq_pct"))
  steal_pct := or0 numbers (fields (ascii "steal_pct"))
  busy_pct := or0 numbers (fields (ascii "busy_pct"))
  user_pct_ema := value numbers (fields (ascii "user_pct_ema"))
  system_pct_ema := value numbers (fields (ascii "system_pct_ema"))
  busy_pct_ema := value numbers (fields (ascii "busy_pct_ema"))

def systemCounters (numbers : Numbers D) (fields : Bytes → Option (JsonValue D)) : SystemCounters D where
  context_switches_per_sec := or0 numbers (fields (ascii "context_switches_per_sec"))
  interrupts_per_sec := or0 numbers (fields (ascii "interrupts_per_sec"))

def loadAvg (numbers : Numbers D) (fields : Bytes → Option (JsonValue D)) : LoadAvg D where
  load_1m := or0 numbers (fields (ascii "load_1m"))
  load_5m := or0 numbers (fields (ascii "load_5m"))
  load_15m := or0 numbers (fields (ascii "load_15m"))

def runQueue (numbers : Numbers D) (fields : Bytes → Option (JsonValue D)) : RunQueue D where
  procs_running := or0 numbers (fields (ascii "procs_running"))
  procs_blocked := or0 numbers (fields (ascii "procs_blocked"))

/-- The body of the loop over the records. -/
def takeUtilization (browser : Browser D) (numbers : Numbers D) (shows : Shows D) (result : CpuUtilizationData D)
    (rec : JsonValue D) : Option (CpuUtilizationData D) := do
  let (labels, fields) ← readRecord browser shows rec
  let type := label labels "type"
  if type = literal "cpu_total" then return { result with total := some (coreMetrics numbers labels fields) }
  else if type = literal "cpu_core" then
    return { result with cores := result.cores ++ [coreMetrics numbers labels fields] }
  else if type = literal "system_counters" then return { result with counters := some (systemCounters numbers fields) }
  else if type = literal "loadavg" then return { result with loadavg := some (loadAvg numbers fields) }
  else if type = literal "runqueue" then return { result with runqueue := some (runQueue numbers fields) }
  else return result

def parseUtilizationResponse (browser : Browser D) (numbers : Numbers D) (shows : Shows D) (data : JsonValue D) :
    Option (CpuUtilizationData D) := do
  let records ← recordsOf numbers data
  records.foldlM (takeUtilization browser numbers shows) {}

def MAX_HISTORY : ℕ := 900

structure HistoryEntry (D : Type) where
  time : ℕ
  user : Value D
  system : Value D
  iowait : Value D
  irq : Value D
  steal : Value D
  idle : Value D

def historyEntry [Add D] (mixed : Value D → Value D → Value D) (time : ℕ) (total : CpuCoreMetrics D) :
    HistoryEntry D where
  time := time
  user := total.user_pct
  system := total.system_pct
  iowait := total.iowait_pct
  irq := plus mixed total.irq_pct total.softirq_pct
  steal := total.steal_pct
  idle := total.idle_pct

structure UtilizationState (D : Type) where
  data : CpuUtilizationData D := {}
  history : List (HistoryEntry D) := []
  error : Option Failure := none

/-- The function that is given to `setHistory`. -/
def addEntry (prev : List (HistoryEntry D)) (entry : HistoryEntry D) : List (HistoryEntry D) :=
  let next := prev ++ [entry]
  if next.length > MAX_HISTORY then next.rtake MAX_HISTORY else next

/-- `fetchData` of `useCpuUtilization`, at a time that the clock shows. -/
def UtilizationState.fetchData [Add D] (browser : Browser D) (numbers : Numbers D) (shows : Shows D)
    (mixed : Value D → Value D → Value D) (page : UtilizationState D) (now : ℕ) (answer : Answer) :
    UtilizationState D :=
  match json browser answer with
  | .error failure => { page with error := some failure }
  | .ok data =>
    match parseUtilizationResponse browser numbers shows data with
    | none => { page with error := some .type }
    | some parsed =>
      ⟨parsed, match parsed.total with
        | none => page.history
        | some total => addEntry page.history (historyEntry mixed now total), none⟩

end CpuMetrics

end Illuminator
