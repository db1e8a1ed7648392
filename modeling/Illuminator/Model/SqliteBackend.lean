import Illuminator.Machine.Transactions
import Illuminator.Model.DataBatch
import Illuminator.Model.Json
import Illuminator.Model.Status

/-! # The SQLite backend

`WriteRecords` and `WriteStackSamples` insert a batch in one transaction. They differ in the row they
make of an item. What SQLite's calls return is an input, and so is the JSON library, whose `dump` may
throw while a row is made; an exception leaves the function from there.
-/

namespace Illuminator

open Transactions

/-- A row of `records`, without its `id`. -/
structure RecordRow where
  pipeline : Bytes
  timestamp_ns : Int64
  labels_json : Bytes
  fields_json : Bytes
  deriving DecidableEq

/-- A row of `stack_samples`, without its `id`. -/
structure StackRow where
  pipeline : Bytes
  timestamp_ns : Int64
  pid : Int32
  tid : Int32
  comm : Bytes
  stack_json : Bytes
  count : Int64
  deriving DecidableEq

/-- The tables that the two functions write to. -/
structure Tables where
  records : List RecordRow
  stack_samples : List StackRow
  deriving DecidableEq

namespace SqliteBackend

variable {D : Type}

/-- A string bound with the length `-1`: up to its first NUL. -/
def c_str (s : Bytes) : Bytes := s.takeWhile (· != 0)

def SerializeLabels (json : Json.Library D) (labels : List Label) : Option Bytes :=
  json.dump (.object (labels.foldl (fun j l => j.set l.key (.string l.value)) []))

/-- The member that a field becomes. -/
def fieldScalar : FieldValue D → Json.Scalar D
  | .monostate => .null
  | .bool b => .boolean b
  | .int64 i => .number_integer i
  | .uint64 u => .number_unsigned u
  | .double d => .number_float d
  | .string sv => .string sv

def SerializeFields (json : Json.Library D) (fields : AList fun _ : Bytes => FieldValue D) : Option Bytes :=
  json.dump (.object (fields.entries.foldl (fun j field => j.set field.1 (fieldScalar field.2)) []))

/-- The bytes of `"addr"`, `"fn"`, `"file"` and `"line"`. -/
def addrKey : Bytes := [0x61, 0x64, 0x64, 0x72]
def fnKey : Bytes := [0x66, 0x6E]
def fileKey : Bytes := [0x66, 0x69, 0x6C, 0x65]
def lineKey : Bytes := [0x6C, 0x69, 0x6E, 0x65]

def frameObject (f : StackFrame) : Json.Object D :=
  [(addrKey, .number_unsigned f.address), (fnKey, .string f.function_name), (fileKey, .string f.file_name),
    (lineKey, .number_unsigned f.line_number.toUInt64)].foldl (fun j entry => j.set entry.1 entry.2) []

def SerializeStack (json : Json.Library D) (s : StackSample) : Option Bytes :=
  json.dump (.array (s.user_stack.map frameObject))

/-- The row that is made of a record, unless a serializer throws. -/
def recordRow (json : Json.Library D) (pipeline_name : Bytes) (rec : Record D) : Option RecordRow := do
  let labels ← SerializeLabels json rec.labels
  let fields ← SerializeFields json rec.fields
  let ts := TimestampToNanos rec.timestamp
  return ⟨c_str pipeline_name, ts.toInt64, c_str labels, c_str fields⟩

/-- The row that is made of a stack sample, unless its serializer throws. -/
def stackRow (json : Json.Library D) (pipeline_name : Bytes) (s : StackSample) : Option StackRow := do
  let ts := TimestampToNanos s.timestamp
  let stack ← SerializeStack json s
  return ⟨c_str pipeline_name, ts.toInt64, s.pid.toInt32, s.tid.toInt32, c_str s.comm, c_str stack, s.count.toInt64⟩

def insertRecord (json : Json.Library D) (pipeline_name : Bytes) (rec : Record D) : Option (Tables → Tables) :=
  (recordRow json pipeline_name rec).map fun row t => { t with records := t.records ++ [row] }

def insertStackSample (json : Json.Library D) (pipeline_name : Bytes) (s : StackSample) :
    Option (Tables → Tables) :=
  (stackRow json pipeline_name s).map fun row t => { t with stack_samples := t.stack_samples ++ [row] }

/-- What SQLite's calls come to during one write: whether `BEGIN` is refused, whether the statement is
prepared, the outcome of each row's step, and that of `COMMIT`. -/
structure Engine where
  refused : Bool
  prepared : Bool
  steps : ℕ → Outcome
  commit : Outcome

/-- How the loop over the items ends. -/
inductive Ended where
  | finished
  | failed
  | threw
  deriving DecidableEq

/-- The loop over the items, from the item with a given index on. -/
def insertEach {X : Type} (insert : X → Option (Tables → Tables)) (steps : ℕ → Outcome) :
    ℕ → List X → Connection Tables → Connection Tables × Ended
  | _, [], c => (c, .finished)
  | i, x :: rest, c =>
    match insert x with
    | none => (c, .threw)
    | some change =>
      match steps i with
      | .done => insertEach insert steps (i + 1) rest (c.step change .done)
      | outcome => (c.step change outcome, .failed)

/-- The body that the two functions share: the connection it leaves, and the status it returns unless an
exception leaves it. -/
def writeBatch {X : Type} (context : String) (insert : X → Option (Tables → Tables)) (engine : Engine)
    (db_ : Option (Connection Tables)) (items : List X) : Option (Connection Tables) × Option Status :=
  match db_ with
  | none => (none, some .Ok)
  | some c =>
    if items.isEmpty then (some c, some .Ok)
    else
      let begun := (c.start engine.refused).prepare engine.prepared
      if engine.prepared then
        match insertEach insert engine.steps 0 items begun with
        | (c, .threw) => (some c, none)
        | (c, .failed) => (some c.finalize.rollback, some (.Error .kInternal ("SQLite step failed: " ++ context)))
        | (c, .finished) =>
          match c.finalize.commit engine.commit with
          | (c, true) => (some c, some .Ok)
          | (c, false) => (some c, some (.Error .kInternal ("SQLite COMMIT failed: " ++ context)))
      else (some begun.rollback, some (.Error .kInternal ("SQLite prepare failed: " ++ context)))

def WriteRecords (json : Json.Library D) (engine : Engine) (db_ : Option (Connection Tables))
    (pipeline_name : Bytes) (records : List (Record D)) : Option (Connection Tables) × Option Status :=
  writeBatch "WriteRecords" (insertRecord json pipeline_name) engine db_ records

def WriteStackSamples (json : Json.Library D) (engine : Engine) (db_ : Option (Connection Tables))
    (pipeline_name : Bytes) (samples : List StackSample) : Option (Connection Tables) × Option Status :=
  writeBatch "WriteStackSamples" (insertStackSample json pipeline_name) engine db_ samples

end SqliteBackend

end Illuminator
