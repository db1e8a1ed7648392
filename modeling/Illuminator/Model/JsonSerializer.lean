import Illuminator.Model.DataBatch
import Illuminator.Model.JsonDocument
import Illuminator.Model.WebSocketCodec

/-! # The live feed

`BatchToJson` turns a batch into the text of one JSON document, and `BroadcastData` sends the text of
each subscribed pipeline's latest batch to its subscribers. An exception of the serializer leaves
`BroadcastData` from there, and nothing in `BroadcastLoop` or around it catches it. `RunDaemon` installs
`BatchToJson` as the serializer.
-/

namespace Illuminator

namespace JsonSerializer

open JsonValue

variable {D : Type}

def FieldValueToJson : FieldValue D → JsonValue D
  | .bool b => .boolean b
  | .int64 i => .number_integer i
  | .uint64 u => .number_unsigned u
  | .double d => .number_float d
  | .string sv => .string sv
  | .monostate => .null

def StackFrameToJson (f : StackFrame) : JsonValue D :=
  .object (Members.setAll ([(ascii "address", .number_unsigned f.address)] ++
    (if f.function_name.isEmpty then [] else [(ascii "function_name", .string f.function_name)]) ++
    (if f.module_name.isEmpty then [] else [(ascii "module_name", .string f.module_name)])) [])

def StackFramesToJson (frames : List StackFrame) : JsonValue D := .array (frames.map StackFrameToJson)

def SampleType.toInt : SampleType → Int64
  | .kOnCpu => 0
  | .kOffCpu => 1

def StackSampleToJson (s : StackSample) : JsonValue D :=
  .object (Members.setAll ([(ascii "pid", .number_unsigned s.pid.toUInt64),
      (ascii "tid", .number_unsigned s.tid.toUInt64), (ascii "cpu", .number_unsigned s.cpu.toUInt64),
      (ascii "count", .number_unsigned s.count), (ascii "comm", .string s.comm),
      (ascii "type", .number_integer (SampleType.toInt s.sample_type))] ++
    (if s.duration_ns > 0 then [(ascii "duration_ns", .number_unsigned s.duration_ns)] else []) ++
    [(ascii "kernel_stack", StackFramesToJson s.kernel_stack), (ascii "user_stack", StackFramesToJson s.user_stack)]) [])

def labelsToJson (labels : List Label) : Members D :=
  Members.setAll (labels.map fun l => (l.key, .string l.value)) []

def fieldsToJson (fields : AList fun _ : Bytes => FieldValue D) : Members D :=
  Members.setAll (fields.entries.map fun field => (field.1, FieldValueToJson field.2)) []

def RecordToJson (rec : Record D) : JsonValue D :=
  .object (Members.setAll [(ascii "labels", .object (labelsToJson rec.labels)),
    (ascii "fields", .object (fieldsToJson rec.fields))] [])

/-- The document that `BatchToJson` dumps. -/
def batchDocument (batch : DataBatch D) (pipeline : Bytes) : JsonValue D :=
  .object (Members.setAll ([(ascii "pipeline", .string pipeline),
      (ascii "records", .array (batch.records.map RecordToJson))] ++
    if batch.stack_samples.isEmpty then []
    else [(ascii "stack_samples", .array (batch.stack_samples.map StackSampleToJson))]) [])

def BatchToJson (json : Library D) (batch : DataBatch D) (pipeline : Bytes) : Option Bytes :=
  json.dump (batchDocument batch pipeline)

/-- What one pass over the subscriptions comes to: what was written to which connection, and whether an
exception has ended it. -/
structure Broadcast where
  sent : List (ℕ × Bytes)
  escaped : Bool
  deriving DecidableEq

/-- The second phase of `BroadcastData`, with the serializer that `RunDaemon` installs. A failed `write`
only adds to the connections that are removed afterwards. -/
def BroadcastData (json : Library D) (Latest : Bytes → Option (DataBatch D)) : List (Bytes × List ℕ) → Broadcast
  | [] => ⟨[], false⟩
  | (key, fds) :: rest =>
    match Latest key with
    | none => BroadcastData json Latest rest
    | some batch =>
      match BatchToJson json batch key with
      | none => ⟨[], true⟩
      | some text =>
        ⟨(fds.map fun fd => (fd, WebSocketCodec.EncodeFrame text .kText)) ++ (BroadcastData json Latest rest).sent,
          (BroadcastData json Latest rest).escaped⟩

/-- One pass of `BroadcastLoop`: the subscriptions at that time and what the store holds. -/
structure Round (D : Type) where
  subscriptions : List (Bytes × List ℕ)
  Latest : Bytes → Option (DataBatch D)

/-- The passes of `BroadcastLoop`. An exception ends the thread, and the process with it. -/
def BroadcastLoop (json : Library D) : List (Round D) → Broadcast
  | [] => ⟨[], false⟩
  | round :: later =>
    let pass := BroadcastData json round.Latest round.subscriptions
    if pass.escaped then pass
    else ⟨pass.sent ++ (BroadcastLoop json later).sent, (BroadcastLoop json later).escaped⟩

end JsonSerializer

end Illuminator
