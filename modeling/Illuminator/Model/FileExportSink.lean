import Illuminator.Model.ConfigValue
import Illuminator.Model.JsonSerializer
import Illuminator.Model.SqliteBackend
import Illuminator.Model.Status

/-! # The file export

`FileExportSink` appends the text of each record to a file, a line for each. What it prints goes to the stream's
buffer, and from there to the file when the sink flushes or closes the stream and whenever the C library chooses. The
file takes all the bytes that it is given. A stream that a second `Start` replaces is never closed, and what it still
buffers is out of the sink's reach.
-/

namespace Illuminator

/-- `file_` is what the open stream buffers. -/
structure FileExportSink where
  path_ : Bytes := []
  file_ : Option Bytes := none

namespace FileExportSink

variable {D : Type}

def Init (sink : FileExportSink) (config : ConfigValue) : FileExportSink × Status :=
  ({ sink with path_ := (config.subscript (ascii "path")).AsString (ascii "/tmp/illuminator_output.jsonl") }, .Ok)

/-- `opens` tells whether `fopen` succeeds. -/
def Start (sink : FileExportSink) (opens : Bool) : FileExportSink × Status :=
  if opens then ({ sink with file_ := some [] }, .Ok)
  else ({ sink with file_ := none },
    .Error .kInternal ("Cannot open file: " ++ String.ofList (sink.path_.map fun c => Char.ofNat c.toNat)))

/-- What the stream buffers after the loop over the records, and whether an exception of `dump` has ended it. -/
def printRecords (json : JsonValue.Library D) : List (Record D) → Bytes → Bytes × Bool
  | [], buffer => (buffer, false)
  | rec :: rest, buffer =>
    match json.dump (JsonSerializer.RecordToJson rec) with
    | none => (buffer, true)
    | some s => printRecords json rest (buffer ++ (SqliteBackend.c_str s ++ [0x0A]))

/-- The sink after a write, and the status unless an exception leaves it. -/
def Write (json : JsonValue.Library D) (sink : FileExportSink) (batch : Option (DataBatch D)) :
    FileExportSink × Option Status :=
  match sink.file_, batch with
  | some buffer, some batch =>
    let printed := printRecords json batch.records buffer
    ({ sink with file_ := some printed.1 }, if printed.2 then none else some .Ok)
  | _, _ => (sink, some .Ok)

/-- The sink and the file after a flush. -/
def Flush (sink : FileExportSink) (file : Bytes) : FileExportSink × Bytes × Status :=
  match sink.file_ with
  | some buffer => ({ sink with file_ := some [] }, file ++ buffer, .Ok)
  | none => (sink, file, .Ok)

def Stop (sink : FileExportSink) (file : Bytes) : FileExportSink × Bytes × Status :=
  match sink.file_ with
  | some buffer => ({ sink with file_ := none }, file ++ buffer, .Ok)
  | none => (sink, file, .Ok)

/-- A call on the sink, or some bytes that the C library moves from the buffer to the file. -/
inductive Action (D : Type) where
  | Start (opens : Bool)
  | Stop
  | Write (batch : Option (DataBatch D))
  | Flush
  | drain (bytes : ℕ)

/-- The sink and the file after an action. -/
def act (json : JsonValue.Library D) (s : FileExportSink × Bytes) : Action D → FileExportSink × Bytes
  | .Start opens => ((s.1.Start opens).1, s.2)
  | .Stop => ((s.1.Stop s.2).1, (s.1.Stop s.2).2.1)
  | .Write batch => ((Write json s.1 batch).1, s.2)
  | .Flush => ((s.1.Flush s.2).1, (s.1.Flush s.2).2.1)
  | .drain bytes =>
    match s.1.file_ with
    | some buffer => ({ s.1 with file_ := some (buffer.drop bytes) }, s.2 ++ buffer.take bytes)
    | none => s

def run (json : JsonValue.Library D) (s : FileExportSink × Bytes) (actions : List (Action D)) : FileExportSink × Bytes :=
  actions.foldl (act json) s

end FileExportSink

end Illuminator
