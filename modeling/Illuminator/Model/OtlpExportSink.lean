import Illuminator.Model.PrometheusSink
import Illuminator.Standards.JsonText

/-! # The OTLP sink

`OtlpExportSink` makes one JSON text of a batch, a gauge with one data point for every field of every record, and keeps
it. Names, keys and values are put between quotes as they are. How an integer becomes a `double` and how a `double` is
printed is left to the caller.
-/

namespace Illuminator

structure OtlpExportSink where
  last_payload_ : Bytes := []
  payloads_built_ : UInt64 := 0

namespace OtlpExportSink

open JsonText (Floats)

variable {D : Type} (floats : Floats D) (ofInt : ℤ → D)

def ExtractDouble : FieldValue D → D := PrometheusSink.ExtractDouble ofInt

/-- The stream and `first`, the flag for the comma. -/
structure Json where
  text : Bytes
  first : Bool

def comma (first : Bool) : Bytes := if first then [] else ascii ","

def writeLabel (json : Json) (l : Label) : Json :=
  ⟨json.text ++ comma json.first ++ ascii "\x7b\"key\":\"" ++ l.key ++
    ascii "\",\"value\":\x7b\"stringValue\":\"" ++ l.value ++ ascii "\"\x7d\x7d", false⟩

def writeLabels (text : Bytes) (labels : List Label) : Bytes :=
  if labels.isEmpty then text
  else (labels.foldl writeLabel ⟨text ++ ascii ",\"attributes\":[", true⟩).text ++ ascii "]"

def writeField (rec : Record D) (json : Json) (field : Sigma fun _ : Bytes => FieldValue D) : Json :=
  ⟨writeLabels (json.text ++ comma json.first ++
      ascii "\x7b\"name\":\"" ++ field.1 ++ ascii "\",\"gauge\":\x7b\"dataPoints\":[\x7b" ++
      ascii "\"timeUnixNano\":" ++ to_string (TimestampToNanos rec.timestamp).toNat ++
      ascii ",\"asDouble\":" ++ floats.format (ExtractDouble ofInt field.2)) rec.labels ++
    ascii "\x7d]\x7d\x7d", false⟩

/-- `order` is the order in which the fields are visited. -/
def writeRecord (order : Traversal (FieldValue D)) (json : Json) (rec : Record D) : Json :=
  (order.visit rec.fields).foldl (writeField floats ofInt rec) json

def payload (order : Traversal (FieldValue D)) (records : List (Record D)) : Bytes :=
  (records.foldl (writeRecord floats ofInt order)
    ⟨ascii "\x7b\"resourceMetrics\":[\x7b\"scopeMetrics\":[\x7b\"metrics\":[", true⟩).text ++ ascii "]\x7d]\x7d]\x7d"

/-- The sink after a batch, or after a null pointer. -/
def Write (order : Traversal (FieldValue D)) (sink : OtlpExportSink) : Option (DataBatch D) → OtlpExportSink
  | none => sink
  | some batch =>
    if batch.Empty then sink
    else ⟨payload floats ofInt order batch.records, sink.payloads_built_ + 1⟩

end OtlpExportSink

end Illuminator
