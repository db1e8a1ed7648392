import Illuminator.Model.DataBatch
import Illuminator.ToMathlib.Delimited

/-! # The Prometheus sink

`PrometheusSink` turns every field of a record into a gauge, under a text made of the metric's name and the labels, and
`Expose` prints all of them after the `HELP` and `TYPE` lines of their names. How an integer becomes a `double` and how a
`double` is printed is left to the caller.
-/

namespace Illuminator

/-- `std::isalnum` in the C locale. -/
def isalnum (c : UInt8) : Bool := 0x41 ≤ c && c ≤ 0x5A || 0x61 ≤ c && c ≤ 0x7A || isdigit c

structure PrometheusSink (D : Type) where
  prefix_ : Bytes := ascii "illuminator"
  gauges_ : AList fun _ : Bytes => D := ∅
  metric_help_ : AList fun _ : Bytes => Bytes := ∅

namespace PrometheusSink

variable {D : Type}

def SanitizeName (name : Bytes) : Bytes := name.map fun c => if isalnum c || c == 0x5F then c else 0x5F

def escapeChar (c : UInt8) : Bytes :=
  if c = 0x5C then [0x5C, 0x5C] else if c = 0x22 then [0x5C, 0x22] else if c = 0x0A then [0x5C, 0x6E] else [c]

def EscapeLabelValue (sv : Bytes) : Bytes := sv.flatMap escapeChar

def labelText (l : Label) : Bytes := l.key ++ 0x3D :: 0x22 :: (EscapeLabelValue l.value ++ [0x22])

def BuildLabelString (labels : List Label) : Bytes :=
  if labels.isEmpty then [] else 0x7B :: ([0x2C].intercalate (labels.map labelText) ++ [0x7D])

/-- `ofInt` is the conversion of an integer. -/
def ExtractDouble (ofInt : ℤ → D) : FieldValue D → D
  | .monostate => ofInt 0
  | .bool v => ofInt (if v then 1 else 0)
  | .int64 v => ofInt v.toInt
  | .uint64 v => ofInt v.toNat
  | .double v => v
  | .string _ => ofInt 0

def metricName (prefix_ key : Bytes) : Bytes := SanitizeName (prefix_ ++ 0x5F :: key)

def writeField (ofInt : ℤ → D) (label_str : Bytes) (sink : PrometheusSink D)
    (field : Sigma fun _ : Bytes => FieldValue D) : PrometheusSink D :=
  let metric_name := metricName sink.prefix_ field.1
  let full_key := metric_name ++ label_str
  { sink with
    gauges_ := sink.gauges_.insert full_key (ExtractDouble ofInt field.2)
    metric_help_ := sink.metric_help_.insert metric_name metric_name }

def writeRecord (ofInt : ℤ → D) (sink : PrometheusSink D) (rec : Record D) : PrometheusSink D :=
  rec.fields.entries.foldl (writeField ofInt (BuildLabelString rec.labels)) sink

/-- The sink after a batch, or after a null pointer. -/
def Write (ofInt : ℤ → D) (sink : PrometheusSink D) : Option (DataBatch D) → PrometheusSink D
  | none => sink
  | some batch => batch.records.foldl (writeRecord ofInt) sink

/-- The lines before the samples of a metric. -/
def headRows (name : Bytes) : List Bytes :=
  [ascii "# HELP " ++ name ++ 0x20 :: ascii "Illuminator metric", ascii "# TYPE " ++ (name ++ 0x20 :: ascii "gauge")]

def gaugeRow (text : D → Bytes) (entry : Sigma fun _ : Bytes => D) : Bytes := entry.1 ++ 0x20 :: text entry.2

/-- The orders in which the loops visit the maps. -/
structure ExposeOrder (D : Type) where
  metric_help : Traversal Bytes
  gauges : Traversal D

def rows (text : D → Bytes) (order : ExposeOrder D) (sink : PrometheusSink D) : List Bytes :=
  ((order.metric_help.visit sink.metric_help_).flatMap fun entry => headRows entry.1) ++
    (order.gauges.visit sink.gauges_).map (gaugeRow text)

/-- The page, `text` being what `<<` prints of a `double`. -/
def Expose (text : D → Bytes) (order : ExposeOrder D) (sink : PrometheusSink D) : Bytes :=
  Delimited.pieces 0x0A id (rows text order sink)

/-- A sink that was given some batches. -/
def run (ofInt : ℤ → D) (prefix_ : Bytes) (batches : List (Option (DataBatch D))) : PrometheusSink D :=
  batches.foldl (Write ofInt) { prefix_ := prefix_ }

end PrometheusSink

end Illuminator
