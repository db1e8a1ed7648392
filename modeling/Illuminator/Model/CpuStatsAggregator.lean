import Illuminator.Model.StackMerger
import Mathlib.Data.Rat.Defs

/-! # The window aggregator

`CpuStatsAggregator` buffers the records and stack samples of a window in two maps and empties them
into batches on a flush. Records are gathered by a text rendered from their labels, one series of
values for each field name; stack samples by a text rendered from thread and addresses. Adding and
flushing hold the aggregator's mutex, so a run is a sequence of them. What the program computes with
`double`s is left to the type `D`.
-/

namespace Illuminator

/-- The operations on `double`s that the aggregator uses. -/
class Double (D : Type) extends Add D, Sub D, Mul D, Div D where
  zero : D
  one : D
  /-- The ranks `0.50` and `0.99`. -/
  half : D
  p99 : D
  lt : D → D → Bool
  ofSize : ℕ → D
  ofUInt64 : UInt64 → D
  ofInt64 : Int64 → D
  floor : D → ℕ
  ceil : D → ℕ

/-- Exact rationals in place of `double`s. -/
instance : Double ℚ where
  zero := 0
  one := 1
  half := 1 / 2
  p99 := 99 / 100
  lt left right := left < right
  ofSize n := n
  ofUInt64 value := value.toNat
  ofInt64 value := value.toInt
  floor value := value.floor.toNat
  ceil value := value.ceil.toNat

structure Stats (D : Type) where
  avg : D
  min : D
  max : D
  p50 : D
  p99 : D
  deriving DecidableEq

/-- The frames are `OwnedStackFrame`s: stack frames that own their strings. -/
structure AggStackSample where
  pid : UInt32 := 0
  tid : UInt32 := 0
  comm : Bytes := []
  count : UInt64 := 0
  user_stack : List StackFrame := []
  kernel_stack : List StackFrame := []
  deriving DecidableEq

structure RecordSeries (D : Type) where
  labels : List Label := []
  field_values : AList fun _ : Bytes => List D := ∅

structure CpuStatsAggregator (D : Type) where
  record_buffer_ : AList fun _ : Bytes => RecordSeries D := ∅
  stack_buffer_ : AList fun _ : Bytes => AggStackSample := ∅

namespace CpuStatsAggregator

variable {D : Type} [Double D]

/-- The neighbours `lo` and `hi` of a rank among `size` sorted values. -/
def neighbours (size : ℕ) (pct : D) : ℕ × ℕ :=
  let idx := pct * Double.ofSize (size - 1)
  (Double.floor idx, Double.ceil idx)

/-- `sorted[index]`. -/
def sortedAt (sorted : List D) (index : ℕ) : D := sorted.getD index Double.zero

def Percentile (sorted : List D) (pct : D) : D :=
  if sorted.isEmpty then Double.zero
  else
    let idx := pct * Double.ofSize (sorted.length - 1)
    let (lo, hi) := neighbours sorted.length pct
    if lo = hi ∨ sorted.length ≤ hi then sortedAt sorted lo
    else
      let frac := idx - Double.ofSize lo
      sortedAt sorted lo * (Double.one - frac) + sortedAt sorted hi * frac

/-- `std::sort`. -/
def sort (vals : List D) : List D := vals.mergeSort fun left right => !Double.lt right left

def ComputeStats (vals : List D) : Stats D :=
  if vals.isEmpty then ⟨Double.zero, Double.zero, Double.zero, Double.zero, Double.zero⟩
  else
    let sorted := sort vals
    { min := sorted.headD Double.zero
      max := sorted.getLastD Double.zero
      avg := sorted.foldl (· + ·) Double.zero / Double.ofSize sorted.length
      p50 := Percentile sorted Double.half
      p99 := Percentile sorted Double.p99 }

def MakeRecordKey (rec : Record D) : Bytes :=
  rec.labels.flatMap fun l => l.key ++ 0x3D :: l.value ++ [0x3B]

def MakeStackKey (s : StackSample) : Bytes :=
  to_string s.pid.toNat ++ 0x3A :: to_string s.tid.toNat ++ 0x3A ::
    (s.user_stack.flatMap fun f => to_string f.address.toNat ++ [0x2C]) ++ 0x7C ::
    s.kernel_stack.flatMap fun f => to_string f.address.toNat ++ [0x2C]

/-- The number a field value is to the aggregator, if any. -/
def numeric : FieldValue D → Option D
  | .double value => some value
  | .uint64 value => some (Double.ofUInt64 value)
  | .int64 value => some (Double.ofInt64 value)
  | _ => none

/-- `series.field_values[fname].push_back(value)`. -/
def pushValue (held : Option (List D)) (value : D) : List D := held.getD [] ++ [value]

/-- One turn of the loop over a record's fields. -/
def addField (field_values : AList fun _ : Bytes => List D) (field : Sigma fun _ : Bytes => FieldValue D) :
    AList fun _ : Bytes => List D :=
  match numeric field.2 with
  | some value => field_values.update field.1 fun held => pushValue held value
  | none => field_values

/-- What `record_buffer_` holds for a key after one more record. -/
def addRecord (held : Option (RecordSeries D)) (rec : Record D) : RecordSeries D :=
  { labels := rec.labels
    field_values := rec.fields.entries.foldl addField (held.getD {}).field_values }

/-- What `stack_buffer_` holds for a key after one more sample. -/
def addSample (held : Option AggStackSample) (sample : StackSample) : AggStackSample :=
  let agg := held.getD {}
  { pid := sample.pid
    tid := sample.tid
    comm := sample.comm
    count := agg.count + sample.count
    user_stack := if agg.user_stack.isEmpty then sample.user_stack else agg.user_stack
    kernel_stack := if agg.kernel_stack.isEmpty then sample.kernel_stack else agg.kernel_stack }

def Add (aggregator : CpuStatsAggregator D) (batch : Option (DataBatch D)) : CpuStatsAggregator D :=
  match batch with
  | none => aggregator
  | some batch =>
    { record_buffer_ := aggregator.record_buffer_.gather MakeRecordKey addRecord batch.records
      stack_buffer_ := aggregator.stack_buffer_.gather MakeStackKey addSample batch.stack_samples }

/-- The orders in which a flush visits the maps, and the clock readings of its new entries. -/
structure FlushOrder (D : Type) where
  records : Traversal (RecordSeries D)
  fields : Bytes → Traversal (List D)
  samples : Traversal AggStackSample
  recordTime : Bytes → Timestamp
  stackTime : Bytes → Timestamp

/-- Visiting every map as it is listed, at one instant. -/
def FlushOrder.listed (D : Type) (now : Timestamp) : FlushOrder D where
  records := .listed _
  fields _ := .listed _
  samples := .listed _
  recordTime _ := now
  stackTime _ := now

def avgSuffix : Bytes := [0x5F, 0x61, 0x76, 0x67]
def minSuffix : Bytes := [0x5F, 0x6D, 0x69, 0x6E]
def maxSuffix : Bytes := [0x5F, 0x6D, 0x61, 0x78]
def p50Suffix : Bytes := [0x5F, 0x70, 0x35, 0x30]
def p99Suffix : Bytes := [0x5F, 0x70, 0x39, 0x39]
def countSuffix : Bytes := [0x5F, 0x63, 0x6F, 0x75, 0x6E, 0x74]

/-- The fields that a flush sets for one series, in the order in which it sets them. -/
def statFields (fname : Bytes) (values : List D) : List (Sigma fun _ : Bytes => FieldValue D) :=
  if values.isEmpty then []
  else
    let stats := ComputeStats values
    [⟨fname ++ avgSuffix, .double stats.avg⟩, ⟨fname ++ minSuffix, .double stats.min⟩,
      ⟨fname ++ maxSuffix, .double stats.max⟩] ++
    (if 4 ≤ values.length then
      [⟨fname ++ p50Suffix, .double stats.p50⟩, ⟨fname ++ p99Suffix, .double stats.p99⟩] else []) ++
    [⟨fname ++ countSuffix, .uint64 (.ofNat values.length)⟩]

/-- The record that a flush makes of one entry of `record_buffer_`. -/
def flushRecord (order : FlushOrder D) (entry : Sigma fun _ : Bytes => RecordSeries D) : Record D :=
  { timestamp := order.recordTime entry.1
    labels := entry.2.labels
    fields := (((order.fields entry.1).visit entry.2.field_values).flatMap fun series =>
      statFields series.1 series.2).foldl (fun fields field => fields.insert field.1 field.2) ∅ }

/-- The sample that a flush makes of one entry of `stack_buffer_`. -/
def flushSample (order : FlushOrder D) (entry : Sigma fun _ : Bytes => AggStackSample) : StackSample :=
  { timestamp := order.stackTime entry.1
    pid := entry.2.pid
    tid := entry.2.tid
    comm := entry.2.comm
    count := entry.2.count
    user_stack := entry.2.user_stack
    kernel_stack := entry.2.kernel_stack }

/-- The batches of a flush, and the aggregator after it. -/
def Flush (order : FlushOrder D) (aggregator : CpuStatsAggregator D) :
    List (DataBatch D) × CpuStatsAggregator D :=
  ((if aggregator.record_buffer_.entries.isEmpty then []
    else [{ type := .kMetrics, records := (order.records.visit aggregator.record_buffer_).map (flushRecord order) }]) ++
   (if aggregator.stack_buffer_.entries.isEmpty then []
    else [{ type := .kProfile
            stack_samples := (order.samples.visit aggregator.stack_buffer_).map (flushSample order) }]),
   { record_buffer_ := ∅, stack_buffer_ := ∅ })

end CpuStatsAggregator

/-! ## Runs -/

/-- A batch on its way into the aggregator, directly or through the merger. -/
inductive Arrival (D : Type) where
  | add (batch : Option (DataBatch D))
  | merge (batch : Option (DataBatch D)) (order : Traversal StackSample)

/-- The batch that the arrival hands to `Add`. -/
def Arrival.added {D : Type} (merger : StackMergerProcessor) : Arrival D → Option (DataBatch D)
  | .add batch => batch
  | .merge batch order => merger.Process order batch

/-- The batch that arrived. -/
def Arrival.input {D : Type} : Arrival D → Option (DataBatch D)
  | .add batch => batch
  | .merge batch _ => batch

inductive Operation (D : Type) where
  | arrive (arrival : Arrival D)
  | flush (order : CpuStatsAggregator.FlushOrder D)

/-- A window that ended: what arrived since the flush before, and what its flush gave. -/
structure Window (D : Type) where
  arrivals : List (Arrival D)
  batches : List (DataBatch D)

/-- The aggregator with the history of its operations. -/
structure Session (D : Type) where
  aggregator : CpuStatsAggregator D := {}
  pending : List (Arrival D) := []
  flushed : List (Window D) := []

def Session.step {D : Type} [Double D] (merger : StackMergerProcessor) (session : Session D) :
    Operation D → Session D
  | .arrive arrival =>
    { session with
      aggregator := session.aggregator.Add (arrival.added merger)
      pending := session.pending ++ [arrival] }
  | .flush order =>
    { aggregator := (session.aggregator.Flush order).2
      pending := []
      flushed := session.flushed ++ [⟨session.pending, (session.aggregator.Flush order).1⟩] }

/-- A run from an aggregator that holds nothing. -/
def Session.run {D : Type} [Double D] (merger : StackMergerProcessor) (operations : List (Operation D)) :
    Session D :=
  operations.foldl (Session.step merger) {}

end Illuminator
