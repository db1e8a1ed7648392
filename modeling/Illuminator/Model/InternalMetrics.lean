import Illuminator.Model.DataBatch
import Illuminator.Model.GlobalConfig
import Illuminator.ToMathlib.Delimited
import Illuminator.ToMathlib.Gather

/-! # Self-metrics

`InternalMetrics` keeps counters, gauges and latencies by name and prints them as one page. The engine sets gauges
alone: those of the timer and the pools, the resident memory, and seven for the channel of each pipeline, whose name
goes into theirs. `Inc` and `RecordLatency` have no caller in it. How a `double` is printed is left to the caller.
-/

namespace Illuminator

/-- The bytes of a text in the configuration. -/
def utf8 (s : String) : Bytes := s.toList.flatMap String.utf8EncodeChar

structure InternalMetrics.Histogram where
  count : UInt64 := 0
  sum : UInt64 := 0
  min : UInt64 := 0xFFFFFFFFFFFFFFFF
  max : UInt64 := 0
  deriving DecidableEq

structure InternalMetrics (D : Type) where
  counters_ : AList fun _ : Bytes => UInt64 := ∅
  gauges_ : AList fun _ : Bytes => D := ∅
  histograms_ : AList fun _ : Bytes => InternalMetrics.Histogram := ∅

namespace InternalMetrics

variable {D : Type}

def Inc (m : InternalMetrics D) (name : Bytes) (delta : UInt64) : InternalMetrics D :=
  { m with counters_ := m.counters_.update name fun held => held.getD 0 + delta }

def SetGauge (m : InternalMetrics D) (name : Bytes) (value : D) : InternalMetrics D :=
  { m with gauges_ := m.gauges_.insert name value }

/-- What `histograms_` holds for a name after one more latency. -/
def addLatency (held : Option Histogram) (us : UInt64) : Histogram :=
  let hist := held.getD {}
  { count := hist.count + 1
    sum := hist.sum + us
    min := if us < hist.min then us else hist.min
    max := if hist.max < us then us else hist.max }

def RecordLatency (m : InternalMetrics D) (name : Bytes) (us : UInt64) : InternalMetrics D :=
  { m with histograms_ := m.histograms_.update name fun held => addLatency held us }

/-- The lines that a counter or a gauge becomes. -/
def plainRows (kind name value : Bytes) : List Bytes :=
  [ascii "# TYPE " ++ (ascii "illuminator_" ++ name ++ 0x20 :: kind), ascii "illuminator_" ++ name ++ 0x20 :: value]

/-- A line of a histogram. -/
def histogramRow (name suffix : Bytes) (value : UInt64) : Bytes :=
  ascii "illuminator_" ++ name ++ suffix ++ 0x20 :: to_string value.toNat

def histogramRows (name : Bytes) (hist : Histogram) : List Bytes :=
  [ascii "# TYPE " ++ (ascii "illuminator_" ++ name ++ 0x20 :: ascii "summary"),
    histogramRow name (ascii "_count") hist.count, histogramRow name (ascii "_sum") hist.sum] ++
  if 0 < hist.count then
    [histogramRow name (ascii "_avg") (hist.sum / hist.count), histogramRow name (ascii "_min") hist.min,
      histogramRow name (ascii "_max") hist.max]
  else []

/-- The orders in which the loops visit the maps. -/
structure ExportOrder (D : Type) where
  counters : Traversal UInt64
  gauges : Traversal D
  histograms : Traversal Histogram

/-- The lines of the page, `text` being what `<<` prints of a `double`. -/
def rows (text : D → Bytes) (order : ExportOrder D) (m : InternalMetrics D) : List Bytes :=
  ((order.counters.visit m.counters_).flatMap fun entry =>
    plainRows (ascii "counter") entry.1 (to_string entry.2.toNat)) ++
  ((order.gauges.visit m.gauges_).flatMap fun entry => plainRows (ascii "gauge") entry.1 (text entry.2)) ++
  (order.histograms.visit m.histograms_).flatMap fun entry => histogramRows entry.1 entry.2

def ExportPrometheus (text : D → Bytes) (order : ExportOrder D) (m : InternalMetrics D) : Bytes :=
  Delimited.pieces 0x0A id (rows text order m)

/-! ## Calls -/

inductive Call (D : Type) where
  | Inc (name : Bytes) (delta : UInt64)
  | SetGauge (name : Bytes) (value : D)
  | RecordLatency (name : Bytes) (us : UInt64)

def step (m : InternalMetrics D) : Call D → InternalMetrics D
  | .Inc name delta => m.Inc name delta
  | .SetGauge name value => m.SetGauge name value
  | .RecordLatency name us => m.RecordLatency name us

/-- The metrics after a sequence of calls. -/
def run (calls : List (Call D)) : InternalMetrics D := calls.foldl step {}

/-- The prefix of a pipeline's gauges. -/
def channelPrefix (name_ : Bytes) : Bytes := ascii "pipeline_" ++ name_ ++ ascii "_channel_"

/-- What a pipeline reads off its channel, as `double`s. -/
structure ChannelGauges (D : Type) where
  size : D
  enqueued : D
  dequeued : D
  dropped : D
  flush_injected : D
  backpressure_events : D
  utilization : D

def SyncChannelMetrics (name_ : Bytes) (s : ChannelGauges D) : List (Call D) :=
  let pre := channelPrefix name_
  [.SetGauge (pre ++ ascii "size") s.size, .SetGauge (pre ++ ascii "enqueued") s.enqueued,
    .SetGauge (pre ++ ascii "dequeued") s.dequeued, .SetGauge (pre ++ ascii "dropped") s.dropped,
    .SetGauge (pre ++ ascii "flush_injected") s.flush_injected,
    .SetGauge (pre ++ ascii "backpressure_events") s.backpressure_events,
    .SetGauge (pre ++ ascii "utilization") s.utilization]

/-- What the engine does with the metrics: the timer's task, given the pools that there are, the memory check, and a
pipeline of the configuration that reports its channel. -/
inductive EngineCall (D : Type) (cfg : GlobalConfig) where
  | syncMetrics (fires active : D) (collect sink : Option D)
  | Check (rss_bytes : D)
  | syncChannel (p : PipelineConfig) (listed : p ∈ cfg.pipelines) (s : ChannelGauges D)

def EngineCall.calls {cfg : GlobalConfig} : EngineCall D cfg → List (Call D)
  | .syncMetrics fires active collect sink =>
    [.SetGauge (ascii "timer_wheel_fires_total") fires, .SetGauge (ascii "timer_wheel_timers_active") active] ++
    (collect.map (.SetGauge (ascii "collect_pool_pending_tasks"))).toList ++
    (sink.map (.SetGauge (ascii "sink_pool_pending_tasks"))).toList
  | .Check rss_bytes => [.SetGauge (ascii "rss_bytes") rss_bytes]
  | .syncChannel p _ s => SyncChannelMetrics (utf8 p.name) s

/-- The pipeline that a call is about. -/
def EngineCall.pipeline {cfg : GlobalConfig} : EngineCall D cfg → Option PipelineConfig
  | .syncChannel p _ _ => some p
  | _ => none

end InternalMetrics

end Illuminator
