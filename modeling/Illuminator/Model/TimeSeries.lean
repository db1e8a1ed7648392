import Illuminator.Model.Strings
import Mathlib.Data.List.DropRight
import Mathlib.Logic.Function.Basic
import Mathlib.Order.Lattice

/-! # The page's time series

`timeSeriesStore` keeps the last points of each series and calls the listeners of a series when it gets a point. The
time store says which range of time is shown. A chart queries its series in an effect that runs again when its keys or
the range have changed: the effect's cleanup takes the old listener away, and its body queries, and listens anew. What
the user does, what the polls bring, and when a chart is mounted, rendered again or unmounted is an event each; clocks
may show anything.
-/

namespace Illuminator

namespace TimeSeries

structure DataPoint (N : Type) where
  time : N
  values : List (Bytes × N)
  deriving DecidableEq

structure TimeRange (N : Type) where
  start : N
  stop : N
  deriving DecidableEq

inductive TimeMode where
  | live
  | paused
  deriving DecidableEq

structure TimeState (N : Type) where
  mode : TimeMode
  range : TimeRange N
  cursor : Option N
  windowMs : N

/-- The function that an effect of a chart has made, by the number of the effect's run, with what it closes over. -/
structure Callback (K N : Type) where
  chart : ℕ
  run : ℕ
  keys : List K
  range : TimeRange N
  deriving DecidableEq

/-- A mounted chart: the listener of its last effect, and the points it shows of each series. -/
structure Chart (K N : Type) where
  callback : Callback K N
  data : List (K × List (DataPoint N))

structure Page (K N : Type) where
  series : K → Option (List (DataPoint N))
  listeners : K → Option (List (Callback K N))
  time : TimeState N
  charts : ℕ → Option (Chart K N)
  runs : ℕ

def MAX_POINTS : ℕ := 1800

def MAX_AGE_MS : ℕ := 30 * 60 * 1000

section

variable {K N : Type}

/-- `{ time, ...values }`, where a value may be named `time`. -/
def point (time : N) (values : List (Bytes × N)) : DataPoint N := ⟨(values.lookup (ascii "time")).getD time, values⟩

/-- `RingBuffer::push`. -/
def push (data : List (DataPoint N)) (p : DataPoint N) : List (DataPoint N) :=
  if (data ++ [p]).length > MAX_POINTS then (data ++ [p]).rtake MAX_POINTS else data ++ [p]

variable [DecidableEq K] [LinearOrder N]

def TimeRange.holds (range : TimeRange N) (p : DataPoint N) : Bool := range.start ≤ p.time && p.time ≤ range.stop

def query (page : Page K N) (key : K) (range : TimeRange N) : List (DataPoint N) :=
  match page.series key with
  | none => []
  | some data => data.filter range.holds

/-- What a listener finds when it is called. -/
def found (page : Page K N) (cb : Callback K N) : List (K × List (DataPoint N)) :=
  cb.keys.map fun key => (key, query page key cb.range)

/-- A listener sets the state of its chart, unless the chart is gone. -/
def call (page : Page K N) (cb : Callback K N) : Page K N :=
  { page with
    charts := Function.update page.charts cb.chart
      ((page.charts cb.chart).map fun chart => { chart with data := found page cb }) }

def notify (page : Page K N) (key : K) : Page K N :=
  match page.listeners key with
  | none => page
  | some set => set.foldl call page

def append (page : Page K N) (key : K) (time : N) (values : List (Bytes × N)) : Page K N :=
  let buf := (page.series key).getD []
  notify { page with series := Function.update page.series key (some (push buf (point time values))) } key

def subscribe (cb : Callback K N) (page : Page K N) (key : K) : Page K N :=
  let set := (page.listeners key).getD []
  { page with listeners := Function.update page.listeners key (some (if set.contains cb then set else set ++ [cb])) }

def unsubscribe (cb : Callback K N) (page : Page K N) (key : K) : Page K N :=
  { page with
    listeners := Function.update page.listeners key ((page.listeners key).map fun set => set.filter (· ≠ cb)) }

/-- The effect of a chart. -/
def effect (page : Page K N) (chart : ℕ) (keys : List K) : Page K N :=
  let cb : Callback K N := ⟨chart, page.runs, keys, page.time.range⟩
  keys.foldl (subscribe cb)
    { page with charts := Function.update page.charts chart (some ⟨cb, found page cb⟩), runs := page.runs + 1 }

def cleanup (page : Page K N) (cb : Callback K N) : Page K N := cb.keys.foldl (unsubscribe cb) page

variable [Sub N] [NatCast N]

def gc (page : Page K N) (now : N) : Page K N :=
  let cutoff := now - (MAX_AGE_MS : N)
  { page with series := fun key => (page.series key).map fun data => data.dropWhile fun p => p.time < cutoff }

def TimeState.togglePause (time : TimeState N) (now : N) : TimeState N :=
  match time.mode with
  | .live => { time with mode := .paused }
  | .paused => { time with mode := .live, range := ⟨now - time.windowMs, now⟩, cursor := none }

def TimeState.setWindowMs (time : TimeState N) (ms now : N) : TimeState N :=
  { time with windowMs := ms, range := ⟨now - ms, now⟩ }

def TimeState.tick (time : TimeState N) (now : N) : TimeState N :=
  match time.mode with
  | .live => { time with range := ⟨now - time.windowMs, now⟩ }
  | .paused => time

inductive Event (K N : Type) where
  | append (key : K) (time : N) (values : List (Bytes × N))
  | gc (now : N)
  | setMode (mode : TimeMode)
  | togglePause (now : N)
  | setRange (range : TimeRange N)
  | setCursor (ts : Option N)
  | setWindowMs (ms now : N)
  | tick (now : N)
  | mount (chart : ℕ) (keys : List K)
  | rerender (chart : ℕ) (keys : List K) (anew : Bool)
  | unmount (chart : ℕ)

/-- The page after an event. A chart that is rendered with the same keys and range keeps its effect unless its list of
keys was made `anew`. -/
def act (page : Page K N) : Event K N → Page K N
  | .append key time values => append page key time values
  | .gc now => gc page now
  | .setMode mode => { page with time := { page.time with mode } }
  | .togglePause now => { page with time := page.time.togglePause now }
  | .setRange range => { page with time := { page.time with range, mode := .paused } }
  | .setCursor ts => { page with time := { page.time with cursor := ts } }
  | .setWindowMs ms now => { page with time := page.time.setWindowMs ms now }
  | .tick now => { page with time := page.time.tick now }
  | .mount chart keys =>
    match page.charts chart with
    | none => effect page chart keys
    | some _ => page
  | .rerender chart keys anew =>
    match page.charts chart with
    | none => page
    | some mounted =>
      if anew = true ∨ keys ≠ mounted.callback.keys ∨ page.time.range ≠ mounted.callback.range then
        effect (cleanup page mounted.callback) chart keys
      else page
  | .unmount chart =>
    match page.charts chart with
    | none => page
    | some mounted =>
      { cleanup page mounted.callback with charts := Function.update page.charts chart none }

end

/-- The page before anything is mounted. -/
def start {K N : Type} (time : TimeState N) : Page K N := ⟨fun _ => none, fun _ => none, time, fun _ => none, 0⟩

end TimeSeries

end Illuminator
