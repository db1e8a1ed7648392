import Illuminator.Model.DataBatch
import Illuminator.Model.Processors
import Illuminator.Model.Status
import Illuminator.ToMathlib.Delimited
import Illuminator.ToMathlib.Gather

/-! # The folded stack export

`PprofExportSink` adds up sample counts by a text made of the process name and the frames of the user stack, from the
root on, each after a semicolon. A flush writes a line for every text over the file and empties the map. Whether the
file can be opened, and how many of the bytes written reach it, is an input; the stream's state after the writes is
not looked at.
-/

namespace Illuminator

structure PprofExportSink where
  path_ : String
  folded_counts_ : AList fun _ : Bytes => UInt64 := ∅

namespace PprofExportSink

open Processors.StackSymbolizerProcessor (hex)

/-- A frame's name, or its address where it has none. -/
def frameLabel (f : StackFrame) : Bytes :=
  if f.function_name.isEmpty then ascii "0x" ++ hex f.address else f.function_name

/-- A stack lists its leaf first. -/
def BuildFoldedStack (sample : StackSample) : Bytes :=
  sample.comm ++ sample.user_stack.reverse.flatMap fun f => 0x3B :: frameLabel f

/-- What `folded_counts_` holds for a key after one more sample. -/
def addCount (held : Option UInt64) (sample : StackSample) : UInt64 := held.getD 0 + sample.count

/-- The samples that are counted, those with a key. -/
def keyed (samples : List StackSample) : List StackSample := samples.filter fun sample => BuildFoldedStack sample ≠ []

def Write {D : Type} (sink : PprofExportSink) (batch : Option (DataBatch D)) : PprofExportSink :=
  match batch with
  | none => sink
  | some batch =>
    { sink with
      folded_counts_ := sink.folded_counts_.gather BuildFoldedStack addCount (keyed batch.stack_samples) }

/-- The file is not opened, or so many bytes reach it. -/
inductive Outcome where
  | refused
  | reached (bytes : ℕ)
  deriving DecidableEq

/-- A line without its end. -/
def foldedLine (entry : Sigma fun _ : Bytes => UInt64) : Bytes := entry.1 ++ 0x20 :: to_string entry.2.toNat

/-- All that a flush writes. -/
def content (sink : PprofExportSink) (order : Traversal UInt64) : Bytes :=
  Delimited.pieces 0x0A foldedLine (order.visit sink.folded_counts_)

/-- The sink, the file and the status after a flush. -/
def Flush (sink : PprofExportSink) (order : Traversal UInt64) (outcome : Outcome) (file : Bytes) :
    PprofExportSink × Bytes × Status :=
  if sink.folded_counts_.entries.isEmpty then (sink, file, .Ok)
  else
    match outcome with
    | .refused => (sink, file, .Error .kInternal ("Cannot open pprof output: " ++ sink.path_))
    | .reached bytes => ({ sink with folded_counts_ := ∅ }, (sink.content order).take bytes, .Ok)

def Stop (sink : PprofExportSink) (order : Traversal UInt64) (outcome : Outcome) (file : Bytes) :
    PprofExportSink × Bytes × Status :=
  sink.Flush order outcome file

end PprofExportSink

end Illuminator
