import Illuminator.Model.DataBatch
import Illuminator.ToMathlib.Gather

/-! # The stack merger

`StackMergerProcessor` gathers a batch's stack samples by a text rendered from the group's identity
and the frames. The first sample of a group is kept and the others add their counts to it.
-/

namespace Illuminator

inductive StackMergeGroupBy where
  | kComm
  | kPid
  | kTid
  | kGlobal
  deriving DecidableEq

structure StackMergerProcessor where
  group_by_ : StackMergeGroupBy := .kComm
  include_kernel_ : Bool := true

namespace StackMergerProcessor

/-- The part of the key that the grouping decides. -/
def groupPrefix (merger : StackMergerProcessor) (s : StackSample) : Bytes :=
  match merger.group_by_ with
  | .kComm => s.comm ++ [0x7C]
  | .kPid => to_string s.pid.toNat ++ [0x7C]
  | .kTid => to_string s.pid.toNat ++ 0x3A :: to_string s.tid.toNat ++ [0x7C]
  | .kGlobal => []

/-- A frame in the key: its function, or its address after the mark `k` or `u`. -/
def frameKey (mark : UInt8) (frame : StackFrame) : Bytes :=
  if frame.function_name.isEmpty then mark :: 0x3A :: to_string frame.address.toNat ++ [0x3B]
  else frame.function_name ++ [0x3B]

def StackKey (merger : StackMergerProcessor) (s : StackSample) : Bytes :=
  merger.groupPrefix s ++
    (if merger.include_kernel_ then s.kernel_stack.flatMap (frameKey 0x6B) ++ [0x7C] else []) ++
    s.user_stack.flatMap (frameKey 0x75)

/-- What `merged` holds for a key after one more sample. -/
def mergeSample (held : Option StackSample) (src : StackSample) : StackSample :=
  match held with
  | none => src
  | some sample => { sample with count := sample.count + src.count }

/-- The map `merged` after the loop over the samples. -/
def mergeSamples (merger : StackMergerProcessor) (samples : List StackSample) : AList fun _ : Bytes => StackSample :=
  (∅ : AList fun _ : Bytes => StackSample).gather merger.StackKey mergeSample samples

def Process {D : Type} (merger : StackMergerProcessor) (order : Traversal StackSample)
    (input : Option (DataBatch D)) : Option (DataBatch D) :=
  match input with
  | none => none
  | some batch =>
    if batch.stack_samples.isEmpty then some batch
    else some {
      type := batch.type
      records := batch.records
      stack_samples := (order.visit (merger.mergeSamples batch.stack_samples)).map fun entry =>
        { timestamp := entry.2.timestamp
          pid := entry.2.pid
          tid := entry.2.tid
          comm := entry.2.comm
          count := entry.2.count
          cpu := entry.2.cpu
          sample_type := entry.2.sample_type
          duration_ns := entry.2.duration_ns
          kernel_stack_id := entry.2.kernel_stack_id
          user_stack_id := entry.2.user_stack_id
          kernel_stack := entry.2.kernel_stack
          user_stack := entry.2.user_stack } }

end StackMergerProcessor

end Illuminator
