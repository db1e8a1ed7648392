import Illuminator.Model.Strings
import Mathlib.Data.List.AList
import Mathlib.Data.UInt

/-! # Data batches

Records and stack samples as they travel from a source through processors and aggregators to the
sinks. A `double` is a value of an arbitrary type `D`. An `unordered_map` is an association list: the
listing order of a map the program receives is arbitrary, and the order in which the program visits
a map it has built is a `Traversal`, which may be any.
-/

namespace Illuminator

/-- Nanoseconds of the system clock. -/
abbrev Timestamp := Int64

def TimestampToNanos (ts : Timestamp) : UInt64 := ts.toUInt64

@[ext] structure Label where
  key : Bytes
  value : Bytes
  deriving DecidableEq

inductive FieldValue (D : Type) where
  | monostate
  | bool (value : Bool)
  | int64 (value : Int64)
  | uint64 (value : UInt64)
  | double (value : D)
  | string (value : Bytes)
  deriving DecidableEq

/-- The fields' names are distinct, being the keys of a map. -/
structure Record (D : Type) where
  timestamp : Timestamp
  labels : List Label
  fields : AList fun _ : Bytes => FieldValue D

def Record.SetField {D : Type} (record : Record D) (key : Bytes) (value : FieldValue D) : Record D :=
  { record with fields := record.fields.insert key value }

def Record.GetField {D : Type} (record : Record D) (key : Bytes) : Option (FieldValue D) :=
  record.fields.lookup key

structure StackFrame where
  address : UInt64
  function_name : Bytes
  file_name : Bytes
  line_number : UInt32
  module_name : Bytes
  deriving DecidableEq

inductive SampleType where
  | kOnCpu
  | kOffCpu
  deriving DecidableEq

structure StackSample where
  timestamp : Timestamp
  pid : UInt32 := 0
  tid : UInt32 := 0
  comm : Bytes := []
  kernel_stack : List StackFrame := []
  user_stack : List StackFrame := []
  count : UInt64 := 1
  cpu : UInt32 := 0
  sample_type : SampleType := .kOnCpu
  duration_ns : UInt64 := 0
  kernel_stack_id : Int32 := -1
  user_stack_id : Int32 := -1
  deriving DecidableEq

inductive DataBatch.Kind where
  | kMetrics
  | kProfile
  | kTrace
  | kLog
  | kGeneric
  deriving DecidableEq

structure DataBatch (D : Type) where
  type : DataBatch.Kind
  records : List (Record D) := []
  stack_samples : List StackSample := []

def DataBatch.Size {D : Type} (batch : DataBatch D) : ℕ := batch.records.length + batch.stack_samples.length

def DataBatch.Empty {D : Type} (batch : DataBatch D) : Bool :=
  batch.records.isEmpty && batch.stack_samples.isEmpty

/-- The order in which a range-based `for` visits the entries of an `unordered_map`. -/
structure Traversal (V : Type) where
  visit : (AList fun _ : Bytes => V) → List (Sigma fun _ : Bytes => V)
  perm : ∀ m, (visit m).Perm m.entries

/-- Visiting the entries as they are listed. -/
def Traversal.listed (V : Type) : Traversal V := ⟨fun m => m.entries, fun m => .refl m.entries⟩

theorem Traversal.mem_visit {V : Type} (order : Traversal V) {m : AList fun _ : Bytes => V}
    {entry : Sigma fun _ : Bytes => V} : entry ∈ order.visit m ↔ entry ∈ m.entries :=
  (order.perm m).mem_iff

theorem Traversal.nodup_visit {V : Type} (order : Traversal V) (m : AList fun _ : Bytes => V) :
    ((order.visit m).map Sigma.fst).Nodup :=
  (((order.perm m).map Sigma.fst).nodup_iff).mpr m.keys_nodup

end Illuminator
