import Illuminator.Machine.Arenas
import Illuminator.Model.StackMerger

/-! # Batches as they lie in memory

A batch's strings are views, and the batch owns one arena. `InternString` copies a string into it and
remembers the copy. The filter, the stack merger and the stack symbolizer are given here as they move
views about: the first two build a batch with an arena of its own and put into it what they copy, and
the last writes into the batch that it is given. What symbol tables and the demangler return is
arbitrary.
-/

namespace Illuminator

namespace Views

open Arenas

abbrev Memory := Arenas.Memory UInt8

structure Label where
  key : View
  value : View
  deriving DecidableEq

inductive FieldValue (D : Type) where
  | monostate
  | bool (value : Bool)
  | int64 (value : Int64)
  | uint64 (value : UInt64)
  | double (value : D)
  | string (value : View)

structure Record (D : Type) where
  timestamp : Timestamp
  labels : List Label
  fields : List (View × FieldValue D)

structure StackFrame where
  address : UInt64
  function_name : View
  file_name : View
  line_number : UInt32
  module_name : View

structure StackSample where
  timestamp : Timestamp
  pid : UInt32 := 0
  tid : UInt32 := 0
  comm : View := .null
  kernel_stack : List StackFrame := []
  user_stack : List StackFrame := []
  count : UInt64 := 1
  cpu : UInt32 := 0
  sample_type : SampleType := .kOnCpu
  duration_ns : UInt64 := 0
  kernel_stack_id : Int32 := -1
  user_stack_id : Int32 := -1

structure DataBatch (D : Type) where
  type : DataBatch.Kind
  arena : ℕ
  records : List (Record D) := []
  stack_samples : List StackSample := []
  /-- The strings interned before, by their content. -/
  intern_cache_ : AList fun _ : Bytes => View := ∅

variable {D : Type}

def DataBatch.Empty (batch : DataBatch D) : Bool := batch.records.isEmpty && batch.stack_samples.isEmpty

/-! ## The views in a batch -/

def Label.views (label : Label) : List View := [label.key, label.value]

def FieldValue.views : FieldValue D → List View
  | .string value => [value]
  | _ => []

def Record.views (record : Record D) : List View :=
  record.labels.flatMap Label.views ++ record.fields.flatMap fun field => field.1 :: field.2.views

def StackFrame.views (frame : StackFrame) : List View := [frame.function_name, frame.file_name, frame.module_name]

def StackSample.views (sample : StackSample) : List View :=
  sample.comm :: sample.kernel_stack.flatMap StackFrame.views ++ sample.user_stack.flatMap StackFrame.views

def DataBatch.views (batch : DataBatch D) : List View :=
  batch.records.flatMap Record.views ++ batch.stack_samples.flatMap StackSample.views

/-! ## What the views show -/

def StackFrame.contents (memory : Memory) (frame : StackFrame) : Illuminator.StackFrame where
  address := frame.address
  function_name := memory.read frame.function_name
  file_name := memory.read frame.file_name
  line_number := frame.line_number
  module_name := memory.read frame.module_name

def StackSample.contents (memory : Memory) (sample : StackSample) : Illuminator.StackSample where
  timestamp := sample.timestamp
  pid := sample.pid
  tid := sample.tid
  comm := memory.read sample.comm
  kernel_stack := sample.kernel_stack.map (StackFrame.contents memory)
  user_stack := sample.user_stack.map (StackFrame.contents memory)
  count := sample.count
  cpu := sample.cpu
  sample_type := sample.sample_type
  duration_ns := sample.duration_ns
  kernel_stack_id := sample.kernel_stack_id
  user_stack_id := sample.user_stack_id

/-! ## Interning -/

/-- A batch's arena and its cache, whose views lie in the arena and show what they stand for. -/
structure Interner where
  memory : Memory
  arena : ℕ
  intern_cache_ : AList fun _ : Bytes => View
  allocated : arena < memory.length
  cached : ∀ s view, intern_cache_.lookup s = some view → OwnedBy memory arena view ∧ memory.read view = s

/-- `CopyString` for a string that is not empty, with the entry in the cache. -/
def Interner.copyString (i : Interner) (s : Bytes) : Interner where
  memory := i.memory.append i.arena s
  arena := i.arena
  intern_cache_ := i.intern_cache_.insert s ⟨i.arena, (i.memory.bytes i.arena).length, s.length⟩
  allocated := by
    rw [(grows_append i.memory i.allocated s).same]
    exact i.allocated
  cached := by
    intro other view found
    by_cases same : other = s
    · subst same
      rw [AList.lookup_insert] at found
      cases found
      exact ⟨ownedBy_append i.memory i.allocated other, read_append i.memory i.allocated other⟩
    · rw [AList.lookup_insert_ne same] at found
      obtain ⟨owned, shows⟩ := i.cached other view found
      have grown := grows_append i.memory i.allocated s
      exact ⟨owned.grows grown, (owned.read_grows grown).trans shows⟩

abbrev Interning := StateM Interner

/-- `InternString` of a string elsewhere. -/
def InternString (s : Bytes) : Interning View := fun i =>
  if s.isEmpty then (.null, i)
  else
    match i.intern_cache_.lookup s with
    | some view => (view, i)
    | none => (⟨i.arena, (i.memory.bytes i.arena).length, s.length⟩, i.copyString s)

/-- `InternString` of what a view shows. -/
def internView (view : View) : Interning View := fun i => InternString (i.memory.read view) i

/-! ## The processors -/

/-- The batch that a processor works on, and the memory. -/
structure State (D : Type) where
  memory : Memory
  batch : DataBatch D
  allocated : batch.arena < memory.length
  cached : ∀ s view, batch.intern_cache_.lookup s = some view → OwnedBy memory batch.arena view ∧ memory.read view = s

/-- A batch's arena and cache, and a batch with what has been interned. -/
def State.interner (s : State D) : Interner := ⟨s.memory, s.batch.arena, s.batch.intern_cache_, s.allocated, s.cached⟩

def Interner.batch (i : Interner) (type : DataBatch.Kind) (records : List (Record D))
    (stack_samples : List StackSample) : State D :=
  ⟨i.memory, ⟨type, i.arena, records, stack_samples, i.intern_cache_⟩, i.allocated, i.cached⟩

/-- The arena and the cache of a new batch. -/
def Interner.fresh (memory : Memory) : Interner where
  memory := memory ++ [[]]
  arena := memory.length
  intern_cache_ := ∅
  allocated := by
    rw [List.length_append]
    exact Nat.lt_succ_self _
  cached s view found := by
    rw [AList.lookup_empty] at found
    cases found

structure FilterProcessor where
  exclude_key_ : Bytes
  exclude_value_ : Bytes

def FilterProcessor.excluded (filter : FilterProcessor) (memory : Memory) (record : Record D) : Bool :=
  record.labels.any fun label =>
    memory.read label.key = filter.exclude_key_ && memory.read label.value = filter.exclude_value_

def FilterProcessor.Process (filter : FilterProcessor) (input : State D) : State D :=
  if filter.exclude_key_.isEmpty then input
  else
    (Interner.fresh input.memory).batch input.batch.type
      (input.batch.records.filter fun record => !filter.excluded input.memory record) input.batch.stack_samples

/-- A frame copied with its strings interned. -/
def copyFrame (frame : StackFrame) : Interning StackFrame := do
  let function_name ← internView frame.function_name
  let file_name ← internView frame.file_name
  let module_name ← internView frame.module_name
  return ⟨frame.address, function_name, file_name, frame.line_number, module_name⟩

def copySample (sample : StackSample) : Interning StackSample := do
  let comm ← internView sample.comm
  let kernel_stack ← sample.kernel_stack.mapM copyFrame
  let user_stack ← sample.user_stack.mapM copyFrame
  return { sample with comm, kernel_stack, user_stack }

def mergeSample (held : Option StackSample) (src : StackSample) : StackSample :=
  match held with
  | none => src
  | some sample => { sample with count := sample.count + src.count }

/-- `StackMergerProcessor::Process`, with the order in which the map `merged` is visited. -/
def mergerProcess (merger : StackMergerProcessor) (order : Traversal StackSample) (input : State D) : State D :=
  if input.batch.stack_samples.isEmpty then input
  else
    let merged := (∅ : AList fun _ : Bytes => StackSample).gather
      (fun sample => merger.StackKey (sample.contents input.memory)) mergeSample input.batch.stack_samples
    let out := (order.visit merged).mapM (fun entry => copySample entry.2) (Interner.fresh input.memory)
    out.2.batch input.batch.type input.batch.records out.1

/-- The symbolizer's options, what the symbol tables hold for an address, and the demangler. -/
structure StackSymbolizerProcessor where
  demangle_ : Bool := true
  kernel_symbols_ : Bool := true
  Resolve : UInt64 → Bytes
  ResolveUser : UInt32 → UInt64 → Bytes
  cxa_demangle : Bytes → Option Bytes

namespace StackSymbolizerProcessor

/-- `%llx`. -/
def hex (n : UInt64) : Bytes := (Nat.toDigits 16 n.toNat).map fun digit => UInt8.ofNat digit.toNat

def DemangleMaybe (symbolizer : StackSymbolizerProcessor) (sym : Bytes) : Bytes :=
  if !symbolizer.demangle_ || sym.isEmpty then sym else (symbolizer.cxa_demangle sym).getD sym

/-- The name of a kernel address: the symbol, or `[kernel 0x...]`. -/
def kernelName (symbolizer : StackSymbolizerProcessor) (address : UInt64) : Bytes :=
  let sym := if symbolizer.kernel_symbols_ then symbolizer.Resolve address else []
  symbolizer.DemangleMaybe
    (if sym.isEmpty then [0x5B, 0x6B, 0x65, 0x72, 0x6E, 0x65, 0x6C, 0x20, 0x30, 0x78] ++ hex address ++ [0x5D] else sym)

/-- The name of a user address: the symbol, or `[0x...]`. -/
def userName (symbolizer : StackSymbolizerProcessor) (pid : UInt32) (address : UInt64) : Bytes :=
  let sym := symbolizer.ResolveUser pid address
  symbolizer.DemangleMaybe (if sym.isEmpty then [0x5B, 0x30, 0x78] ++ hex address ++ [0x5D] else sym)

def symbolizeFrame (name : UInt64 → Bytes) (frame : StackFrame) : Interning StackFrame :=
  if frame.address = 0 then pure frame
  else do
    let function_name ← InternString (name frame.address)
    return { frame with function_name }

def symbolizeSample (symbolizer : StackSymbolizerProcessor) (sample : StackSample) : Interning StackSample := do
  let kernel_stack ← sample.kernel_stack.mapM (symbolizeFrame symbolizer.kernelName)
  let user_stack ← sample.user_stack.mapM (symbolizeFrame (symbolizer.userName sample.pid))
  return { sample with kernel_stack, user_stack }

def Process (symbolizer : StackSymbolizerProcessor) (input : State D) : State D :=
  let out := input.batch.stack_samples.mapM symbolizer.symbolizeSample input.interner
  out.2.batch input.batch.type input.batch.records out.1

end StackSymbolizerProcessor

inductive Processor where
  | filter (processor : FilterProcessor)
  | stack_merger (merger : StackMergerProcessor) (order : Traversal StackSample)
  | stack_symbolizer (processor : StackSymbolizerProcessor)

def Processor.Process : Processor → State D → State D
  | .filter processor => processor.Process
  | .stack_merger merger order => mergerProcess merger order
  | .stack_symbolizer processor => processor.Process

/-- What comes out of a chain. It ends early at an empty batch. -/
def runProcessors : List Processor → State D → State D
  | [], input => input
  | processor :: rest, input =>
    let output := processor.Process input
    if output.batch.Empty then output else runProcessors rest output

end Views

end Illuminator
