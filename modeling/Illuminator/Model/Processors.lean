import Illuminator.Model.StackMerger

/-! # Processors and what they remember

The filter, the stack merger, the stack symbolizer and the passthrough as they turn one batch into the
next. Only the symbolizer remembers something: the maps of a process for `cache_ttl_sec_` seconds, and the
symbols of a file for ever. What it reads under `/proc` and from files, what a symbol table holds for an
address and the demangler are parameters.
-/

namespace Illuminator

namespace Processors

/-- Nanoseconds of the steady clock. -/
abbrev Instant := ℤ

structure ProcMapEntry where
  start : UInt64
  end_ : UInt64
  offset : UInt64
  path : Bytes
  deriving DecidableEq

structure MapsCacheEntry where
  maps : List ProcMapEntry
  loaded_at : Instant
  deriving DecidableEq

/-- What a call of `Process` finds: the time, the maps of a process with the time after they were read, the
symbols of a file, and what these hold for an address. `S` is the type of a file's symbols. -/
structure World (S : Type) where
  now : Instant
  LoadMaps : UInt32 → Option MapsCacheEntry
  Load : Bytes → Option S
  Resolve : S → UInt64 → Bytes

/-- `kernel_resolver_` is what `Init` has loaded. -/
structure StackSymbolizerProcessor (S : Type) where
  demangle_ : Bool := true
  kernel_symbols_ : Bool := true
  cache_ttl_sec_ : UInt32 := 30
  kernel_resolver_ : UInt64 → Bytes
  cxa_demangle : Bytes → Option Bytes
  elf_cache_ : Bytes → Option S := fun _ => none
  maps_cache_ : UInt32 → Option MapsCacheEntry := fun _ => none

namespace StackSymbolizerProcessor

variable {S : Type}

/-- `%llx`. -/
def hex (n : UInt64) : Bytes := (Nat.toDigits 16 n.toNat).map fun digit => UInt8.ofNat digit.toNat

def DemangleMaybe (s : StackSymbolizerProcessor S) (sym : Bytes) : Bytes :=
  if !s.demangle_ || sym.isEmpty then sym else (s.cxa_demangle sym).getD sym

/-- An entry is too old. Its age is counted in whole seconds. -/
def expired (s : StackSymbolizerProcessor S) (now : Instant) (entry : MapsCacheEntry) : Bool :=
  0 < s.cache_ttl_sec_ && (s.cache_ttl_sec_.toNat : ℤ) < Int.tdiv (now - entry.loaded_at) 1000000000

def PurgeExpiredMapsCaches (s : StackSymbolizerProcessor S) (now : Instant) : StackSymbolizerProcessor S :=
  { s with maps_cache_ := fun pid => (s.maps_cache_ pid).filter fun entry => !s.expired now entry }

def GetElfCache (world : World S) (s : StackSymbolizerProcessor S) (path : Bytes) :
    Option S × StackSymbolizerProcessor S :=
  match s.elf_cache_ path with
  | some cache => (some cache, s)
  | none =>
    match world.Load path with
    | none => (none, s)
    | some cache => (some cache, { s with elf_cache_ := Function.update s.elf_cache_ path (some cache) })

/-- The loop over the maps: the first that contains the address decides. -/
def resolveIn (world : World S) (s : StackSymbolizerProcessor S) (maps : List ProcMapEntry) (addr : UInt64) :
    Bytes × StackSymbolizerProcessor S :=
  match maps.find? fun m => m.start ≤ addr && addr < m.end_ with
  | none => ([], s)
  | some m =>
    match GetElfCache world s m.path with
    | (none, s) => ([], s)
    | (some elf, s) =>
      let sym := world.Resolve elf (addr - m.start + m.offset)
      if sym.isEmpty then
        (([0x5B] ++ m.path ++ [0x2B, 0x30, 0x78] ++ hex (addr - m.start) ++ [0x5D]).take 95, s)
      else (sym, s)

/-- `LoadMaps` for an entry that is there already. One that cannot be read loses its maps and keeps its
time. -/
def reload (world : World S) (pid : UInt32) (entry : MapsCacheEntry) : MapsCacheEntry :=
  (world.LoadMaps pid).getD { entry with maps := [] }

def ResolveUser (world : World S) (s : StackSymbolizerProcessor S) (pid : UInt32) (addr : UInt64) :
    Bytes × StackSymbolizerProcessor S :=
  match s.maps_cache_ pid with
  | none =>
    match world.LoadMaps pid with
    | none => ([], s)
    | some fresh => resolveIn world { s with maps_cache_ := Function.update s.maps_cache_ pid (some fresh) } fresh.maps addr
  | some ment =>
    if s.expired world.now ment then
      resolveIn world { s with maps_cache_ := Function.update s.maps_cache_ pid (some (reload world pid ment)) }
        (reload world pid ment).maps addr
    else resolveIn world s ment.maps addr

def symbolizeKernel (frame : StackFrame) : StateM (StackSymbolizerProcessor S) StackFrame := do
  if frame.address = 0 then return frame
  let s ← get
  let sym := if s.kernel_symbols_ then s.kernel_resolver_ frame.address else []
  let sym := if sym.isEmpty then ascii "[kernel 0x" ++ hex frame.address ++ ascii "]" else sym
  return { frame with function_name := s.DemangleMaybe sym }

def symbolizeUser (world : World S) (pid : UInt32) (frame : StackFrame) :
    StateM (StackSymbolizerProcessor S) StackFrame := do
  if frame.address = 0 then return frame
  let sym ← fun s => ResolveUser world s pid frame.address
  let sym := if sym.isEmpty then ascii "[0x" ++ hex frame.address ++ ascii "]" else sym
  let s ← get
  return { frame with function_name := s.DemangleMaybe sym }

def symbolizeSample (world : World S) (sample : StackSample) : StateM (StackSymbolizerProcessor S) StackSample := do
  let kernel_stack ← sample.kernel_stack.mapM symbolizeKernel
  let user_stack ← sample.user_stack.mapM (symbolizeUser world sample.pid)
  return { sample with kernel_stack, user_stack }

def Process {D : Type} (world : World S) (s : StackSymbolizerProcessor S) (input : DataBatch D) :
    DataBatch D × StackSymbolizerProcessor S :=
  let (stack_samples, s) := (input.stack_samples.mapM (symbolizeSample world)).run (s.PurgeExpiredMapsCaches world.now)
  ({ input with stack_samples }, s)

end StackSymbolizerProcessor

structure FilterProcessor where
  exclude_key_ : Bytes
  exclude_value_ : Bytes

def FilterProcessor.Process {D : Type} (filter : FilterProcessor) (input : DataBatch D) : DataBatch D :=
  if filter.exclude_key_.isEmpty then input
  else
    { input with
      records := input.records.filter fun rec =>
        !rec.labels.any fun label => label.key = filter.exclude_key_ && label.value = filter.exclude_value_ }

/-- The merger comes with the order in which it visits the map that it builds. -/
inductive Processor (S : Type) where
  | filter (processor : FilterProcessor)
  | stack_merger (processor : StackMergerProcessor) (order : Traversal StackSample)
  | stack_symbolizer (processor : StackSymbolizerProcessor S)
  | passthrough

/-- The batch that comes out, and the processor afterwards. None of them fails. -/
def Processor.Process {S D : Type} (world : World S) (input : DataBatch D) :
    Processor S → DataBatch D × Processor S
  | .filter processor => (processor.Process input, .filter processor)
  | .stack_merger processor order => ((processor.Process order (some input)).getD input, .stack_merger processor order)
  | .stack_symbolizer processor =>
    ((processor.Process world input).1, .stack_symbolizer (processor.Process world input).2)
  | .passthrough => (input, .passthrough)

end Processors

end Illuminator
