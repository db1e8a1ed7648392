import Illuminator.Machine.Components
import Illuminator.Model.DataBatch

/-! # Aggregated CPU profiles

The sampling probe counts stacks in `stack_counts`. `CpuProfilerSource::Collect` snapshots the map,
or returns the batch that the aggregation thread cached; that thread snapshots the map and then clears
it, if a callback is installed. Each operation on the map is one step, and so is a sample, on any CPU.
The map is never full. What the stack map holds for a stack's number is a parameter.
-/

namespace Illuminator

namespace CpuProfiler

open Interleaving

/-- `struct il_stack_key`. -/
structure IlStackKey where
  pid : UInt32
  tid : UInt32
  kernel_stack_id : Int32
  user_stack_id : Int32
  comm : Bytes
  deriving DecidableEq

/-- A `StackSample` of an aggregated profile, with its key's fields together. -/
structure CountedStack where
  key : IlStackKey
  count : ℕ
  kernel_stack : List StackFrame
  user_stack : List StackFrame
  deriving DecidableEq

structure Config where
  counts_fd_ : ℤ := 3
  stacks_fd_ : ℤ := 4
  LookupBpfStackTrace : Int32 → List StackFrame := fun _ => []

structure Shared where
  stack_counts : IlStackKey → Option ℕ
  callback_ : Bool
  last_batch_ : Option (List CountedStack)
  last_batch_mu_ : Bool

/-- The source after `Start`: whether a callback is installed is up to the pipeline. -/
def Shared.started (callback_ : Bool) : Shared := ⟨fun _ => none, callback_, none, false⟩

/-- The sixth step of the probe, behind its filters. -/
def on_cpu_sample (s : Shared) (key : IlStackKey) : Shared :=
  match s.stack_counts key with
  | some count => { s with stack_counts := Function.update s.stack_counts key (some (count + 1)) }
  | none => { s with stack_counts := Function.update s.stack_counts key (some 1) }

def Shared.delete (s : Shared) (key : IlStackKey) : Shared :=
  { s with stack_counts := Function.update s.stack_counts key none }

/-- On whose behalf a snapshot is taken. -/
inductive Purpose where
  | collect
  | flush
  deriving DecidableEq

/-- Where a thread stands: a CPU that takes samples, a caller of `Collect`, or the thread of
`AggregatedPullLoop`. -/
inductive Pc where
  | cpu
  | idle
  | sleeping
  | listing (purpose : Purpose) (keys : List IlStackKey)
  | looking (purpose : Purpose) (keys : List IlStackKey) (batch : List CountedStack)
  | clearing (batch : List CountedStack)
  | advancing (cur : IlStackKey) (batch : List CountedStack)
  | deleting (to_delete : IlStackKey) (next : Option IlStackKey) (batch : List CountedStack)
  | caching (batch : List CountedStack)
  deriving DecidableEq

inductive Choice where
  | sample (key : IlStackKey)
  | next (key : Option IlStackKey)
  | go

inductive Event where
  | sampled (key : IlStackKey)
  | returned (batch : List CountedStack)
  | unavailable
  | pushed (batch : List CountedStack)
  | quiet
  deriving DecidableEq

/-- `bpf_map_get_next_key` may return a key only if the map holds it. -/
def Shared.Lists (s : Shared) : Option IlStackKey → Prop
  | none => True
  | some key => s.stack_counts key ≠ none

instance (s : Shared) (key : Option IlStackKey) : Decidable (s.Lists key) := by
  cases key <;> unfold Shared.Lists <;> infer_instance

/-- `Collect` takes the lock, and returns what is cached if that is something. -/
def Collect (config : Config) (s : Shared) : Option (Shared × Pc × Event) :=
  if s.last_batch_mu_ then none
  else match s.last_batch_ with
    | some (sample :: rest) => some (s, .idle, .returned (sample :: rest))
    | _ =>
      if config.counts_fd_ < 0 ∨ config.stacks_fd_ < 0 then some (s, .idle, .unavailable)
      else some ({ s with last_batch_mu_ := true }, .listing .collect [], .quiet)

/-- What follows a snapshot: `Collect` gives the lock back, `FlushAggregatedCounts` clears the map. -/
def snapshotTaken (s : Shared) (batch : List CountedStack) : Purpose → Shared × Pc × Event
  | .collect => ({ s with last_batch_mu_ := false }, .idle, .returned batch)
  | .flush => (s, .clearing batch, .quiet)

def stackSample (config : Config) (key : IlStackKey) (count : ℕ) : CountedStack :=
  ⟨key, count, config.LookupBpfStackTrace key.kernel_stack_id, config.LookupBpfStackTrace key.user_stack_id⟩

/-- The key that is next to be deleted, or the end of the loop. -/
def cleared (batch : List CountedStack) : Option IlStackKey → Pc
  | some cur => .advancing cur batch
  | none => .caching batch

def act (config : Config) (s : Shared) : Pc → Choice → Option (Shared × Pc × Event)
  | .cpu, .sample key => some (on_cpu_sample s key, .cpu, .sampled key)
  | .idle, .go => Collect config s
  | .sleeping, .go =>
    if config.counts_fd_ < 0 ∨ s.callback_ = false then some (s, .sleeping, .quiet)
    else some (s, .listing .flush [], .quiet)
  | .listing purpose keys, .next (some key) =>
    if s.Lists (some key) then some (s, .listing purpose (keys ++ [key]), .quiet) else none
  | .listing purpose keys, .next none => some (s, .looking purpose keys [], .quiet)
  | .looking purpose [] batch, .go => some (snapshotTaken s batch purpose)
  | .looking purpose (key :: keys) batch, .go =>
    match s.stack_counts key with
    | none => some (s, .looking purpose keys batch, .quiet)
    | some count => some (s, .looking purpose keys (batch ++ [stackSample config key count]), .quiet)
  | .clearing batch, .next key => if s.Lists key then some (s, cleared batch key, .quiet) else none
  | .advancing cur batch, .next key => if s.Lists key then some (s, .deleting cur key batch, .quiet) else none
  | .deleting to_delete next batch, .go => some (s.delete to_delete, cleared batch next, .quiet)
  | .caching [], .go => some (s, .sleeping, .quiet)
  | .caching (sample :: rest), .go =>
    if s.last_batch_mu_ then none
    else some ({ s with last_batch_ := some (sample :: rest) }, .sleeping, .pushed (sample :: rest))
  | _, _ => none

def program (config : Config) : Program Shared Pc Choice Event := ⟨act config⟩

/-- Any CPUs, any callers of `Collect`, and the aggregation thread. -/
def start (Cpu Caller : Type*) (callback_ : Bool) : State Shared Pc (Cpu ⊕ Option Caller) where
  shared := .started callback_
  pc := Sum.elim (fun _ => .cpu) fun caller => if caller.isSome then .idle else .sleeping

end CpuProfiler

end Illuminator
