import Illuminator.Soundness.PipelineMoves

/-! # A pipeline whose queue calls interleave

A pipeline's threads meet inside the queue: a thread may be suspended between the swap that wins its
ticket and the store that publishes the slot, and a call that finds another halfway is refused
though the queue is neither full nor empty. Here each queue call is the queue's own program, one
atomic load, swap, move or store at a time, and the rest of a pipeline thread is as before. The
processors are functions from a batch to an error or a batch.
-/

namespace Illuminator

/-- A pipeline and the ring its channel's calls work on. The settled queue among the pipeline's
members is not used: it stays as constructed. -/
structure ContendedPipeline (B : Type*) where
  members : Pipeline B
  queue_ : LockFreeQueue (ChannelItem B)

namespace AsyncChannel

variable {B : Type*}

/-- The queue call a channel call is about to make. -/
def Pc.request : Pc B → Option (LockFreeQueue.Choice (ChannelItem B))
  | .enqueuePush batch | .enqueueRetry batch => some (.push (.batch batch))
  | .flushPush | .flushRetry => some (.push .flush)
  | .enqueueEvict _ | .flushEvict | .dequeuePop _ | .tryDequeuePop => some .pop
  | _ => none

/-- How a channel call goes on when its queue call has returned. -/
def Pc.resume (policy : DropPolicy) : Pc B → LockFreeQueue.Event (ChannelItem B) → Option (Pc B)
  | .enqueuePush batch, .pushed _ => some (.enqueueCount batch)
  | .enqueuePush batch, .pushRefused _ =>
    match policy with
    | .kDropOldest => some (.enqueueEvict batch)
    | .kDropNewest => some (.enqueueDrop batch)
  | .enqueueEvict batch, .popped _ _ => some (.enqueueEvicted batch)
  | .enqueueEvict batch, .popRefused => some (.enqueueRetry batch)
  | .enqueueRetry batch, .pushed _ => some (.enqueueCount batch)
  | .enqueueRetry batch, .pushRefused _ => some (.enqueueDrop batch)
  | .flushPush, .pushed _ => some .flushCount
  | .flushPush, .pushRefused _ => some .flushEvict
  | .flushEvict, .popped _ _ => some .flushEvicted
  | .flushEvict, .popRefused => some .flushRetry
  | .flushRetry, .pushed _ => some .flushCount
  | .flushRetry, .pushRefused _ => some (.returning (.inject false))
  | .dequeuePop _, .popped _ item => some (.dequeueCount item)
  | .dequeuePop attempts, .popRefused => some (.dequeuePop (attempts + 1))
  | .tryDequeuePop, .popped _ item => some (.dequeueCount item)
  | .tryDequeuePop, .popRefused => some (.returning (.dequeue none))
  | _, _ => none

end AsyncChannel

namespace ContendedPipeline

open Pipeline (Setup Caller Party)

variable {B : Type*} [Inhabited B]

/-- A thread stands inside one of the queue's two loops, called from the channel, or elsewhere. -/
inductive Pc (B : Type*) where
  | apart (pc : Pipeline.Pc B)
  | inQueue (caller : Caller) (call : AsyncChannel.Pc B) (within : LockFreeQueue.Pc (ChannelItem B))

/-- A thread's freedom: the pipeline's, and a weak compare-and-swap that fails. -/
inductive Choice (B : Type*) where
  | pipeline (choice : Pipeline.Choice B)
  | spurious

inductive Event (B : Type*) where
  | pipeline (event : Pipeline.Event B)
  | queue (event : LockFreeQueue.Event (ChannelItem B))

/-- The channel call a pipeline thread is in. -/
def caller? : Pipeline.Pc B → Option (Caller × AsyncChannel.Pc B)
  | .dequeue call => some (.dequeue, call)
  | .drain call => some (.drain, call)
  | .enqueue call => some (.enqueue, call)
  | .inject call => some (.inject, call)
  | _ => none

/-- A processor's answer is its function's; every other choice is free. -/
def answer (setup : Setup B) (process : ℕ → B → Option B) : Pipeline.Pc B → Pipeline.Choice B → Pipeline.Choice B
  | .work (.process batch (remaining + 1)) _, _ =>
    .processed (process (setup.processors_ - (remaining + 1)) batch)
  | _, choice => choice

/-- `UpdateBackpressure` compares the ring's size with its watermarks. -/
def watermark (p : ContendedPipeline B) : AsyncChannel.Pc B → Option (AsyncChannel.Pc B)
  | .pressure .high reply =>
    if p.queue_.AboveHighWatermark p.members.ingest_channel_.high_wm_ then some (.pressure .raise reply)
    else some (.returning reply)
  | .pressure .low reply =>
    if p.queue_.BelowLowWatermark p.members.ingest_channel_.low_wm_ then some (.pressure .clear reply)
    else some (.returning reply)
  | _ => none

/-- An action outside the queue. -/
def outside (setup : Setup B) (process : ℕ → B → Option B) (p : ContendedPipeline B) (pc : Pipeline.Pc B)
    (choice : Pipeline.Choice B) : Option (ContendedPipeline B × Pc B × Event B) :=
  (Pipeline.act setup p.members pc (answer setup process pc choice)).map fun (members, after, event) =>
    ({ p with members }, .apart after, .pipeline event)

/-- The first action of a queue call. -/
def enter (p : ContendedPipeline B) (caller : Caller) (call : AsyncChannel.Pc B)
    (request : LockFreeQueue.Choice (ChannelItem B)) : Option (ContendedPipeline B × Pc B × Event B) :=
  (LockFreeQueue.act .movedFrom p.queue_ .idle request).map fun (queue_, within, event) =>
    ({ p with queue_ }, .inQueue caller call within, .queue event)

/-- A further action of a queue call, after which the channel call may go on. -/
def inside (p : ContendedPipeline B) (caller : Caller) (call : AsyncChannel.Pc B)
    (within : LockFreeQueue.Pc (ChannelItem B)) (choice : LockFreeQueue.Choice (ChannelItem B)) :
    Option (ContendedPipeline B × Pc B × Event B) :=
  (LockFreeQueue.act .movedFrom p.queue_ within choice).map fun (queue_, after, event) =>
    match call.resume p.members.ingest_channel_.drop_policy_ event with
    | some next =>
      (⟨{ p.members with process_thread_ := caller.progress next p.members.process_thread_ }, queue_⟩,
        .apart (caller.pc next), .queue event)
    | none => ({ p with queue_ }, .inQueue caller call after, .queue event)

/-- One atomic action of a thread. -/
def act (setup : Setup B) (process : ℕ → B → Option B) (p : ContendedPipeline B) :
    Pc B → Choice B → Option (ContendedPipeline B × Pc B × Event B)
  | .inQueue caller call within, .pipeline .proceed => p.inside caller call within .proceed
  | .inQueue caller call within, .spurious => p.inside caller call within .spurious
  | .apart pc, .pipeline choice =>
    match caller? pc, choice with
    | some (caller, call), .proceed =>
      match call.request, p.watermark call with
      | some request, _ => p.enter caller call request
      | none, some next => some (p, .apart (caller.pc next), .pipeline (.channel .local))
      | none, none => p.outside setup process pc .proceed
    | _, _ => p.outside setup process pc choice
  | _, _ => none

def program (setup : Setup B) (process : ℕ → B → Option B) :
    Interleaving.Program (ContendedPipeline B) (Pc B) (Choice B) (Event B) := ⟨act setup process⟩

/-- A pipeline whose `Start` has just returned `Ok`. -/
def initial (ι : Type*) (capacity : UInt64) (slots : 2 ≤ (roundUpPow2 capacity).toNat) (policy : DropPolicy)
    (high_wm low_wm : ℚ) : Interleaving.State (ContendedPipeline B) (Pc B) (Party ι) :=
  ⟨⟨.started (.make capacity slots policy high_wm low_wm), .make capacity (.batch default)⟩,
    fun party => .apart party.start⟩

end ContendedPipeline

end Illuminator
