import Illuminator.Model.QueueCalls

/-! # The pipeline channel

A channel carries data batches and flush sentinels through one bounded queue. Each queue call, each
counter update and each access to the backpressure flag is one atomic action; everything else is a
thread's control state. The counters are read as naturals, so the laws below are about runs in which
no 64-bit counter wraps. The clock of a timed `Dequeue` is a choice: the deadline may be found
passed at any point of its third phase.
-/

namespace Illuminator

/-- `std::variant<DataBatchPtr, FlushSentinel>`. -/
inductive ChannelItem (B : Type*) where
  | batch (batch : B)
  | flush
  deriving DecidableEq

/-- Moving an item out leaves its alternative in place, with a null batch pointer. -/
def ChannelItem.movedFrom {B : Type*} [Inhabited B] : ChannelItem B → ChannelItem B
  | .batch _ => .batch default
  | .flush => .flush

inductive DropPolicy where
  | kDropNewest
  | kDropOldest
  deriving DecidableEq

namespace AsyncChannel

structure Stats where
  enqueued : ℕ
  dropped : ℕ
  dequeued : ℕ
  flush_injected : ℕ
  backpressure_events : ℕ
  deriving DecidableEq

inductive Counter where
  | enqueued
  | dropped
  | dequeued
  | flush_injected
  | backpressure_events
  deriving DecidableEq

def Stats.read (s : Stats) : Counter → ℕ
  | .enqueued => s.enqueued
  | .dropped => s.dropped
  | .dequeued => s.dequeued
  | .flush_injected => s.flush_injected
  | .backpressure_events => s.backpressure_events

/-- `fetch_add(1)` on one counter. -/
def Stats.bump (s : Stats) : Counter → Stats
  | .enqueued => { s with enqueued := s.enqueued + 1 }
  | .dropped => { s with dropped := s.dropped + 1 }
  | .dequeued => { s with dequeued := s.dequeued + 1 }
  | .flush_injected => { s with flush_injected := s.flush_injected + 1 }
  | .backpressure_events => { s with backpressure_events := s.backpressure_events + 1 }

theorem Stats.read_bump (s : Stats) (counter other : Counter) :
    (s.bump counter).read other = s.read other + if counter = other then 1 else 0 := by
  cases counter <;> cases other <;> rfl

end AsyncChannel

structure AsyncChannel (B : Type*) where
  queue_ : SettledQueue (ChannelItem B)
  stats_ : AsyncChannel.Stats
  backpressured_ : Bool
  drop_policy_ : DropPolicy
  high_wm_ : ℚ
  low_wm_ : ℚ

namespace AsyncChannel

variable {B : Type*} [Inhabited B]

/-- The constructor. Slots start out holding the variant's first alternative, a null batch. -/
def make (capacity : UInt64) (slots : 2 ≤ (roundUpPow2 capacity).toNat) (policy : DropPolicy)
    (high_wm low_wm : ℚ) : AsyncChannel B where
  queue_ := .make capacity slots (.batch default)
  stats_ := ⟨0, 0, 0, 0, 0⟩
  backpressured_ := false
  drop_policy_ := policy
  high_wm_ := high_wm
  low_wm_ := low_wm

def IsBackpressured (ch : AsyncChannel B) : Bool := ch.backpressured_

def SizeApprox (ch : AsyncChannel B) : ℕ := ch.queue_.ring.SizeApprox

def capacity (ch : AsyncChannel B) : ℕ := ch.queue_.capacity

/-- `queue_.TryPush`. -/
def tryPush (ch : AsyncChannel B) (item : ChannelItem B) : AsyncChannel B × Bool :=
  ({ ch with queue_ := (ch.queue_.TryPush item).1 }, (ch.queue_.TryPush item).2)

/-- `queue_.TryPop`. -/
def tryPop (ch : AsyncChannel B) : AsyncChannel B × Option (ChannelItem B) :=
  ({ ch with queue_ := (ch.queue_.TryPop .movedFrom).1 }, (ch.queue_.TryPop .movedFrom).2)

def bump (ch : AsyncChannel B) (counter : Counter) : AsyncChannel B :=
  { ch with stats_ := ch.stats_.bump counter }

inductive Call (B : Type*) where
  | TryEnqueue (batch : B)
  | InjectFlush
  | Dequeue
  | TryDequeue

/-- A call's result; an enqueue also names the batch it was about. -/
inductive Reply (B : Type*) where
  | enqueue (batch : B) (ok : Bool)
  | inject (ok : Bool)
  | dequeue (item : Option (ChannelItem B))
  deriving DecidableEq

/-- Where a thread stands inside `UpdateBackpressure`. -/
inductive Pressure where
  | load
  | high
  | raise
  | count
  | low
  | clear
  deriving DecidableEq

/-- Where a thread stands inside a channel call, with its local variables. -/
inductive Pc (B : Type*) where
  | idle
  | enqueuePush (batch : B)
  | enqueueEvict (batch : B)
  | enqueueEvicted (batch : B)
  | enqueueRetry (batch : B)
  | enqueueCount (batch : B)
  | enqueueDrop (batch : B)
  | flushPush
  | flushEvict
  | flushEvicted
  | flushRetry
  | flushCount
  | dequeuePop (attempts : ℕ)
  | tryDequeuePop
  | dequeueCount (item : ChannelItem B)
  | pressure (stage : Pressure) (reply : Reply B)
  | returning (reply : Reply B)
  deriving DecidableEq

inductive Choice (B : Type*) where
  | call (call : Call B)
  | proceed
  | deadline

/-- What an action shows. `refused` is the push after which a `TryEnqueue` gives up; `wrote` is a
write of the backpressure flag with the value it replaces. -/
inductive Event (B : Type*) where
  | local
  | called (call : Call B)
  | entered (item : ChannelItem B)
  | evicted (item : ChannelItem B)
  | taken (item : ChannelItem B)
  | refused (batch : B)
  | counted (counter : Counter)
  | wrote (old new : Bool)
  | returned (reply : Reply B)

/-- One action of `UpdateBackpressure`, and the stage that follows it, if any. -/
def UpdateBackpressure (ch : AsyncChannel B) : Pressure → AsyncChannel B × Option Pressure × Event B
  | .load => (ch, some (if ch.backpressured_ then .low else .high), .local)
  | .high => (ch, if ch.queue_.ring.AboveHighWatermark ch.high_wm_ then some .raise else none, .local)
  | .raise =>
    if ch.backpressured_ then (ch, none, .local)
    else ({ ch with backpressured_ := true }, some .count, .wrote false true)
  | .count => (ch.bump .backpressure_events, none, .counted .backpressure_events)
  | .low => (ch, if ch.queue_.ring.BelowLowWatermark ch.low_wm_ then some .clear else none, .local)
  | .clear => ({ ch with backpressured_ := false }, none, .wrote ch.backpressured_ false)

/-- One atomic action of a thread inside the channel. -/
def act (ch : AsyncChannel B) : Pc B → Choice B → Option (AsyncChannel B × Pc B × Event B)
  | .idle, .call (.TryEnqueue batch) => some (ch, .enqueuePush batch, .called (.TryEnqueue batch))
  | .idle, .call .InjectFlush => some (ch, .flushPush, .called .InjectFlush)
  | .idle, .call .Dequeue => some (ch, .dequeuePop 0, .called .Dequeue)
  | .idle, .call .TryDequeue => some (ch, .tryDequeuePop, .called .TryDequeue)
  | .enqueuePush batch, .proceed =>
    match ch.tryPush (.batch batch) with
    | (next, true) => some (next, .enqueueCount batch, .entered (.batch batch))
    | (next, false) =>
      match ch.drop_policy_ with
      | .kDropOldest => some (next, .enqueueEvict batch, .local)
      | .kDropNewest => some (next, .enqueueDrop batch, .refused batch)
  | .enqueueEvict batch, .proceed =>
    match ch.tryPop with
    | (next, some discarded) => some (next, .enqueueEvicted batch, .evicted discarded)
    | (next, none) => some (next, .enqueueRetry batch, .local)
  | .enqueueEvicted batch, .proceed => some (ch.bump .dropped, .enqueueRetry batch, .counted .dropped)
  | .enqueueRetry batch, .proceed =>
    match ch.tryPush (.batch batch) with
    | (next, true) => some (next, .enqueueCount batch, .entered (.batch batch))
    | (next, false) => some (next, .enqueueDrop batch, .refused batch)
  | .enqueueCount batch, .proceed =>
    some (ch.bump .enqueued, .pressure .load (.enqueue batch true), .counted .enqueued)
  | .enqueueDrop batch, .proceed =>
    some (ch.bump .dropped, .pressure .load (.enqueue batch false), .counted .dropped)
  | .flushPush, .proceed =>
    match ch.tryPush .flush with
    | (next, true) => some (next, .flushCount, .entered .flush)
    | (next, false) => some (next, .flushEvict, .local)
  | .flushEvict, .proceed =>
    match ch.tryPop with
    | (next, some discarded) => some (next, .flushEvicted, .evicted discarded)
    | (next, none) => some (next, .flushRetry, .local)
  | .flushEvicted, .proceed => some (ch.bump .dropped, .flushRetry, .counted .dropped)
  | .flushRetry, .proceed =>
    match ch.tryPush .flush with
    | (next, true) => some (next, .flushCount, .entered .flush)
    | (next, false) => some (next, .returning (.inject false), .local)
  | .flushCount, .proceed =>
    some (ch.bump .flush_injected, .returning (.inject true), .counted .flush_injected)
  -- sixteen spinning and eight yielding attempts come before the clock is read
  | .dequeuePop attempts, .proceed =>
    match ch.tryPop with
    | (next, some item) => some (next, .dequeueCount item, .taken item)
    | (next, none) => some (next, .dequeuePop (attempts + 1), .local)
  | .dequeuePop attempts, .deadline =>
    if 24 ≤ attempts then some (ch, .returning (.dequeue none), .local) else none
  | .tryDequeuePop, .proceed =>
    match ch.tryPop with
    | (next, some item) => some (next, .dequeueCount item, .taken item)
    | (next, none) => some (next, .returning (.dequeue none), .local)
  | .dequeueCount item, .proceed =>
    some (ch.bump .dequeued, .pressure .load (.dequeue (some item)), .counted .dequeued)
  | .pressure stage reply, .proceed =>
    match ch.UpdateBackpressure stage with
    | (next, some after, event) => some (next, .pressure after reply, event)
    | (next, none, event) => some (next, .returning reply, event)
  | .returning reply, .proceed => some (ch, .idle, .returned reply)
  | _, _ => none

section Pressure

variable {ch next : AsyncChannel B} {stage : Pressure} {reply : Reply B} {event : Event B}

theorem act_pressure {after : Pressure} (called : ch.UpdateBackpressure stage = (next, some after, event)) :
    act ch (.pressure stage reply) .proceed = some (next, .pressure after reply, event) := by
  unfold act
  simp only [called]

theorem act_pressure_last (called : ch.UpdateBackpressure stage = (next, none, event)) :
    act ch (.pressure stage reply) .proceed = some (next, .returning reply, event) := by
  unfold act
  simp only [called]

end Pressure

/-- Any number of threads calling one channel. -/
def program : Interleaving.Program (AsyncChannel B) (Pc B) (Choice B) (Event B) := ⟨act⟩

/-- A freshly constructed channel with no call in progress. -/
def initial (τ : Type*) (capacity : UInt64) (slots : 2 ≤ (roundUpPow2 capacity).toNat)
    (policy : DropPolicy) (high_wm low_wm : ℚ) : Interleaving.State (AsyncChannel B) (Pc B) τ :=
  ⟨make capacity slots policy high_wm low_wm, fun _ => .idle⟩

end AsyncChannel

end Illuminator
