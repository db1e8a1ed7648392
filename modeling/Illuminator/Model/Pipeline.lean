import Illuminator.Model.AsyncChannel

/-! # One running pipeline

A started pipeline has three kinds of threads: the process thread, which dequeues and handles
events and drains the channel at the end; the source's, the timer's and the sink pool's threads,
which call `Enqueue` and `InjectFlush` and count the writes that fail; and the thread that calls
`Stop`. What plugins answer, and what the sink pool's queue holds when it is asked, are choices of
the environment, so every plugin behaviour is covered. A source's `Stop` returns once none of its
threads is inside `Enqueue`, and from then on none enters.
-/

namespace Illuminator

namespace Pipeline

/-- What was configured before `Start`. `Empty` is `!batch || batch->Empty()`, and `sink_pool_` is
whether there is a pool. -/
structure Setup (B : Type*) where
  Empty : B → Bool
  Size : B → ℕ
  processors_ : ℕ
  aggregator_ : Bool
  sinks_ : ℕ
  sink_pool_ : Bool

/-- How far the process thread has come: it may be past its last `TryDequeue`, and it may be over. -/
inductive ProcessThread where
  | running
  | drained
  | exited
  deriving DecidableEq

end Pipeline

/-- A pipeline's shared state. The last two fields belong to its source: the calls of `Enqueue` in
progress, and whether `source_->Stop()` has returned. -/
structure Pipeline (B : Type*) where
  running_ : Bool
  ingest_channel_ : AsyncChannel B
  process_thread_ : Pipeline.ProcessThread
  last_backpressure_state_ : Bool
  batches_processed_ : ℕ
  records_processed_ : ℕ
  error_count_ : ℕ
  enqueueing : ℕ
  sourceStopped : Bool

namespace Pipeline

variable {B : Type*} [Inhabited B]

/-- `SubmitToSinks` limits the pool's queue. -/
def kMaxPendingTasks : ℕ := 256

/-- Where `SubmitToSinks` was called: from `HandleData`, or from `HandleFlush` with batches left. -/
inductive Origin (B : Type*) where
  | data
  | flush (rest : List B)
  deriving DecidableEq

/-- Where the process thread stands inside `HandleData` or `HandleFlush`. -/
inductive Work (B : Type*) where
  | data (batch : B)
  | process (batch : B) (remaining : ℕ)
  | count
  | flush
  | submit (batch : B) (origin : Origin B)
  | submitTo (batch : B) (sink : ℕ) (origin : Origin B)
  deriving DecidableEq

/-- What follows a handled event. -/
inductive Resume where
  | loop
  | drain
  | finish
  deriving DecidableEq

/-- Where the stopping thread stands inside `Stop`. -/
inductive StopStage where
  | idle
  | source
  | join
  | processor (index : ℕ)
  | aggregator
  | sinkFlush (index : ℕ)
  | sinkStop (index : ℕ)
  | returned
  deriving DecidableEq

inductive Pc (B : Type*) where
  | stop (stage : StopStage)
  | loopTest
  | dequeue (call : AsyncChannel.Pc B)
  | work (work : Work B) (resume : Resume)
  | drainTest
  | drain (call : AsyncChannel.Pc B)
  | exited
  | outside
  | enqueue (call : AsyncChannel.Pc B)
  | observe
  | compare (bp : Bool)
  | store (bp : Bool)
  | notify (bp : Bool)
  | inject (call : AsyncChannel.Pc B)
  deriving DecidableEq

/-- A thread's freedom: the calls it makes, and what plugins, the clock and the pool answer. -/
inductive Choice (B : Type*) where
  | proceed
  | deadline
  | Enqueue (batch : B)
  | InjectFlush
  | Stop
  | processed (result : Option B)
  | flushed (result : Option (List B))
  | pending (tasks : ℕ)
  | wrote (ok : Bool)
  | failed

/-- What an action shows. `channel` is an action inside the channel; `handled` is the entry of
`HandleData`, `added` and `flushed` are calls of the aggregator, and `submitted` and `wrote` are
what `SubmitToSinks` does for one sink. -/
inductive Event (B : Type*) where
  | local
  | channel (event : AsyncChannel.Event B)
  | handled (batch : B)
  | rejected
  | filtered
  | added (batch : B)
  | flushed
  | overloaded (batch : B)
  | submitted (sink : ℕ) (batch : B)
  | wrote (sink : ℕ) (batch : B) (ok : Bool)
  | sourceStopped
  | joined
  | processorStopped (index : ℕ)
  | aggregatorStopped
  | sinkFlushed (index : ℕ)
  | sinkStopped (index : ℕ)
  | stopReturned
  | backpressure (bp : Bool)

/-- The batches of a flush still to be submitted. -/
def submitNext : List B → Option (Work B)
  | [] => none
  | batch :: rest => some (.submit batch (.flush rest))

/-- What is left to do when `SubmitToSinks` returns. -/
def Origin.next : Origin B → Option (Work B)
  | .data => some .count
  | .flush rest => submitNext rest

/-- One action of `HandleData` or `HandleFlush`, and the rest of the handler, if any. -/
def handle (setup : Setup B) (p : Pipeline B) :
    Work B → Choice B → Option (Pipeline B × Option (Work B) × Event B)
  | .data batch, .proceed =>
    some ({ p with records_processed_ := p.records_processed_ + setup.Size batch },
      some (.process batch setup.processors_), .handled batch)
  | .process _ (_ + 1), .processed none =>
    some ({ p with error_count_ := p.error_count_ + 1 }, none, .rejected)
  | .process _ (remaining + 1), .processed (some batch) =>
    if setup.Empty batch then some (p, none, .filtered)
    else some (p, some (.process batch remaining), .local)
  | .process batch 0, .proceed =>
    if setup.aggregator_ then some (p, some .count, .added batch)
    else some (p, some (.submit batch .data), .local)
  | .count, .proceed => some ({ p with batches_processed_ := p.batches_processed_ + 1 }, none, .local)
  | .flush, .proceed => if setup.aggregator_ then none else some (p, none, .local)
  | .flush, .flushed result =>
    if setup.aggregator_ then some (p, result.bind submitNext, .flushed) else none
  | .submit batch origin, .proceed =>
    if setup.sink_pool_ then none else some (p, some (.submitTo batch 0 origin), .local)
  | .submit batch origin, .pending tasks =>
    if setup.sink_pool_ then
      if kMaxPendingTasks < tasks then
        some ({ p with error_count_ := p.error_count_ + 1 }, origin.next, .overloaded batch)
      else some (p, some (.submitTo batch 0 origin), .local)
    else none
  | .submitTo batch sink origin, .proceed =>
    if sink < setup.sinks_ then
      if setup.sink_pool_ then some (p, some (.submitTo batch (sink + 1) origin), .submitted sink batch) else none
    else some (p, origin.next, .local)
  | .submitTo batch sink origin, .wrote ok =>
    if sink < setup.sinks_ ∧ setup.sink_pool_ = false then
      some ({ p with error_count_ := p.error_count_ + if ok then 0 else 1 },
        some (.submitTo batch (sink + 1) origin), .wrote sink batch ok)
    else none
  | _, _ => none

/-- The handler an item is dispatched to. -/
def dispatch : ChannelItem B → Work B
  | .batch batch => .data batch
  | .flush => .flush

/-- One action of `Stop`. -/
def stop (setup : Setup B) (p : Pipeline B) : StopStage → Choice B → Option (Pipeline B × StopStage × Event B)
  | .idle, .Stop =>
    if p.running_ then some ({ p with running_ := false }, .source, .local)
    else some (p, .returned, .stopReturned)
  | .source, .proceed =>
    if p.enqueueing = 0 then some ({ p with sourceStopped := true }, .join, .sourceStopped) else none
  | .join, .proceed => if p.process_thread_ = .exited then some (p, .processor 0, .joined) else none
  | .processor index, .proceed =>
    if index < setup.processors_ then some (p, .processor (index + 1), .processorStopped index)
    else some (p, .aggregator, .local)
  | .aggregator, .proceed =>
    some (p, .sinkFlush 0, if setup.aggregator_ then .aggregatorStopped else .local)
  | .sinkFlush index, .proceed =>
    if index < setup.sinks_ then some (p, .sinkStop index, .sinkFlushed index)
    else some (p, .returned, .stopReturned)
  | .sinkStop index, .proceed => some (p, .sinkFlush (index + 1), .sinkStopped index)
  | _, _ => none

/-- One action inside the channel, which may end the call with a reply. -/
def inChannel (p : Pipeline B) (call : AsyncChannel.Pc B) (choice : AsyncChannel.Choice B) :
    Option (Pipeline B × (AsyncChannel.Pc B ⊕ AsyncChannel.Reply B) × AsyncChannel.Event B) :=
  match AsyncChannel.act p.ingest_channel_ call choice with
  | some (channel, _, .returned reply) => some ({ p with ingest_channel_ := channel }, .inr reply, .returned reply)
  | some (channel, after, event) => some ({ p with ingest_channel_ := channel }, .inl after, event)
  | none => none

def Choice.inChannel : Choice B → Option (AsyncChannel.Choice B)
  | .proceed => some .proceed
  | .deadline => some .deadline
  | _ => none

/-- One atomic action of a thread of the pipeline. -/
def act (setup : Setup B) (p : Pipeline B) : Pc B → Choice B → Option (Pipeline B × Pc B × Event B)
  | .stop stage, choice => (stop setup p stage choice).map fun (next, after, event) => (next, .stop after, event)
  | .loopTest, .proceed =>
    if p.running_ then some (p, .dequeue (.dequeuePop 0), .channel (.called .Dequeue))
    else some (p, .drainTest, .local)
  | .drainTest, .proceed => some (p, .drain .tryDequeuePop, .channel (.called .TryDequeue))
  | .dequeue call, choice => do
    match ← p.inChannel call (← choice.inChannel) with
    | (next, .inl after, event) => some (next, .dequeue after, .channel event)
    | (next, .inr (.dequeue (some item)), event) => some (next, .work (dispatch item) .loop, .channel event)
    | (next, .inr _, event) => some (next, .loopTest, .channel event)
  | .work work resume, choice => do
    match ← handle setup p work choice with
    | (next, some after, event) => some (next, .work after resume, event)
    | (next, none, event) =>
      match resume with
      | .loop => some (next, .loopTest, event)
      | .drain => some (next, .drainTest, event)
      | .finish => some ({ next with process_thread_ := .exited }, .exited, event)
  | .drain call, choice => do
    match ← p.inChannel call (← choice.inChannel) with
    | (next, .inl (.returning (.dequeue none)), event) =>
      some ({ next with process_thread_ := .drained }, .drain (.returning (.dequeue none)), .channel event)
    | (next, .inl after, event) => some (next, .drain after, .channel event)
    | (next, .inr (.dequeue (some item)), event) => some (next, .work (dispatch item) .drain, .channel event)
    | (next, .inr _, event) =>
      if setup.aggregator_ then some (next, .work .flush .finish, .channel event)
      else some ({ next with process_thread_ := .exited }, .exited, .channel event)
  | .outside, .Enqueue batch =>
    if p.sourceStopped then none
    else if setup.Empty batch then some (p, .outside, .local)
    else some ({ p with enqueueing := p.enqueueing + 1 }, .enqueue (.enqueuePush batch),
      .channel (.called (.TryEnqueue batch)))
  | .enqueue call, .proceed => do
    match ← p.inChannel call .proceed with
    | (next, .inl after, event) => some (next, .enqueue after, .channel event)
    | (next, .inr _, event) => some (next, .observe, .channel event)
  | .observe, .proceed => some (p, .compare p.ingest_channel_.IsBackpressured, .local)
  | .compare bp, .proceed =>
    if bp ≠ p.last_backpressure_state_ then some (p, .store bp, .local)
    else some ({ p with enqueueing := p.enqueueing - 1 }, .outside, .local)
  | .store bp, .proceed => some ({ p with last_backpressure_state_ := bp }, .notify bp, .local)
  | .notify bp, .proceed => some ({ p with enqueueing := p.enqueueing - 1 }, .outside, .backpressure bp)
  | .outside, .InjectFlush =>
    if p.running_ then some (p, .inject .flushPush, .channel (.called .InjectFlush))
    else some (p, .outside, .local)
  -- the task that `SubmitToSinks` gave the pool has had an error status from its `Write`
  | .outside, .failed => some ({ p with error_count_ := p.error_count_ + 1 }, .outside, .local)
  | .inject call, .proceed => do
    match ← p.inChannel call .proceed with
    | (next, .inl after, event) => some (next, .inject after, .channel event)
    | (next, .inr _, event) => some (next, .outside, .channel event)
  | _, _ => none

/-- The threads of a pipeline: the one that calls `Stop`, the process thread, and any number that
enqueue or inject. -/
inductive Party (ι : Type*) where
  | main
  | process
  | producer (index : ι)
  deriving DecidableEq

def program (setup : Setup B) : Interleaving.Program (Pipeline B) (Pc B) (Choice B) (Event B) := ⟨act setup⟩

/-- Where each thread stands when `Start` has returned. -/
def Party.start {ι : Type*} : Party ι → Pc B
  | .main => .stop .idle
  | .process => .loopTest
  | .producer _ => .outside

/-- A pipeline whose `Start` has just returned `Ok`. -/
def started (channel : AsyncChannel B) : Pipeline B where
  running_ := true
  ingest_channel_ := channel
  process_thread_ := .running
  last_backpressure_state_ := false
  batches_processed_ := 0
  records_processed_ := 0
  error_count_ := 0
  enqueueing := 0
  sourceStopped := false

/-- A pipeline whose `Start` has failed or was not called: it has no process thread, and its source
has no callback. -/
def unstarted (channel : AsyncChannel B) : Pipeline B :=
  { started channel with running_ := false, process_thread_ := .exited, sourceStopped := true }

/-- Where each thread of an unstarted pipeline stands. -/
def Party.absent {ι : Type*} : Party ι → Pc B
  | .main => .stop .idle
  | .process => .exited
  | .producer _ => .outside

def initial (ι : Type*) (capacity : UInt64) (slots : 2 ≤ (roundUpPow2 capacity).toNat) (policy : DropPolicy)
    (high_wm low_wm : ℚ) : Interleaving.State (Pipeline B) (Pc B) (Party ι) :=
  ⟨started (.make capacity slots policy high_wm low_wm), Party.start⟩

end Pipeline

end Illuminator
