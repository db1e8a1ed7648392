import Illuminator.Model.AsyncChannel

/-! # Uninterrupted channel calls

The calls of the channel as functions, for a caller that nobody interrupts. Each of them is a run of its
thread's atomic actions. A `Dequeue` that finds the channel empty finds it empty until its deadline.
-/

namespace Illuminator

namespace AsyncChannel

open Interleaving

variable {B : Type*} [Inhabited B]

/-- The whole of `UpdateBackpressure`. -/
def updated (ch : AsyncChannel B) : AsyncChannel B :=
  if ch.backpressured_ then
    if ch.queue_.ring.BelowLowWatermark ch.low_wm_ then { ch with backpressured_ := false } else ch
  else if ch.queue_.ring.AboveHighWatermark ch.high_wm_ then
    { ch with backpressured_ := true }.bump .backpressure_events
  else ch

/-- Popping one item to make room, which counts as dropped. -/
def evict (ch : AsyncChannel B) : AsyncChannel B :=
  match ch.tryPop with
  | (next, some _) => next.bump .dropped
  | (next, none) => next

def TryEnqueue (ch : AsyncChannel B) (batch : B) : AsyncChannel B × Bool :=
  match ch.tryPush (.batch batch) with
  | (next, true) => ((next.bump .enqueued).updated, true)
  | (next, false) =>
    match ch.drop_policy_ with
    | .kDropNewest => ((next.bump .dropped).updated, false)
    | .kDropOldest =>
      match next.evict.tryPush (.batch batch) with
      | (last, true) => ((last.bump .enqueued).updated, true)
      | (last, false) => ((last.bump .dropped).updated, false)

def InjectFlush (ch : AsyncChannel B) : AsyncChannel B × Bool :=
  match ch.tryPush .flush with
  | (next, true) => (next.bump .flush_injected, true)
  | (next, false) =>
    match next.evict.tryPush .flush with
    | (last, true) => (last.bump .flush_injected, true)
    | (last, false) => (last, false)

def TryDequeue (ch : AsyncChannel B) : AsyncChannel B × Option (ChannelItem B) :=
  match ch.tryPop with
  | (next, some item) => ((next.bump .dequeued).updated, some item)
  | (next, none) => (next, none)

def Dequeue (ch : AsyncChannel B) : AsyncChannel B × Option (ChannelItem B) := ch.TryDequeue

/-- A call, and its reply. -/
def perform (ch : AsyncChannel B) : Call B → AsyncChannel B × Reply B
  | .TryEnqueue batch => ((ch.TryEnqueue batch).1, .enqueue batch (ch.TryEnqueue batch).2)
  | .InjectFlush => (ch.InjectFlush.1, .inject ch.InjectFlush.2)
  | .Dequeue => (ch.Dequeue.1, .dequeue ch.Dequeue.2)
  | .TryDequeue => (ch.TryDequeue.1, .dequeue ch.TryDequeue.2)

/-- One call after another. -/
def performs (ch : AsyncChannel B) (calls : List (Call B)) : AsyncChannel B :=
  calls.foldl (fun ch call => (ch.perform call).1) ch

/-! ## The calls as runs of atomic actions -/

section Runs

variable {ch next last : AsyncChannel B} {batch : B} {reply : Reply B}

/-- A pop that finds nothing changes nothing. -/
theorem eq_of_tryPop_none (called : ch.tryPop = (next, none)) : next = ch := by
  have nothing : (ch.queue_.TryPop .movedFrom).2 = none := congrArg Prod.snd called
  have popped : ch.queue_.TryPop .movedFrom = ((ch.queue_.TryPop .movedFrom).1, none) := Prod.ext rfl nothing
  refine (congrArg Prod.fst called).symm.trans ?_
  rw [tryPop, SettledQueue.eq_of_empty popped]

theorem goes {pc after : Pc B} {event : Event B} (enabled : act ch pc .proceed = some (next, after, event)) :
    program.Solo ch pc next after :=
  .one enabled

theorem pressure_goes {stage after : Pressure} {event : Event B}
    (called : ch.UpdateBackpressure stage = (next, some after, event)) :
    program.Solo ch (.pressure stage reply) next (.pressure after reply) :=
  goes (act_pressure called)

theorem pressure_ends {stage : Pressure} {event : Event B}
    (called : ch.UpdateBackpressure stage = (next, none, event)) :
    program.Solo ch (.pressure stage reply) next (.returning reply) :=
  goes (act_pressure_last called)

theorem updated_solo (ch : AsyncChannel B) (reply : Reply B) :
    program.Solo ch (.pressure .load reply) ch.updated (.returning reply) := by
  unfold updated
  split_ifs with flag low high
  · have load : ch.UpdateBackpressure .load = (ch, some .low, .local) := by
      simp only [UpdateBackpressure, flag, ↓reduceIte]
    have compare : ch.UpdateBackpressure .low = (ch, some .clear, .local) := by
      simp only [UpdateBackpressure, low, ↓reduceIte]
    exact ((pressure_goes load).trans (pressure_goes compare)).trans (pressure_ends rfl)
  · have load : ch.UpdateBackpressure .load = (ch, some .low, .local) := by
      simp only [UpdateBackpressure, flag, ↓reduceIte]
    have compare : ch.UpdateBackpressure .low = (ch, none, .local) := by
      simp only [UpdateBackpressure, low, Bool.false_eq_true, ↓reduceIte]
    exact (pressure_goes load).trans (pressure_ends compare)
  · have load : ch.UpdateBackpressure .load = (ch, some .high, .local) := by
      simp only [UpdateBackpressure, flag, Bool.false_eq_true, ↓reduceIte]
    have compare : ch.UpdateBackpressure .high = (ch, some .raise, .local) := by
      simp only [UpdateBackpressure, high, ↓reduceIte]
    have raise : ch.UpdateBackpressure .raise = ({ ch with backpressured_ := true }, some .count, .wrote false true) := by
      simp only [UpdateBackpressure, flag, Bool.false_eq_true, ↓reduceIte]
    exact (((pressure_goes load).trans (pressure_goes compare)).trans (pressure_goes raise)).trans
      (pressure_ends rfl)
  · have load : ch.UpdateBackpressure .load = (ch, some .high, .local) := by
      simp only [UpdateBackpressure, flag, Bool.false_eq_true, ↓reduceIte]
    have compare : ch.UpdateBackpressure .high = (ch, none, .local) := by
      simp only [UpdateBackpressure, high, Bool.false_eq_true, ↓reduceIte]
    exact (pressure_goes load).trans (pressure_ends compare)

theorem enqueue_accepted (ch : AsyncChannel B) (batch : B) :
    program.Solo ch (.enqueueCount batch) (ch.bump .enqueued).updated (.returning (.enqueue batch true)) :=
  (goes rfl).trans (updated_solo ..)

theorem enqueue_dropped (ch : AsyncChannel B) (batch : B) :
    program.Solo ch (.enqueueDrop batch) (ch.bump .dropped).updated (.returning (.enqueue batch false)) :=
  (goes rfl).trans (updated_solo ..)

theorem dequeue_taken (ch : AsyncChannel B) (item : ChannelItem B) :
    program.Solo ch (.dequeueCount item) (ch.bump .dequeued).updated (.returning (.dequeue (some item))) :=
  (goes rfl).trans (updated_solo ..)

theorem enqueue_evicts (ch : AsyncChannel B) (batch : B) :
    program.Solo ch (.enqueueEvict batch) ch.evict (.enqueueRetry batch) := by
  unfold evict
  split
  · next next discarded popped =>
    have evicted : act ch (.enqueueEvict batch) .proceed =
        some (next, .enqueueEvicted batch, .evicted discarded) := by
      unfold act
      simp only [popped]
    exact (goes evicted).trans (goes rfl)
  · next next missed =>
    have empty : act ch (.enqueueEvict batch) .proceed = some (next, .enqueueRetry batch, .local) := by
      unfold act
      simp only [missed]
    exact goes empty

theorem flush_evicts (ch : AsyncChannel B) : program.Solo ch .flushEvict ch.evict .flushRetry := by
  unfold evict
  split
  · next next discarded popped =>
    have evicted : act ch .flushEvict .proceed = some (next, .flushEvicted, .evicted discarded) := by
      unfold act
      simp only [popped]
    exact (goes evicted).trans (goes rfl)
  · next next missed =>
    have empty : act ch .flushEvict .proceed = some (next, .flushRetry, .local) := by
      unfold act
      simp only [missed]
    exact goes empty

theorem TryEnqueue_solo (ch : AsyncChannel B) (batch : B) :
    program.Solo ch (.enqueuePush batch) (ch.TryEnqueue batch).1
      (.returning (.enqueue batch (ch.TryEnqueue batch).2)) := by
  unfold TryEnqueue
  split
  · next next pushed =>
    have entered : act ch (.enqueuePush batch) .proceed =
        some (next, .enqueueCount batch, .entered (.batch batch)) := by
      unfold act
      simp only [pushed]
    exact (goes entered).trans (enqueue_accepted next batch)
  · next next refused =>
    split
    · next newest =>
      have dropped : act ch (.enqueuePush batch) .proceed = some (next, .enqueueDrop batch, .refused batch) := by
        unfold act
        simp only [refused, newest]
      exact (goes dropped).trans (enqueue_dropped next batch)
    · next oldest =>
      have evicts : act ch (.enqueuePush batch) .proceed = some (next, .enqueueEvict batch, .local) := by
        unfold act
        simp only [refused, oldest]
      refine ((goes evicts).trans (enqueue_evicts next batch)).trans ?_
      split
      · next last pushed =>
        have entered : act next.evict (.enqueueRetry batch) .proceed =
            some (last, .enqueueCount batch, .entered (.batch batch)) := by
          unfold act
          simp only [pushed]
        exact (goes entered).trans (enqueue_accepted last batch)
      · next last again =>
        have dropped : act next.evict (.enqueueRetry batch) .proceed =
            some (last, .enqueueDrop batch, .refused batch) := by
          unfold act
          simp only [again]
        exact (goes dropped).trans (enqueue_dropped last batch)

theorem InjectFlush_solo (ch : AsyncChannel B) :
    program.Solo ch .flushPush ch.InjectFlush.1 (.returning (.inject ch.InjectFlush.2)) := by
  unfold InjectFlush
  split
  · next next pushed =>
    have entered : act ch .flushPush .proceed = some (next, .flushCount, .entered .flush) := by
      unfold act
      simp only [pushed]
    exact (goes entered).trans (goes rfl)
  · next next refused =>
    have evicts : act ch .flushPush .proceed = some (next, .flushEvict, .local) := by
      unfold act
      simp only [refused]
    refine ((goes evicts).trans (flush_evicts next)).trans ?_
    split
    · next last pushed =>
      have entered : act next.evict .flushRetry .proceed = some (last, .flushCount, .entered .flush) := by
        unfold act
        simp only [pushed]
      exact (goes entered).trans (goes rfl)
    · next last again =>
      have lost : act next.evict .flushRetry .proceed = some (last, .returning (.inject false), .local) := by
        unfold act
        simp only [again]
      exact goes lost

theorem TryDequeue_solo (ch : AsyncChannel B) :
    program.Solo ch .tryDequeuePop ch.TryDequeue.1 (.returning (.dequeue ch.TryDequeue.2)) := by
  unfold TryDequeue
  split
  · next next item popped =>
    have taken : act ch .tryDequeuePop .proceed = some (next, .dequeueCount item, .taken item) := by
      unfold act
      simp only [popped]
    exact (goes taken).trans (dequeue_taken next item)
  · next next missed =>
    have nothing : act ch .tryDequeuePop .proceed = some (next, .returning (.dequeue none), .local) := by
      unfold act
      simp only [missed]
    exact goes nothing

/-- Attempts on an empty channel come to nothing. -/
theorem dequeue_waits (missed : ch.tryPop = (ch, none)) (attempts more : ℕ) :
    program.Solo ch (.dequeuePop attempts) ch (.dequeuePop (attempts + more)) := by
  induction more with
  | zero => exact .refl ..
  | succ more ih =>
    have again : act ch (.dequeuePop (attempts + more)) .proceed =
        some (ch, .dequeuePop (attempts + (more + 1)), .local) := by
      unfold act
      simp only [missed, Nat.add_assoc]
    exact ih.trans (goes again)

theorem Dequeue_solo (ch : AsyncChannel B) :
    program.Solo ch (.dequeuePop 0) ch.Dequeue.1 (.returning (.dequeue ch.Dequeue.2)) := by
  unfold Dequeue TryDequeue
  split
  · next next item popped =>
    have taken : act ch (.dequeuePop 0) .proceed = some (next, .dequeueCount item, .taken item) := by
      unfold act
      simp only [popped]
    exact (goes taken).trans (dequeue_taken next item)
  · next next missed =>
    obtain rfl := eq_of_tryPop_none missed
    have expired : program.act next (.dequeuePop 24) .deadline = some (next, .returning (.dequeue none), .local) := rfl
    exact (dequeue_waits missed 0 24).trans (.one expired)

end Runs

/-- Where a call starts. -/
def Call.entry : Call B → Pc B
  | .TryEnqueue batch => .enqueuePush batch
  | .InjectFlush => .flushPush
  | .Dequeue => .dequeuePop 0
  | .TryDequeue => .tryDequeuePop

theorem perform_solo (ch : AsyncChannel B) (call : Call B) :
    program.Solo ch call.entry (ch.perform call).1 (.returning (ch.perform call).2) := by
  cases call with
  | TryEnqueue batch => exact TryEnqueue_solo ch batch
  | InjectFlush => exact InjectFlush_solo ch
  | Dequeue => exact Dequeue_solo ch
  | TryDequeue => exact TryDequeue_solo ch

/-- A call of an idle thread that nobody interrupts is a run of its atomic actions. -/
theorem perform_run {τ : Type*} [DecidableEq τ] {s : State (AsyncChannel B) (Pc B) τ} {thread : τ}
    (idle : s.pc thread = .idle) (call : Call B) :
    ∃ events : List (Event B),
      program.Run s (events.map (Prod.mk thread)) (s.move thread (s.shared.perform call).1 .idle) := by
  apply Program.Solo.run
  rw [idle]
  have called : program.act s.shared .idle (.call call) = some (s.shared, call.entry, .called call) := by
    cases call <;> rfl
  exact .step called ((perform_solo s.shared call).trans (goes rfl))

end AsyncChannel

end Illuminator
