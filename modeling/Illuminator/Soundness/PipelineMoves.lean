import Illuminator.Model.Pipeline
import Illuminator.Soundness.FlushDelivery

/-! # What a pipeline's threads can do

Every action of a pipeline thread is one of the moves listed here, each with its guard. A thread
inside a channel call makes that call's actions, so a pipeline run seen at its channel is a run of
the channel and inherits its laws. The moves also keep each thread to its own part of the program,
and the process thread's progress to what its control state says.
-/

namespace Illuminator

/-- The batch an item carries. -/
def ChannelItem.batches {B : Type*} : ChannelItem B → List B
  | .batch carried => [carried]
  | .flush => []

namespace AsyncChannel

variable {B : Type*}

/-- The call a thread is in. -/
inductive Kind where
  | enqueue
  | inject
  | dequeue
  deriving DecidableEq

def Reply.kind : Reply B → Kind
  | .enqueue _ _ => .enqueue
  | .inject _ => .inject
  | .dequeue _ => .dequeue

def Pc.kind : Pc B → Option Kind
  | .idle => none
  | .enqueuePush _ | .enqueueEvict _ | .enqueueEvicted _ | .enqueueRetry _ | .enqueueCount _ | .enqueueDrop _ =>
    some .enqueue
  | .flushPush | .flushEvict | .flushEvicted | .flushRetry | .flushCount => some .inject
  | .dequeuePop _ | .tryDequeuePop | .dequeueCount _ => some .dequeue
  | .pressure _ reply | .returning reply => some reply.kind

/-- The batch a dequeuing thread has taken and not yet returned. -/
def Reply.holding : Reply B → List B
  | .dequeue (some item) => item.batches
  | _ => []

def Pc.holding : Pc B → List B
  | .dequeueCount item => item.batches
  | .pressure _ reply | .returning reply => reply.holding
  | _ => []

/-- The batches an event takes out of the queue for its caller. -/
def Event.took : Event B → List B
  | .taken item => item.batches
  | _ => []

variable [Inhabited B]

/-- A call that is not about to return goes on as the same kind of call. -/
theorem act_kind {ch next : AsyncChannel B} {pc after : Pc B} {choice : Choice B} {event : Event B}
    (enabled : act ch pc choice = some (next, after, event)) (busy : ∀ reply, pc ≠ .returning reply)
    {kind : Kind} (within : pc.kind = some kind) : after.kind = some kind := by
  unfold act at enabled
  repeat' split at enabled
  all_goals cases enabled
  all_goals first
    | exact within
    | exact absurd rfl (busy _)
    | cases within

/-- What a call takes it holds until it returns. -/
theorem act_holding {ch next : AsyncChannel B} {pc after : Pc B} {choice : Choice B} {event : Event B}
    (enabled : act ch pc choice = some (next, after, event)) (busy : ∀ reply, pc ≠ .returning reply) :
    pc.holding ++ event.took = after.holding := by
  unfold act at enabled
  repeat' split at enabled
  all_goals cases enabled
  all_goals first
    | rfl
    | exact List.append_nil _
    | exact absurd rfl (busy _)
    | (rcases pressure_event ‹_› with rfl | rfl | ⟨_, _, rfl⟩ <;> exact List.append_nil _)

/-- Only a dequeuing call takes. -/
theorem act_took {ch next : AsyncChannel B} {pc after : Pc B} {choice : Choice B} {event : Event B}
    (enabled : act ch pc choice = some (next, after, event)) {kind : Kind} (within : pc.kind = some kind)
    (other : kind ≠ .dequeue) : event.took = [] := by
  unfold act at enabled
  repeat' split at enabled
  all_goals cases enabled
  all_goals first
    | rfl
    | (rcases pressure_event ‹_› with rfl | rfl | ⟨_, _, rfl⟩ <;> rfl)
    | exact absurd (Option.some.inj within).symm other

/-- A `TryDequeue` call, which holds an item once it is past the queue. -/
def Pc.Draining : Pc B → Prop
  | .tryDequeuePop | .dequeueCount _ | .pressure _ (.dequeue (some _)) | .returning (.dequeue _) => True
  | _ => False

omit [Inhabited B] in
theorem Pc.Draining.kind {pc : Pc B} (draining : pc.Draining) : pc.kind = some .dequeue := by
  unfold Draining at draining
  split at draining
  all_goals first
    | rfl
    | exact draining.elim

private theorem empty_of_tryPop {ch next : AsyncChannel B} (called : ch.tryPop = (next, none)) :
    next.queue_.items = [] := by
  have missed : (ch.queue_.TryPop .movedFrom).2 = none := congrArg Prod.snd called
  have same : next = ch.tryPop.1 := congrArg Prod.fst called.symm
  rw [same]
  exact (SettledQueue.items_of_empty (Prod.ext rfl missed)).2

/-- A `TryDequeue` that has not returned goes on draining, and one that finds nothing has found the
queue empty. -/
theorem act_draining {ch next : AsyncChannel B} {pc after : Pc B} {choice : Choice B} {event : Event B}
    (enabled : act ch pc choice = some (next, after, event)) (busy : ∀ reply, pc ≠ .returning reply)
    (draining : pc.Draining) :
    after.Draining ∧ (after = .returning (.dequeue none) → next.queue_.items = []) := by
  cases pc with
  | tryDequeuePop =>
    cases choice with
    | proceed =>
      simp only [act] at enabled
      split at enabled
      · cases enabled
        exact ⟨trivial, nofun⟩
      · next after' popped =>
        cases enabled
        exact ⟨trivial, fun _ => empty_of_tryPop popped⟩
    | _ => cases enabled
  | dequeueCount item =>
    cases choice with
    | proceed =>
      cases enabled
      exact ⟨trivial, nofun⟩
    | _ => cases enabled
  | pressure stage reply =>
    rcases reply with _ | _ | ⟨_ | item⟩
    case dequeue.some =>
      cases choice with
      | proceed =>
        simp only [act] at enabled
        split at enabled
        all_goals
          cases enabled
          exact ⟨trivial, nofun⟩
      | _ => cases enabled
    all_goals exact draining.elim
  | returning reply => exact absurd rfl (busy reply)
  | _ => exact draining.elim

/-- Only a `TryEnqueue` that pushes enters a batch. -/
theorem act_enters {ch next : AsyncChannel B} {pc after : Pc B} {choice : Choice B} {event : Event B}
    (enabled : act ch pc choice = some (next, after, event)) {item : ChannelItem B} (enters : item ∈ event.gain) :
    item = .flush ∨ ∃ batch, pc = .enqueuePush batch ∨ pc = .enqueueRetry batch := by
  unfold act at enabled
  repeat' split at enabled
  all_goals cases enabled
  all_goals first
    | exact absurd enters List.not_mem_nil
    | exact Or.inl (List.mem_singleton.mp enters)
    | exact Or.inr ⟨_, Or.inl rfl⟩
    | exact Or.inr ⟨_, Or.inr rfl⟩
    | (rcases pressure_event ‹_› with rfl | rfl | ⟨_, _, rfl⟩ <;> exact absurd enters List.not_mem_nil)

/-- A call begins only outside the channel. -/
theorem act_called {ch next : AsyncChannel B} {pc after : Pc B} {choice : Choice B} {call : Call B}
    (enabled : act ch pc choice = some (next, after, .called call)) : pc = .idle := by
  unfold act at enabled
  repeat' split at enabled
  all_goals cases enabled
  all_goals first
    | rfl
    | (rcases pressure_event ‹_› with same | same | ⟨_, _, same⟩ <;> cases same)

end AsyncChannel

namespace Pipeline

variable {B : Type*} [Inhabited B]

/-- The four places from which a pipeline's threads call the channel. -/
inductive Caller where
  | dequeue
  | drain
  | enqueue
  | inject
  deriving DecidableEq

def Caller.pc : Caller → AsyncChannel.Pc B → Pc B
  | .dequeue => .dequeue
  | .drain => .drain
  | .enqueue => .enqueue
  | .inject => .inject

def Caller.kind : Caller → AsyncChannel.Kind
  | .dequeue | .drain => .dequeue
  | .enqueue => .enqueue
  | .inject => .inject

/-- The process thread's progress after an action inside a call: the drain is over once its
`TryDequeue` has found nothing. -/
def Caller.progress : Caller → AsyncChannel.Pc B → ProcessThread → ProcessThread
  | .drain, .returning (.dequeue none), _ => .drained
  | _, _, thread => thread

/-- The moves of a pipeline's threads. -/
inductive Move (setup : Setup B) (p : Pipeline B) : Pc B → Pipeline B → Pc B → Event B → Prop
  | stop {stage after : StopStage} {next : Pipeline B} {choice : Choice B} {event : Event B}
      (stops : Pipeline.stop setup p stage choice = some (next, after, event)) :
      Move setup p (.stop stage) next (.stop after) event
  | dequeues (running : p.running_ = true) :
      Move setup p .loopTest p (.dequeue (.dequeuePop 0)) (.channel (.called .Dequeue))
  | leaves (stopped : p.running_ = false) : Move setup p .loopTest p .drainTest .local
  | drains : Move setup p .drainTest p (.drain .tryDequeuePop) (.channel (.called .TryDequeue))
  | inside {caller : Caller} {call after : AsyncChannel.Pc B} {choice : AsyncChannel.Choice B}
      {channel : AsyncChannel B} {event : AsyncChannel.Event B}
      (acts : AsyncChannel.act p.ingest_channel_ call choice = some (channel, after, event))
      (busy : ∀ reply, call ≠ .returning reply) :
      Move setup p (caller.pc call)
        { p with
          ingest_channel_ := channel
          process_thread_ := caller.progress after p.process_thread_ }
        (caller.pc after) (.channel event)
  | dequeued (item : ChannelItem B) :
      Move setup p (.dequeue (.returning (.dequeue (some item)))) p (.work (dispatch item) .loop)
        (.channel (.returned (.dequeue (some item))))
  | timedOut (reply : AsyncChannel.Reply B) (nothing : ∀ item, reply ≠ .dequeue (some item)) :
      Move setup p (.dequeue (.returning reply)) p .loopTest (.channel (.returned reply))
  | drained (item : ChannelItem B) :
      Move setup p (.drain (.returning (.dequeue (some item)))) p (.work (dispatch item) .drain)
        (.channel (.returned (.dequeue (some item))))
  | finishes (reply : AsyncChannel.Reply B) (nothing : ∀ item, reply ≠ .dequeue (some item))
      (aggregates : setup.aggregator_ = true) :
      Move setup p (.drain (.returning reply)) p (.work .flush .finish) (.channel (.returned reply))
  | ends (reply : AsyncChannel.Reply B) (nothing : ∀ item, reply ≠ .dequeue (some item))
      (direct : setup.aggregator_ = false) :
      Move setup p (.drain (.returning reply)) { p with process_thread_ := .exited } .exited
        (.channel (.returned reply))
  | works {work after : Work B} {resume : Resume} {next : Pipeline B} {choice : Choice B} {event : Event B}
      (handles : handle setup p work choice = some (next, some after, event)) :
      Move setup p (.work work resume) next (.work after resume) event
  | loops {work : Work B} {next : Pipeline B} {choice : Choice B} {event : Event B}
      (handles : handle setup p work choice = some (next, none, event)) :
      Move setup p (.work work .loop) next .loopTest event
  | resumes {work : Work B} {next : Pipeline B} {choice : Choice B} {event : Event B}
      (handles : handle setup p work choice = some (next, none, event)) :
      Move setup p (.work work .drain) next .drainTest event
  | exits {work : Work B} {next : Pipeline B} {choice : Choice B} {event : Event B}
      (handles : handle setup p work choice = some (next, none, event)) :
      Move setup p (.work work .finish) { next with process_thread_ := .exited } .exited event
  | passes : Move setup p .outside p .outside .local
  | enqueues (batch : B) (open_ : p.sourceStopped = false) (some : setup.Empty batch = false) :
      Move setup p .outside { p with enqueueing := p.enqueueing + 1 } (.enqueue (.enqueuePush batch))
        (.channel (.called (.TryEnqueue batch)))
  | injects (running : p.running_ = true) :
      Move setup p .outside p (.inject .flushPush) (.channel (.called .InjectFlush))
  | fails : Move setup p .outside { p with error_count_ := p.error_count_ + 1 } .outside .local
  | enqueued (reply : AsyncChannel.Reply B) :
      Move setup p (.enqueue (.returning reply)) p .observe (.channel (.returned reply))
  | injected (reply : AsyncChannel.Reply B) :
      Move setup p (.inject (.returning reply)) p .outside (.channel (.returned reply))
  | observes : Move setup p .observe p (.compare p.ingest_channel_.IsBackpressured) .local
  | differs (bp : Bool) (changed : bp ≠ p.last_backpressure_state_) : Move setup p (.compare bp) p (.store bp) .local
  | agrees (bp : Bool) (same : bp = p.last_backpressure_state_) :
      Move setup p (.compare bp) { p with enqueueing := p.enqueueing - 1 } .outside .local
  | stores (bp : Bool) : Move setup p (.store bp) { p with last_backpressure_state_ := bp } (.notify bp) .local
  | notifies (bp : Bool) :
      Move setup p (.notify bp) { p with enqueueing := p.enqueueing - 1 } .outside (.backpressure bp)

private theorem act_returning {ch next : AsyncChannel B} {call after : AsyncChannel.Pc B}
    {choice : AsyncChannel.Choice B} {reply : AsyncChannel.Reply B}
    (acts : AsyncChannel.act ch call choice = some (next, after, .returned reply)) :
    call = .returning reply ∧ next = ch := by
  unfold AsyncChannel.act at acts
  repeat' split at acts
  all_goals cases acts
  · rcases AsyncChannel.pressure_event ‹_› with same | same | ⟨_, _, same⟩ <;> cases same
  · rcases AsyncChannel.pressure_event ‹_› with same | same | ⟨_, _, same⟩ <;> cases same
  · exact ⟨rfl, rfl⟩

private theorem act_busy {ch next : AsyncChannel B} {call after : AsyncChannel.Pc B}
    {choice : AsyncChannel.Choice B} {event : AsyncChannel.Event B}
    (acts : AsyncChannel.act ch call choice = some (next, after, event))
    (other : ∀ reply, event ≠ .returned reply) (reply : AsyncChannel.Reply B) : call ≠ .returning reply := by
  rintro rfl
  cases choice with
  | proceed =>
    cases acts
    exact other reply rfl
  | call => cases acts
  | deadline => cases acts

/-- An action inside the channel either ends its call or goes on with it. -/
theorem inChannel_cases {p next : Pipeline B} {call : AsyncChannel.Pc B} {choice : AsyncChannel.Choice B}
    {result : AsyncChannel.Pc B ⊕ AsyncChannel.Reply B} {event : AsyncChannel.Event B}
    (acts : p.inChannel call choice = some (next, result, event)) :
    (∃ reply, call = .returning reply ∧ next = p ∧ result = .inr reply ∧ event = .returned reply) ∨
      ∃ channel after, AsyncChannel.act p.ingest_channel_ call choice = some (channel, after, event) ∧
        (∀ reply, call ≠ .returning reply) ∧ next = { p with ingest_channel_ := channel } ∧ result = .inl after := by
  unfold inChannel at acts
  split at acts
  · next channel after reply called =>
    cases acts
    obtain ⟨rfl, rfl⟩ := act_returning called
    exact Or.inl ⟨reply, rfl, rfl, rfl, rfl⟩
  · next channel after event' other called =>
    cases acts
    exact Or.inr ⟨channel, after, called, act_busy called fun reply same => other reply same, rfl, rfl⟩
  · contradiction

/-- Every enabled action is a move. -/
theorem act_move {setup : Setup B} {p next : Pipeline B} {pc after : Pc B} {choice : Choice B} {event : Event B}
    (enabled : act setup p pc choice = some (next, after, event)) : Move setup p pc next after event := by
  cases pc with
  | stop stage =>
    obtain ⟨⟨_, _, _⟩, stops, same⟩ := Option.map_eq_some_iff.mp enabled
    cases same
    exact .stop stops
  | loopTest =>
    cases choice with
    | proceed =>
      simp only [act] at enabled
      split_ifs at enabled with running
      · cases enabled
        exact .dequeues running
      · cases enabled
        exact .leaves (Bool.eq_false_iff.mpr running)
    | _ => cases enabled
  | drainTest =>
    cases choice with
    | proceed =>
      cases enabled
      exact .drains
    | _ => cases enabled
  | dequeue call =>
    simp only [act, bind, Option.bind_eq_some_iff] at enabled
    obtain ⟨choice', _, ⟨next', result, event'⟩, acts, enabled⟩ := enabled
    rcases inChannel_cases acts with ⟨reply, rfl, rfl, rfl, rfl⟩ | ⟨channel, call', steps, busy, rfl, rfl⟩
    · rcases reply with _ | _ | ⟨_ | item⟩
      case dequeue.some =>
        cases enabled
        exact .dequeued item
      all_goals
        cases enabled
        exact .timedOut _ (fun _ same => nomatch same)
    · cases enabled
      exact @Move.inside _ _ _ _ .dequeue _ _ _ _ _ steps busy
  | drain call =>
    simp only [act, bind, Option.bind_eq_some_iff] at enabled
    obtain ⟨choice', _, ⟨next', result, event'⟩, acts, enabled⟩ := enabled
    rcases inChannel_cases acts with ⟨reply, rfl, rfl, rfl, rfl⟩ | ⟨channel, call', steps, busy, rfl, rfl⟩
    · rcases reply with _ | _ | ⟨_ | item⟩
      case dequeue.some =>
        cases enabled
        exact .drained item
      all_goals
        simp only at enabled
        split_ifs at enabled with aggregates
        · cases enabled
          exact .finishes _ (fun _ same => nomatch same) aggregates
        · cases enabled
          exact .ends _ (fun _ same => nomatch same) (Bool.eq_false_iff.mpr aggregates)
    · have moved := @Move.inside _ _ setup _ .drain _ _ _ _ _ steps busy
      cases call' with
      | returning reply =>
        rcases reply with _ | _ | ⟨_ | item⟩
        all_goals
          cases enabled
          exact moved
      | _ =>
        cases enabled
        exact moved
  | work work resume =>
    simp only [act, bind, Option.bind_eq_some_iff] at enabled
    obtain ⟨⟨next', rest, event'⟩, handles, enabled⟩ := enabled
    cases rest with
    | some after =>
      cases enabled
      exact .works handles
    | none =>
      cases resume with
      | loop =>
        cases enabled
        exact .loops handles
      | drain =>
        cases enabled
        exact .resumes handles
      | finish =>
        cases enabled
        exact .exits handles
  | exited => cases enabled
  | outside =>
    cases choice with
    | Enqueue batch =>
      simp only [act] at enabled
      split_ifs at enabled with stopped empty
      · cases enabled
        exact .passes
      · cases enabled
        exact .enqueues batch (Bool.eq_false_iff.mpr stopped) (Bool.eq_false_iff.mpr empty)
    | InjectFlush =>
      simp only [act] at enabled
      split_ifs at enabled with running
      · cases enabled
        exact .injects running
      · cases enabled
        exact .passes
    | failed =>
      cases enabled
      exact .fails
    | _ => cases enabled
  | enqueue call =>
    cases choice with
    | proceed =>
      simp only [act, bind, Option.bind_eq_some_iff] at enabled
      obtain ⟨⟨next', result, event'⟩, acts, enabled⟩ := enabled
      rcases inChannel_cases acts with ⟨reply, rfl, rfl, rfl, rfl⟩ | ⟨channel, call', steps, busy, rfl, rfl⟩
      · cases enabled
        exact .enqueued reply
      · cases enabled
        exact @Move.inside _ _ _ _ .enqueue _ _ _ _ _ steps busy
    | _ => cases enabled
  | observe =>
    cases choice with
    | proceed =>
      cases enabled
      exact .observes
    | _ => cases enabled
  | compare bp =>
    cases choice with
    | proceed =>
      simp only [act] at enabled
      split_ifs at enabled with changed
      · cases enabled
        exact .differs bp changed
      · cases enabled
        exact .agrees bp (not_not.mp changed)
    | _ => cases enabled
  | store bp =>
    cases choice with
    | proceed =>
      cases enabled
      exact .stores bp
    | _ => cases enabled
  | notify bp =>
    cases choice with
    | proceed =>
      cases enabled
      exact .notifies bp
    | _ => cases enabled
  | inject call =>
    cases choice with
    | proceed =>
      simp only [act, bind, Option.bind_eq_some_iff] at enabled
      obtain ⟨⟨next', result, event'⟩, acts, enabled⟩ := enabled
      rcases inChannel_cases acts with ⟨reply, rfl, rfl, rfl, rfl⟩ | ⟨channel, call', steps, busy, rfl, rfl⟩
      · cases enabled
        exact .injected reply
      · cases enabled
        exact @Move.inside _ _ _ _ .inject _ _ _ _ _ steps busy
    | _ => cases enabled

/-- The channel's part of an event. -/
def Event.channel? : Event B → Option (AsyncChannel.Event B)
  | .channel event => some event
  | _ => none

/-- Where a thread stands inside the channel. -/
def Pc.call : Pc B → AsyncChannel.Pc B
  | .dequeue call | .drain call | .enqueue call | .inject call => call
  | _ => .idle

omit [Inhabited B] in
@[simp] theorem Caller.pc_call (caller : Caller) (call : AsyncChannel.Pc B) : (caller.pc call).call = call := by
  cases caller <;> rfl

/-- The events of `Stop`. -/
def Event.ofStop : Event B → Bool
  | .local | .sourceStopped | .joined | .processorStopped _ | .aggregatorStopped | .sinkFlushed _ | .sinkStopped _
  | .stopReturned => true
  | _ => false

omit [Inhabited B] in
/-- `Stop` leaves the channel, the process thread and the reports alone. -/
theorem stop_frame {setup : Setup B} {p next : Pipeline B} {stage after : StopStage} {choice : Choice B}
    {event : Event B} (stops : stop setup p stage choice = some (next, after, event)) :
    next.ingest_channel_ = p.ingest_channel_ ∧ next.process_thread_ = p.process_thread_ ∧ event.channel? = none ∧
      next.last_backpressure_state_ = p.last_backpressure_state_ ∧ event.ofStop = true := by
  unfold stop at stops
  repeat' split at stops
  all_goals cases stops
  all_goals exact ⟨rfl, rfl, rfl, rfl, rfl⟩

omit [Inhabited B] in
/-- A handler leaves the channel, the threads' progress and `running_` alone. -/
theorem handle_frame {setup : Setup B} {p next : Pipeline B} {work : Work B} {after : Option (Work B)}
    {choice : Choice B} {event : Event B} (handles : handle setup p work choice = some (next, after, event)) :
    next.ingest_channel_ = p.ingest_channel_ ∧ next.process_thread_ = p.process_thread_ ∧
      next.running_ = p.running_ ∧ event.channel? = none := by
  unfold handle at handles
  repeat' split at handles
  all_goals cases handles
  all_goals exact ⟨rfl, rfl, rfl, rfl⟩

/-- A move is an action of the channel, or leaves it alone. -/
theorem Move.simulates {setup : Setup B} {p next : Pipeline B} {pc after : Pc B} {event : Event B}
    (move : Move setup p pc next after event) :
    (event.channel? = none ∧ next.ingest_channel_ = p.ingest_channel_ ∧ after.call = pc.call) ∨
      ∃ choice event', event.channel? = some event' ∧
        AsyncChannel.act p.ingest_channel_ pc.call choice = some (next.ingest_channel_, after.call, event') := by
  cases move with
  | stop stops =>
    obtain ⟨channel, _, hidden, _⟩ := stop_frame stops
    exact Or.inl ⟨hidden, channel, rfl⟩
  | dequeues => exact Or.inr ⟨.call .Dequeue, _, rfl, rfl⟩
  | drains => exact Or.inr ⟨.call .TryDequeue, _, rfl, rfl⟩
  | enqueues batch => exact Or.inr ⟨.call (.TryEnqueue batch), _, rfl, rfl⟩
  | injects => exact Or.inr ⟨.call .InjectFlush, _, rfl, rfl⟩
  | inside acts =>
    rw [Caller.pc_call, Caller.pc_call]
    exact Or.inr ⟨_, _, rfl, acts⟩
  | dequeued => exact Or.inr ⟨.proceed, _, rfl, rfl⟩
  | timedOut => exact Or.inr ⟨.proceed, _, rfl, rfl⟩
  | drained => exact Or.inr ⟨.proceed, _, rfl, rfl⟩
  | finishes => exact Or.inr ⟨.proceed, _, rfl, rfl⟩
  | ends => exact Or.inr ⟨.proceed, _, rfl, rfl⟩
  | enqueued => exact Or.inr ⟨.proceed, _, rfl, rfl⟩
  | injected => exact Or.inr ⟨.proceed, _, rfl, rfl⟩
  | works handles =>
    obtain ⟨channel, _, _, hidden⟩ := handle_frame handles
    exact Or.inl ⟨hidden, channel, rfl⟩
  | loops handles =>
    obtain ⟨channel, _, _, hidden⟩ := handle_frame handles
    exact Or.inl ⟨hidden, channel, rfl⟩
  | resumes handles =>
    obtain ⟨channel, _, _, hidden⟩ := handle_frame handles
    exact Or.inl ⟨hidden, channel, rfl⟩
  | exits handles =>
    obtain ⟨channel, _, _, hidden⟩ := handle_frame handles
    exact Or.inl ⟨hidden, channel, rfl⟩
  | leaves => exact Or.inl ⟨rfl, rfl, rfl⟩
  | passes => exact Or.inl ⟨rfl, rfl, rfl⟩
  | fails => exact Or.inl ⟨rfl, rfl, rfl⟩
  | observes => exact Or.inl ⟨rfl, rfl, rfl⟩
  | differs => exact Or.inl ⟨rfl, rfl, rfl⟩
  | agrees => exact Or.inl ⟨rfl, rfl, rfl⟩
  | stores => exact Or.inl ⟨rfl, rfl, rfl⟩
  | notifies => exact Or.inl ⟨rfl, rfl, rfl⟩

/-- A thread other than the one that calls `Stop`. -/
def Pc.Working : Pc B → Prop
  | .stop _ => False
  | _ => True

omit [Inhabited B] in
private theorem handle_sourceStopped {setup : Setup B} {p next : Pipeline B} {work : Work B}
    {after : Option (Work B)} {choice : Choice B} {event : Event B}
    (handles : handle setup p work choice = some (next, after, event)) : next.sourceStopped = p.sourceStopped := by
  unfold handle at handles
  repeat' split at handles
  all_goals cases handles
  all_goals rfl

/-- Only `Stop` stops the source. -/
theorem act_working {setup : Setup B} {p next : Pipeline B} {pc after : Pc B} {choice : Choice B} {event : Event B}
    (enabled : act setup p pc choice = some (next, after, event)) (working : pc.Working) :
    after.Working ∧ next.sourceStopped = p.sourceStopped := by
  cases act_move enabled with
  | stop => exact working.elim
  | works handles => exact ⟨trivial, handle_sourceStopped handles⟩
  | loops handles => exact ⟨trivial, handle_sourceStopped handles⟩
  | resumes handles => exact ⟨trivial, handle_sourceStopped handles⟩
  | exits handles =>
    have kept := handle_sourceStopped handles
    exact ⟨trivial, kept⟩
  | @inside caller => cases caller <;> exact ⟨trivial, rfl⟩
  | _ => exact ⟨trivial, rfl⟩

private theorem act_pc_idle {setup : Setup B} {p : Pipeline B} (caller : Caller) (choice : Choice B) :
    act setup p (caller.pc .idle) choice = none := by
  cases caller <;> cases choice <;> rfl

/-- Only `Enqueue` offers a batch to the channel. -/
theorem outside_of_offer {setup : Setup B} {p next : Pipeline B} {pc after : Pc B} {choice : Choice B} {batch : B}
    (enabled : act setup p pc choice = some (next, after, .channel (.called (.TryEnqueue batch)))) :
    pc = .outside := by
  generalize shown : (Event.channel (.called (.TryEnqueue batch)) : Event B) = event at enabled
  cases act_move enabled with
  | enqueues => rfl
  | inside acts =>
    cases shown
    rw [AsyncChannel.act_called acts, act_pc_idle] at enabled
    cases enabled
  | stop stops =>
    rw [← shown] at stops
    cases (stop_frame stops).2.2.1
  | works handles =>
    rw [← shown] at handles
    cases (handle_frame handles).2.2.2
  | loops handles =>
    rw [← shown] at handles
    cases (handle_frame handles).2.2.2
  | resumes handles =>
    rw [← shown] at handles
    cases (handle_frame handles).2.2.2
  | exits handles =>
    rw [← shown] at handles
    cases (handle_frame handles).2.2.2
  | _ => cases shown

section Runs

open Interleaving

variable {ι : Type*} [DecidableEq ι] {setup : Setup B} {capacity : UInt64}
  {slots : 2 ≤ (roundUpPow2 capacity).toNat} {policy : DropPolicy} {high_wm low_wm : ℚ}
  {history : List (Party ι × Event B)} {target : State (Pipeline B) (Pc B) (Party ι)}

/-- The channel's part of a pipeline's history. -/
def channelHistory (history : List (Party ι × Event B)) : List (Party ι × AsyncChannel.Event B) :=
  history.filterMap fun entry => entry.2.channel?.map (Prod.mk entry.1)

/-- A pipeline's run, seen at its channel, is a run of the channel. -/
theorem run_channel (run : (program setup).Run (initial ι capacity slots policy high_wm low_wm) history target) :
    AsyncChannel.program.Run (AsyncChannel.initial (Party ι) capacity slots policy high_wm low_wm)
      (channelHistory history) (target.view Pipeline.ingest_channel_ Pc.call) := by
  have projected := run.project AsyncChannel.program Pipeline.ingest_channel_ Pc.call Event.channel?
    fun enabled => (act_move enabled).simulates
  have source : (initial ι capacity slots policy high_wm low_wm).view Pipeline.ingest_channel_ Pc.call =
      AsyncChannel.initial (B := B) (Party ι) capacity slots policy high_wm low_wm := by
    refine congrArg (State.mk _) (funext fun party => ?_)
    cases party <;> rfl
  rwa [source] at projected

end Runs

end Pipeline

end Illuminator
