import Illuminator.Model.AsyncChannel
import Mathlib.Tactic.Abel

/-! # Channel conservation

Every action changes the queue, the counters and the flag exactly as its event says, so along a run
the queue's contents and each counter are determined by the history. What an action has done but not
yet accounted for is a duty of its thread: a counter still to be bumped, or an answer still to be
given. Duties are incurred and settled by events and held in the control state between them, and
the ledger rule balances them in every state where no call is in progress.
-/

namespace Illuminator

namespace AsyncChannel

open Interleaving

variable {B τ : Type*}

/-- The items an event adds to the queue. -/
def Event.gain : Event B → List (ChannelItem B)
  | .entered item => [item]
  | _ => []

/-- The items an event removes from the queue. -/
def Event.loss : Event B → List (ChannelItem B)
  | .evicted item | .taken item => [item]
  | _ => []

/-- The counters after an event, given the counters before it. -/
def Event.stats (was : Stats) : Event B → Stats
  | .counted counter => was.bump counter
  | _ => was

/-- The flag after an event, given the flag before it. -/
def Event.flag (was : Bool) : Event B → Bool
  | .wrote _ new => new
  | _ => was

theorem tryPush_items {ch next : AsyncChannel B} {item : ChannelItem B} {ok : Bool}
    (called : ch.tryPush item = (next, ok)) :
    next.queue_.items = ch.queue_.items ++ (if ok then [item] else []) := by
  cases called
  change (ch.queue_.TryPush item).1.items = _ ++ if (ch.queue_.TryPush item).2 = true then _ else _
  split_ifs with pushed
  · exact SettledQueue.items_of_pushed (Prod.ext rfl pushed)
  · rw [List.append_nil]
    have refused : ch.queue_.TryPush item = ((ch.queue_.TryPush item).1, false) :=
      Prod.ext rfl (Bool.eq_false_iff.mpr pushed)
    exact SettledQueue.items_of_refused refused

theorem tryPush_rest {ch next : AsyncChannel B} {item : ChannelItem B} {ok : Bool}
    (called : ch.tryPush item = (next, ok)) :
    next.stats_ = ch.stats_ ∧ next.backpressured_ = ch.backpressured_ := by
  cases called
  exact ⟨rfl, rfl⟩

/-- What one action does to the channel, read off its event. -/
structure Effect (ch next : AsyncChannel B) (event : Event B) : Prop where
  items : ch.queue_.items ++ event.gain = event.loss ++ next.queue_.items
  stats : next.stats_ = event.stats ch.stats_
  flag : next.backpressured_ = event.flag ch.backpressured_
  honest : ∀ old new, event = .wrote old new → old = ch.backpressured_

/-- An event that leaves the channel's observable parts alone. -/
def Event.Plain (event : Event B) : Prop :=
  match event with
  | .local | .called _ | .refused _ | .returned _ => True
  | _ => False

theorem Effect.of_plain {ch next : AsyncChannel B} {event : Event B} (plain : event.Plain)
    (items : next.queue_.items = ch.queue_.items) (stats : next.stats_ = ch.stats_)
    (flag : next.backpressured_ = ch.backpressured_) : Effect ch next event := by
  have same := (List.append_nil _).trans items.symm
  cases event <;> first
    | exact plain.elim
    | exact ⟨same, stats, flag, fun _ _ written => nomatch written⟩

theorem Effect.of_counted (ch : AsyncChannel B) (counter : Counter) :
    Effect ch (ch.bump counter) (.counted counter) :=
  ⟨List.append_nil _, rfl, rfl, fun _ _ same => nomatch same⟩

theorem Effect.of_entered {ch next : AsyncChannel B} {item : ChannelItem B}
    (called : ch.tryPush item = (next, true)) : Effect ch next (.entered item) := by
  obtain ⟨stats, flag⟩ := tryPush_rest called
  exact ⟨(tryPush_items called).symm, stats, flag, fun _ _ same => nomatch same⟩

theorem Effect.of_refused {ch next : AsyncChannel B} {item : ChannelItem B}
    (called : ch.tryPush item = (next, false)) {event : Event B} (plain : event.Plain) :
    Effect ch next event := by
  obtain ⟨stats, flag⟩ := tryPush_rest called
  exact .of_plain plain ((tryPush_items called).trans (List.append_nil _)) stats flag

theorem Effect.of_pressure {ch next : AsyncChannel B} {stage : Pressure} {after : Option Pressure}
    {event : Event B} (called : ch.UpdateBackpressure stage = (next, after, event)) :
    Effect ch next event := by
  unfold UpdateBackpressure at called
  split at called
  · cases called
    exact .of_plain trivial rfl rfl rfl
  · cases called
    exact .of_plain trivial rfl rfl rfl
  · split_ifs at called with raised
    · cases called
      exact .of_plain trivial rfl rfl rfl
    · cases called
      refine ⟨List.append_nil _, rfl, rfl, ?_⟩
      rintro old new ⟨⟩
      exact (Bool.eq_false_iff.mpr raised).symm
  · cases called
    exact .of_counted ..
  · cases called
    exact .of_plain trivial rfl rfl rfl
  · cases called
    refine ⟨List.append_nil _, rfl, rfl, ?_⟩
    rintro old new ⟨⟩
    rfl

variable [Inhabited B]

theorem tryPop_items {ch next : AsyncChannel B} {result : Option (ChannelItem B)}
    (called : ch.tryPop = (next, result)) : ch.queue_.items = result.toList ++ next.queue_.items := by
  cases called
  cases popped : (ch.queue_.TryPop .movedFrom).2 with
  | some item => exact SettledQueue.items_of_popped (Prod.ext rfl popped)
  | none =>
    obtain ⟨empty, still⟩ := SettledQueue.items_of_empty (Prod.ext rfl popped)
    exact empty.trans still.symm

theorem tryPop_rest {ch next : AsyncChannel B} {result : Option (ChannelItem B)}
    (called : ch.tryPop = (next, result)) :
    next.stats_ = ch.stats_ ∧ next.backpressured_ = ch.backpressured_ := by
  cases called
  exact ⟨rfl, rfl⟩

theorem Effect.of_popped {ch next : AsyncChannel B} {item : ChannelItem B}
    (called : ch.tryPop = (next, some item)) {event : Event B} (kind : event = .evicted item ∨ event = .taken item) :
    Effect ch next event := by
  obtain ⟨stats, flag⟩ := tryPop_rest called
  have items := (List.append_nil _).trans (tryPop_items called)
  rcases kind with rfl | rfl
  · exact ⟨items, stats, flag, fun _ _ same => nomatch same⟩
  · exact ⟨items, stats, flag, fun _ _ same => nomatch same⟩

theorem Effect.of_missed {ch next : AsyncChannel B} (called : ch.tryPop = (next, none))
    {event : Event B} (plain : event.Plain) : Effect ch next event := by
  obtain ⟨stats, flag⟩ := tryPop_rest called
  exact .of_plain plain (tryPop_items called).symm stats flag

/-- Every enabled action has the effect its event describes. -/
theorem act_effect {ch next : AsyncChannel B} {pc after : Pc B} {choice : Choice B} {event : Event B}
    (enabled : act ch pc choice = some (next, after, event)) : Effect ch next event := by
  unfold act at enabled
  repeat' split at enabled
  all_goals cases enabled
  all_goals first
    | exact .of_plain trivial rfl rfl rfl
    | exact .of_counted ..
    | exact .of_entered ‹_›
    | exact .of_refused ‹_› trivial
    | exact .of_popped ‹_› (by simp)
    | exact .of_missed ‹_› trivial
    | exact .of_pressure ‹_›

/-- What a thread must still do before its call is over. -/
inductive Duty where
  | bump (counter : Counter)
  | answer
  | accept
  | reject
  deriving DecidableEq

def Event.incurred : Event B → Multiset Duty
  | .called (.TryEnqueue _) => {.answer}
  | .entered (.batch _) => {.bump .enqueued} + {.accept}
  | .entered .flush => {.bump .flush_injected}
  | .evicted _ => {.bump .dropped}
  | .taken _ => {.bump .dequeued}
  | .refused _ => {.bump .dropped} + {.reject}
  | .wrote false true => {.bump .backpressure_events}
  | _ => 0

def Event.settled : Event B → Multiset Duty
  | .counted counter => {.bump counter}
  | .returned (.enqueue _ true) => {.answer} + {.accept}
  | .returned (.enqueue _ false) => {.answer} + {.reject}
  | _ => 0

def Reply.owed : Reply B → Multiset Duty
  | .enqueue _ true => {.answer} + {.accept}
  | .enqueue _ false => {.answer} + {.reject}
  | _ => 0

def Pressure.owed : Pressure → Multiset Duty
  | .count => {.bump .backpressure_events}
  | _ => 0

def Pc.owed : Pc B → Multiset Duty
  | .enqueuePush _ | .enqueueEvict _ | .enqueueRetry _ => {.answer}
  | .enqueueEvicted _ => {.answer} + {.bump .dropped}
  | .enqueueCount _ => {.answer} + {.accept} + {.bump .enqueued}
  | .enqueueDrop _ => {.answer} + {.reject} + {.bump .dropped}
  | .flushEvicted => {.bump .dropped}
  | .flushCount => {.bump .flush_injected}
  | .dequeueCount _ => {.bump .dequeued}
  | .pressure stage reply => stage.owed + reply.owed
  | .returning reply => reply.owed
  | _ => 0

omit [Inhabited B] in
theorem pressure_balanced {ch next : AsyncChannel B} {stage : Pressure} {after : Option Pressure}
    {event : Event B} (called : ch.UpdateBackpressure stage = (next, after, event)) :
    stage.owed + event.incurred = event.settled + after.elim 0 Pressure.owed := by
  unfold UpdateBackpressure at called
  split at called
  · cases called
    split_ifs <;> rfl
  · cases called
    split_ifs <;> rfl
  · split_ifs at called with raised
    · cases called
      rfl
    · cases called
      rfl
  · cases called
    rfl
  · cases called
    split_ifs <;> rfl
  · cases called
    cases ch.backpressured_ <;> rfl

omit [Inhabited B] in
private theorem returned_settled (reply : Reply B) : (Event.returned reply).settled = reply.owed := by
  rcases reply with ⟨batch, _ | _⟩ | _ | _ <;> rfl

/-- Each action's duties are settled at once or left with its thread. -/
theorem act_balanced {ch next : AsyncChannel B} {pc after : Pc B} {choice : Choice B} {event : Event B}
    (enabled : act ch pc choice = some (next, after, event)) :
    pc.owed + event.incurred = event.settled + after.owed := by
  unfold act at enabled
  repeat' split at enabled
  all_goals cases enabled
  all_goals first
    | rfl
    | simp only [Pc.owed, Event.incurred, Event.settled, Reply.owed, Pressure.owed]
      abel1
    | skip
  · have balance := pressure_balanced ‹_›
    simp only [Pc.owed]
    rw [add_right_comm, balance, add_assoc]
    rfl
  · have balance := pressure_balanced ‹_›
    simp only [Pc.owed]
    rw [add_right_comm, balance, add_assoc]
    exact congrArg _ (zero_add _)
  · exact congrArg (· + 0) (returned_settled _).symm

/-- The batches an event of `TryEnqueue` puts into the queue. -/
def Event.batchEntered : Event B → List B
  | .entered (.batch batch) => [batch]
  | _ => []

/-- The batches for which an event returns true from `TryEnqueue`. -/
def Event.batchAccepted : Event B → List B
  | .returned (.enqueue batch true) => [batch]
  | _ => []

def Reply.accepting : Reply B → List B
  | .enqueue batch true => [batch]
  | _ => []

/-- The batch that is in the queue while its call has yet to return. -/
def Pc.accepting : Pc B → List B
  | .enqueueCount batch => [batch]
  | .pressure _ reply => reply.accepting
  | .returning reply => reply.accepting
  | _ => []

omit [Inhabited B] in
/-- `UpdateBackpressure` shows nothing but its flag and its counter. -/
theorem pressure_event {ch next : AsyncChannel B} {stage : Pressure} {after : Option Pressure}
    {event : Event B} (called : ch.UpdateBackpressure stage = (next, after, event)) :
    event = .local ∨ event = .counted .backpressure_events ∨ ∃ old new, event = .wrote old new := by
  unfold UpdateBackpressure at called
  repeat' split at called
  all_goals
    cases called
    simp

/-- An action that enters or accepts a batch moves it through its thread's control state. -/
theorem act_accepting {ch next : AsyncChannel B} {pc after : Pc B} {choice : Choice B} {event : Event B}
    (enabled : act ch pc choice = some (next, after, event)) :
    pc.accepting ++ event.batchEntered = event.batchAccepted ++ after.accepting := by
  unfold act at enabled
  repeat' split at enabled
  all_goals cases enabled
  all_goals first
    | rfl
    | skip
  · rcases pressure_event ‹_› with rfl | rfl | ⟨_, _, rfl⟩ <;> exact List.append_nil _
  · rcases pressure_event ‹_› with rfl | rfl | ⟨_, _, rfl⟩ <;> exact List.append_nil _
  · rename_i reply
    rcases reply with ⟨batch, _ | _⟩ | _ | _ <;> rfl

def Event.counts (counter : Counter) : Event B → Bool
  | .counted other => decide (other = counter)
  | _ => false

omit [Inhabited B] in
theorem Event.read_stats (event : Event B) (was : Stats) (counter : Counter) :
    (event.stats was).read counter = was.read counter + (event.counts counter).toNat := by
  cases event with
  | counted other =>
    rw [stats, Stats.read_bump, counts]
    split_ifs with same
    · rw [decide_eq_true same, Bool.toNat_true]
    · rw [decide_eq_false same, Bool.toNat_false]
  | _ => rfl

section Runs

variable [DecidableEq τ] {requested : UInt64} {slots : 2 ≤ (roundUpPow2 requested).toNat}
  {policy : DropPolicy} {high_wm low_wm : ℚ} {history : List (τ × Event B)}
  {target : State (AsyncChannel B) (Pc B) τ}

/-- The queue holds, in order, what has entered it and has not left. -/
theorem run_items (run : program.Run (initial τ requested slots policy high_wm low_wm) history target) :
    history.flatMap (fun entry => entry.2.gain) =
      history.flatMap (fun entry => entry.2.loss) ++ target.shared.queue_.items := by
  refine run.invariant (fun history s => history.flatMap (fun entry => entry.2.gain) =
    history.flatMap (fun entry => entry.2.loss) ++ s.shared.queue_.items) rfl ?_
  intro history s thread choice shared pc event ih enabled
  have items := (act_effect enabled).items
  simp only [List.flatMap_append, List.flatMap_cons, List.flatMap_nil, List.append_nil, State.move_shared]
  rw [ih, List.append_assoc, items, List.append_assoc]

/-- Each counter is the number of its updates. -/
theorem run_counter (run : program.Run (initial τ requested slots policy high_wm low_wm) history target)
    (counter : Counter) : target.shared.stats_.read counter = tally (Event.counts counter) history := by
  have fresh : (initial (B := B) τ requested slots policy high_wm low_wm).shared.stats_.read counter = 0 := by
    cases counter <;> rfl
  have counted := run.measure (fun ch => ch.stats_.read counter) (fun event => (event.counts counter).toNat)
    fun enabled => by rw [(act_effect enabled).stats, Event.read_stats]
  rw [counted, fresh, Nat.zero_add, sum_tally]

/-- In a state with no call in progress every duty of a history has been settled. -/
theorem run_settled (run : program.Run (initial τ requested slots policy high_wm low_wm) history target)
    (quiet : ∀ t, target.pc t = .idle) (duty : Duty) :
    (history.map fun entry => entry.2.incurred.count duty).sum =
      (history.map fun entry => entry.2.settled.count duty).sum := by
  have balance := congrArg (Multiset.count duty) (run.settled (fun _ pc => pc.owed)
    (fun _ event => event.incurred) (fun _ event => event.settled) (fun _ => rfl) act_balanced
    fun t => by rw [quiet t]; rfl)
  simpa only [← Multiset.coe_countAddMonoidHom, map_list_sum, List.map_map, Function.comp_def] using balance

/-- An item discarded to make room. -/
def Event.evicts : Event B → Bool
  | .evicted _ => true
  | _ => false

/-- The start of a `TryEnqueue` call. -/
def Event.enqueues : Event B → Bool
  | .called (.TryEnqueue _) => true
  | _ => false

/-- The end of a `TryEnqueue` call that returns false. -/
def Event.rejects : Event B → Bool
  | .returned (.enqueue _ false) => true
  | _ => false

/-- A false-to-true transition of the backpressure flag. -/
def Event.rises : Event B → Bool
  | .wrote false true => true
  | _ => false

/-- What an event shows, in terms of the duties it incurs and settles. -/
structure Event.Shown (event : Event B) : Prop where
  gain : event.gain.length = event.incurred.count (.bump .enqueued) + event.incurred.count (.bump .flush_injected)
  loss : event.loss.length = event.evicts.toNat + event.incurred.count (.bump .dequeued)
  dropped : event.incurred.count (.bump .dropped) = event.evicts.toNat + event.incurred.count .reject
  rejected : event.settled.count .reject = event.rejects.toNat
  asked : event.incurred.count .answer = event.enqueues.toNat
  answered : event.settled.count .answer = event.settled.count .accept + event.rejects.toNat
  accepted : event.incurred.count .accept = event.incurred.count (.bump .enqueued)
  raised : event.incurred.count (.bump .backpressure_events) = event.rises.toNat
  bumped : ∀ counter, event.settled.count (.bump counter) = (event.counts counter).toNat

omit [Inhabited B] in
theorem Event.shown (event : Event B) : event.Shown := by
  rcases event with _ | ⟨_ | _ | _ | _⟩ | ⟨_ | _⟩ | _ | _ | _ | counter | ⟨_ | _, _ | _⟩ | ⟨_, _ | _⟩ | _ | _
  all_goals
    constructor
    case bumped =>
      intro other
      first
      | (cases counter <;> cases other <;> rfl)
      | (cases other <;> rfl)
    all_goals rfl

omit [Inhabited B] [DecidableEq τ] in
private theorem total_add {f g h : Event B → ℕ} (pointwise : ∀ event, f event = g event + h event)
    (history : List (τ × Event B)) :
    (history.map fun entry => f entry.2).sum =
      (history.map fun entry => g entry.2).sum + (history.map fun entry => h entry.2).sum := by
  simp only [pointwise, List.sum_map_add]

/-- Each counter is the number of times it has been incurred. -/
theorem run_incurred (run : program.Run (initial τ requested slots policy high_wm low_wm) history target)
    (quiet : ∀ t, target.pc t = .idle) (counter : Counter) :
    (history.map fun entry => entry.2.incurred.count (.bump counter)).sum = target.shared.stats_.read counter := by
  rw [run_settled run quiet, run_counter run, ← sum_tally]
  simp only [(Event.shown _).bumped]

/-- What has entered the queue is what has left it and what it holds. -/
theorem run_length (run : program.Run (initial τ requested slots policy high_wm low_wm) history target) :
    (history.map fun entry => entry.2.gain.length).sum =
      (history.map fun entry => entry.2.loss.length).sum + target.shared.queue_.items.length := by
  have lengths := congrArg List.length (run_items run)
  simpa only [List.length_append, List.length_flatMap] using lengths

/-- Conservation in every state where no call is in progress: of items, of drops, of enqueue
calls and their answers, of accepted batches in each thread's order, and of backpressure events. -/
theorem channel_conservation
    (run : program.Run (initial τ requested slots policy high_wm low_wm) history target)
    (quiet : ∀ t, target.pc t = .idle) :
    let stats := target.shared.stats_
    stats.enqueued + stats.flush_injected =
        stats.dequeued + tally Event.evicts history + target.shared.queue_.items.length ∧
      stats.dropped = tally Event.evicts history + tally Event.rejects history ∧
      tally Event.enqueues history = stats.enqueued + tally Event.rejects history ∧
      (∀ t, (own t history).flatMap Event.batchEntered = (own t history).flatMap Event.batchAccepted) ∧
      stats.backpressure_events = tally Event.rises history := by
  have enqueued := run_incurred run quiet .enqueued
  have injected := run_incurred run quiet .flush_injected
  have dequeued := run_incurred run quiet .dequeued
  have dropped := run_incurred run quiet .dropped
  have raised := run_incurred run quiet .backpressure_events
  have rejected := run_settled run quiet .reject
  have answered := run_settled run quiet .answer
  have accepted := run_settled run quiet .accept
  have held := run_length run
  rw [total_add (fun event => event.shown.gain), total_add (fun event => event.shown.loss), enqueued,
    injected, dequeued, sum_tally] at held
  rw [total_add (fun event => event.shown.dropped), sum_tally, rejected] at dropped
  simp only [(Event.shown _).rejected, sum_tally] at dropped
  simp only [(Event.shown _).asked, sum_tally] at answered
  rw [total_add (fun event => event.shown.answered), ← accepted, sum_tally] at answered
  simp only [(Event.shown _).accepted, enqueued] at answered
  simp only [(Event.shown _).raised, sum_tally] at raised
  refine ⟨held.trans ?_, dropped.symm, answered, fun t => ?_, raised.symm⟩
  · exact congrArg (· + _) (Nat.add_comm ..)
  · have own := run.own_ledger Pc.accepting Event.batchEntered Event.batchAccepted t rfl act_accepting
    rw [quiet t] at own
    exact own.trans (List.append_nil _)

end Runs

/-- Two threads fill a channel of two and then both make room: each evicts one batch, one pushes
another, and the other injects a flush. -/
def crowded : List (Bool × Choice ℕ) :=
  [(false, .call (.TryEnqueue 1)), (true, .call (.TryEnqueue 2))] ++
    [false, false, true, true, false, false, true, false, true, true, true, false, false].map (·, .proceed) ++
    [(false, .call (.TryEnqueue 3)), (true, .call .InjectFlush)] ++
    [false, true, false, true, false, true, false, true, true, true, false, false, false, false].map (·, .proceed) ++
    [(true, .call .TryDequeue)] ++ List.replicate 5 (true, .proceed)

theorem channel_conservation_crowded :
    ∃ history target, (program (B := ℕ)).Run (initial Bool 2 (by decide) .kDropOldest (1 / 2) (1 / 2)) history target ∧
      (∀ t, target.pc t = .idle) ∧ tally Event.evicts history = 2 ∧ tally Event.rises history = 1 ∧
      let stats := target.shared.stats_
      stats.enqueued + stats.flush_injected =
          stats.dequeued + tally Event.evicts history + target.shared.queue_.items.length ∧
        stats.dropped = tally Event.evicts history + tally Event.rejects history ∧
        tally Event.enqueues history = stats.enqueued + tally Event.rejects history ∧
        (∀ t, (own t history).flatMap Event.batchEntered = (own t history).flatMap Event.batchAccepted) ∧
        stats.backpressure_events = tally Event.rises history := by
  obtain ⟨history, target, run, shown⟩ := Program.exists_run_of_replay?
    (fun (s : State (AsyncChannel ℕ) (Pc ℕ) Bool) history =>
      (s.pc false, s.pc true, tally Event.evicts history, tally Event.rises history))
    (show ((program (B := ℕ)).replay? (initial Bool 2 (by decide) .kDropOldest (1 / 2) (1 / 2)) crowded).map
      (fun result => (result.1.pc false, result.1.pc true, tally Event.evicts result.2,
        tally Event.rises result.2)) = some (.idle, .idle, 2, 1) by decide +kernel)
  simp only [Prod.mk.injEq] at shown
  obtain ⟨first, second, evicted, raised⟩ := shown
  have quiet : ∀ t, target.pc t = .idle := by
    intro t
    cases t
    · exact first
    · exact second
  exact ⟨history, target, run, quiet, evicted, raised, channel_conservation run quiet⟩

end AsyncChannel

end Illuminator
