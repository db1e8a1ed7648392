import Illuminator.Soundness.ContendedMoves

/-! # What each sink is written, without a pool

A pipeline with no aggregator and no pool writes what its processors make of a batch to every sink
before it takes the next. One ledger follows a batch from the queue to `HandleData`, another from
there to the sinks, and the queue's own safety says which batches the process thread took and in
which order. With the queue empty and the process thread waiting, each sink has been written every
batch that was pushed and not evicted, in ticket order, as the processors leave it.
-/

namespace Illuminator

namespace LockFreeQueue

open Interleaving

variable {V τ : Type*}

/-- The tickets won by pops, each with its thread. -/
def pops (history : List (τ × Event V)) : List (τ × ℕ) :=
  history.filterMap fun entry => match entry.2 with
    | .popWon ticket => some (entry.1, ticket)
    | _ => none

/-- The tickets won by the pops of every thread but one. -/
def popsBut [DecidableEq τ] (thread : τ) (history : List (τ × Event V)) : List ℕ :=
  ((pops history).filter fun pop => pop.1 ≠ thread).map Prod.snd

def Event.won : Event V → List ℕ
  | .popWon ticket => [ticket]
  | _ => []

/-- The ticket and the value of a pop that returns. -/
def Event.returns : Event V → List (ℕ × V)
  | .popped ticket value => [(ticket, value)]
  | _ => []

theorem map_pops (history : List (τ × Event V)) : (pops history).map Prod.snd = popWins history := by
  rw [pops, popWins, List.map_filterMap]
  refine List.filterMap_congr fun entry _ => ?_
  rcases entry with ⟨_, _ | _ | _ | _ | _ | _ | _⟩ <;> rfl

variable [DecidableEq τ] {thread : τ} {history : List (τ × Event V)} {s : State (LockFreeQueue V) (Pc V) τ}

theorem own_won (thread : τ) (history : List (τ × Event V)) :
    (own thread history).flatMap Event.won = ((pops history).filter fun pop => pop.1 = thread).map Prod.snd := by
  induction history with
  | nil => rfl
  | cons entry rest ih =>
    obtain ⟨actor, event⟩ := entry
    rw [own_cons]
    cases event with
    | popWon ticket =>
      change _ = (((actor, ticket) :: pops rest).filter _).map Prod.snd
      rw [List.filter_cons]
      by_cases same : actor = thread
      · simp only [same, ↓reduceIte, decide_true, List.flatMap_cons, List.map_cons, ih]
        rfl
      · simp only [same, ↓reduceIte, decide_false, Bool.false_eq_true, ih]
    | _ =>
      refine Eq.trans ?_ ih
      split_ifs
      · exact List.nil_append _
      · rfl

/-- With distinct tickets, one thread's are all but the others'. -/
theorem own_won_of_nodup (distinct : (popWins history).Nodup) :
    (own thread history).flatMap Event.won = (popWins history).filter fun ticket => ticket ∉ popsBut thread history := by
  rw [own_won, ← map_pops, List.filter_map]
  refine congrArg (List.map Prod.snd) (List.filter_congr fun pop member => ?_)
  rw [← map_pops] at distinct
  have mine : pop.2 ∉ popsBut thread history ↔ pop.1 = thread := by
    constructor
    · intro absent
      by_contra other
      exact absent (List.mem_map_of_mem (List.mem_filter.mpr ⟨member, by simpa using other⟩))
    · intro same other
      obtain ⟨pop', found, equal⟩ := List.mem_map.mp other
      obtain ⟨member', differs⟩ := List.mem_filter.mp found
      rw [List.inj_on_of_nodup_map distinct member' member equal] at differs
      simp [same] at differs
  simp only [Function.comp_apply, mine]

/-- Two lists of entries of a table with the same keys are the same. -/
private theorem eq_of_keys {α β : Type*} (holds : α → β → Prop)
    (functional : ∀ key value value', holds key value → holds key value' → value = value') :
    ∀ {left right : List (α × β)}, (∀ entry ∈ left, holds entry.1 entry.2) → (∀ entry ∈ right, holds entry.1 entry.2) →
      left.map Prod.fst = right.map Prod.fst → left = right
  | [], [], _, _, _ => rfl
  | [], _ :: _, _, _, same => by cases same
  | _ :: _, [], _, _, same => by cases same
  | (key, value) :: left, (key', value') :: right, held, held', same => by
    obtain ⟨rfl, rest⟩ := List.cons.inj same
    have here : value = value' := functional key value value' (held _ List.mem_cons_self) (held' _ List.mem_cons_self)
    have tail : left = right := eq_of_keys holds functional (fun entry member => held entry (List.mem_cons_of_mem _ member))
      (fun entry member => held' entry (List.mem_cons_of_mem _ member)) rest
    rw [here, tail]

/-- With the queue empty, a thread that holds no ticket has had returned, in ticket order, every value
pushed whose ticket no other thread has popped. -/
theorem returns_of_empty (thread : τ) {movedFrom : V → V} {requested : UInt64} {blank : V}
    (slots : 2 ≤ (roundUpPow2 requested).toNat)
    (run : (program movedFrom).Run (initial τ requested blank) history s) (empty : s.shared.head_ = s.shared.tail_)
    (free : (s.pc thread).popTicket = none) :
    (own thread history).flatMap Event.returns =
      (pushWins history).filter fun win => win.1 ∉ popsBut thread history := by
  obtain ⟨safe, _⟩ := concurrent_safety movedFrom requested blank slots run
  have settled := run.own_ledger (fun pc => pc.popTicket.toList) Event.won
    (fun event => event.returns.map Prod.fst) thread rfl fun enabled => by
      unfold program act at enabled
      dsimp only at enabled
      repeat' split at enabled
      all_goals cases enabled
      all_goals rfl
  rw [free, Option.toList_none, List.append_nil,
    own_won_of_nodup (by rw [safe.popTickets]; exact List.nodup_range), safe.popTickets, ← empty,
    ← safe.pushTickets, List.filter_map, ← List.map_flatMap] at settled
  have distinct : ((pushWins history).map Prod.fst).Nodup := by
    rw [safe.pushTickets]
    exact List.nodup_range
  refine eq_of_keys (fun ticket value => (ticket, value) ∈ pushWins history) ?_ ?_ ?_ settled.symm
  · intro ticket value value' pushed pushed'
    exact congrArg Prod.snd (List.inj_on_of_nodup_map distinct pushed pushed' rfl)
  · rintro ⟨ticket, value⟩ member
    obtain ⟨event, mine, returns⟩ := List.mem_flatMap.mp member
    obtain ⟨⟨actor, event⟩, present, rfl⟩ := List.mem_map.mp mine
    obtain ⟨present, _⟩ := List.mem_filter.mp present
    cases event <;> simp only [Event.returns, List.mem_singleton, List.not_mem_nil] at returns
    cases returns
    exact (safe.fifo _ _ _ present).2
  · intro entry member
    exact (List.mem_filter.mp member).1

end LockFreeQueue

namespace AsyncChannel

variable {B : Type*} [Inhabited B]

/-- A channel call takes and enters only by its queue calls. -/
theorem quiet_of_free {ch next : AsyncChannel B} {pc after : Pc B} {choice : Choice B} {event : Event B}
    (enabled : act ch pc choice = some (next, after, event)) (free : pc.request = none ∨ choice = .deadline) :
    event.took = [] ∧ event.batchEntered = [] := by
  unfold act at enabled
  repeat' split at enabled
  all_goals cases enabled
  all_goals first
    | exact ⟨rfl, rfl⟩
    | (rcases pressure_event ‹_› with rfl | rfl | ⟨_, _, rfl⟩ <;> exact ⟨rfl, rfl⟩)
    | (rcases free with free | free <;> cases free)

end AsyncChannel

namespace Pipeline

variable {B : Type*}

/-- What the processors still to run make of a batch: nothing when one returns an error or an empty
batch. -/
def chain (setup : Setup B) (process : ℕ → B → Option B) : ℕ → B → Option B
  | 0, batch => some batch
  | remaining + 1, batch =>
    match process (setup.processors_ - (remaining + 1)) batch with
    | none => none
    | some result => if setup.Empty result then none else chain setup process remaining result

/-- The batches an event writes to one sink. -/
def Event.written (sink : ℕ) : Event B → List B
  | .wrote index batch _ => if index = sink then [batch] else []
  | _ => []

/-- The batches of a flush that are still to be submitted. -/
def Origin.rest : Origin B → List B
  | .data => []
  | .flush rest => rest

/-- What a handler has yet to write to one sink, once `HandleData` has begun. -/
def Work.unwritten (setup : Setup B) (process : ℕ → B → Option B) (sink : ℕ) : Work B → List B
  | .process batch remaining => (chain setup process remaining batch).toList
  | .submit batch origin => batch :: origin.rest
  | .submitTo batch index origin => if index ≤ sink then batch :: origin.rest else origin.rest
  | .data _ | .count | .flush => []

def Pc.unwritten (setup : Setup B) (process : ℕ → B → Option B) (sink : ℕ) : Pc B → List B
  | .work handler _ => handler.unwritten setup process sink
  | _ => []

variable {setup : Setup B} {process : ℕ → B → Option B} {sink : ℕ}

theorem next_unwritten (origin : Origin B) :
    origin.next.elim [] (Work.unwritten setup process sink) = origin.rest := by
  rcases origin with _ | ⟨_ | ⟨batch, rest⟩⟩ <;> rfl

/-- Without an aggregator or a pool, what a handler is to write to a sink it writes. -/
theorem handle_writes {p next : Pipeline B} {work : Work B} {rest : Option (Work B)} {resume : Resume}
    {choice : Choice B} {event : Event B} (direct : setup.aggregator_ = false) (unpooled : setup.sink_pool_ = false)
    (present : sink < setup.sinks_)
    (handles : handle setup p work (ContendedPipeline.answer setup process (.work work resume) choice) =
      some (next, rest, event)) :
    work.unwritten setup process sink ++ event.handledBatch.filterMap (chain setup process setup.processors_) =
      event.written sink ++ rest.elim [] (Work.unwritten setup process sink) := by
  cases work with
  | data batch =>
    cases choice with
    | proceed =>
      cases handles
      simp only [Work.unwritten, Event.handledBatch, List.filterMap_cons, List.filterMap_nil, Event.written,
        Option.elim_some, List.nil_append]
      cases chain setup process setup.processors_ batch <;> rfl
    | _ => cases handles
  | process batch remaining =>
    cases remaining with
    | zero =>
      cases choice with
      | proceed =>
        simp only [ContendedPipeline.answer, handle, direct, Bool.false_eq_true, ↓reduceIte] at handles
        cases handles
        rfl
      | _ => cases handles
    | succ remaining =>
      simp only [ContendedPipeline.answer] at handles
      simp only [Work.unwritten, chain]
      cases result : process (setup.processors_ - (remaining + 1)) batch with
      | none =>
        rw [result] at handles
        cases handles
        rfl
      | some result' =>
        rw [result] at handles
        simp only [handle] at handles
        split_ifs at handles with empty
        · cases handles
          simp [empty, Event.handledBatch, Event.written]
        · cases handles
          simp [empty, Event.handledBatch, Event.written, Work.unwritten]
  | count =>
    cases choice with
    | proceed =>
      cases handles
      rfl
    | _ => cases handles
  | flush =>
    cases choice with
    | proceed =>
      simp only [ContendedPipeline.answer, handle, direct, Bool.false_eq_true, ↓reduceIte] at handles
      cases handles
      rfl
    | flushed result =>
      simp only [ContendedPipeline.answer, handle, direct, Bool.false_eq_true, ↓reduceIte] at handles
      cases handles
    | _ => cases handles
  | submit batch origin =>
    cases choice with
    | proceed =>
      simp only [ContendedPipeline.answer, handle, unpooled, Bool.false_eq_true, ↓reduceIte] at handles
      cases handles
      exact List.append_nil _
    | pending tasks =>
      simp only [ContendedPipeline.answer, handle, unpooled, Bool.false_eq_true, ↓reduceIte] at handles
      cases handles
    | _ => cases handles
  | submitTo batch index origin =>
    cases choice with
    | proceed =>
      simp only [ContendedPipeline.answer, handle, unpooled, Bool.false_eq_true, ↓reduceIte] at handles
      split_ifs at handles with more
      cases handles
      rw [next_unwritten, Work.unwritten, if_neg (by omega)]
      exact List.append_nil _
    | wrote ok =>
      simp only [ContendedPipeline.answer, handle] at handles
      split at handles
      · cases handles
        simp only [Event.handledBatch, List.filterMap_nil, List.append_nil, Event.written, Option.elim_some,
          Work.unwritten]
        rcases Nat.lt_trichotomy index sink with before | rfl | past
        · rw [if_pos (by omega), if_neg (by omega), if_pos (by omega), List.nil_append]
        · rw [if_pos (by omega), if_pos rfl, if_neg (by omega), List.singleton_append]
        · rw [if_neg (by omega), if_neg (by omega), if_neg (by omega), List.nil_append]
      · cases handles
    | _ => cases handles

variable [Inhabited B] {p next : Pipeline B} {pc after : Pc B} {choice : Choice B} {event : Event B}

/-- Outside a handler nothing is handled or written, and no handler begins with something to write. -/
private theorem Move.silent (move : Move setup p pc next after event) (process : ℕ → B → Option B) (sink : ℕ)
    (apart : ∀ work resume, pc ≠ .work work resume) :
    event.handledBatch = [] ∧ event.written sink = [] ∧ after.unwritten setup process sink = [] := by
  cases move with
  | stop stops =>
    unfold Pipeline.stop at stops
    repeat' split at stops
    all_goals cases stops
    all_goals exact ⟨rfl, rfl, rfl⟩
  | @inside caller =>
    cases caller <;> exact ⟨rfl, rfl, rfl⟩
  | works => exact absurd rfl (apart _ _)
  | loops => exact absurd rfl (apart _ _)
  | resumes => exact absurd rfl (apart _ _)
  | exits => exact absurd rfl (apart _ _)
  | dequeued item => cases item <;> exact ⟨rfl, rfl, rfl⟩
  | drained item => cases item <;> exact ⟨rfl, rfl, rfl⟩
  | _ => exact ⟨rfl, rfl, rfl⟩

/-- What a thread is to write to a sink it writes. -/
theorem act_writes (direct : setup.aggregator_ = false) (unpooled : setup.sink_pool_ = false)
    (present : sink < setup.sinks_)
    (acts : act setup p pc (ContendedPipeline.answer setup process pc choice) = some (next, after, event)) :
    pc.unwritten setup process sink ++ event.handledBatch.filterMap (chain setup process setup.processors_) =
      event.written sink ++ after.unwritten setup process sink := by
  by_cases working : ∃ work resume, pc = .work work resume
  · obtain ⟨work, resume, rfl⟩ := working
    simp only [act, bind, Option.bind_eq_some_iff] at acts
    obtain ⟨⟨next', rest, event'⟩, handles, acts⟩ := acts
    have writes := handle_writes direct unpooled present handles
    cases rest with
    | some rest =>
      cases acts
      exact writes
    | none =>
      cases resume <;> cases acts <;> exact writes
  · have apart : ∀ work resume, pc ≠ .work work resume := fun work resume at_ => working ⟨work, resume, at_⟩
    obtain ⟨handled, written, rest⟩ := (act_move acts).silent process sink apart
    have nothing : pc.unwritten setup process sink = [] := by
      cases pc with
      | work work resume => exact absurd rfl (apart work resume)
      | _ => rfl
    rw [handled, written, rest, nothing]
    rfl

private theorem quiet_deadline {caller : Caller} {call : AsyncChannel.Pc B} (other : choice ≠ .proceed)
    (acts : act setup p (caller.pc call) choice = some (next, after, event)) {inner : AsyncChannel.Event B}
    (shown : event.channel? = some inner) : inner.took = [] ∧ inner.batchEntered = [] := by
  cases caller
  case enqueue => cases choice <;> first | exact absurd rfl other | cases acts
  case inject => cases choice <;> first | exact absurd rfl other | cases acts
  all_goals
    simp only [Caller.pc, act, bind, Option.bind_eq_some_iff] at acts
    obtain ⟨choice', passed, ⟨_, result, event'⟩, steps, acts⟩ := acts
    have late : choice' = .deadline := by
      cases choice <;> cases passed
      · exact absurd rfl other
      · rfl
    subst late
    rcases inChannel_cases steps with ⟨reply, rfl, _⟩ | ⟨channel, call', inside, _, rfl, rfl⟩
    · cases steps
    · have quiet := AsyncChannel.quiet_of_free inside (Or.inr rfl)
      split at acts <;> rename_i same <;> cases same <;> cases acts <;> cases shown <;> exact quiet

/-- An action outside the queue neither takes nor enters a batch. -/
theorem act_quiet (acts : act setup p pc choice = some (next, after, event))
    (free : ∀ caller call, ContendedPipeline.caller? pc = some (caller, call) → choice = .proceed →
      call.request = none) {inner : AsyncChannel.Event B} (shown : event.channel? = some inner) :
    inner.took = [] ∧ inner.batchEntered = [] := by
  by_cases requested : pc.call.request = none
  · rcases (act_move acts).simulates with ⟨hidden, _⟩ | ⟨choice', event', shown', steps⟩
    · rw [hidden] at shown
      cases shown
    · rw [shown'] at shown
      cases shown
      exact AsyncChannel.quiet_of_free steps (Or.inl requested)
  · have calls : ∃ caller, ContendedPipeline.caller? pc = some (caller, pc.call) := by
      cases pc <;> first
        | exact ⟨_, rfl⟩
        | exact absurd rfl requested
    obtain ⟨caller, called⟩ := calls
    have other : choice ≠ .proceed := fun proceeds => requested (free caller pc.call called proceeds)
    rw [ContendedPipeline.caller?_eq called] at acts
    exact quiet_deadline other acts shown

end Pipeline

namespace ContendedPipeline

open Interleaving
open Pipeline (Setup Caller Party chain)

variable {B ι : Type*}

/-- The batches the process thread has from the queue. -/
def taken : Party ι × Event B → List B
  | (.process, .queue event) => event.yields.flatMap ChannelItem.batches
  | _ => []

def Event.handled : Event B → List B
  | .pipeline event => event.handledBatch
  | .queue _ => []

/-- The batches an event writes to one sink. -/
def Event.written (sink : ℕ) : Event B → List B
  | .pipeline event => event.written sink
  | .queue _ => []

def Pc.holding : Pc B → List B
  | .apart pc => pc.holding
  | .inQueue _ _ _ => []

def Pc.unwritten (setup : Setup B) (process : ℕ → B → Option B) (sink : ℕ) : Pc B → List B
  | .apart pc => pc.unwritten setup process sink
  | .inQueue _ _ _ => []

variable [Inhabited B] {setup : Setup B} {process : ℕ → B → Option B} {p next : ContendedPipeline B} {pc after : Pc B}
  {event : Event B} {party : Party ι} {sink : ℕ}

omit [Inhabited B] in
private theorem holding_caller (caller : Caller) {call : AsyncChannel.Pc B} (nothing : call.holding = []) :
    (caller.pc call).holding = [] := by
  cases caller <;> first
    | exact nothing
    | rfl

omit [Inhabited B] in
private theorem answer_free {pc : Pipeline.Pc B} {choice : Pipeline.Choice B}
    (free : ∀ caller call, caller? pc = some (caller, call) → choice = .proceed → call.request = none) :
    ∀ caller call, caller? pc = some (caller, call) → answer setup process pc choice = .proceed →
      call.request = none := by
  intro caller call called proceeds
  refine free caller call called ?_
  cases caller?_eq called
  cases caller <;> exact proceeds

/-- What the process thread takes it holds until it hands it over. -/
theorem Move.holds (move : Move setup process p pc next after event) (belongs : Belongs (.process : Party ι) pc) :
    pc.holding ++ taken ((.process : Party ι), event) = event.handled ++ after.holding := by
  cases move with
  | @outside _ _ _ _ event acts free =>
    have holds := (Pipeline.act_move acts).holds belongs.placed
    have nothing : event.takenBatch = [] := by
      cases event with
      | channel => exact (Pipeline.act_quiet acts (answer_free free) rfl).1
      | _ => rfl
    rw [nothing] at holds
    exact holds
  | @compares caller call found' found =>
    have same := holding_watermark found
    change (caller.pc call).holding ++ [] = [] ++ (caller.pc found').holding
    rw [List.append_nil, List.nil_append]
    cases caller <;> first
      | exact same.symm
      | rfl
  | @enters caller _ _ _ _ _ requested acts =>
    obtain ⟨_, _, rfl, _⟩ := AsyncChannel.serves_enter requested acts
    exact congrArg (· ++ []) (holding_caller caller (AsyncChannel.holding_request requested))
  | continues acts goes =>
    have nothing := ((AsyncChannel.serves_act acts (belongs.serves _ _ _ rfl) _).1 goes).2
    change [] ++ List.flatMap _ _ = _
    rw [nothing]
    rfl
  | @returns caller call resumed _ _ _ _ event acts resumes =>
    change [] ++ event.yields.flatMap _ = [] ++ (caller.pc resumed).holding
    have within : call.kind = some .dequeue ∧ (caller.pc resumed).holding = resumed.holding := by
      cases caller with
      | dequeue => exact ⟨belongs.placed, rfl⟩
      | drain => exact ⟨belongs.placed.kind, rfl⟩
      | _ => exact belongs.placed.elim
    rw [within.2, AsyncChannel.holding_resume resumes within.1]

/-- What a thread is to write to a sink it writes. -/
theorem Move.writes (direct : setup.aggregator_ = false) (unpooled : setup.sink_pool_ = false)
    (present : sink < setup.sinks_) (move : Move setup process p pc next after event) :
    pc.unwritten setup process sink ++ event.handled.filterMap (chain setup process setup.processors_) =
      event.written sink ++ after.unwritten setup process sink := by
  cases move with
  | outside acts => exact Pipeline.act_writes direct unpooled present acts
  | @compares caller => cases caller <;> rfl
  | @enters caller => cases caller <;> rfl
  | continues => rfl
  | @returns caller => cases caller <;> rfl

/-- The other threads neither handle nor write anything. -/
theorem Move.others (move : Move setup process p pc next after event) (sink : ℕ) (belongs : Belongs party pc)
    (other : party ≠ .process) : taken (party, event) = [] ∧ event.handled = [] ∧ event.written sink = [] := by
  have nothing : taken (party, event) = [] := by
    cases party with
    | process => exact absurd rfl other
    | _ => rfl
  refine ⟨nothing, ?_⟩
  cases move with
  | @outside pc _ _ _ _ acts =>
    have apart : ∀ work resume, pc ≠ .work work resume := by
      rintro work resume rfl
      have placed := belongs.placed
      cases party with
      | process => exact other rfl
      | _ => exact placed.elim
    obtain ⟨handled, written, _⟩ := (Pipeline.act_move acts).silent process sink apart
    exact ⟨handled, written⟩
  | _ => exact ⟨rfl, rfl⟩

/-- The batches an event enters into the queue. -/
def Event.entered : Event B → List B
  | .queue (.pushWon _ item) => item.batches
  | _ => []

/-- The batches for which an event returns true from `TryEnqueue`. -/
def Event.accepted : Event B → List B
  | .pipeline (.channel event) => event.batchAccepted
  | _ => []

/-- The batch a call is about to push. -/
def pushing : AsyncChannel.Pc B → List B
  | .enqueuePush batch | .enqueueRetry batch => [batch]
  | _ => []

/-- The batch that has entered the queue while its call has yet to return. -/
def Pc.entering : Pc B → List B
  | .apart pc => pc.call.accepting
  | .inQueue _ call within => if within.pushTicket.isSome then pushing call else []

omit [Inhabited B] in
private theorem pushing_request {call : AsyncChannel.Pc B} {item : ChannelItem B}
    (requested : call.request = some (.push item)) : pushing call = item.batches := by
  cases call <;> cases requested <;> rfl

omit [Inhabited B] in
private theorem accepting_request {call : AsyncChannel.Pc B} {request : LockFreeQueue.Choice (ChannelItem B)}
    (requested : call.request = some request) : call.accepting = [] := by
  cases call <;> first
    | rfl
    | cases requested

omit [Inhabited B] in
private theorem accepting_watermark {call found : AsyncChannel.Pc B} (compares : p.watermark call = some found) :
    found.accepting = call.accepting := by
  unfold watermark at compares
  repeat' split at compares
  all_goals cases compares
  all_goals rfl

omit [Inhabited B] in
/-- A call that goes on acknowledges the batch it was pushing, unless the push was refused. -/
private theorem accepting_resume {policy : DropPolicy} {call resumed : AsyncChannel.Pc B}
    {event : LockFreeQueue.Event (ChannelItem B)} (resumes : call.resume policy event = some resumed) :
    (∀ ticket, event = .pushed ticket → resumed.accepting = pushing call) ∧
      ((∀ ticket, event ≠ .pushed ticket) → resumed.accepting = []) := by
  unfold AsyncChannel.Pc.resume at resumes
  repeat' split at resumes
  all_goals cases resumes
  all_goals first
    | exact ⟨fun _ _ => rfl, fun other => absurd rfl (other _)⟩
    | exact ⟨nofun, fun _ => rfl⟩

/-- What an action enters is acknowledged by its call's return. -/
theorem Move.accepts (move : Move setup process p pc next after event) (belongs : Belongs party pc) :
    pc.entering ++ event.entered = event.accepted ++ after.entering := by
  cases move with
  | @outside pc after _ _ event acts free =>
    change pc.call.accepting ++ [] = _ ++ after.call.accepting
    rcases (Pipeline.act_move acts).simulates with ⟨hidden, _, still⟩ | ⟨choice', inner, shown, steps⟩
    · rw [still, List.append_nil]
      cases event with
      | channel => cases hidden
      | _ => rfl
    · have quiet := Pipeline.act_quiet acts (answer_free free) shown
      have accepts := AsyncChannel.act_accepting steps
      rw [quiet.2] at accepts
      cases event with
      | channel =>
        cases shown
        exact accepts
      | _ => cases shown
  | @compares caller call found' found =>
    change (caller.pc call).call.accepting ++ [] = [] ++ (caller.pc found').call.accepting
    rw [Pipeline.Caller.pc_call, Pipeline.Caller.pc_call, accepting_watermark found, List.append_nil, List.nil_append]
  | @enters caller call _ _ _ _ requested acts =>
    have nothing : (caller.pc call).call.accepting = [] := by
      rw [Pipeline.Caller.pc_call]
      exact accepting_request requested
    obtain ⟨_, unwon, rfl, _⟩ := AsyncChannel.serves_enter requested acts
    change (caller.pc call).call.accepting ++ [] = [] ++ if _ then _ else _
    rw [nothing, unwon]
    rfl
  | @continues caller call within after choice queue_ event acts goes =>
    have serves := belongs.serves _ _ _ rfl
    have later := ((AsyncChannel.serves_act acts serves _).1 goes).1
    unfold LockFreeQueue.act at acts
    repeat' split at acts
    all_goals cases acts
    all_goals first
      | rfl
      | exact later.elim
      | exact (pushing_request serves).symm
      | exact List.append_nil _
  | @returns caller call resumed within after choice queue_ event acts resumes =>
    have finished := (AsyncChannel.serves_act acts (belongs.serves _ _ _ rfl) _).2 _ resumes
    obtain ⟨published, refused⟩ := accepting_resume resumes
    change (if within.pushTicket.isSome then pushing call else []) ++ _ = [] ++ (caller.pc resumed).call.accepting
    rw [Pipeline.Caller.pc_call]
    unfold LockFreeQueue.act at acts
    repeat' split at acts
    all_goals cases acts
    all_goals first
      | contradiction
      | exact (published _ rfl).symm ▸ List.append_nil _
      | (rw [refused nofun]
         rfl)

/-- What holds of every state a contended pipeline's threads can reach. -/
structure Flows (setup : Setup B) (process : ℕ → B → Option B) (history : List (Party ι × Event B))
    (s : State (ContendedPipeline B) (Pc B) (Party ι)) : Prop where
  belongs : ∀ party, Belongs party (s.pc party)
  handled : history.flatMap taken = history.flatMap (fun entry => entry.2.handled) ++ (s.pc .process).holding
  written : ∀ sink < setup.sinks_,
    (history.flatMap fun entry => entry.2.handled).filterMap (chain setup process setup.processors_) =
      history.flatMap (fun entry => entry.2.written sink) ++ (s.pc .process).unwritten setup process sink

section Runs

variable [DecidableEq ι] {capacity : UInt64} {slots : 2 ≤ (roundUpPow2 capacity).toNat} {policy : DropPolicy}
  {high_wm low_wm : ℚ} {history : List (Party ι × Event B)} {s target : State (ContendedPipeline B) (Pc B) (Party ι)}
  {choice : Choice B}

/-- Every action keeps it. -/
theorem Flows.step (direct : setup.aggregator_ = false) (unpooled : setup.sink_pool_ = false)
    (flows : Flows setup process history s)
    (enabled : act setup process s.shared (s.pc party) choice = some (next, after, event)) :
    Flows setup process (history ++ [(party, event)]) (s.move party next after) := by
  have move := act_move enabled
  have mine := flows.belongs party
  have belongs : ∀ other, Belongs other ((s.move party next after).pc other) :=
    State.forall_move Belongs (fun other _ => flows.belongs other) (move.belongs mine)
  by_cases processing : party = .process
  · subst processing
    refine ⟨belongs, ?_, fun sink present => ?_⟩
    · rw [State.move_pc_self, List.flatMap_append, List.flatMap_append, List.flatMap_singleton,
        List.flatMap_singleton, flows.handled, List.append_assoc, move.holds mine, List.append_assoc]
    · rw [State.move_pc_self, List.flatMap_append, List.flatMap_append, List.flatMap_singleton,
        List.flatMap_singleton, List.filterMap_append, flows.written sink present, List.append_assoc,
        move.writes direct unpooled present, List.append_assoc]
  · have still : (s.move party next after).pc .process = s.pc .process :=
      s.move_pc_of_ne next after (Ne.symm processing)
    refine ⟨belongs, ?_, fun sink present => ?_⟩
    · obtain ⟨takes, handles, _⟩ := move.others 0 mine processing
      rw [still, List.flatMap_append, List.flatMap_append, List.flatMap_singleton, List.flatMap_singleton,
        takes, handles, List.append_nil, List.append_nil]
      exact flows.handled
    · obtain ⟨_, handles, writes⟩ := move.others sink mine processing
      rw [still, List.flatMap_append, List.flatMap_append, List.flatMap_singleton, List.flatMap_singleton,
        handles, writes, List.append_nil, List.append_nil]
      exact flows.written sink present

theorem run_flows (direct : setup.aggregator_ = false) (unpooled : setup.sink_pool_ = false)
    (run : (program setup process).Run (initial ι capacity slots policy high_wm low_wm) history target) :
    Flows setup process history target :=
  run.invariant (Flows setup process) ⟨belongs_start, rfl, fun _ _ => rfl⟩
    fun flows enabled => flows.step direct unpooled enabled

omit [Inhabited B] in
private theorem flatMap_taken (history : List (Party ι × Event B)) :
    history.flatMap taken =
      ((own .process (queueHistory history)).flatMap LockFreeQueue.Event.returns).flatMap fun entry =>
        entry.2.batches := by
  induction history with
  | nil => rfl
  | cons entry rest ih =>
    obtain ⟨actor, event⟩ := entry
    rw [List.flatMap_cons, ih]
    cases event with
    | pipeline => cases actor <;> rfl
    | queue event =>
      change _ = ((own .process ((actor, event) :: queueHistory rest)).flatMap _).flatMap _
      rw [own_cons]
      by_cases processing : actor = .process
      · rw [if_pos processing, List.flatMap_cons, List.flatMap_append, processing]
        refine congrArg (· ++ _) ?_
        cases event <;> rfl
      · rw [if_neg processing]
        cases actor with
        | process => exact absurd rfl processing
        | _ => rfl

/-- The process thread has no item and is about to ask for one, is being told that there is none, or is
over. -/
def Pc.waits : Pc B → Bool
  | .apart .loopTest | .apart .drainTest | .apart .exited => true
  | .apart (.dequeue (.dequeuePop _)) | .apart (.dequeue (.returning (.dequeue none))) => true
  | .apart (.drain .tryDequeuePop) | .apart (.drain (.returning (.dequeue none))) => true
  | .inQueue _ _ within => within.popTicket.isNone
  | _ => false

omit [Inhabited B] in
private theorem waits_free (setup : Setup B) (process : ℕ → B → Option B) {pc : Pc B} (waits : pc.waits = true) :
    pc.holding = [] ∧ (∀ sink, pc.unwritten setup process sink = []) ∧ pc.within.popTicket = none := by
  unfold Pc.waits at waits
  split at waits
  all_goals first
    | exact ⟨rfl, fun _ => rfl, rfl⟩
    | exact ⟨rfl, fun _ => rfl, Option.isNone_iff_eq_none.mp waits⟩
    | cases waits

/-- The batches that entered the queue and were not evicted, in ticket order. -/
def surviving (history : List (Party ι × Event B)) : List B :=
  ((LockFreeQueue.pushWins (queueHistory history)).filter fun win =>
    win.1 ∉ LockFreeQueue.popsBut .process (queueHistory history)).flatMap fun win => win.2.batches

/-- In every interleaving, `TryEnqueue` has returned true for exactly the batches its threads entered
into the queue, except where the call is still to return; and with the queue empty and the process
thread waiting, each sink has been written every batch that entered and was not evicted, once and in
ticket order, as the processors leave it. -/
theorem delivers_in_order (direct : setup.aggregator_ = false) (unpooled : setup.sink_pool_ = false)
    (run : (program setup process).Run (initial ι capacity slots policy high_wm low_wm) history target) :
    (∀ party, (own party history).flatMap Event.entered =
      (own party history).flatMap Event.accepted ++ (target.pc party).entering) ∧
    (target.shared.queue_.SizeApprox = 0 → (target.pc .process).waits = true → ∀ sink < setup.sinks_,
      history.flatMap (fun entry => entry.2.written sink) =
        (surviving history).filterMap (chain setup process setup.processors_)) := by
  constructor
  · intro party
    exact run.own_ledger_of Pc.entering Event.entered Event.accepted party (Belongs party) (belongs_start party)
      (by cases party <;> rfl) (fun enabled belongs => (act_move enabled).belongs belongs)
      fun enabled belongs => (act_move enabled).accepts belongs
  · intro empty waiting sink present
    have flows := run_flows direct unpooled run
    have queue := run_queue run
    obtain ⟨held, unwritten, free⟩ := waits_free setup process waiting
    have same : target.shared.queue_.head_ = target.shared.queue_.tail_ := by
      have ordered : target.shared.queue_.tail_ ≤ target.shared.queue_.head_ :=
        (LockFreeQueue.reachable_inv slots queue).ordered
      rw [LockFreeQueue.SizeApprox, if_pos ordered] at empty
      omega
    have returned := LockFreeQueue.returns_of_empty (Party.process : Party ι) slots queue same free
    have handled := flows.handled
    rw [held, List.append_nil, flatMap_taken, returned] at handled
    have written := flows.written sink present
    rw [unwritten, List.append_nil, ← handled] at written
    exact written.symm

end Runs

/-- One processor, which rejects odd batches and halves even ones, and two sinks. -/
def halving : Setup ℕ := ⟨fun batch => batch == 0, id, 1, false, 2, false⟩

def halve (_ batch : ℕ) : Option ℕ := if batch % 2 = 1 then none else some (batch / 2)

/-- One thread's consecutive choices. -/
def turn (party : Party Bool) (choices : List (Pipeline.Choice ℕ)) : List (Party Bool × Choice ℕ) :=
  choices.map fun choice => (party, .pipeline choice)

/-- A producer wins the first ticket and is suspended while another enters a whole batch and the process
thread finds nothing; later the second producer evicts the first one's batch. -/
def crossing : List (Party Bool × Choice ℕ) :=
  turn (.producer false) (.Enqueue 6 :: List.replicate 4 .proceed) ++
    turn (.producer true) (.Enqueue 3 :: List.replicate 6 .proceed) ++ turn .process (List.replicate 4 .proceed) ++
    turn (.producer false) (List.replicate 12 .proceed) ++ turn (.producer true) (List.replicate 6 .proceed) ++
    turn (.producer true) (.Enqueue 8 :: List.replicate 22 .proceed) ++
    turn .process (List.replicate 27 .proceed ++ [.wrote true, .wrote false, .proceed, .proceed])

theorem delivers_in_order_crossing :
    ∃ history target, (program halving halve).Run (initial Bool 2 (by decide) .kDropOldest (4 / 5) (1 / 5))
        history target ∧ surviving history = [3, 8] ∧
      history.flatMap (fun entry => entry.2.written 0) = [4] ∧
      (∀ sink < 2, history.flatMap (fun entry => entry.2.written sink) =
        (surviving history).filterMap (chain halving halve 1)) := by
  obtain ⟨history, target, run, empty, waiting, survivors, written⟩ := Program.exists_run_of_check
    (program halving halve) (initial Bool 2 (by decide) .kDropOldest (4 / 5) (1 / 5))
    (fun target history => target.shared.queue_.SizeApprox = 0 ∧ (target.pc .process).waits = true ∧
      surviving history = [3, 8] ∧ history.flatMap (fun entry => entry.2.written 0) = [4]) crossing
    (by decide +kernel)
  exact ⟨history, target, run, survivors, written, (delivers_in_order rfl rfl run).2 empty waiting⟩

end ContendedPipeline

end Illuminator
