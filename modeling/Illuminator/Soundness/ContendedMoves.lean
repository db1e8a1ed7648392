import Illuminator.Model.ContendedPipeline
import Illuminator.Machine.Components
import Illuminator.Soundness.PipelineShutdown

/-! # What the threads of a contended pipeline can do

Every action is an action outside the queue, a comparison with a watermark, or an action of a queue
call that a channel call has asked for. A run seen at its queue is therefore a run of the queue, and
inherits its safety. Each thread keeps to its own part of the pipeline's program, and the queue call
it is in to the one its channel call asked for.
-/

namespace Illuminator

/-- What an event hands to a thread that pops. -/
def LockFreeQueue.Event.yields {V : Type*} : LockFreeQueue.Event V → List V
  | .popped _ value => [value]
  | _ => []

namespace AsyncChannel

variable {B : Type*}

/-- The queue call in progress is the one asked for. -/
def Serves (call : Pc B) : LockFreeQueue.Pc (ChannelItem B) → Prop
  | .idle => False
  | .pushLoad item | .pushTest item _ | .pushClaim item _ | .pushMove item _ => call.request = some (.push item)
  | .pushStore _ => ∃ item, call.request = some (.push item)
  | .popLoad | .popTest _ | .popClaim _ | .popMove _ | .popStore _ _ => call.request = some .pop

private theorem resume_of_push {call : Pc B} {item : ChannelItem B} (requested : call.request = some (.push item))
    (policy : DropPolicy) :
    (∀ ticket, call.resume policy (.pushed ticket) ≠ none) ∧
      ∀ value, call.resume policy (.pushRefused value) ≠ none := by
  cases call <;> cases requested
  case enqueuePush => cases policy <;> exact ⟨nofun, nofun⟩
  all_goals exact ⟨nofun, nofun⟩

private theorem resume_of_pop {call : Pc B} (requested : call.request = some .pop) (policy : DropPolicy) :
    (∀ ticket value, call.resume policy (.popped ticket value) ≠ none) ∧ call.resume policy .popRefused ≠ none := by
  cases call <;> cases requested
  all_goals exact ⟨nofun, nofun⟩

private theorem resume_unfinished (call : Pc B) (policy : DropPolicy) :
    call.resume policy .local = none ∧ (∀ ticket value, call.resume policy (.pushWon ticket value) = none) ∧
      ∀ ticket, call.resume policy (.popWon ticket) = none := by
  cases call <;> exact ⟨rfl, fun _ _ => rfl, fun _ => rfl⟩

variable [Inhabited B] {queue next : LockFreeQueue (ChannelItem B)} {call : Pc B}
  {within after : LockFreeQueue.Pc (ChannelItem B)} {choice : LockFreeQueue.Choice (ChannelItem B)}
  {event : LockFreeQueue.Event (ChannelItem B)}

/-- The channel call goes on when the queue call ends, and not before. -/
theorem serves_act (acts : LockFreeQueue.act .movedFrom queue within choice = some (next, after, event))
    (serves : Serves call within) (policy : DropPolicy) :
    (call.resume policy event = none → Serves call after ∧ event.yields = []) ∧
      ∀ resumed, call.resume policy event = some resumed → after = .idle := by
  obtain ⟨silent, won, taken⟩ := resume_unfinished call policy
  unfold LockFreeQueue.act at acts
  repeat' split at acts
  all_goals cases acts
  all_goals first
    | exact serves.elim
    | exact ⟨fun _ => ⟨serves, rfl⟩, fun _ resumed => nomatch silent.symm.trans resumed⟩
    | exact ⟨fun _ => ⟨serves, rfl⟩, fun _ resumed => nomatch (won ..).symm.trans resumed⟩
    | exact ⟨fun _ => ⟨serves, rfl⟩, fun _ resumed => nomatch (taken _).symm.trans resumed⟩
    | exact ⟨fun _ => ⟨⟨_, serves⟩, rfl⟩, fun _ resumed => nomatch silent.symm.trans resumed⟩
    | exact ⟨fun none => absurd none ((resume_of_push serves policy).2 _), fun _ _ => rfl⟩
    | exact ⟨fun none => absurd none ((resume_of_push serves.choose_spec policy).1 _), fun _ _ => rfl⟩
    | exact ⟨fun none => absurd none (resume_of_pop serves policy).2, fun _ _ => rfl⟩
    | exact ⟨fun none => absurd none ((resume_of_pop serves policy).1 _ _), fun _ _ => rfl⟩

/-- A queue call begins as the one asked for. -/
theorem serves_enter {request : LockFreeQueue.Choice (ChannelItem B)} (requested : call.request = some request)
    (acts : LockFreeQueue.act .movedFrom queue .idle request = some (next, after, event)) :
    Serves call after ∧ after.pushTicket = none ∧ event = .local ∧ next = queue := by
  cases request with
  | push item =>
    cases acts
    exact ⟨requested, rfl, rfl, rfl⟩
  | pop =>
    cases acts
    exact ⟨requested, rfl, rfl, rfl⟩
  | _ => cases acts

/-- A later point of the same channel call. -/
structure Same (call next : Pc B) : Prop where
  kind : ∀ kind, call.kind = some kind → next.kind = some kind
  draining : call.Draining → next.Draining

omit [Inhabited B] in
theorem same_resume {policy : DropPolicy} {resumed : Pc B} (resumes : call.resume policy event = some resumed) :
    Same call resumed := by
  unfold Pc.resume at resumes
  repeat' split at resumes
  all_goals cases resumes
  all_goals
    refine ⟨fun _ within => within, fun draining => ?_⟩
    first
    | exact trivial
    | exact draining.elim

omit [Inhabited B] in
/-- A call that asks for an element holds what the queue call handed it. -/
theorem holding_resume {policy : DropPolicy} {resumed : Pc B} (resumes : call.resume policy event = some resumed)
    (taking : call.kind = some .dequeue) : resumed.holding = event.yields.flatMap ChannelItem.batches := by
  unfold Pc.resume at resumes
  repeat' split at resumes
  all_goals cases resumes
  all_goals first
    | exact (List.append_nil _).symm
    | rfl
    | cases taking

omit [Inhabited B] in
/-- A call that asks for a queue call holds nothing. -/
theorem holding_request {request : LockFreeQueue.Choice (ChannelItem B)} (requested : call.request = some request) :
    call.holding = [] := by
  cases call <;> first
    | rfl
    | cases requested

end AsyncChannel

namespace ContendedPipeline

open Interleaving
open Pipeline (Setup Caller Party)

variable {B : Type*} [Inhabited B] {setup : Setup B} {process : ℕ → B → Option B}

/-- The moves of a contended pipeline's threads. -/
inductive Move (setup : Setup B) (process : ℕ → B → Option B) (p : ContendedPipeline B) :
    Pc B → ContendedPipeline B → Pc B → Event B → Prop
  | outside {pc after : Pipeline.Pc B} {choice : Pipeline.Choice B} {members : Pipeline B} {event : Pipeline.Event B}
      (acts : Pipeline.act setup p.members pc (answer setup process pc choice) = some (members, after, event))
      (free : ∀ caller call, caller? pc = some (caller, call) → choice = .proceed → call.request = none) :
      Move setup process p (.apart pc) { p with members } (.apart after) (.pipeline event)
  | compares {caller : Caller} {call next : AsyncChannel.Pc B} (found : p.watermark call = some next) :
      Move setup process p (.apart (caller.pc call)) p (.apart (caller.pc next)) (.pipeline (.channel .local))
  | enters {caller : Caller} {call : AsyncChannel.Pc B} {request : LockFreeQueue.Choice (ChannelItem B)}
      {queue_ : LockFreeQueue (ChannelItem B)} {within : LockFreeQueue.Pc (ChannelItem B)}
      {event : LockFreeQueue.Event (ChannelItem B)} (requested : call.request = some request)
      (acts : LockFreeQueue.act .movedFrom p.queue_ .idle request = some (queue_, within, event)) :
      Move setup process p (.apart (caller.pc call)) { p with queue_ } (.inQueue caller call within) (.queue event)
  | continues {caller : Caller} {call : AsyncChannel.Pc B} {within after : LockFreeQueue.Pc (ChannelItem B)}
      {choice : LockFreeQueue.Choice (ChannelItem B)} {queue_ : LockFreeQueue (ChannelItem B)}
      {event : LockFreeQueue.Event (ChannelItem B)}
      (acts : LockFreeQueue.act .movedFrom p.queue_ within choice = some (queue_, after, event))
      (goes : call.resume p.members.ingest_channel_.drop_policy_ event = none) :
      Move setup process p (.inQueue caller call within) { p with queue_ } (.inQueue caller call after) (.queue event)
  | returns {caller : Caller} {call next : AsyncChannel.Pc B} {within after : LockFreeQueue.Pc (ChannelItem B)}
      {choice : LockFreeQueue.Choice (ChannelItem B)} {queue_ : LockFreeQueue (ChannelItem B)}
      {event : LockFreeQueue.Event (ChannelItem B)}
      (acts : LockFreeQueue.act .movedFrom p.queue_ within choice = some (queue_, after, event))
      (resumes : call.resume p.members.ingest_channel_.drop_policy_ event = some next) :
      Move setup process p (.inQueue caller call within)
        ⟨{ p.members with process_thread_ := caller.progress next p.members.process_thread_ }, queue_⟩
        (.apart (caller.pc next)) (.queue event)

variable {p next : ContendedPipeline B} {pc after : Pc B} {event : Event B}

omit [Inhabited B] in
theorem caller?_eq {pc : Pipeline.Pc B} {caller : Caller} {call : AsyncChannel.Pc B}
    (called : caller? pc = some (caller, call)) : pc = caller.pc call := by
  cases pc <;> cases called <;> rfl

private theorem outside_move {pc : Pipeline.Pc B} {choice : Pipeline.Choice B}
    (enabled : p.outside setup process pc choice = some (next, after, event))
    (free : ∀ caller call, caller? pc = some (caller, call) → choice = .proceed → call.request = none) :
    Move setup process p (.apart pc) next after event := by
  obtain ⟨⟨_, _, _⟩, acts, same⟩ := Option.map_eq_some_iff.mp enabled
  cases same
  exact .outside acts free

private theorem inside_move {caller : Caller} {call : AsyncChannel.Pc B}
    {within : LockFreeQueue.Pc (ChannelItem B)} {choice : LockFreeQueue.Choice (ChannelItem B)}
    (enabled : p.inside caller call within choice = some (next, after, event)) :
    Move setup process p (.inQueue caller call within) next after event := by
  obtain ⟨⟨_, _, _⟩, acts, same⟩ := Option.map_eq_some_iff.mp enabled
  dsimp only at same
  split at same
  · next resumes =>
    cases same
    exact .returns acts resumes
  · next goes =>
    cases same
    exact .continues acts goes

/-- Every enabled action is a move. -/
theorem act_move {choice : Choice B} (enabled : act setup process p pc choice = some (next, after, event)) :
    Move setup process p pc next after event := by
  unfold act at enabled
  split at enabled
  · exact inside_move enabled
  · exact inside_move enabled
  · next pc choice =>
    split at enabled
    · next caller call called =>
      cases caller?_eq called
      split at enabled
      · next request requested =>
        obtain ⟨⟨_, _, _⟩, acts, same⟩ := Option.map_eq_some_iff.mp enabled
        cases same
        exact .enters requested acts
      · next found =>
        cases enabled
        exact .compares found
      · next unasked _ =>
        refine outside_move enabled fun other call' called' _ => ?_
        rw [called] at called'
        cases called'
        exact unasked
    · next other =>
      refine outside_move enabled fun caller call called proceeds => ?_
      exact absurd proceeds (other caller call called)
  · cases enabled

/-- The queue's part of an event. -/
def Event.queue? : Event B → Option (LockFreeQueue.Event (ChannelItem B))
  | .queue event => some event
  | .pipeline _ => none

/-- Where a thread stands in the queue's own program. -/
def Pc.within : Pc B → LockFreeQueue.Pc (ChannelItem B)
  | .apart _ => .idle
  | .inQueue _ _ within => within

/-- Where a thread stands in the pipeline's program. -/
def Pc.base : Pc B → Pipeline.Pc B
  | .apart pc => pc
  | .inQueue caller call _ => caller.pc call

/-- Each thread keeps to its own part of the pipeline's program, and inside the queue to the call that
was asked for. -/
structure Belongs {ι : Type*} (party : Party ι) (pc : Pc B) : Prop where
  placed : Pipeline.Placed party pc.base
  serves : ∀ caller call within, pc = .inQueue caller call within → AsyncChannel.Serves call within

/-- A move is an action of the queue, or leaves it alone. -/
theorem Move.simulates {ι : Type*} {party : Party ι} (move : Move setup process p pc next after event)
    (belongs : Belongs party pc) :
    (event.queue? = none ∧ next.queue_ = p.queue_ ∧ after.within = pc.within) ∨
      ∃ choice event', event.queue? = some event' ∧
        LockFreeQueue.act .movedFrom p.queue_ pc.within choice = some (next.queue_, after.within, event') := by
  cases move with
  | outside => exact Or.inl ⟨rfl, rfl, rfl⟩
  | compares => exact Or.inl ⟨rfl, rfl, rfl⟩
  | enters _ acts => exact Or.inr ⟨_, _, rfl, acts⟩
  | continues acts => exact Or.inr ⟨_, _, rfl, acts⟩
  | returns acts resumes =>
    have finished := (AsyncChannel.serves_act acts (belongs.serves _ _ _ rfl) _).2 _ resumes
    rw [finished] at acts
    exact Or.inr ⟨_, _, rfl, acts⟩

omit [Inhabited B] in
theorem holding_watermark {call found : AsyncChannel.Pc B} (compares : p.watermark call = some found) :
    found.holding = call.holding := by
  unfold watermark at compares
  repeat' split at compares
  all_goals cases compares
  all_goals rfl

omit [Inhabited B] in
private theorem same_watermark {call found : AsyncChannel.Pc B} (compares : p.watermark call = some found) :
    AsyncChannel.Same call found := by
  unfold watermark at compares
  repeat' split at compares
  all_goals cases compares
  all_goals
    refine ⟨fun _ within => within, fun draining => ?_⟩
    rename_i reply _
    rcases reply with _ | _ | ⟨_ | item⟩ <;> first
      | exact trivial
      | exact draining.elim

omit [Inhabited B] in
private theorem placed_same {ι : Type*} {party : Party ι} {caller : Caller} {call next : AsyncChannel.Pc B}
    (placed : Pipeline.Placed party (caller.pc call)) (same : AsyncChannel.Same call next) :
    Pipeline.Placed party (caller.pc next) := by
  cases caller <;> cases party <;> first
    | exact placed.elim
    | exact same.kind _ placed
    | exact same.draining placed

omit [Inhabited B] in
theorem Belongs.apart {ι : Type*} {party : Party ι} {base : Pipeline.Pc B} (placed : Pipeline.Placed party base) :
    Belongs party (.apart base) :=
  ⟨placed, fun _ _ _ same => nomatch same⟩

omit [Inhabited B] in
theorem Belongs.inQueue {ι : Type*} {party : Party ι} {caller : Caller} {call : AsyncChannel.Pc B}
    {within : LockFreeQueue.Pc (ChannelItem B)} (placed : Pipeline.Placed party (caller.pc call))
    (serves : AsyncChannel.Serves call within) : Belongs party (.inQueue caller call within) := by
  refine ⟨placed, ?_⟩
  rintro _ _ _ ⟨⟩
  exact serves

theorem Move.belongs {ι : Type*} {party : Party ι} (move : Move setup process p pc next after event)
    (belongs : Belongs party pc) : Belongs party after := by
  obtain ⟨placed, serves⟩ := belongs
  cases move with
  | outside acts => exact .apart ((Pipeline.act_move acts).placed placed)
  | compares found => exact .apart (placed_same placed (same_watermark found))
  | enters requested acts => exact .inQueue placed (AsyncChannel.serves_enter requested acts).1
  | continues acts goes => exact .inQueue placed ((AsyncChannel.serves_act acts (serves _ _ _ rfl) _).1 goes).1
  | returns acts resumes => exact .apart (placed_same placed (AsyncChannel.same_resume resumes))

section Runs

variable {ι : Type*} [DecidableEq ι] {capacity : UInt64} {slots : 2 ≤ (roundUpPow2 capacity).toNat}
  {policy : DropPolicy} {high_wm low_wm : ℚ} {history : List (Party ι × Event B)}
  {target : State (ContendedPipeline B) (Pc B) (Party ι)}

omit [Inhabited B] [DecidableEq ι] in
theorem belongs_start (party : Party ι) : Belongs party (.apart party.start : Pc B) := by
  refine .apart ?_
  cases party <;> trivial

/-- The queue's part of a history. -/
def queueHistory (history : List (Party ι × Event B)) : List (Party ι × LockFreeQueue.Event (ChannelItem B)) :=
  history.filterMap fun entry => entry.2.queue?.map (Prod.mk entry.1)

/-- A run, seen at its queue, is a run of the queue. -/
theorem run_queue
    (run : (program setup process).Run (initial ι capacity slots policy high_wm low_wm) history target) :
    (LockFreeQueue.program .movedFrom).Run (LockFreeQueue.initial (Party ι) capacity (.batch default))
      (queueHistory history) (target.view ContendedPipeline.queue_ Pc.within) := by
  have seen := run.component (LockFreeQueue.program .movedFrom) ContendedPipeline.queue_ Pc.within Event.queue?
    some id (fun _ _ => Option.some_inj.trans eq_comm) Belongs belongs_start
    (fun enabled belongs => (act_move enabled).belongs belongs)
    (fun enabled belongs => ((act_move enabled).simulates belongs).imp_right fun ⟨choice, event, shown, acts⟩ =>
      ⟨_, choice, event, rfl, shown, acts⟩)
  exact seen

end Runs

end ContendedPipeline

end Illuminator
