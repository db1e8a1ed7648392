import Illuminator.Soundness.PipelineMoves

/-! # What a stopped pipeline has handled

The process thread handles what it takes, in order, and flushes its aggregator last. `Stop` clears
`running_` before it stops the source, so the process thread can find the channel empty and finish
while a producer is still inside `Enqueue`, and what that producer then enters nobody takes. In
every run in which no batch is pushed after the drain has found the channel empty, nothing is lost.
-/

namespace Illuminator

namespace Pipeline

open Interleaving

variable {B : Type*}

/-- The batches an event hands to `HandleData`. -/
def Event.handledBatch : Event B → List B
  | .handled batch => [batch]
  | _ => []

/-- The batches an event takes out of the channel. -/
def Event.takenBatch : Event B → List B
  | .channel event => event.took
  | _ => []

/-- The batches an event adds to the aggregator. -/
def Event.addedBatch : Event B → List B
  | .added batch => [batch]
  | _ => []

def Work.holding : Work B → List B
  | .data batch => [batch]
  | _ => []

/-- The batch the process thread has taken and not yet handed to `HandleData`. -/
def Pc.holding : Pc B → List B
  | .dequeue call | .drain call => call.holding
  | .work handler _ => handler.holding
  | _ => []

/-- The process thread's progress at its control state. -/
def Pc.progress : Pc B → ProcessThread
  | .drain (.returning (.dequeue none)) => .drained
  | .work _ .finish => .drained
  | .exited => .exited
  | _ => .running

/-- The handler of the last flush. -/
def Work.Last : Work B → Prop
  | .flush | .submit _ (.flush _) | .submitTo _ _ (.flush _) => True
  | _ => False

/-- Each thread keeps to its own part of the program, and each call to its kind. -/
def Placed {ι : Type*} : Party ι → Pc B → Prop
  | .main, .stop _ => True
  | .process, .loopTest | .process, .drainTest | .process, .exited => True
  | .process, .dequeue call => call.kind = some .dequeue
  | .process, .drain call => call.Draining
  | .process, .work work .finish => work.Last
  | .process, .work _ _ => True
  | .producer _, .outside | .producer _, .observe | .producer _, .compare _ | .producer _, .store _
  | .producer _, .notify _ => True
  | .producer _, .enqueue call => call.kind = some .enqueue
  | .producer _, .inject call => call.kind = some .inject
  | _, _ => False

/-- What a handler's continuation can be. -/
structure Continues (work after : Work B) : Prop where
  holding : after.holding = []
  later : after ≠ .flush
  last : work.Last → after.Last

private theorem Continues.of_some {work after : Work B} (expected : Work B) (holding : expected.holding = [])
    (later : expected ≠ .flush) (last : work.Last → expected.Last) (same : some expected = some after) :
    Continues work after := by
  cases same
  exact ⟨holding, later, last⟩

private theorem submitNext_continues {rest : List B} {work after : Work B}
    (next : submitNext rest = some after) : Continues work after := by
  cases rest with
  | nil => cases next
  | cons batch rest => exact .of_some (.submit batch (.flush rest)) rfl nofun (fun _ => trivial) next

private theorem next_continues {origin : Origin B} {work after : Work B} (from_ : origin = .data → ¬ work.Last)
    (next : origin.next = some after) : Continues work after := by
  cases origin with
  | data => exact .of_some .count rfl nofun (fun last => absurd last (from_ rfl)) next
  | flush rest => exact submitNext_continues next

/-- What one action of a handler shows, and how the handler goes on. -/
structure Handled (setup : Setup B) (work : Work B) (rest : Option (Work B)) (event : Event B) : Prop where
  holding : work.holding = event.handledBatch
  added : ∀ batch, event = .added batch → setup.aggregator_ = true ∧ ¬ work.Last
  flushed : work = .flush → setup.aggregator_ = true → event = .flushed
  continues : ∀ after, rest = some after → Continues work after

private theorem last_submit {batch : B} {sink : ℕ} {origin : Origin B} :
    (Work.submit batch origin).Last ↔ (Work.submitTo batch sink origin).Last := by
  cases origin <;> exact Iff.rfl

/-- Every action of a handler is as described. -/
theorem handle_handled {setup : Setup B} {p next : Pipeline B} {work : Work B} {rest : Option (Work B)}
    {choice : Choice B} {event : Event B} (handles : handle setup p work choice = some (next, rest, event)) :
    Handled setup work rest event := by
  cases work with
  | data batch =>
    cases choice with
    | proceed =>
      cases handles
      exact ⟨rfl, nofun, nofun, fun _ => .of_some (.process batch setup.processors_) rfl nofun False.elim⟩
    | _ => cases handles
  | process batch remaining =>
    cases remaining with
    | zero =>
      cases choice with
      | proceed =>
        simp only [handle] at handles
        split_ifs at handles with aggregates
        · cases handles
          exact ⟨rfl, fun _ _ => ⟨aggregates, id⟩, nofun, fun _ => .of_some .count rfl nofun False.elim⟩
        · cases handles
          exact ⟨rfl, nofun, nofun, fun _ => .of_some (.submit batch .data) rfl nofun False.elim⟩
      | _ => cases handles
    | succ remaining =>
      cases choice with
      | processed result =>
        cases result with
        | none =>
          cases handles
          exact ⟨rfl, nofun, nofun, nofun⟩
        | some result =>
          simp only [handle] at handles
          split_ifs at handles
          · cases handles
            exact ⟨rfl, nofun, nofun, nofun⟩
          · cases handles
            exact ⟨rfl, nofun, nofun, fun _ => .of_some (.process result remaining) rfl nofun False.elim⟩
      | _ => cases handles
  | count =>
    cases choice with
    | proceed =>
      cases handles
      exact ⟨rfl, nofun, nofun, nofun⟩
    | _ => cases handles
  | flush =>
    cases choice with
    | proceed =>
      simp only [handle] at handles
      split_ifs at handles with aggregates
      cases handles
      exact ⟨rfl, nofun, fun _ set => absurd set aggregates, nofun⟩
    | flushed result =>
      simp only [handle] at handles
      split_ifs at handles
      cases handles
      refine ⟨rfl, nofun, fun _ _ => rfl, fun after more => ?_⟩
      obtain ⟨batches, _, next⟩ := Option.bind_eq_some_iff.mp more
      exact submitNext_continues next
    | _ => cases handles
  | submit batch origin =>
    have ended : origin = .data → ¬ (Work.submit batch origin).Last := by
      rintro rfl
      exact id
    cases choice with
    | proceed =>
      simp only [handle] at handles
      split_ifs at handles
      cases handles
      exact ⟨rfl, nofun, nofun, fun _ => .of_some (.submitTo batch 0 origin) rfl nofun last_submit.mp⟩
    | pending tasks =>
      simp only [handle] at handles
      split_ifs at handles
      · cases handles
        exact ⟨rfl, nofun, nofun, fun _ => next_continues ended⟩
      · cases handles
        exact ⟨rfl, nofun, nofun, fun _ => .of_some (.submitTo batch 0 origin) rfl nofun last_submit.mp⟩
    | _ => cases handles
  | submitTo batch sink origin =>
    have ended : origin = .data → ¬ (Work.submitTo batch sink origin).Last := by
      rintro rfl
      exact id
    have still : (Work.submitTo batch sink origin).Last → (Work.submitTo batch (sink + 1) origin).Last :=
      fun last => last_submit.mp (last_submit.mpr last)
    cases choice with
    | proceed =>
      simp only [handle] at handles
      split_ifs at handles
      · cases handles
        exact ⟨rfl, nofun, nofun, fun _ => .of_some (.submitTo batch (sink + 1) origin) rfl nofun still⟩
      · cases handles
        exact ⟨rfl, nofun, nofun, fun _ => next_continues ended⟩
    | wrote ok =>
      simp only [handle] at handles
      split at handles
      · cases handles
        exact ⟨rfl, nofun, nofun, fun _ => .of_some (.submitTo batch (sink + 1) origin) rfl nofun still⟩
      · cases handles
    | _ => cases handles

variable {ι : Type*} [Inhabited B] {setup : Setup B} {p next : Pipeline B} {pc after : Pc B} {event : Event B}
  {party : Party ι}

theorem Move.placed (move : Move setup p pc next after event) (placed : Placed party pc) : Placed party after := by
  cases move with
  | stop => cases party <;> exact placed
  | @inside caller call after _ _ _ acts busy =>
    cases caller <;> cases party <;> first
      | exact AsyncChannel.act_kind acts busy placed
      | exact (AsyncChannel.act_draining acts busy placed).1
      | exact placed.elim
  | @works work after resume next choice event handles =>
    cases party with
    | process =>
      cases resume with
      | finish => exact ((handle_handled handles).continues after rfl).last placed
      | loop => trivial
      | drain => trivial
    | _ => exact placed.elim
  | dequeued item => cases party <;> first | exact trivial | exact placed.elim
  | drained item => cases party <;> first | exact trivial | exact placed.elim
  | _ => cases party <;> first | exact placed | exact trivial | exact rfl

omit [Inhabited B] in
private theorem taken_of_hidden (hidden : event.channel? = none) : event.takenBatch = [] := by
  cases event with
  | channel => cases hidden
  | _ => rfl

omit [Inhabited B] in
private theorem handle_holds {work : Work B} {rest : Option (Work B)} {choice : Choice B}
    (handles : handle setup p work choice = some (next, rest, event)) :
    work.holding ++ event.takenBatch = event.handledBatch := by
  rw [taken_of_hidden (handle_frame handles).2.2.2, List.append_nil, (handle_handled handles).holding]

omit [Inhabited B] in
private theorem nothing_of_draining {reply : AsyncChannel.Reply B}
    (draining : (AsyncChannel.Pc.returning reply).Draining)
    (nothing : ∀ item, reply ≠ .dequeue (some item)) : reply = .dequeue none := by
  rcases reply with _ | _ | ⟨_ | item⟩
  case dequeue.none => rfl
  case dequeue.some => exact absurd rfl (nothing item)
  all_goals exact draining.elim

/-- What the process thread takes it holds until it hands it over. -/
theorem Move.holds (move : Move setup p pc next after event) (placed : Placed (.process : Party ι) pc) :
    pc.holding ++ event.takenBatch = event.handledBatch ++ after.holding := by
  cases move with
  | stop => exact placed.elim
  | @inside caller call after _ _ _ acts busy =>
    have held := AsyncChannel.act_holding acts busy
    cases caller <;> first
      | exact held
      | exact placed.elim
  | dequeued item => cases item <;> rfl
  | drained item => cases item <;> rfl
  | timedOut reply nothing =>
    rcases reply with _ | _ | ⟨_ | item⟩
    case dequeue.some => exact absurd rfl (nothing item)
    all_goals rfl
  | finishes reply nothing =>
    cases nothing_of_draining placed nothing
    rfl
  | ends reply nothing =>
    cases nothing_of_draining placed nothing
    rfl
  | @works work after resume next choice event handles =>
    have held := handle_holds handles
    have done : after.holding = [] := ((handle_handled handles).continues after rfl).holding
    change work.holding ++ _ = _ ++ after.holding
    rw [held, done, List.append_nil]
  | loops handles => exact (handle_holds handles).trans (List.append_nil _).symm
  | resumes handles => exact (handle_holds handles).trans (List.append_nil _).symm
  | exits handles => exact (handle_holds handles).trans (List.append_nil _).symm
  | _ => rfl

omit [Inhabited B] in
private theorem drain_progress (call : AsyncChannel.Pc B) :
    Caller.drain.progress call .running = (Pc.drain call).progress := by
  cases call with
  | returning reply => rcases reply with _ | _ | ⟨_ | item⟩ <;> rfl
  | _ => rfl

omit [Inhabited B] in
private theorem drain_running {call : AsyncChannel.Pc B} (busy : ∀ reply, call ≠ .returning reply) :
    (Pc.drain call).progress = .running := by
  cases call with
  | returning reply => exact absurd rfl (busy reply)
  | _ => rfl

/-- The process thread's progress is what its control state says. -/
theorem Move.progresses (move : Move setup p pc next after event) (placed : Placed (.process : Party ι) pc)
    (current : p.process_thread_ = pc.progress) : next.process_thread_ = after.progress := by
  cases move with
  | stop => exact placed.elim
  | @inside caller call after _ _ _ acts busy =>
    cases caller with
    | drain =>
      have running := current.trans (drain_running busy)
      exact (congrArg (Caller.drain.progress after) running).trans (drain_progress after)
    | _ => exact current
  | finishes reply nothing =>
    cases nothing_of_draining placed nothing
    exact current
  | @works work after resume next choice event handles =>
    rw [(handle_frame handles).2.1, current]
    cases resume <;> rfl
  | loops handles => exact (handle_frame handles).2.1.trans current
  | resumes handles => exact (handle_frame handles).2.1.trans current
  | exits => rfl
  | ends => rfl
  | _ => exact current

omit [Inhabited B] in
private theorem stop_silent {stage after : StopStage} {choice : Choice B}
    (stops : stop setup p stage choice = some (next, after, event)) :
    event.handledBatch = [] ∧ event.addedBatch = [] := by
  have shown := (stop_frame stops).2.2.2.2
  cases event <;> first
    | exact ⟨rfl, rfl⟩
    | cases shown

/-- The other threads neither take nor handle anything. -/
theorem Move.others (move : Move setup p pc next after event) (placed : Placed party pc)
    (other : party ≠ .process) :
    next.process_thread_ = p.process_thread_ ∧ event.takenBatch = [] ∧ event.handledBatch = [] ∧
      event.addedBatch = [] := by
  cases move with
  | stop stops =>
    obtain ⟨_, thread, hidden, _⟩ := stop_frame stops
    exact ⟨thread, taken_of_hidden hidden, stop_silent stops⟩
  | @inside caller call after _ _ _ acts busy =>
    cases caller <;> cases party <;> first
      | exact ⟨rfl, AsyncChannel.act_took acts placed (by decide), rfl, rfl⟩
      | exact placed.elim
      | exact absurd rfl other
  | _ => cases party <;> first
      | exact placed.elim
      | exact absurd rfl other
      | exact ⟨rfl, rfl, rfl, rfl⟩

/-- The stages of `Stop` that come after the join. -/
def StopStage.Joined : StopStage → Prop
  | .processor _ | .aggregator | .sinkFlush _ | .sinkStop _ | .returned => True
  | _ => False

omit [Inhabited B] in
/-- `Stop` passes its join only when the process thread is over. -/
theorem stop_joined {stage after : StopStage} {choice : Choice B}
    (stops : stop setup p stage choice = some (next, after, event))
    (unstarted : stage = .idle → p.running_ = false → p.process_thread_ = .exited)
    (joined : stage.Joined → p.process_thread_ = .exited) :
    after ≠ .idle ∧ (after.Joined → p.process_thread_ = .exited) := by
  unfold stop at stops
  repeat' split at stops
  all_goals cases stops
  all_goals first
    | exact ⟨nofun, False.elim⟩
    | exact ⟨nofun, fun _ => joined trivial⟩
    | exact ⟨nofun, fun _ => ‹_›⟩
    | exact ⟨nofun, fun _ => unstarted rfl (Bool.eq_false_iff.mpr ‹_›)⟩

/-- Only `Stop` clears `running_`. -/
theorem Move.running (move : Move setup p pc next after event) (placed : Placed party pc) (other : party ≠ .main) :
    next.running_ = p.running_ := by
  cases move with
  | stop => cases party <;> first
      | exact absurd rfl other
      | exact placed.elim
  | works handles => exact (handle_frame handles).2.2.1
  | loops handles => exact (handle_frame handles).2.2.1
  | resumes handles => exact (handle_frame handles).2.2.1
  | exits handles => exact (handle_frame handles).2.2.1
  | _ => rfl

omit [Inhabited B] in
private theorem Caller.progress_eq (caller : Caller) (call : AsyncChannel.Pc B) (thread : ProcessThread) :
    caller.progress call thread = thread ∨ caller = .drain ∧ call = .returning (.dequeue none) := by
  unfold progress
  split
  · exact Or.inr ⟨rfl, rfl⟩
  · exact Or.inl rfl

/-- A process thread past its loop is past it for good, and left it with the channel empty. -/
theorem Move.retires (move : Move setup p pc next after event) (placed : Placed party pc)
    (current : party = .process → p.process_thread_ = pc.progress) (retired : next.process_thread_ ≠ .running) :
    p.process_thread_ ≠ .running ∨ next.ingest_channel_.queue_.items = [] := by
  cases move with
  | stop stops =>
    rw [(stop_frame stops).2.1] at retired
    exact Or.inl retired
  | @inside caller call after _ _ _ acts busy =>
    rcases caller.progress_eq after p.process_thread_ with same | ⟨rfl, rfl⟩
    · rw [same] at retired
      exact Or.inl retired
    · cases party with
      | process => exact Or.inr ((AsyncChannel.act_draining acts busy placed).2 rfl)
      | _ => exact placed.elim
  | ends reply nothing =>
    cases party with
    | process =>
      cases nothing_of_draining placed nothing
      rw [current rfl]
      exact Or.inl nofun
    | _ => exact placed.elim
  | exits handles =>
    cases party with
    | process =>
      rw [current rfl]
      exact Or.inl nofun
    | _ => exact placed.elim
  | works handles =>
    rw [(handle_frame handles).2.1] at retired
    exact Or.inl retired
  | loops handles =>
    rw [(handle_frame handles).2.1] at retired
    exact Or.inl retired
  | resumes handles =>
    rw [(handle_frame handles).2.1] at retired
    exact Or.inl retired
  | _ => exact Or.inl retired

/-- No batch is pushed once the drain has found the channel empty. -/
def inTime (p : Pipeline B) : Pc B → Bool
  | .enqueue (.enqueuePush _) | .enqueue (.enqueueRetry _) => decide (p.process_thread_ = .running)
  | _ => true

/-- Every batch added is followed by a flush. -/
def Covered (history : List (Party ι × Event B)) : Prop :=
  ∀ before after thread batch, history = before ++ (thread, .added batch) :: after →
    ∃ entry ∈ after, entry.2 = .flushed

/-- The process thread may still add to its aggregator, and has its last flush before it. -/
def Pc.MayAdd : Pc B → Prop
  | .exited => False
  | .work handler .finish => handler = .flush
  | _ => True

omit [Inhabited B] in
theorem Covered.snoc {history : List (Party ι × Event B)} (covered : Covered history)
    (quiet : event.addedBatch = []) : Covered (history ++ [(party, event)]) := by
  intro before after thread batch same
  rcases snoc_split same with ⟨here, _⟩ | ⟨rest, rfl, front⟩
  · cases here
    cases quiet
  · obtain ⟨entry, member, flushed⟩ := covered before rest thread batch front
    exact ⟨entry, List.mem_append_left _ member, flushed⟩

omit [Inhabited B] in
theorem covered_of_flushed (history : List (Party ι × Event B)) : Covered (history ++ [(party, .flushed)]) := by
  intro before after thread batch same
  rcases snoc_split same with ⟨here, _⟩ | ⟨rest, rfl, _⟩
  · cases here
  · exact ⟨(party, .flushed), by simp, rfl⟩

omit [Inhabited B] in
private theorem Handled.covers {history : List (Party ι × Event B)} {work : Work B} {rest : Option (Work B)}
    {resume : Resume} (handled : Handled setup work rest event)
    (placed : Placed (.process : Party ι) (.work work resume))
    (covered : Covered history ∨ setup.aggregator_ = true ∧ (Pc.work work resume).MayAdd)
    (goes : resume ≠ .finish → after.MayAdd) :
    Covered (history ++ [(.process, event)]) ∨ setup.aggregator_ = true ∧ after.MayAdd := by
  by_cases added : ∃ batch, event = .added batch
  · obtain ⟨batch, rfl⟩ := added
    obtain ⟨aggregates, open_⟩ := handled.added batch rfl
    refine Or.inr ⟨aggregates, goes ?_⟩
    rintro rfl
    exact open_ placed
  · have quiet : event.addedBatch = [] := by
      cases event with
      | added batch => exact absurd ⟨batch, rfl⟩ added
      | _ => rfl
    rcases covered with covered | ⟨aggregates, may⟩
    · exact Or.inl (covered.snoc quiet)
    · by_cases last : resume = .finish
      · subst last
        rw [handled.flushed may aggregates]
        exact Or.inl (covered_of_flushed history)
      · exact Or.inr ⟨aggregates, goes last⟩

/-- The process thread flushes after every addition, or can still do so. -/
theorem Move.covers {history : List (Party ι × Event B)} (move : Move setup p pc next after event)
    (placed : Placed (.process : Party ι) pc)
    (covered : Covered history ∨ setup.aggregator_ = true ∧ pc.MayAdd) :
    Covered (history ++ [(.process, event)]) ∨ setup.aggregator_ = true ∧ after.MayAdd := by
  cases move with
  | stop => exact placed.elim
  | @works work after resume _ _ _ handles =>
    refine (handle_handled handles).covers placed covered fun other => ?_
    cases resume with
    | finish => exact absurd rfl other
    | _ => trivial
  | loops handles => exact (handle_handled handles).covers placed covered fun _ => trivial
  | resumes handles => exact (handle_handled handles).covers placed covered fun _ => trivial
  | exits handles => exact (handle_handled handles).covers placed covered fun other => absurd rfl other
  | ends reply nothing direct =>
    rw [direct] at covered ⊢
    rcases covered with covered | ⟨absent, _⟩
    · exact Or.inl (covered.snoc rfl)
    · cases absent
  | @inside caller =>
    refine covered.imp (fun covered => covered.snoc rfl) (And.imp_right fun _ => ?_)
    cases caller <;> trivial
  | finishes => exact covered.imp (fun covered => covered.snoc rfl) (And.imp_right fun _ => rfl)
  | _ => exact covered.imp (fun covered => covered.snoc rfl) (And.imp_right fun _ => trivial)

/-- What holds of every state a pipeline's threads can reach. -/
structure Kept (setup : Setup B) (history : List (Party ι × Event B)) (s : State (Pipeline B) (Pc B) (Party ι)) :
    Prop where
  placed : ∀ party, Placed party (s.pc party)
  progress : s.shared.process_thread_ = (s.pc .process).progress
  unstarted : s.pc .main = .stop .idle → s.shared.running_ = false → s.shared.process_thread_ = .exited
  joined : ∀ stage, s.pc .main = .stop stage → stage.Joined → s.shared.process_thread_ = .exited
  handled : history.flatMap (fun entry => entry.2.takenBatch) =
    history.flatMap (fun entry => entry.2.handledBatch) ++ (s.pc .process).holding
  covered : Covered history ∨ setup.aggregator_ = true ∧ (s.pc .process).MayAdd

variable [DecidableEq ι] {history : List (Party ι × Event B)} {s : State (Pipeline B) (Pc B) (Party ι)}
  {choice : Choice B}

omit [Inhabited B] in
theorem exited_of_progress (finished : pc.progress = .exited) : pc = .exited := by
  unfold Pc.progress at finished
  split at finished <;> first
    | rfl
    | cases finished

omit [Inhabited B] [DecidableEq ι] in
private theorem stop_of_placed (placed : Placed (.main : Party ι) pc) : ∃ stage, pc = .stop stage := by
  cases pc with
  | stop stage => exact ⟨stage, rfl⟩
  | _ => exact placed.elim

private theorem Kept.step_process (kept : Kept setup history s)
    (enabled : act setup s.shared (s.pc .process) choice = some (next, after, event)) :
    Kept setup (history ++ [(.process, event)]) (s.move .process next after) := by
  have move := act_move enabled
  have placed := kept.placed .process
  have held := move.holds placed
  have main : (s.move .process next after).pc .main = s.pc .main := s.move_pc_of_ne next after nofun
  constructor
  · exact State.forall_move Placed (fun other _ => kept.placed other) (move.placed placed)
  · rw [State.move_pc_self]
    exact move.progresses placed kept.progress
  · rw [main, State.move_shared, move.running placed nofun]
    intro idle halted
    have finished := exited_of_progress (kept.progress.symm.trans (kept.unstarted idle halted))
    rw [finished] at enabled
    cases enabled
  · intro stage at_ joined
    rw [main] at at_
    have finished := exited_of_progress (kept.progress.symm.trans (kept.joined stage at_ joined))
    rw [finished] at enabled
    cases enabled
  · simp only [List.flatMap_append, List.flatMap_cons, List.flatMap_nil, List.append_nil, State.move_pc_self]
    rw [kept.handled, List.append_assoc, held, List.append_assoc]
  · rw [State.move_pc_self]
    exact move.covers placed kept.covered

private theorem Kept.step_other (kept : Kept setup history s) (other : party ≠ .process)
    (enabled : act setup s.shared (s.pc party) choice = some (next, after, event)) :
    Kept setup (history ++ [(party, event)]) (s.move party next after) := by
  have move := act_move enabled
  have placed := kept.placed party
  obtain ⟨thread, taken, handled, added⟩ := move.others placed other
  have process : (s.move party next after).pc .process = s.pc .process := s.move_pc_of_ne next after other.symm
  have stopping : ((s.move party next after).pc .main = .stop .idle → next.running_ = false →
        s.shared.process_thread_ = .exited) ∧
      ∀ stage, (s.move party next after).pc .main = .stop stage → stage.Joined → s.shared.process_thread_ = .exited := by
    by_cases main : party = .main
    · subst main
      obtain ⟨stage, at_⟩ := stop_of_placed placed
      rw [at_] at enabled
      obtain ⟨⟨_, stage', _⟩, stops, same⟩ := Option.map_eq_some_iff.mp enabled
      cases same
      obtain ⟨begun, joined⟩ := stop_joined stops (by rintro rfl; exact kept.unstarted at_) (kept.joined stage at_)
      rw [State.move_pc_self]
      refine ⟨?_, ?_⟩
      · rintro ⟨⟩
        exact absurd rfl begun
      · rintro _ ⟨⟩
        exact joined
    · rw [s.move_pc_of_ne next after (Ne.symm main), move.running placed main]
      exact ⟨kept.unstarted, kept.joined⟩
  constructor
  · exact State.forall_move Placed (fun other _ => kept.placed other) (move.placed placed)
  · rw [process, State.move_shared, thread]
    exact kept.progress
  · rw [State.move_shared, thread]
    exact stopping.1
  · rw [State.move_shared, thread]
    exact stopping.2
  · simp only [List.flatMap_append, List.flatMap_cons, List.flatMap_nil, List.append_nil, process, taken, handled]
    exact kept.handled
  · rw [process]
    exact kept.covered.imp_left fun covered => covered.snoc added

/-- Every action keeps it. -/
theorem Kept.step (kept : Kept setup history s)
    (enabled : act setup s.shared (s.pc party) choice = some (next, after, event)) :
    Kept setup (history ++ [(party, event)]) (s.move party next after) := by
  by_cases process : party = .process
  · subst process
    exact kept.step_process enabled
  · exact kept.step_other process enabled

omit [Inhabited B] [DecidableEq ι] in
private theorem inTime_of_pushing {batch : B} (placed : Placed party pc)
    (pushing : pc.call = .enqueuePush batch ∨ pc.call = .enqueueRetry batch) (condition : inTime p pc = true) :
    p.process_thread_ = .running := by
  have within : pc.call.kind = some .enqueue := by
    rcases pushing with same | same <;> rw [same] <;> rfl
  have other {kind : AsyncChannel.Kind} (found : pc.call.kind = some kind) : kind = .enqueue :=
    Option.some.inj (found.symm.trans within)
  cases pc with
  | enqueue call =>
    change call = _ ∨ call = _ at pushing
    rcases pushing with rfl | rfl
    · exact of_decide_eq_true condition
    · exact of_decide_eq_true condition
  | dequeue call =>
    cases party with
    | process => exact nomatch other placed
    | _ => exact placed.elim
  | drain call =>
    cases party with
    | process => exact nomatch other (AsyncChannel.Pc.Draining.kind placed)
    | _ => exact placed.elim
  | inject call =>
    cases party with
    | producer => exact nomatch other placed
    | _ => exact placed.elim
  | _ => cases within

omit [DecidableEq ι] in
/-- With every push in time, a process thread past its loop leaves only flushes in the channel. -/
theorem Kept.late_step (kept : Kept setup history s) (condition : inTime s.shared (s.pc party) = true)
    (enabled : act setup s.shared (s.pc party) choice = some (next, after, event))
    (late : s.shared.process_thread_ ≠ .running → ∀ item ∈ s.shared.ingest_channel_.queue_.items, item = .flush) :
    next.process_thread_ ≠ .running → ∀ item ∈ next.ingest_channel_.queue_.items, item = .flush := by
  intro retired item member
  have move := act_move enabled
  rcases move.retires (kept.placed party) (by rintro rfl; exact kept.progress) retired with before | empty
  · rcases move.simulates with ⟨_, same, _⟩ | ⟨choice', event', _, acts⟩
    · rw [same] at member
      exact late before item member
    · have found := List.mem_append_right event'.loss member
      rw [← (AsyncChannel.act_effect acts).items] at found
      rcases List.mem_append.mp found with old | entered
      · exact late before item old
      · rcases AsyncChannel.act_enters acts entered with flush | ⟨batch, pushing⟩
        · exact flush
        · exact absurd (inTime_of_pushing (kept.placed party) pushing condition) before
  · rw [empty] at member
    cases member

/-- What becomes of the batches in a history: a `TryEnqueue` that has returned true has entered its
batch, every entered batch has left the channel, those not evicted were handed to `HandleData` once
each and in order, and every batch added was flushed later. -/
structure Delivered (history : List (Party ι × Event B)) : Prop where
  accepted : ∀ party, (own party (channelHistory history)).flatMap AsyncChannel.Event.batchAccepted <+:
    (own party (channelHistory history)).flatMap AsyncChannel.Event.batchEntered
  left : ∀ (position : ℕ) (party : Party ι) (batch : B),
    (AsyncChannel.entries (channelHistory history))[position]? = some (party, .batch batch) →
      ∃ exit, (AsyncChannel.departures (channelHistory history))[position]? = some (exit, .batch batch)
  handled : history.flatMap (fun entry => entry.2.handledBatch) =
    (AsyncChannel.departures (channelHistory history)).flatMap fun entry =>
      if entry.1 = .delivered then entry.2.batches else []
  covered : Covered history

omit [Inhabited B] [DecidableEq ι] in
private theorem taken_delivered (history : List (Party ι × Event B)) :
    history.flatMap (fun entry => entry.2.takenBatch) =
      (AsyncChannel.departures (channelHistory history)).flatMap fun entry =>
        if entry.1 = .delivered then entry.2.batches else [] := by
  induction history with
  | nil => rfl
  | cons entry rest ih =>
    obtain ⟨thread, event⟩ := entry
    rw [List.flatMap_cons, ih]
    cases event with
    | channel event =>
      change _ = (event.departure ++ AsyncChannel.departures (channelHistory rest)).flatMap _
      rw [List.flatMap_append]
      refine congrArg (· ++ _) ?_
      cases event with
      | taken item => exact (List.append_nil _).symm
      | _ => rfl
    | _ => rfl

section Runs

variable {capacity : UInt64} {slots : 2 ≤ (roundUpPow2 capacity).toNat} {policy : DropPolicy} {high_wm low_wm : ℚ}
  {target : State (Pipeline B) (Pc B) (Party ι)}

omit [Inhabited B] [DecidableEq ι] in
private theorem covered_nil : Covered ([] : List (Party ι × Event B)) := by
  intro before after thread batch same
  cases before <;> cases same

omit [Inhabited B] [DecidableEq ι] in
/-- It holds at first of a pipeline that was started. -/
theorem kept_started (channel : AsyncChannel B) : Kept setup [] ⟨started channel, (Party.start : Party ι → Pc B)⟩ := by
  refine ⟨fun party => ?_, rfl, fun _ halted => (nomatch halted), ?_, rfl, Or.inl covered_nil⟩
  · cases party <;> trivial
  · rintro _ ⟨⟩ joined
    exact joined.elim

omit [Inhabited B] [DecidableEq ι] in
/-- It holds at first of a pipeline that was not started. -/
theorem kept_unstarted (channel : AsyncChannel B) :
    Kept setup [] ⟨unstarted channel, (Party.absent : Party ι → Pc B)⟩ := by
  refine ⟨fun party => ?_, rfl, fun _ _ => rfl, fun _ _ _ => rfl, rfl, Or.inl covered_nil⟩
  cases party <;> trivial

theorem run_kept {source : State (Pipeline B) (Pc B) (Party ι)} (fresh : Kept setup [] source)
    (run : (program setup).Run source history target) : Kept setup history target :=
  run.invariant (Kept setup) fresh fun kept enabled => kept.step enabled

/-- A process thread past its loop leaves only flushes behind. -/
theorem run_late
    (run : ((program setup).restrict inTime).Run (initial ι capacity slots policy high_wm low_wm) history target)
    (retired : target.shared.process_thread_ ≠ .running) :
    ∀ item ∈ target.shared.ingest_channel_.queue_.items, item = .flush := by
  have both := run.invariant (fun history s => Kept setup history s ∧ (s.shared.process_thread_ ≠ .running →
      ∀ item ∈ s.shared.ingest_channel_.queue_.items, item = .flush))
    ⟨kept_started _, fun loops => absurd rfl loops⟩ fun kept enabled => by
      obtain ⟨condition, acts⟩ := Program.restrict_act.mp enabled
      exact ⟨kept.1.step acts, kept.1.late_step condition acts kept.2⟩
  exact both.2 retired

/-- In a run in which no batch is pushed after the drain has found the channel empty, a `Stop` that
has returned leaves nothing behind. -/
theorem shutdown_delivers
    (run : ((program setup).restrict inTime).Run (initial ι capacity slots policy high_wm low_wm) history target)
    (stopped : target.pc .main = .stop .returned) : Delivered history := by
  have kept := run_kept (kept_started _) run.unrestrict
  have finished : target.shared.process_thread_ = .exited := kept.joined .returned stopped trivial
  have exited := exited_of_progress (kept.progress.symm.trans finished)
  have channel := run_channel run.unrestrict
  have flushes := run_late run (by rw [finished]; exact nofun)
  constructor
  · intro party
    have own := channel.own_ledger AsyncChannel.Pc.accepting AsyncChannel.Event.batchEntered
      AsyncChannel.Event.batchAccepted party rfl AsyncChannel.act_accepting
    exact ⟨_, own.symm⟩
  · intro position party batch entered
    have item : ((AsyncChannel.entries (channelHistory history)).map Prod.snd)[position]? = some (.batch batch) := by
      rw [List.getElem?_map, entered]
      rfl
    rw [AsyncChannel.run_fifo channel] at item
    by_cases gone : position < (AsyncChannel.departures (channelHistory history)).length
    · rw [List.getElem?_append_left (by rwa [List.length_map]), List.getElem?_map, Option.map_eq_some_iff] at item
      obtain ⟨⟨exit, _⟩, left, rfl⟩ := item
      exact ⟨exit, left⟩
    · rw [List.getElem?_append_right (by rw [List.length_map]; omega)] at item
      exact nomatch flushes _ (List.mem_of_getElem? item)
  · have handled := kept.handled
    rw [exited, taken_delivered] at handled
    exact (handled.trans (List.append_nil _)).symm
  · rcases kept.covered with covered | ⟨_, may⟩
    · exact covered
    · rw [exited] at may
      exact may.elim

end Runs

/-- One processor and one sink written directly. -/
def sample (aggregator_ : Bool) : Setup ℕ := ⟨fun batch => batch == 0, id, 1, aggregator_, 1, false⟩

/-- One thread's consecutive choices. -/
def turn (party : Party Unit) (choices : List (Choice ℕ)) : List (Party Unit × Choice ℕ) := choices.map (party, ·)

/-- `Stop` has only cleared `running_` when the process thread drains an empty channel and ends; the
source, still running, then enqueues a batch and stops. -/
def overtaken : List (Party Unit × Choice ℕ) :=
  turn .main [.Stop] ++ turn .process (List.replicate 4 .proceed) ++
    turn (.producer ()) (.Enqueue 7 :: List.replicate 7 .proceed) ++ turn .main (List.replicate 8 .proceed)

/-- A batch whose `TryEnqueue` returned true is still in the channel when `Stop` returns. -/
theorem shutdown_loses :
    ∃ history target, (program (sample false)).Run (initial Unit 2 (by decide) .kDropNewest (4 / 5) (1 / 5))
        history target ∧ target.pc .main = .stop .returned ∧
      (own (.producer ()) (channelHistory history)).flatMap AsyncChannel.Event.batchAccepted = [7] ∧
      history.flatMap (fun entry => entry.2.handledBatch) = [] ∧ ¬ Delivered history := by
  obtain ⟨history, target, run, stopped, accepted, handled, entered, kept⟩ := Program.exists_run_of_check
    (program (sample false)) (initial Unit 2 (by decide) .kDropNewest (4 / 5) (1 / 5))
    (fun target history => target.pc .main = .stop .returned ∧
      (own (.producer ()) (channelHistory history)).flatMap AsyncChannel.Event.batchAccepted = [7] ∧
      history.flatMap (fun entry => entry.2.handledBatch) = [] ∧
      (AsyncChannel.entries (channelHistory history))[0]? = some (.producer (), .batch 7) ∧
      (AsyncChannel.departures (channelHistory history))[0]? = none) overtaken (by decide +kernel)
  refine ⟨history, target, run, stopped, accepted, handled, fun delivered => ?_⟩
  obtain ⟨exit, left⟩ := delivered.left 0 _ 7 entered
  rw [left] at kept
  cases kept

/-- A source that enqueues before the drain has its batch handled and flushed. -/
def orderly : List (Party Unit × Choice ℕ) :=
  turn (.producer ()) (.Enqueue 7 :: List.replicate 7 .proceed) ++ turn .main (.Stop :: [.proceed]) ++
    turn .process (List.replicate 8 .proceed ++ [.processed (some 8), .proceed, .proceed] ++
      List.replicate 3 .proceed ++ [.flushed (some [8])] ++ [.proceed, .wrote true, .proceed]) ++
    turn .main (List.replicate 7 .proceed)

theorem shutdown_delivers_orderly :
    ∃ history target, (program (sample true)).Run (initial Unit 2 (by decide) .kDropNewest (4 / 5) (1 / 5))
        history target ∧ target.pc .main = .stop .returned ∧
      history.flatMap (fun entry => entry.2.handledBatch) = [7] ∧
      history.flatMap (fun entry => entry.2.addedBatch) = [8] ∧ Delivered history := by
  obtain ⟨history, target, run, stopped, handled, added⟩ := Program.exists_run_of_check
    ((program (sample true)).restrict inTime) (initial Unit 2 (by decide) .kDropNewest (4 / 5) (1 / 5))
    (fun target history => target.pc .main = .stop .returned ∧
      history.flatMap (fun entry => entry.2.handledBatch) = [7] ∧
      history.flatMap (fun entry => entry.2.addedBatch) = [8]) orderly (by decide +kernel)
  exact ⟨history, target, run.unrestrict, stopped, handled, added, shutdown_delivers run stopped⟩

end Pipeline

end Illuminator
