import Illuminator.Machine.Components
import Illuminator.Model.PushSource
import Illuminator.Soundness.PipelineMoves

/-! # Events that arrive while a pipeline starts

A source polls from the moment its own `Start` has returned, and the pipeline installs the callback last,
so an event that is handled in between is discarded, and so is every event after a `Start` that a later
component has failed. While no event is handled then, the events handled after the source's `Start` are
offered to the channel one by one, in order. The main thread's `Start` is the one of the pipeline's
lifecycle, call by call.
-/

namespace Illuminator

namespace PushPipeline

variable {R B : Type*}

/-- The batch with which the pipeline's callback has been called, until it is offered. -/
def SourcePc.inHand : SourcePc R B → List B
  | .pushing batch => [batch]
  | _ => []

/-- The pipeline's callback has been called. -/
def SourcePc.Carrying : SourcePc R B → Prop
  | .pushing _ | .calling _ => True
  | _ => False

/-- `Start` has called the source's `Start`, and it may not have returned. -/
def Stage.early : Stage → Bool
  | .begin | .source => true
  | _ => false

/-- `Start` has installed the callback. -/
def Stage.installed : Stage → Bool
  | .stop _ => true
  | _ => false

/-- The source's `Start` has returned `Ok`, and the callback is not installed. -/
def Stage.waits : Stage → Bool
  | .components _ | .run | .spawn | .install | .failed _ => true
  | _ => false

/-- The source's `Start` has returned `Ok`. -/
def Stage.past (stage : Stage) : Bool := stage.waits || stage.installed

variable [Inhabited B] {setup : Setup R B} {s next : PushPipeline B}

/-- `Start` has returned an error without starting a thread. -/
def Stage.refuses : Stage → Bool
  | .refused _ => true
  | _ => false

/-- What the main thread's stage says of the shared state. -/
structure MainHolds (setup : Setup R B) (stage : Stage) (s : PushPipeline B) : Prop where
  early : stage.early = true → s.poll_thread_ = .absent
  polls : s.poll_thread_ ≠ .absent → setup.source_.Start.polls = true
  refused : ∀ status, stage = .refused status → s.poll_thread_ = .absent
  callback : s.callback_ = stage.installed
  stopped : s.pipeline.sourceStopped = true → stage.installed = true ∧ s.poll_thread_ ≠ .running

/-- What the place of the source's thread says of the shared state. -/
structure SourceHolds (setup : Setup R B) (pc : SourcePc R B) (s : PushPipeline B) : Prop where
  alive : s.poll_thread_ ≠ .running → pc = .loopTest ∨ pc = .exited
  carrying : pc.Carrying → s.callback_ = true
  filled : ∀ batch ∈ pc.inHand, setup.Empty batch = false
  working : ∀ inner, pc = .calling inner → inner.Working

omit [Inhabited B] in
private theorem stop_sourceStopped {setup : Pipeline.Setup B} {p next : Pipeline B} {stage after : Pipeline.StopStage}
    {choice : Pipeline.Choice B} {event : Pipeline.Event B} (other : stage ≠ .source)
    (stops : Pipeline.stop setup p stage choice = some (next, after, event)) : next.sourceStopped = p.sourceStopped := by
  unfold Pipeline.stop at stops
  repeat' split at stops
  all_goals cases stops
  all_goals first
    | rfl
    | exact absurd rfl other

/-- The moves of the main thread. -/
inductive MainMove (setup : Setup R B) (s : PushPipeline B) : Stage → PushPipeline B → Stage → Event R B → Prop
  | refuses (bare : setup.sinks_ = []) :
      MainMove setup s .begin s (.refused (.Error .kInvalidArgument ("Pipeline has no sinks: " ++ setup.name_))) .local
  | begins (sinks : setup.sinks_ ≠ []) : MainMove setup s .begin s .source .local
  | launches :
      MainMove setup s .source
        { s with
          running_ := setup.source_.Start.polls
          poll_thread_ := if setup.source_.Start.polls then .running else .absent }
        .sourceReturns .local
  | launched (ok : setup.source_.Start.status.ok = true) :
      MainMove setup s .sourceReturns s (.components setup.plugins.rest) (.component (.started .source))
  | unlaunched (failed : setup.source_.Start.status.ok = false) :
      MainMove setup s .sourceReturns s (.refused setup.source_.Start.status)
        (.component (.failed .source setup.source_.Start.status))
  | starts {part : Lifecycle.Part} {status : Status} {rest : List (Lifecycle.Part × Status)} (ok : status.ok = true) :
      MainMove setup s (.components ((part, status) :: rest)) s (.components rest) (.component (.started part))
  | fails {part : Lifecycle.Part} {status : Status} {rest : List (Lifecycle.Part × Status)}
      (failed : status.ok = false) :
      MainMove setup s (.components ((part, status) :: rest)) s (.failed status) (.component (.failed part status))
  | complete : MainMove setup s (.components []) s .run .local
  | runs : MainMove setup s .run { s with pipeline := { s.pipeline with running_ := true } } .spawn .local
  | spawns :
      MainMove setup s .spawn { s with pipeline := { s.pipeline with process_thread_ := .running } } .install .local
  | installs : MainMove setup s .install { s with callback_ := true } (.stop .idle) .installed
  | halts : MainMove setup s (.stop .source) { s with running_ := false } (.stop .source) .local
  | stops {stage after : Pipeline.StopStage} {p : Pipeline B} {choice : Pipeline.Choice B} {event : Pipeline.Event B}
      (joined : stage = .source → s.poll_thread_ ≠ .running)
      (acts : Pipeline.stop setup.pipeline s.pipeline stage choice = some (p, after, event)) :
      MainMove setup s (.stop stage) { s with pipeline := p } (.stop after) (.pipeline event)

omit [Inhabited B] in
theorem mainAct_move {stage after : Stage} {choice : Choice R B} {event : Event R B}
    (acts : mainAct setup s stage choice = some (next, after, event)) : MainMove setup s stage next after event := by
  unfold mainAct at acts
  split at acts
  · split_ifs at acts with bare
    · cases acts
      exact .refuses (List.isEmpty_iff.mp bare)
    · cases acts
      exact .begins fun none => bare (List.isEmpty_iff.mpr none)
  · cases acts
    exact .launches
  · split_ifs at acts with ok
    · cases acts
      exact .launched ok
    · cases acts
      exact .unlaunched (Bool.eq_false_iff.mpr ok)
  · cases acts
    exact .complete
  · split_ifs at acts with ok
    · cases acts
      exact .starts ok
    · cases acts
      exact .fails (Bool.eq_false_iff.mpr ok)
  · cases acts
    exact .runs
  · cases acts
    exact .spawns
  · cases acts
    exact .installs
  · split_ifs at acts with running polling
    · cases acts
      exact .halts
    · obtain ⟨⟨_, _, _⟩, stops, same⟩ := Option.map_eq_some_iff.mp acts
      cases same
      exact .stops (fun _ => polling) stops
  · next other =>
    obtain ⟨⟨_, _, _⟩, stops, same⟩ := Option.map_eq_some_iff.mp acts
    cases same
    exact .stops (fun here => (other here).elim) stops
  · cases acts

/-- The moves of the source's thread. -/
inductive SourceMove (setup : Setup R B) (s : PushPipeline B) :
    SourcePc R B → PushPipeline B → SourcePc R B → Event R B → Prop
  | polls : SourceMove setup s .loopTest s .polling .local
  | exits : SourceMove setup s .loopTest { s with poll_thread_ := .exited } .exited .local
  | receives (event : R) (size : ℕ) :
      SourceMove setup s .polling s (.received event size) (.received event size)
  | returns : SourceMove setup s .polling s .loopTest .local
  | short {event : R} {size : ℕ} (short : size < setup.source_.sizeof_event) :
      SourceMove setup s (.received event size) s .polling .local
  | loses {event : R} {size : ℕ} (full : setup.source_.sizeof_event ≤ size) (silent : s.callback_ = false) :
      SourceMove setup s (.received event size) s .polling (.handled event)
  | turns {event : R} {size : ℕ} (full : setup.source_.sizeof_event ≤ size) (installed : s.callback_ = true) :
      SourceMove setup s (.received event size) s (.pushing (setup.source_.build event)) (.handled event)
  | drops {batch : B} (empty : setup.Empty batch = true) : SourceMove setup s (.pushing batch) s .polling (.pipeline .local)
  | offers {batch : B} (filled : setup.Empty batch = false) :
      SourceMove setup s (.pushing batch)
        { s with pipeline := { s.pipeline with enqueueing := s.pipeline.enqueueing + 1 } }
        (.calling (.enqueue (.enqueuePush batch))) (.pipeline (.channel (.called (.TryEnqueue batch))))
  | calls {pc after : Pipeline.Pc B} {p : Pipeline B} {event : Pipeline.Event B}
      (acts : Pipeline.act setup.pipeline s.pipeline pc .proceed = some (p, after, event)) :
      SourceMove setup s (.calling pc) { s with pipeline := p } (.calls after) (.pipeline event)

theorem sourceAct_move {pc after : SourcePc R B} {choice : Choice R B} {event : Event R B}
    (acts : sourceAct setup s pc choice = some (next, after, event)) : SourceMove setup s pc next after event := by
  unfold sourceAct at acts
  split at acts
  · split_ifs at acts with running
    · cases acts
      exact .polls
    · cases acts
      exact .exits
  · cases acts
    exact .receives _ _
  · cases acts
    exact .returns
  · cases acts
    unfold RingBufferSource.HandleEvent
    split_ifs with short installed
    · exact .short short
    · exact .turns (not_lt.mp short) installed
    · exact .loses (not_lt.mp short) (Bool.eq_false_iff.mpr installed)
  · obtain ⟨⟨_, _, _⟩, called, same⟩ := Option.map_eq_some_iff.mp acts
    cases same
    obtain ⟨⟨_, _, _⟩, enters, same⟩ := Option.map_eq_some_iff.mp called
    cases same
    simp only [Pipeline.act] at enters
    split_ifs at enters with stopped empty
    · cases enters
      exact .drops empty
    · cases enters
      exact .offers (Bool.eq_false_iff.mpr empty)
  · obtain ⟨⟨_, _, _⟩, called, same⟩ := Option.map_eq_some_iff.mp acts
    cases same
    obtain ⟨⟨_, _, _⟩, enters, same⟩ := Option.map_eq_some_iff.mp called
    cases same
    exact .calls enters
  · cases acts

omit [Inhabited B] in
@[simp] theorem SourcePc.inHand_calls (pc : Pipeline.Pc B) : (SourcePc.calls pc : SourcePc R B).inHand = [] := by
  cases pc <;> rfl

omit [Inhabited B] in
theorem MainMove.holds {stage after : Stage} {event : Event R B} (move : MainMove setup s stage next after event)
    (holds : MainHolds setup stage s) : MainHolds setup after next := by
  obtain ⟨early, polls, refused, callback, stopped⟩ := holds
  have unrefused {later : Stage} {s : PushPipeline B} (other : later.refuses = false) :
      ∀ status, later = .refused status → s.poll_thread_ = .absent := by
    rintro status rfl
    exact absurd other.symm Bool.false_ne_true
  cases move with
  | refuses =>
    exact ⟨fun is => absurd is Bool.false_ne_true, polls, fun _ _ => early rfl, callback,
      fun is => absurd (stopped is).1 Bool.false_ne_true⟩
  | begins =>
    exact ⟨fun _ => early rfl, polls, unrefused rfl, callback, fun is => absurd (stopped is).1 Bool.false_ne_true⟩
  | launches =>
    refine ⟨fun is => absurd is Bool.false_ne_true, fun present => ?_, unrefused rfl, callback,
      fun is => absurd (stopped is).1 Bool.false_ne_true⟩
    by_contra silent
    exact present (if_neg silent)
  | unlaunched failed =>
    refine ⟨fun is => absurd is Bool.false_ne_true, polls, fun _ _ => ?_, callback,
      fun is => absurd (stopped is).1 Bool.false_ne_true⟩
    by_contra present
    exact Bool.false_ne_true (failed.symm.trans (setup.source_.Start.ok_of_polls (polls present)))
  | installs =>
    exact ⟨fun is => absurd is Bool.false_ne_true, polls, unrefused rfl, rfl,
      fun is => absurd (stopped is).1 Bool.false_ne_true⟩
  | halts => exact ⟨fun is => absurd is Bool.false_ne_true, polls, unrefused rfl, callback, stopped⟩
  | @stops stage _ _ _ _ joined acts =>
    refine ⟨fun is => absurd is Bool.false_ne_true, polls, unrefused rfl, callback, fun is => ⟨rfl, ?_⟩⟩
    by_cases here : stage = .source
    · exact joined here
    · exact (stopped ((stop_sourceStopped here acts).symm.trans is)).2
  | _ =>
    exact ⟨fun is => absurd is Bool.false_ne_true, polls, unrefused rfl, callback,
      fun is => absurd (stopped is).1 Bool.false_ne_true⟩

omit [Inhabited B] in
/-- The main thread does not disturb the source's. -/
theorem MainMove.keeps_source {stage after : Stage} {event : Event R B} {pc : SourcePc R B}
    (move : MainMove setup s stage next after event) (main : MainHolds setup stage s) (holds : SourceHolds setup pc s) :
    SourceHolds setup pc next := by
  obtain ⟨alive, carrying, filled, working⟩ := holds
  cases move with
  | launches => exact ⟨fun _ => alive (by rw [main.early rfl]; nofun), carrying, filled, working⟩
  | installs => exact ⟨alive, fun _ => rfl, filled, working⟩
  | _ => exact ⟨alive, carrying, filled, working⟩

theorem SourceMove.holds {pc after : SourcePc R B} {event : Event R B}
    (move : SourceMove setup s pc next after event) (running : s.poll_thread_ = .running)
    (holds : SourceHolds setup pc s) : SourceHolds setup after next := by
  have running' : ∀ {claim : Prop}, s.poll_thread_ ≠ .running → claim := fun dead => absurd running dead
  obtain ⟨_, carrying, _, working⟩ := holds
  cases move with
  | polls => exact ⟨running', nofun, nofun, nofun⟩
  | exits => exact ⟨fun _ => .inr rfl, nofun, nofun, nofun⟩
  | receives => exact ⟨running', nofun, nofun, nofun⟩
  | returns => exact ⟨running', nofun, nofun, nofun⟩
  | short => exact ⟨running', nofun, nofun, nofun⟩
  | loses => exact ⟨running', nofun, nofun, nofun⟩
  | turns _ installed =>
    refine ⟨running', fun _ => installed, ?_, nofun⟩
    intro batch member
    rw [List.mem_singleton.mp member]
    exact setup.source_.filled _
  | drops => exact ⟨running', nofun, nofun, nofun⟩
  | offers =>
    refine ⟨running', fun _ => carrying trivial, nofun, ?_⟩
    rintro _ ⟨⟩
    trivial
  | @calls pc after _ _ acts =>
    refine ⟨running', fun _ => carrying trivial, by simp, ?_⟩
    have kept := (Pipeline.act_working acts (working pc rfl)).1
    intro inner same
    cases after <;> cases same <;> exact kept

theorem SourceMove.keeps_main {stage : Stage} {pc after : SourcePc R B} {event : Event R B}
    (move : SourceMove setup s pc next after event) (running : s.poll_thread_ = .running)
    (source : SourceHolds setup pc s) (holds : MainHolds setup stage s) : MainHolds setup stage next := by
  obtain ⟨early, polls, refused, callback, stopped⟩ := holds
  have present : s.poll_thread_ ≠ .absent := by
    rw [running]
    nofun
  cases move with
  | exits =>
    exact ⟨fun is => absurd (early is) present, fun _ => polls present,
      fun status is => absurd (refused status is) present, callback, fun is => ⟨(stopped is).1, nofun⟩⟩
  | @calls pc _ _ _ acts =>
    have kept := (Pipeline.act_working acts (source.working pc rfl)).2
    exact ⟨early, polls, refused, callback, fun is => stopped (kept.symm.trans is)⟩
  | _ => exact ⟨early, polls, refused, callback, stopped⟩

/-- The calls that `Start` makes on the components, in order. -/
def Event.component? : Event R B → Option Lifecycle.Event
  | .component event => some event
  | _ => none

/-- What `Start` has come to, if it has returned. -/
def Stage.returned : Stage → Option Status
  | .refused status | .failed status => some status
  | .stop _ => some .Ok
  | _ => none

/-- What the lifecycle's `Start` still has in store for a main thread that has made some of its calls. -/
def Stage.Follows (setup : Setup R B) (log : List Lifecycle.Event) : Stage → Prop
  | .begin => log = []
  | .source | .sourceReturns => log = [] ∧ setup.sinks_ ≠ []
  | .components rest => setup.sinks_ ≠ [] ∧
    Lifecycle.startEach ((.source, setup.source_.Start.status) :: setup.plugins.rest) =
      (log ++ (Lifecycle.startEach rest).1, (Lifecycle.startEach rest).2)
  | .run | .spawn | .install | .stop _ => setup.sinks_ ≠ [] ∧
    Lifecycle.startEach ((.source, setup.source_.Start.status) :: setup.plugins.rest) = (log, none)
  | .refused status | .failed status => (Lifecycle.Pipeline.built setup.plugins).Start.2 = (log, status)

omit [Inhabited B] in
private theorem lifecycle_start (sinks : setup.sinks_ ≠ []) :
    (Lifecycle.Pipeline.built setup.plugins).Start.2 =
      match Lifecycle.startEach ((.source, setup.source_.Start.status) :: setup.plugins.rest) with
      | (log, some status) => (log, status)
      | (log, none) => (log, .Ok) := by
  have bare : setup.plugins.sinks_.isEmpty = false :=
    Bool.eq_false_iff.mpr fun none => sinks (List.isEmpty_iff.mp none)
  have source : setup.plugins.source_ = some setup.source_.Start.status := rfl
  simp only [Lifecycle.Pipeline.Start, Lifecycle.Pipeline.built, source, bare, Bool.false_eq_true, ↓reduceIte]
  split <;> simp_all only

omit [Inhabited B] in
theorem MainMove.follows {stage after : Stage} {event : Event R B} {log : List Lifecycle.Event}
    (move : MainMove setup s stage next after event) (follows : stage.Follows setup log) :
    after.Follows setup (log ++ event.component?.toList) := by
  have quiet : log = log ++ (none : Option Lifecycle.Event).toList := (List.append_nil log).symm
  cases move with
  | refuses bare =>
    cases follows
    have none : setup.plugins.sinks_.isEmpty = true := List.isEmpty_iff.mpr bare
    simp only [Stage.Follows, Lifecycle.Pipeline.Start, Lifecycle.Pipeline.built, none, ↓reduceIte]
    rfl
  | begins sinks => exact ⟨by rw [follows]; rfl, sinks⟩
  | launches => exact ⟨by rw [follows.1]; rfl, follows.2⟩
  | launched ok =>
    refine ⟨follows.2, ?_⟩
    rw [follows.1, Lifecycle.startEach, if_pos ok]
    rfl
  | unlaunched failed =>
    change _ = _
    rw [lifecycle_start follows.2, follows.1, Lifecycle.startEach, if_neg (by rw [failed]; exact Bool.false_ne_true)]
    rfl
  | starts ok =>
    refine ⟨follows.1, follows.2.trans ?_⟩
    rw [Lifecycle.startEach, if_pos ok, List.append_assoc]
    rfl
  | fails failed =>
    change _ = _
    rw [lifecycle_start follows.1, follows.2, Lifecycle.startEach, if_neg (by rw [failed]; exact Bool.false_ne_true)]
    rfl
  | complete => exact ⟨follows.1, follows.2⟩
  | runs => exact ⟨follows.1, follows.2.trans (congrArg (·, none) quiet)⟩
  | spawns => exact ⟨follows.1, follows.2.trans (congrArg (·, none) quiet)⟩
  | installs => exact ⟨follows.1, follows.2.trans (congrArg (·, none) quiet)⟩
  | halts => exact ⟨follows.1, follows.2.trans (congrArg (·, none) quiet)⟩
  | stops => exact ⟨follows.1, follows.2.trans (congrArg (·, none) quiet)⟩

section Runs

open Interleaving

variable {ι : Type*} [DecidableEq ι] {channel : AsyncChannel B} {history : List (Party ι × Event R B)}
  {target : State (PushPipeline B) (Pc R B) (Party ι)}

/-- The source's `Start` has returned `Ok`. -/
def startsSource : Party ι × Event R B → Bool
  | (.main, .component (.started .source)) => true
  | _ => false

/-- What has happened since the source's `Start` has returned `Ok`, if it has. -/
def sinceStarted : List (Party ι × Event R B) → Option (List (Party ι × Event R B))
  | [] => none
  | entry :: rest => if startsSource entry then some rest else sinceStarted rest

/-- The batch that the source's thread is to make of an event it handles. -/
def turned (setup : Setup R B) : Party ι × Event R B → List B
  | (.source, .handled event) => [setup.source_.build event]
  | _ => []

/-- The batch that the source's thread offers to the channel. -/
def offered : Party ι × Event R B → List B
  | (.source, .pipeline (.channel (.called (.TryEnqueue batch)))) => [batch]
  | _ => []

def Pc.inHand : Pc R B → List B
  | .source pc => pc.inHand
  | _ => []

/-- The events handled since the source's `Start` has returned are offered to the channel, in order; one
more may be in hand, and then the thread can offer it at once. -/
structure NothingLost (setup : Setup R B) (history : List (Party ι × Event R B))
    (s : State (PushPipeline B) (Pc R B) (Party ι)) : Prop where
  offers : ∀ after, sinceStarted history = some after →
    after.flatMap (turned setup) = after.flatMap offered ++ (s.pc .source).inHand
  next : ∀ batch ∈ (s.pc .source).inHand, ∃ shared pc, act setup s.shared (s.pc .source) .proceed =
    some (shared, pc, .pipeline (.channel (.called (.TryEnqueue batch))))

/-- When the source's thread is about to handle an event, `Start` is not on its way from the source's
`Start` to the callback, and has not failed on that way. -/
def Calm (setup : Setup R B) (s : State (PushPipeline B) (Pc R B) (Party ι)) (party : Party ι) : Prop :=
  match party, s.pc .source, s.pc .main with
  | .source, .source (.received _ size), .main stage => setup.source_.sizeof_event ≤ size → stage.waits = false
  | _, _, _ => True

instance (s : State (PushPipeline B) (Pc R B) (Party ι)) (party : Party ι) : Decidable (Calm setup s party) := by
  unfold Calm
  split
  · infer_instance
  · infer_instance

/-- A thread keeps to its own part of the program. -/
def Belongs : Party ι → Pc R B → Prop
  | .main, .main _ | .source, .source _ => True
  | .process, .process pc | .other _, .other pc => pc.Working
  | _, _ => False

structure Standing (setup : Setup R B) (history : List (Party ι × Event R B))
    (s : State (PushPipeline B) (Pc R B) (Party ι)) (stage : Stage) (pc : SourcePc R B) : Prop where
  atMain : s.pc .main = .main stage
  atSource : s.pc .source = .source pc
  main : MainHolds setup stage s.shared
  source : SourceHolds setup pc s.shared
  past : (sinceStarted history).isSome = stage.past
  belongs : ∀ party, Belongs party (s.pc party)

omit [DecidableEq ι] in
private theorem inPipeline_working {pc after : Pipeline.Pc B} {choice : Pipeline.Choice B} {event : Event R B}
    (acts : inPipeline setup s pc choice = some (next, after, event)) (working : pc.Working) :
    after.Working ∧ ∃ p shown, next = { s with pipeline := p } ∧ event = .pipeline shown ∧
      p.sourceStopped = s.pipeline.sourceStopped := by
  obtain ⟨⟨p, _, shown⟩, called, same⟩ := Option.map_eq_some_iff.mp acts
  cases same
  obtain ⟨kept, open_⟩ := Pipeline.act_working called working
  exact ⟨kept, p, shown, rfl, rfl, open_⟩

omit [DecidableEq ι] in
/-- What a party's action comes to. -/
theorem act_cases {party : Party ι} {pc after : Pc R B} {choice : Choice R B} {event : Event R B}
    (enabled : act setup s pc choice = some (next, after, event)) (belongs : Belongs party pc) :
    (party = .main ∧ ∃ stage stage', pc = .main stage ∧ after = .main stage' ∧
        MainMove setup s stage next stage' event) ∨
      (party = .source ∧ s.poll_thread_ = .running ∧ ∃ place place', pc = .source place ∧ after = .source place' ∧
        SourceMove setup s place next place' event) ∨
      (party ≠ .main ∧ party ≠ .source ∧ Belongs party after ∧ ∃ p shown, next = { s with pipeline := p } ∧
        event = .pipeline shown ∧ p.sourceStopped = s.pipeline.sourceStopped) := by
  cases pc with
  | main stage =>
    cases party with
    | main =>
      obtain ⟨⟨_, stage', _⟩, acts, same⟩ := Option.map_eq_some_iff.mp enabled
      cases same
      exact .inl ⟨rfl, stage, stage', rfl, rfl, mainAct_move acts⟩
    | _ => exact belongs.elim
  | source place =>
    cases party with
    | source =>
      simp only [act] at enabled
      split_ifs at enabled with running
      obtain ⟨⟨_, place', _⟩, acts, same⟩ := Option.map_eq_some_iff.mp enabled
      cases same
      exact .inr (.inl ⟨rfl, running, place, place', rfl, rfl, sourceAct_move acts⟩)
    | _ => exact belongs.elim
  | process pc =>
    cases party with
    | process =>
      cases choice with
      | pipeline choice =>
        simp only [act] at enabled
        split_ifs at enabled
        obtain ⟨⟨_, _, _⟩, acts, same⟩ := Option.map_eq_some_iff.mp enabled
        cases same
        obtain ⟨kept, inside⟩ := inPipeline_working acts belongs
        exact .inr (.inr ⟨nofun, nofun, kept, inside⟩)
      | _ => cases enabled
    | _ => exact belongs.elim
  | other pc =>
    cases party with
    | other index =>
      cases choice with
      | pipeline choice =>
        simp only [act] at enabled
        split_ifs at enabled
        obtain ⟨⟨_, _, _⟩, acts, same⟩ := Option.map_eq_some_iff.mp enabled
        cases same
        obtain ⟨kept, inside⟩ := inPipeline_working acts belongs
        exact .inr (.inr ⟨nofun, nofun, kept, inside⟩)
      | _ => cases enabled
    | _ => exact belongs.elim

omit [Inhabited B] [DecidableEq ι] in
private theorem sinceStarted_snoc (history : List (Party ι × Event R B)) (entry : Party ι × Event R B) :
    sinceStarted (history ++ [entry]) =
      match sinceStarted history with
      | some after => some (after ++ [entry])
      | none => if startsSource entry then some [] else none := by
  induction history with
  | nil => rfl
  | cons head rest ih =>
    rw [List.cons_append, sinceStarted, sinceStarted, ih]
    cases startsSource head <;> rfl

omit [Inhabited B] [DecidableEq ι] in
private theorem startsSource_of_ne {party : Party ι} (other : party ≠ .main) (event : Event R B) :
    startsSource (party, event) = false := by
  cases party with
  | main => exact absurd rfl other
  | _ => rfl

omit [Inhabited B] [DecidableEq ι] in
/-- The stage tells whether the source's `Start` has returned. -/
theorem MainMove.past {stage after : Stage} {event : Event R B} (move : MainMove setup s stage next after event) :
    after.past = (stage.past || startsSource ((.main, event) : Party ι × Event R B)) := by
  cases move with
  | starts => rfl
  | _ => rfl

omit [Inhabited B] [DecidableEq ι] in
private theorem isSome_sinceStarted_snoc (history : List (Party ι × Event R B)) (entry : Party ι × Event R B) :
    (sinceStarted (history ++ [entry])).isSome = ((sinceStarted history).isSome || startsSource entry) := by
  rw [sinceStarted_snoc]
  cases sinceStarted history with
  | some after => rfl
  | none => cases startsSource entry <;> rfl

theorem run_standing (run : (program setup).Run (initial R ι channel) history target) :
    ∃ stage pc, Standing setup history target stage pc := by
  refine run.invariant (fun history s => ∃ stage pc, Standing setup history s stage pc) ?_ ?_
  · refine ⟨.begin, .loopTest, rfl, rfl, ⟨fun _ => rfl, fun present => absurd rfl present, nofun, rfl, nofun⟩,
      ⟨fun _ => .inl rfl, nofun, nofun, nofun⟩, rfl, ?_⟩
    intro party
    cases party <;> trivial
  · rintro history s party choice next after event ⟨stage, place, stands⟩ enabled
    obtain ⟨atMain, atSource, main, source, past, belongs⟩ := stands
    rcases act_cases enabled (belongs party) with ⟨rfl, here, stage', same, rfl, move⟩ |
      ⟨rfl, running, here, place', same, rfl, move⟩ | ⟨notMain, notSource, kept, p, _, rfl, rfl, open_⟩
    · rw [atMain] at same
      cases same
      refine ⟨stage', place, State.move_pc_self .., ?_, move.holds main, move.keeps_source main source, ?_,
        State.forall_move Belongs (fun other _ => belongs other) trivial⟩
      · exact (s.move_pc_of_ne next _ (by intro same; cases same)).trans atSource
      · rw [isSome_sinceStarted_snoc, past, move.past]
    · rw [atSource] at same
      cases same
      refine ⟨stage, place', ?_, State.move_pc_self .., move.keeps_main running source main,
        move.holds running source, ?_, State.forall_move Belongs (fun other _ => belongs other) trivial⟩
      · exact (s.move_pc_of_ne next _ (by intro same; cases same)).trans atMain
      · rw [isSome_sinceStarted_snoc, past, startsSource_of_ne (by intro same; cases same), Bool.or_false]
    · refine ⟨stage, place, (s.move_pc_of_ne _ _ notMain.symm).trans atMain,
        (s.move_pc_of_ne _ _ notSource.symm).trans atSource, ?_, ?_, ?_,
        State.forall_move Belongs (fun other _ => belongs other) kept⟩
      · exact ⟨main.early, main.polls, main.refused, main.callback, fun is => main.stopped (open_.symm.trans is)⟩
      · exact ⟨source.alive, source.carrying, source.filled, source.working⟩
      · rw [isSome_sinceStarted_snoc, past, startsSource_of_ne notMain, Bool.or_false]

private theorem SourceMove.component? {pc after : SourcePc R B} {event : Event R B}
    (move : SourceMove setup s pc next after event) : event.component? = none := by
  cases move <;> rfl

/-- A start that has returned made the calls of the lifecycle's `Start`, and returned what it does; and
a pipeline whose source did not start has no polling thread. -/
theorem run_start (run : (program setup).Run (initial R ι channel) history target) :
    ∃ stage, target.pc .main = .main stage ∧
      (∀ status, stage.returned = some status → (Lifecycle.Pipeline.built setup.plugins).Start.2 =
        (history.filterMap fun entry => entry.2.component?, status)) ∧
      ∀ status, stage = .refused status → target.shared.poll_thread_ = .absent := by
  have follows : ∀ stage, target.pc .main = .main stage →
      stage.Follows setup (history.filterMap fun entry => entry.2.component?) := by
    induction run with
    | nil =>
      intro stage here
      cases here
      rfl
    | @snoc history s _ _ prior step ih =>
      cases step with
      | @act party choice next pc event enabled =>
        intro stage here
        obtain ⟨_, _, stands⟩ := run_standing prior
        have grown : (history ++ [(party, event)]).filterMap (fun entry => entry.2.component?) =
            history.filterMap (fun entry => entry.2.component?) ++ event.component?.toList := by
          rw [List.filterMap_append]
          cases event <;> rfl
        rw [grown]
        rcases act_cases enabled (stands.belongs party) with ⟨rfl, before, after, at_, rfl, move⟩ |
          ⟨rfl, _, _, _, _, _, move⟩ | ⟨notMain, _, _, _, _, _, rfl, _⟩
        · rw [State.move_pc_self] at here
          cases here
          exact move.follows (ih before at_)
        · rw [s.move_pc_of_ne next pc (by intro same; cases same)] at here
          rw [move.component?, Option.toList_none, List.append_nil]
          exact ih stage here
        · rw [s.move_pc_of_ne next pc notMain.symm] at here
          exact (List.append_nil _).symm ▸ ih stage here
  obtain ⟨stage, place, stands⟩ := run_standing run
  refine ⟨stage, stands.atMain, ?_, stands.main.refused⟩
  have here := follows stage stands.atMain
  rintro status returned
  cases stage with
  | refused =>
    cases returned
    exact here
  | failed =>
    cases returned
    exact here
  | stop =>
    cases returned
    rw [lifecycle_start here.1, here.2]
  | _ => cases returned

omit [DecidableEq ι] in
private theorem offered_of_proceed {pc after : Pipeline.Pc B} {p : Pipeline B} {event : Pipeline.Event B}
    (acts : Pipeline.act setup.pipeline s.pipeline pc .proceed = some (p, after, event)) :
    offered ((.source, .pipeline event) : Party ι × Event R B) = [] := by
  unfold offered
  split
  · next same =>
    cases same
    rw [Pipeline.outside_of_offer acts] at acts
    cases acts
  · rfl

omit [DecidableEq ι] in
/-- An action of the source's thread turns what it handles into what it offers, or discards an event. -/
private theorem SourceMove.balance {pc after : SourcePc R B} {event : Event R B}
    (move : SourceMove setup s pc next after event) (holds : SourceHolds setup pc s) :
    pc.inHand ++ turned setup ((.source, event) : Party ι × Event R B) =
        offered ((.source, event) : Party ι × Event R B) ++ after.inHand ∨
      ∃ arrived size, pc = .received arrived size ∧ setup.source_.sizeof_event ≤ size ∧ s.callback_ = false ∧
        after = .polling ∧ event = .handled arrived := by
  cases move with
  | loses full silent => exact .inr ⟨_, _, rfl, full, silent, rfl, rfl⟩
  | @drops batch empty =>
    rw [holds.filled batch (List.mem_singleton.mpr rfl)] at empty
    cases empty
  | calls acts =>
    refine .inl ?_
    rw [offered_of_proceed acts, SourcePc.inHand_calls]
    rfl
  | _ => exact .inl rfl

omit [Inhabited B] [DecidableEq ι] in
private theorem turned_of_ne {party : Party ι} (other : party ≠ .source) (event : Event R B) :
    turned setup (party, event) = [] := by
  cases party with
  | source => exact absurd rfl other
  | _ => rfl

omit [Inhabited B] [DecidableEq ι] in
private theorem offered_of_ne {party : Party ι} (other : party ≠ .source) (event : Event R B) :
    offered (party, event) = [] := by
  cases party with
  | source => exact absurd rfl other
  | _ => rfl

/-- An action keeps the ledger of handled and offered events, or is the discarding of an event. -/
private theorem ledger_step {history : List (Party ι × Event R B)} {s : State (PushPipeline B) (Pc R B) (Party ι)}
    {stage : Stage} {place : SourcePc R B} {party : Party ι} {choice : Choice R B} {next : PushPipeline B}
    {after : Pc R B} {event : Event R B} (stands : Standing setup history s stage place)
    (enabled : act setup s.shared (s.pc party) choice = some (next, after, event)) :
    place.inHand ++ turned setup (party, event) =
        offered (party, event) ++ ((s.move party next after).pc .source).inHand ∨
      ∃ arrived size, party = .source ∧ place = .received arrived size ∧ setup.source_.sizeof_event ≤ size ∧
        s.shared.callback_ = false ∧ after = .source .polling ∧ event = .handled arrived := by
  by_cases here : party = .source
  · subst here
    rcases act_cases enabled (stands.belongs _) with ⟨other, _⟩ | ⟨_, _, _, place', same, rfl, move⟩ | ⟨_, other, _⟩
    · cases other
    · rw [stands.atSource] at same
      cases same
      rw [State.move_pc_self]
      rcases move.balance stands.source with balanced | ⟨arrived, size, received, full, silent, rfl, rfl⟩
      · exact .inl balanced
      · exact .inr ⟨arrived, size, rfl, received, full, silent, rfl, rfl⟩
    · exact absurd rfl other
  · refine .inl ?_
    rw [turned_of_ne here, offered_of_ne here, s.move_pc_of_ne _ _ (Ne.symm here), stands.atSource, List.append_nil]
    rfl

omit [Inhabited B] in
private theorem SourceHolds.inHand_of_silent {pc : SourcePc R B} (holds : SourceHolds setup pc s)
    (silent : s.callback_ = false) : pc.inHand = [] := by
  cases pc with
  | pushing batch => exact absurd (silent.symm.trans (holds.carrying trivial)) Bool.false_ne_true
  | _ => rfl

omit [Inhabited B] [DecidableEq ι] in
/-- Before the callback is installed, `Start` waits if the source's `Start` has returned. -/
private theorem waits_of_silent {history : List (Party ι × Event R B)} {s : State (PushPipeline B) (Pc R B) (Party ι)}
    {stage : Stage} {pc : SourcePc R B} (stands : Standing setup history s stage pc)
    (silent : s.shared.callback_ = false) : stage.waits = (sinceStarted history).isSome := by
  rw [stands.past, Stage.past, ← stands.main.callback, silent, Bool.or_false]

/-- In a calm run, what has been handled since the source's `Start` is what has been offered, and the
batch in hand. -/
private theorem offers_of_calm
    (run : (program setup).RunWhere (Calm setup) (initial R ι channel) history target) :
    ∀ after, sinceStarted history = some after →
      after.flatMap (turned setup) = after.flatMap offered ++ (target.pc .source).inHand := by
  refine run.invariant (fun history s => ∀ after, sinceStarted history = some after →
    after.flatMap (turned setup) = after.flatMap offered ++ (s.pc .source).inHand)
    (fun _ since => absurd since.symm (Option.some_ne_none _)) ?_
  intro history s party choice next pc event prior ih calm enabled after since
  obtain ⟨stage, place, stands⟩ := run_standing prior.run
  rcases ledger_step stands enabled with balanced | ⟨arrived, size, rfl, rfl, full, silent, _⟩
  · rw [sinceStarted_snoc] at since
    cases started : sinceStarted history with
    | some rest =>
      rw [started] at since
      cases since
      have kept := ih rest started
      rw [stands.atSource] at kept
      rw [List.flatMap_append, List.flatMap_append, List.flatMap_singleton, List.flatMap_singleton, kept,
        List.append_assoc, List.append_assoc]
      exact congrArg _ balanced
    | none =>
      rw [started] at since
      simp only [Option.ite_none_right_eq_some] at since
      obtain ⟨starts, same⟩ := since
      cases same
      have main : party = .main := by
        by_contra other
        exact Bool.false_ne_true ((startsSource_of_ne other event).symm.trans starts)
      have silent : s.shared.callback_ = false := by
        have early : stage.past = false := by rw [← stands.past, started, Option.isSome_none]
        rw [stands.main.callback]
        exact (Bool.or_eq_false_iff.mp early).2
      rw [main, s.move_pc_of_ne next pc (by intro same; cases same), stands.atSource]
      exact (stands.source.inHand_of_silent silent).symm
  · rw [sinceStarted_snoc, startsSource_of_ne (by intro same; cases same)] at since
    have waits := waits_of_silent stands silent
    simp only [Calm, stands.atSource, stands.atMain] at calm
    rw [calm full] at waits
    have never : sinceStarted history = none := Option.not_isSome_iff_eq_none.mp (by rw [← waits]; exact Bool.false_ne_true)
    rw [never] at since
    cases since

/-- An event has been handled since the source's `Start` and was not offered. -/
def Lost (setup : Setup R B) (history : List (Party ι × Event R B))
    (s : State (PushPipeline B) (Pc R B) (Party ι)) : Prop :=
  (sinceStarted history).any fun after =>
    (after.flatMap offered).length + (s.pc .source).inHand.length < (after.flatMap (turned setup)).length

omit [Inhabited B] [DecidableEq ι] in
private theorem lost_iff {history : List (Party ι × Event R B)} {s : State (PushPipeline B) (Pc R B) (Party ι)} :
    Lost setup history s ↔ ∃ after, sinceStarted history = some after ∧
      (after.flatMap offered).length + (s.pc .source).inHand.length < (after.flatMap (turned setup)).length := by
  simp only [Lost, Option.any_eq_true, decide_eq_true_eq]

omit [Inhabited B] [DecidableEq ι] in
instance (history : List (Party ι × Event R B)) (s : State (PushPipeline B) (Pc R B) (Party ι)) :
    Decidable (Lost setup history s) := inferInstanceAs (Decidable (_ = true))

omit [DecidableEq ι] in
theorem Lost.not_nothingLost {history : List (Party ι × Event R B)} {s : State (PushPipeline B) (Pc R B) (Party ι)}
    (lost : Lost setup history s) : ¬ NothingLost setup history s := by
  intro nothing
  obtain ⟨after, since, fewer⟩ := lost_iff.mp lost
  have same := congrArg List.length (nothing.offers after since)
  rw [List.length_append] at same
  omega

omit [DecidableEq ι] in
/-- Without a callback an event is discarded. -/
private theorem discards (ι : Type*) {arrived : R} {size : ℕ} {after : Pc R B} {choice : Choice R B} {event : Event R B}
    (enabled : act setup s (.source (.received arrived size)) choice = some (next, after, event))
    (full : setup.source_.sizeof_event ≤ size) (silent : s.callback_ = false) :
    after = .source .polling ∧ event = .handled arrived := by
  have belongs : Belongs (.source : Party ι) (.source (.received arrived size) : Pc R B) := trivial
  rcases act_cases enabled belongs with ⟨other, _⟩ | ⟨_, _, place, place', same, rfl, move⟩ | ⟨_, other, _⟩
  · cases other
  · cases same
    cases move with
    | short short => exact absurd short (not_lt.mpr full)
    | loses => exact ⟨rfl, rfl⟩
    | turns _ installed => exact absurd (silent.symm.trans installed) Bool.false_ne_true
  · exact absurd rfl other

omit [Inhabited B] [DecidableEq ι] in
private theorem received_of_not_calm {history : List (Party ι × Event R B)}
    {s : State (PushPipeline B) (Pc R B) (Party ι)} {stage : Stage} {place : SourcePc R B} {party : Party ι}
    (stands : Standing setup history s stage place) (hasty : ¬ Calm setup s party) :
    party = .source ∧ stage.waits = true ∧ ∃ arrived size, place = .received arrived size ∧
      setup.source_.sizeof_event ≤ size := by
  unfold Calm at hasty
  split at hasty
  · next arrived size stage' received at_ =>
    rw [stands.atSource] at received
    rw [stands.atMain] at at_
    cases received
    cases at_
    obtain ⟨full, waits⟩ := not_forall.mp hasty
    exact ⟨rfl, Bool.eq_true_of_not_eq_false waits, arrived, size, rfl, full⟩
  · exact absurd trivial hasty

/-- A step that is not calm discards an event. -/
private theorem calm_or_lost (run : (program setup).Run (initial R ι channel) history target) :
    (program setup).RunWhere (Calm setup) (initial R ι channel) history target ∨ Lost setup history target := by
  induction run with
  | nil => exact .inl .nil
  | @snoc history s _ _ prior step ih =>
    cases step with
    | @act party choice next pc event enabled =>
      obtain ⟨stage, place, stands⟩ := run_standing prior
      have moved := ledger_step stands enabled
      rcases ih with calmly | lost
      · by_cases calm : Calm setup s party
        · exact .inl (calmly.snoc calm (.act enabled))
        · obtain ⟨rfl, waits, arrived, size, rfl, full⟩ := received_of_not_calm stands calm
          have silent : s.shared.callback_ = false := by
            rw [stands.main.callback]
            cases stage <;> first | rfl | cases waits
          obtain ⟨after, since⟩ := Option.isSome_iff_exists.mp ((waits_of_silent stands silent).symm.trans waits)
          have kept := offers_of_calm calmly after since
          rw [stands.atSource] at enabled kept
          obtain ⟨rfl, rfl⟩ := discards ι enabled full silent
          refine .inr (lost_iff.mpr ⟨after ++ [(.source, .handled arrived)], by rw [sinceStarted_snoc, since], ?_⟩)
          have same := congrArg List.length kept
          simp only [List.flatMap_append, List.flatMap_singleton, List.length_append, State.move_pc_self] at same ⊢
          simp only [turned, offered, Pc.inHand, SourcePc.inHand, List.length_cons, List.length_nil] at same ⊢
          omega
      · obtain ⟨after, since, fewer⟩ := lost_iff.mp lost
        refine .inr (lost_iff.mpr ⟨after ++ [(party, event)], by rw [sinceStarted_snoc, since], ?_⟩)
        rw [stands.atSource] at fewer
        simp only [List.flatMap_append, List.flatMap_singleton, List.length_append]
        rcases moved with balanced | ⟨arrived, size, rfl, rfl, _, _, rfl, rfl⟩
        · have same := congrArg List.length balanced
          rw [List.length_append, List.length_append] at same
          change _ + place.inHand.length < _ at fewer
          omega
        · simp only [State.move_pc_self, turned, offered, Pc.inHand, SourcePc.inHand, List.length_cons,
            List.length_nil] at fewer ⊢
          omega

/-- The next action of a thread with a batch in hand offers it. -/
private theorem offer_enabled (run : (program setup).Run (initial R ι channel) history target) :
    ∀ batch ∈ (target.pc .source).inHand, ∃ shared pc, act setup target.shared (target.pc .source) .proceed =
      some (shared, pc, .pipeline (.channel (.called (.TryEnqueue batch)))) := by
  intro batch member
  obtain ⟨stage, place, stands⟩ := run_standing run
  rw [stands.atSource] at member ⊢
  cases place with
  | pushing held =>
    cases List.mem_singleton.mp member
    have running : target.shared.poll_thread_ = .running := by
      by_contra dead
      rcases stands.source.alive dead with same | same <;> cases same
    have open_ : target.shared.pipeline.sourceStopped = false :=
      Bool.eq_false_iff.mpr fun is => (stands.main.stopped is).2 running
    have filled : setup.pipeline.Empty batch = false := stands.source.filled batch member
    simp only [act, running, ↓reduceIte, sourceAct, inPipeline, Pipeline.act, open_, filled, Bool.false_eq_true,
      Option.map_some]
    exact ⟨_, _, rfl⟩
  | _ => cases member

/-- A start loses nothing exactly when no event is handled between the source's `Start` and the callback,
or after a `Start` that has failed on that way. -/
theorem start_loses_nothing_iff (run : (program setup).Run (initial R ι channel) history target) :
    NothingLost setup history target ↔ (program setup).RunWhere (Calm setup) (initial R ι channel) history target := by
  constructor
  · intro nothing
    rcases calm_or_lost run with calmly | lost
    · exact calmly
    · exact absurd nothing lost.not_nothingLost
  · exact fun calmly => ⟨offers_of_calm calmly, offer_enabled run⟩

/-- A stream-mode CPU profiler in front of one sink, every call of BPF having succeeded. -/
private def profiling : Setup CpuProfilerSource.Arrival (DataBatch ℚ) where
  name_ := "cpu"
  Empty := DataBatch.Empty
  Size := DataBatch.Size
  source_ := CpuProfilerSource.stream ℚ
    (CpuProfilerSource.Start "cpu_profiler.bpf.o" ⟨.Ok, .Ok, fun _ => 3, fun _ => 4, fun _ => true⟩ [0] fun _ => true) 3 127
  processors_ := []
  aggregator_ := none
  sinks_ := [.Ok]
  sink_pool_ := false

/-- A sample of a process without stacks. -/
private def sample : CpuProfilerSource.Arrival :=
  ⟨⟨1, 1, 0, Vector.replicate 16 0x61, -1, -1⟩, 0, fun _ => none⟩

private def channel4 : AsyncChannel (DataBatch ℚ) := .make 4 (by decide) .kDropNewest (4 / 5) (1 / 5)

/-- The first sample arrives before the callback is installed, and its batch is never made. -/
theorem sample_discarded_while_starting :
    ∃ history target, (program profiling).Run (initial CpuProfilerSource.Arrival Empty channel4) history target ∧
      ¬ NothingLost profiling history target := by
  obtain ⟨history, target, run, lost⟩ := Program.exists_run_of_check (program profiling)
    (initial CpuProfilerSource.Arrival Empty channel4) (fun s history => Lost profiling history s)
    [(.main, .proceed), (.main, .proceed), (.main, .proceed), (.source, .proceed), (.source, .record sample 48),
      (.source, .proceed)] (by decide)
  exact ⟨history, target, run, lost.not_nothingLost⟩

/-- The same sample after `Start` has returned. -/
theorem start_loses_nothing_iff_sample :
    ∃ history target, (program profiling).Run (initial CpuProfilerSource.Arrival Empty channel4) history target ∧
      NothingLost profiling history target ∧
      (sinceStarted history).any (fun after => (after.flatMap offered).length = 1) := by
  obtain ⟨history, target, calmly, offers⟩ := Program.exists_runWhere_of_check (program profiling) (Calm profiling)
    (initial CpuProfilerSource.Arrival Empty channel4)
    (fun _ history => (sinceStarted history).any (fun after => (after.flatMap offered).length = 1) = true)
    [(.main, .proceed), (.main, .proceed), (.main, .proceed), (.main, .proceed), (.main, .proceed), (.main, .proceed),
      (.main, .proceed), (.main, .proceed), (.source, .proceed), (.source, .record sample 48), (.source, .proceed),
      (.source, .proceed)]
    (by decide)
  exact ⟨history, target, calmly.run, (start_loses_nothing_iff calmly.run).mpr calmly, offers⟩

end Runs

end PushPipeline

end Illuminator
