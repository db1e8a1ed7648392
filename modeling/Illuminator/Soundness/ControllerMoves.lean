import Illuminator.Soundness.ControllerThreads
import Illuminator.Soundness.PipelineShutdown

/-! # A controller seen from one pipeline and from the sink pool

Every action of a controller's thread is an action of one pipeline or touches none. A controller's
run, seen at a pipeline, is therefore a run of that pipeline, with the timer, the collect workers
and the sink workers among its producers, and what holds of every pipeline holds of each of a
controller's. The sink pool's queue holds what was submitted and not yet taken, in order.
-/

namespace Illuminator

namespace PipelineController

open Interleaving

variable {n : ℕ} {B : Type*}

/-- Where a thread stands inside a pipeline. -/
def Pc.inside (k : Fin n) : Pc n B → Pipeline.Pc B
  | .main (.pipelines index stage) =>
    if index < k then .stop .idle else if index = k then .stop stage else .stop .returned
  | .main .stopped | .main .sinkJoin | .main .destroyed => .stop .returned
  | .main _ => .stop .idle
  | .thread j pc | .timer (.injecting j pc) | .collector (.enqueueing j pc) => if j = k then pc else .outside
  | _ => .outside

/-- The part of an event that belongs to a pipeline. -/
def Event.pipeline? (k : Fin n) : Event n B → Option (Pipeline.Event B)
  | .pipeline j event => if j = k then some event else none
  | .wrote j _ _ false => if j = k then some .local else none
  | _ => none

/-- The tasks an event puts into the sink pool's queue. -/
def Event.submitted : Event n B → List (SinkTask n B)
  | .pipeline k (.submitted sink batch) => [.write k sink batch]
  | .pruning => [.prune]
  | _ => []

/-- The tasks an event takes from the sink pool's queue. -/
def Event.tasks : Event n B → List (SinkTask n B)
  | .took task => [task]
  | _ => []

/-- Whether an event is a sink worker's. -/
def Event.works : Event n B → Bool
  | .took _ | .began _ _ _ | .wrote _ _ _ _ | .threw _ _ _ | .pruned => true
  | _ => false

variable [Inhabited B]

/-- What one action does: to the pipelines nothing, or one action of one of them; to the sink pool's
queue what its event says, at the end and at the front. -/
inductive Moves (setup : Setup n B) (c next : PipelineController n B) (pc after : Pc n B) (event : Event n B) : Prop
  | none (same : next.pipelines_ = c.pipelines_) (still : ∀ k, after.inside k = pc.inside k)
      (hidden : ∀ k, event.pipeline? k = .none)
      (tasks : c.sink_pool_.tasks_ ++ event.submitted = event.tasks ++ next.sink_pool_.tasks_)
      (idle : (∀ sink, pc ≠ .worker sink) → event.works = false)
  | one (k : Fin n) {p : Pipeline B} {choice : Pipeline.Choice B} {event' : Pipeline.Event B}
      (acts : Pipeline.act (setup.pipeline k) (c.pipelines_ k) (pc.inside k) choice =
        some (p, after.inside k, event'))
      (changes : next.pipelines_ = Function.update c.pipelines_ k p)
      (still : ∀ j, k ≠ j → after.inside j = pc.inside j)
      (shown : ∀ j, event.pipeline? j = if k = j then some event' else .none)
      (tasks : c.sink_pool_.tasks_ ++ event.submitted = event.tasks ++ next.sink_pool_.tasks_)
      (idle : (∀ sink, pc ≠ .worker sink) → event.works = false)

omit [Inhabited B] in
private theorem submit_tasks (pool : ThreadPool (SinkTask n B)) (k : Fin n) (event : Pipeline.Event B) :
    (submit pool k event).tasks_ = pool.tasks_ ++ (Event.pipeline k event).submitted := by
  cases event with
  | submitted => rfl
  | _ => exact (List.append_nil _).symm

/-- An action inside a pipeline is a move, however the thread that makes it is represented. -/
private theorem Moves.inPipeline {setup : Setup n B} {c next next' : PipelineController n B} {k : Fin n}
    {pc after : Pc n B} {here there : Pipeline.Pc B} {choice : Pipeline.Choice B} {event : Event n B}
    (acts : PipelineController.inPipeline setup c k here choice = some (next, there, event))
    (same : next'.pipelines_ = next.pipelines_ ∧ next'.sink_pool_ = next.sink_pool_)
    (starts : pc.inside k = here) (ends : after.inside k = there)
    (still : ∀ j, k ≠ j → after.inside j = pc.inside j) : Moves setup c next' pc after event := by
  obtain ⟨p, event', enabled, rfl, rfl⟩ := inPipeline_cases acts
  have acts : Pipeline.act (setup.pipeline k) (c.pipelines_ k) (pc.inside k) choice = some (p, after.inside k, event') := by
    rw [starts, ends]
    exact enabled
  refine .one k acts same.1 still (fun j => rfl) ?_ fun _ => rfl
  rw [same.2]
  exact (submit_tasks c.sink_pool_ k event').symm

omit [Inhabited B] in
private theorem inside_pipelines (index : ℕ) (stage : Pipeline.StopStage) (k : Fin n) :
    (Pc.main (B := B) (.pipelines index stage)).inside k =
      if index < k then .stop .idle else if index = k then .stop stage else .stop .returned := rfl

variable {setup : Setup n B} {c next : PipelineController n B} {event : Event n B}

private theorem MainMove.moves {stage after : Stage} (move : MainMove setup c stage next after event) :
    Moves setup c next (.main stage) (.main after) event := by
  cases move with
  | joinsCollect =>
    refine .none rfl (fun k => ?_) (fun _ => rfl) (List.append_nil _) fun _ => rfl
    rw [inside_pipelines]
    split_ifs
    · rfl
    · rfl
    · omega
  | stopped =>
    refine .none rfl (fun k => ?_) (fun _ => rfl) (List.append_nil _) fun _ => rfl
    rw [inside_pipelines, inside_pipelines]
    split_ifs <;> first
      | rfl
      | omega
  | @stops index bound stage after _ _ _ acts =>
    refine .inPipeline acts ⟨rfl, rfl⟩ ?_ ?_ fun j other => ?_
    · rw [inside_pipelines, if_neg (lt_irrefl index), if_pos rfl]
    · rw [inside_pipelines, if_neg (lt_irrefl index), if_pos rfl]
    · have apart : index ≠ j := fun same => other (Fin.ext same)
      rw [inside_pipelines, inside_pipelines, if_neg apart, if_neg apart]
  | ends beyond =>
    refine .none rfl (fun k => ?_) (fun _ => rfl) (List.append_nil _) fun _ => rfl
    rw [inside_pipelines, if_neg (by omega), if_neg (by omega)]
    rfl
  | _ => exact .none rfl (fun _ => rfl) (fun _ => rfl) (List.append_nil _) fun _ => rfl

private theorem TimerMove.moves {here there : TimerPc n B} (move : TimerMove setup c here next there event) :
    Moves setup c next (.timer here) (.timer there) event := by
  cases move with
  | flushes => exact .none rfl (fun _ => ite_self _) (fun _ => rfl) (List.append_nil _) fun _ => rfl
  | pruned => exact .none rfl (fun _ => rfl) (fun _ => rfl) rfl fun _ => rfl
  | injected acts => exact .inPipeline acts ⟨rfl, rfl⟩ (if_pos rfl) rfl fun _ other => (if_neg other).symm
  | injects acts =>
    exact .inPipeline acts ⟨rfl, rfl⟩ (if_pos rfl) (if_pos rfl) fun _ other => (if_neg other).trans (if_neg other).symm
  | _ => exact .none rfl (fun _ => rfl) (fun _ => rfl) (List.append_nil _) fun _ => rfl

private theorem CollectMove.moves {here there : CollectPc n B} (move : CollectMove setup c here next there event) :
    Moves setup c next (.collector here) (.collector there) event := by
  cases move with
  | offered acts => exact .inPipeline acts ⟨rfl, rfl⟩ rfl rfl fun _ _ => rfl
  | offers acts => exact .inPipeline acts ⟨rfl, rfl⟩ rfl (if_pos rfl) fun _ other => if_neg other
  | enqueued acts => exact .inPipeline acts ⟨rfl, rfl⟩ (if_pos rfl) rfl fun _ other => (if_neg other).symm
  | enqueues acts =>
    exact .inPipeline acts ⟨rfl, rfl⟩ (if_pos rfl) (if_pos rfl) fun _ other => (if_neg other).trans (if_neg other).symm
  | _ => exact .none rfl (fun _ => rfl) (fun _ => rfl) (List.append_nil _) fun _ => rfl

private theorem SinkMove.moves {here there : SinkPc n B} (move : SinkMove setup c here next there event) :
    Moves setup c next (.worker here) (.worker there) event := by
  cases move with
  | takes worked | returns worked =>
    exact .none rfl (fun _ => rfl) (fun _ => rfl)
      ((List.append_nil _).trans (ThreadPool.WorkerLoop_tasks worked)) fun idle => absurd rfl (idle _)
  | fails _ _ acts =>
    obtain ⟨p, event', counts, rfl, rfl⟩ := inPipeline_cases acts
    cases counts
    refine .one _ (?_ : Pipeline.act _ _ _ .failed = _) rfl (fun _ _ => rfl) (fun _ => rfl) (List.append_nil _)
      fun idle => absurd rfl (idle _)
    rfl
  | _ => exact .none rfl (fun _ => rfl) (fun _ => rfl) (List.append_nil _) fun idle => absurd rfl (idle _)

/-- Every action of a controller's thread moves at most one pipeline. -/
theorem act_moves {pc after : Pc n B} {choice : Choice n B} (enabled : act setup c pc choice = some (next, after, event)) :
    Moves setup c next pc after event := by
  cases pc with
  | main stage =>
    obtain ⟨⟨_, _, _⟩, acts, same⟩ := Option.map_eq_some_iff.mp enabled
    cases same
    exact (mainAct_move acts).moves
  | thread k pc =>
    cases choice with
    | pipeline choice =>
      simp only [act] at enabled
      split_ifs at enabled
      obtain ⟨⟨_, _, _⟩, acts, same⟩ := Option.map_eq_some_iff.mp enabled
      cases same
      exact .inPipeline acts ⟨rfl, rfl⟩ (if_pos rfl) (if_pos rfl) fun j other => (if_neg other).trans (if_neg other).symm
    | _ => cases enabled
  | timer pc =>
    obtain ⟨⟨_, _, _⟩, acts, same⟩ := Option.map_eq_some_iff.mp enabled
    cases same
    exact (timerAct_move acts).moves
  | collector pc =>
    obtain ⟨⟨_, _, _⟩, acts, same⟩ := Option.map_eq_some_iff.mp enabled
    cases same
    exact (collectAct_move acts).moves
  | worker pc =>
    obtain ⟨⟨_, _, _⟩, acts, same⟩ := Option.map_eq_some_iff.mp enabled
    cases same
    exact (sinkAct_move acts).moves

section Components

variable {ι : Type*} {collectors workers : ℕ}

/-- A pipeline's threads within the controller: everyone but the main thread and the process threads
is one of its producers. -/
def place (k : Fin n) : Pipeline.Party (Helper n ι collectors workers) → Party n ι collectors workers
  | .main => .main
  | .process => .process k
  | .producer helper => .helper helper

/-- What a controller's thread is to a pipeline. -/
def role (k : Fin n) : Party n ι collectors workers → Option (Pipeline.Party (Helper n ι collectors workers))
  | .main => some .main
  | .process j => if j = k then some .process else none
  | .helper helper => some (.producer helper)

theorem role_iff (k : Fin n) (party : Party n ι collectors workers)
    (member : Pipeline.Party (Helper n ι collectors workers)) : role k party = some member ↔ place k member = party := by
  cases party with
  | process j =>
    cases member with
    | process => simp [role, place, eq_comm]
    | _ => simp [role, place]
  | _ => cases member <;> simp [role, place, eq_comm]

/-- Each thread keeps to its own part of the program. -/
def Belongs : Party n ι collectors workers → Pc n B → Prop
  | .main, .main _ | .helper .timer, .timer _ | .helper (.collector _), .collector _ => True
  | .helper (.worker _), .worker _ => True
  | .process k, .thread j _ | .helper (.source k _), .thread j _ => j = k
  | _, _ => False

omit [Inhabited B] in
theorem belongs_start (running : Fin n → Bool) (party : Party n ι collectors workers) :
    Belongs (B := B) party (Party.start running party) := by
  rcases party with _ | _ | ⟨_ | _ | _ | _⟩ <;> first
    | exact rfl
    | exact trivial

theorem act_thread {setup : Setup n B} {c next : PipelineController n B} {k : Fin n} {here : Pipeline.Pc B}
    {after : Pc n B} {choice : Choice n B} {event : Event n B}
    (enabled : act setup c (.thread k here) choice = some (next, after, event)) :
    ∃ there event' choice', after = .thread k there ∧ event = .pipeline k event' ∧
      inPipeline setup c k here choice' = some (next, there, event) := by
  cases choice with
  | pipeline choice =>
    simp only [act] at enabled
    split_ifs at enabled
    obtain ⟨⟨_, there, _⟩, acts, same⟩ := Option.map_eq_some_iff.mp enabled
    cases same
    obtain ⟨p, event', _, shown, _⟩ := inPipeline_cases acts
    exact ⟨there, event', choice, rfl, shown, acts⟩
  | _ => cases enabled

theorem act_belongs {setup : Setup n B} {party : Party n ι collectors workers} {c next : PipelineController n B}
    {pc after : Pc n B} {choice : Choice n B} {event : Event n B}
    (enabled : act setup c pc choice = some (next, after, event)) (belongs : Belongs party pc) :
    Belongs party after := by
  cases pc with
  | thread k here =>
    obtain ⟨there, _, _, rfl, _⟩ := act_thread enabled
    rcases party with _ | _ | ⟨_ | _ | _ | _⟩ <;> exact belongs
  | _ =>
    obtain ⟨⟨_, _, _⟩, _, same⟩ := Option.map_eq_some_iff.mp enabled
    cases same
    rcases party with _ | _ | ⟨_ | _ | _ | _⟩ <;> exact belongs

variable [DecidableEq ι] {setup : Setup n B} {channels : Fin n → AsyncChannel B} {running : Fin n → Bool}
  {history : List (Party n ι collectors workers × Event n B)}
  {target : State (PipelineController n B) (Pc n B) (Party n ι collectors workers)}

/-- A controller's state, seen from one pipeline. -/
def pipelineState (k : Fin n) (s : State (PipelineController n B) (Pc n B) (Party n ι collectors workers)) :
    State (Pipeline B) (Pipeline.Pc B) (Pipeline.Party (Helper n ι collectors workers)) :=
  s.component (fun c => c.pipelines_ k) (Pc.inside k) (place k)

omit [DecidableEq ι] in
/-- An action of a controller's thread is an action of one of a pipeline's own threads, or leaves the
pipeline alone. -/
theorem act_pipeline {party : Party n ι collectors workers} {c next : PipelineController n B} {pc after : Pc n B}
    {choice : Choice n B} {event : Event n B} (enabled : act setup c pc choice = some (next, after, event))
    (belongs : Belongs party pc) (k : Fin n) :
    (event.pipeline? k = none ∧ next.pipelines_ k = c.pipelines_ k ∧ after.inside k = pc.inside k) ∨
      ∃ actor choice' event', role k party = some actor ∧ event.pipeline? k = some event' ∧
        Pipeline.act (setup.pipeline k) (c.pipelines_ k) (pc.inside k) choice' =
          some (next.pipelines_ k, after.inside k, event') := by
  cases act_moves enabled with
  | none same still hidden => exact Or.inl ⟨hidden k, by rw [same], still k⟩
  | one j acts changes still shown =>
    by_cases here : j = k
    · subst here
      have plays : ∃ actor, role j party = some actor := by
        cases party with
        | process i =>
          cases pc with
          | thread l here =>
            obtain ⟨_, inner, _, _, rfl, _⟩ := act_thread enabled
            have mine : (if l = j then some inner else none) = some _ := (shown j).trans (if_pos rfl)
            split_ifs at mine with same
            exact ⟨.process, if_pos ((show l = i from belongs).symm.trans same)⟩
          | _ => exact belongs.elim
        | main => exact ⟨_, rfl⟩
        | helper helper => exact ⟨_, rfl⟩
      obtain ⟨actor, plays⟩ := plays
      refine Or.inr ⟨actor, _, _, plays, (shown j).trans (if_pos rfl), acts.trans ?_⟩
      rw [changes, Function.update_self]
    · left
      refine ⟨(shown k).trans (if_neg here), ?_, still k here⟩
      rw [changes, Function.update_of_ne (Ne.symm here)]

/-- A controller's run, seen from one pipeline, is a run of that pipeline. -/
theorem run_pipeline (run : (program setup).Run (initial ι collectors workers channels running) history target)
    (k : Fin n) :
    (Pipeline.program (setup.pipeline k)).Run (pipelineState k (initial ι collectors workers channels running))
      (seen (role k) (Event.pipeline? k) history) (pipelineState k target) := by
  refine run.component (Pipeline.program (setup.pipeline k)) (fun c => c.pipelines_ k) (Pc.inside k)
    (Event.pipeline? k) (role k) (place k) (role_iff k) Belongs (belongs_start running) act_belongs ?_
  intro _ _ _ _ _ _ _ enabled belongs
  exact act_pipeline enabled belongs k

omit [Inhabited B] [DecidableEq ι] in
/-- A pipeline's state when `StartAll` is over. -/
theorem pipelineState_initial (k : Fin n) :
    pipelineState k (initial ι collectors workers channels running) =
      if running k then ⟨Pipeline.started (channels k), Pipeline.Party.start⟩
      else ⟨Pipeline.unstarted (channels k), Pipeline.Party.absent⟩ := by
  have shared : (initial ι collectors workers channels running).shared.pipelines_ k =
      if running k then Pipeline.started (channels k) else Pipeline.unstarted (channels k) := rfl
  have control (party : Pipeline.Party (Helper n ι collectors workers)) :
      ((initial ι collectors workers channels running).pc (place k party)).inside k =
        if running k then Pipeline.Party.start party else Pipeline.Party.absent party := by
    cases party with
    | main => exact (ite_self _).symm
    | process => exact if_pos rfl
    | producer helper =>
      cases helper with
      | source => exact (ite_self _).trans (ite_self _).symm
      | _ => exact (ite_self _).symm
  split_ifs with started
  · simp only [started, if_true] at shared control
    exact congrArg₂ State.mk shared (funext control)
  · simp only [started, if_false, Bool.false_eq_true] at shared control
    exact congrArg₂ State.mk shared (funext control)

/-- What holds of every pipeline holds of each pipeline of a controller. -/
theorem pipeline_kept (run : (program setup).Run (initial ι collectors workers channels running) history target)
    (k : Fin n) :
    Pipeline.Kept (setup.pipeline k) (seen (role k) (Event.pipeline? k) history) (pipelineState k target) := by
  refine Pipeline.run_kept ?_ (run_pipeline run k)
  rw [pipelineState_initial]
  split_ifs
  · exact Pipeline.kept_started _
  · exact Pipeline.kept_unstarted _

end Components

/-- What an action puts into the sink pool's queue goes to its end, and what it takes comes from its front. -/
theorem act_tasks {setup : Setup n B} {c next : PipelineController n B} {pc after : Pc n B} {choice : Choice n B}
    {event : Event n B} (enabled : act setup c pc choice = some (next, after, event)) :
    c.sink_pool_.tasks_ ++ event.submitted = event.tasks ++ next.sink_pool_.tasks_ := by
  cases act_moves enabled with
  | none _ _ _ tasks => exact tasks
  | one _ _ _ _ _ tasks => exact tasks

/-- Only a sink worker works. -/
theorem act_idle {setup : Setup n B} {c next : PipelineController n B} {pc after : Pc n B} {choice : Choice n B}
    {event : Event n B} (enabled : act setup c pc choice = some (next, after, event))
    (other : ∀ sink, pc ≠ .worker sink) : event.works = false := by
  cases act_moves enabled with
  | none _ _ _ _ idle => exact idle other
  | one _ _ _ _ _ _ idle => exact idle other

end PipelineController

end Illuminator
