import Illuminator.Soundness.ControllerMoves

/-! # The writes of one sink

A sink worker takes a task from the front of the queue, begins its `Write` and ends it. `Pipeline::Stop`
joins the process thread, so that nothing more is submitted for its sinks, and then flushes and stops
them without asking the pool: whatever is queued or being written then goes on. If at that moment
the pool has no task of the sink left, no `Write` follows. The order of a sink's writes is the order
of their submission as far as the queue goes, and all the way only when there is one worker.
-/

namespace Illuminator

namespace PipelineController

open Interleaving

variable {n : ℕ} {B : Type*}

/-- Whether a task writes to a sink. -/
def SinkTask.For (k : Fin n) (sink : ℕ) : SinkTask n B → Prop
  | .write j other _ => j = k ∧ other = sink
  | .prune => False

instance (k : Fin n) (sink : ℕ) (task : SinkTask n B) : Decidable (task.For k sink) := by
  cases task with
  | write j other batch => exact inferInstanceAs (Decidable (j = k ∧ other = sink))
  | prune => exact inferInstanceAs (Decidable False)

/-- The batch a task writes to a sink. -/
def SinkTask.batch? (k : Fin n) (sink : ℕ) : SinkTask n B → Option B
  | .write j other batch => if j = k ∧ other = sink then some batch else none
  | .prune => none

theorem SinkTask.batch?_of_not {k : Fin n} {sink : ℕ} {task : SinkTask n B} (other : ¬ task.For k sink) :
    task.batch? k sink = none := by
  cases task with
  | write j sink' batch => exact if_neg other
  | prune => rfl

theorem batch?_nil {k : Fin n} {sink : ℕ} {tasks : List (SinkTask n B)} (none : ∀ task ∈ tasks, ¬ task.For k sink) :
    tasks.filterMap (SinkTask.batch? k sink) = [] :=
  List.filterMap_eq_nil_iff.mpr fun task member => SinkTask.batch?_of_not (none task member)

/-- The batches written to a sink by the tasks that the events of a history show. -/
def batches {τ : Type*} (k : Fin n) (sink : ℕ) (shows : Event n B → List (SinkTask n B))
    (history : List (τ × Event n B)) : List B :=
  (history.flatMap fun entry => shows entry.2).filterMap (SinkTask.batch? k sink)

/-- The task a worker has taken and not finished. -/
def Pc.working : Pc n B → List (SinkTask n B)
  | .worker (.taken task) => [task]
  | .worker (.writing k sink batch) => [.write k sink batch]
  | _ => []

/-- The task a worker has taken and not begun. -/
def Pc.unbegun : Pc n B → List (SinkTask n B)
  | .worker (.taken task) => [task]
  | _ => []

/-- The task a worker has begun and not ended. -/
def Pc.writing : Pc n B → List (SinkTask n B)
  | .worker (.writing k sink batch) => [.write k sink batch]
  | _ => []

theorem Pc.working_eq (pc : Pc n B) : pc.working = pc.writing ++ pc.unbegun := by
  cases pc with
  | worker here => cases here <;> rfl
  | _ => rfl

def Event.begun : Event n B → List (SinkTask n B)
  | .began k sink batch => [.write k sink batch]
  | .pruned => [.prune]
  | _ => []

def Event.ended : Event n B → List (SinkTask n B)
  | .wrote k sink batch _ | .threw k sink batch => [.write k sink batch]
  | .pruned => [.prune]
  | _ => []

private theorem silent_of_idle {event : Event n B} (idle : event.works = false) :
    event.tasks = [] ∧ event.begun = [] ∧ event.ended = [] := by
  cases event <;> first
    | exact ⟨rfl, rfl, rfl⟩
    | cases idle

private theorem working_of_other {pc : Pc n B} (other : ∀ sink, pc ≠ .worker sink) :
    pc.working = [] ∧ pc.unbegun = [] := by
  cases pc with
  | worker sink => exact absurd rfl (other sink)
  | _ => exact ⟨rfl, rfl⟩

variable [Inhabited B] {setup : Setup n B} {c next : PipelineController n B} {pc after : Pc n B} {choice : Choice n B}
  {event : Event n B}

private theorem act_other (enabled : act setup c pc choice = some (next, after, event))
    (other : ∀ sink, pc ≠ .worker sink) : ∀ sink, after ≠ .worker sink := by
  cases pc with
  | worker sink => exact absurd rfl (other sink)
  | thread k here =>
    obtain ⟨there, _, _, rfl, _⟩ := act_thread enabled
    exact nofun
  | _ =>
    obtain ⟨⟨_, _, _⟩, _, same⟩ := Option.map_eq_some_iff.mp enabled
    cases same
    exact nofun

private theorem SinkMove.working {here there : SinkPc n B} (move : SinkMove setup c here next there event) :
    (Pc.worker here).working ++ event.tasks = event.ended ++ (Pc.worker there).working ∧
      (Pc.worker here).unbegun ++ event.tasks = event.begun ++ (Pc.worker there).unbegun ∧
      ∀ k sink batch, event = .began k sink batch → here = .taken (.write k sink batch) := by
  cases move with
  | begins =>
    refine ⟨rfl, rfl, ?_⟩
    rintro k sink batch ⟨⟩
    rfl
  | _ => exact ⟨rfl, rfl, nofun⟩

/-- A worker holds the task it took until it has ended it, and begins it on the way. -/
theorem act_working (enabled : act setup c pc choice = some (next, after, event)) :
    pc.working ++ event.tasks = event.ended ++ after.working ∧
      pc.unbegun ++ event.tasks = event.begun ++ after.unbegun ∧
      ∀ k sink batch, event = .began k sink batch → pc = .worker (.taken (.write k sink batch)) := by
  by_cases worker : ∃ here, pc = .worker here
  · obtain ⟨here, rfl⟩ := worker
    obtain ⟨⟨_, there, _⟩, acts, same⟩ := Option.map_eq_some_iff.mp enabled
    cases same
    obtain ⟨working, unbegun, began⟩ := (sinkAct_move acts).working
    exact ⟨working, unbegun, fun k sink batch shown => congrArg _ (began k sink batch shown)⟩
  · have other : ∀ sink, pc ≠ .worker sink := fun here same => worker ⟨here, same⟩
    have idle := act_idle enabled other
    obtain ⟨taken, begun, ended⟩ := silent_of_idle idle
    obtain ⟨before, before'⟩ := working_of_other other
    obtain ⟨later, later'⟩ := working_of_other (act_other enabled other)
    rw [taken, begun, ended, before, before', later, later']
    refine ⟨rfl, rfl, ?_⟩
    rintro k sink batch rfl
    cases idle

/-- Only a handler submits. -/
private theorem work_of_submitted {setup : Pipeline.Setup B} {p next : Pipeline B} {pc after : Pipeline.Pc B}
    {choice : Pipeline.Choice B} {sink : ℕ} {batch : B}
    (enabled : Pipeline.act setup p pc choice = some (next, after, .submitted sink batch)) :
    ∃ work resume, pc = .work work resume := by
  cases Pipeline.act_move enabled with
  | stop stops =>
    unfold Pipeline.stop at stops
    repeat' split at stops
    all_goals cases stops
  | works => exact ⟨_, _, rfl⟩
  | loops => exact ⟨_, _, rfl⟩
  | resumes => exact ⟨_, _, rfl⟩
  | exits => exact ⟨_, _, rfl⟩

omit [Inhabited B] in
private theorem handle_not_flushed {setup : Pipeline.Setup B} {p next : Pipeline B} {work : Pipeline.Work B}
    {rest : Option (Pipeline.Work B)} {choice : Pipeline.Choice B} {event : Pipeline.Event B}
    (handles : Pipeline.handle setup p work choice = some (next, rest, event)) (sink : ℕ) :
    event ≠ .sinkFlushed sink := by
  unfold Pipeline.handle at handles
  repeat' split at handles
  all_goals cases handles
  all_goals exact nofun

/-- Only `Stop` flushes a sink. -/
private theorem stop_of_flushed {setup : Pipeline.Setup B} {p next : Pipeline B} {pc after : Pipeline.Pc B}
    {choice : Pipeline.Choice B} {sink : ℕ}
    (enabled : Pipeline.act setup p pc choice = some (next, after, .sinkFlushed sink)) :
    pc = .stop (.sinkFlush sink) ∧ sink < setup.sinks_ := by
  cases Pipeline.act_move enabled with
  | stop stops =>
    unfold Pipeline.stop at stops
    repeat' split at stops
    all_goals cases stops
    exact ⟨rfl, ‹_›⟩
  | works handles => exact absurd rfl (handle_not_flushed handles sink)
  | loops handles => exact absurd rfl (handle_not_flushed handles sink)
  | resumes handles => exact absurd rfl (handle_not_flushed handles sink)
  | exits handles => exact absurd rfl (handle_not_flushed handles sink)

/-- An event of a pipeline is an action of that pipeline. -/
private theorem acts_of_pipeline {k : Fin n} {event : Pipeline.Event B}
    (enabled : act setup c pc choice = some (next, after, .pipeline k event)) :
    ∃ p choice', Pipeline.act (setup.pipeline k) (c.pipelines_ k) (pc.inside k) choice' =
      some (p, after.inside k, event) := by
  cases act_moves enabled with
  | none _ _ hidden =>
    have mine : (if k = k then some event else none) = none := hidden k
    rw [if_pos rfl] at mine
    cases mine
  | one j acts _ _ shown =>
    have mine : (if k = k then some event else none) = if j = k then some _ else none := shown k
    rw [if_pos rfl] at mine
    split_ifs at mine with same
    cases same
    cases mine
    exact ⟨_, _, acts⟩

section Runs

variable {ι : Type*} [DecidableEq ι] {collectors workers : ℕ} {channels : Fin n → AsyncChannel B}
  {running : Fin n → Bool} {history : List (Party n ι collectors workers × Event n B)}
  {s target : State (PipelineController n B) (Pc n B) (Party n ι collectors workers)}
  {party : Party n ι collectors workers}

theorem run_belongs (run : (program setup).Run (initial ι collectors workers channels running) history target) :
    ∀ party, Belongs party (target.pc party) :=
  run.invariant (fun _ s => ∀ party, Belongs party (s.pc party)) (belongs_start running) fun ih enabled =>
    State.forall_move Belongs (fun other _ => ih other) (act_belongs enabled (ih _))

omit [Inhabited B] [DecidableEq ι] in
private theorem stage_of_inside {k : Fin n} {sink : ℕ} {pc : Pc n B}
    (belongs : Belongs (.main : Party n ι collectors workers) pc) (at_ : pc.inside k = .stop (.sinkFlush sink)) :
    pc = .main (.pipelines k (.sinkFlush sink)) := by
  cases pc with
  | main stage =>
    cases stage with
    | pipelines index stage =>
      change (if index < k then _ else if index = k then _ else _) = _ at at_
      split_ifs at at_ with before here
      · cases at_
      · cases at_
        rw [here]
      · cases at_
    | _ => cases at_
  | _ => exact belongs.elim

omit [Inhabited B] [DecidableEq ι] in
private theorem thread_of_inside {k : Fin n} {pc : Pc n B} {here : Pipeline.Pc B}
    (belongs : Belongs (.process k : Party n ι collectors workers) pc) (at_ : pc.inside k = here) :
    pc = .thread k here := by
  cases pc with
  | thread l there =>
    cases (show l = k from belongs)
    exact congrArg _ ((if_pos rfl).symm.trans at_)
  | _ => exact belongs.elim

/-- A thread inside a pipeline stands there as one of the pipeline's own threads. -/
private theorem placed_inside (run : (program setup).Run (initial ι collectors workers channels running) history s)
    {k : Fin n} (within : (s.pc party).inside k ≠ .outside) :
    ∃ member, role k party = some member ∧ Pipeline.Placed member ((s.pc party).inside k) := by
  have kept := pipeline_kept run k
  have belongs := run_belongs run party
  have playing : ∃ member, role k party = some member := by
    cases party with
    | process j =>
      cases at_ : s.pc (.process j) with
      | thread l here =>
        rw [at_] at belongs within
        have same : l = j := belongs
        subst same
        by_cases here : l = k
        · exact ⟨.process, if_pos here⟩
        · exact absurd (if_neg here) within
      | _ =>
        rw [at_] at belongs
        exact belongs.elim
    | _ => exact ⟨_, rfl⟩
  obtain ⟨member, plays⟩ := playing
  have placed : Pipeline.Placed member ((s.pc (place k member)).inside k) := kept.placed member
  rw [(role_iff k party member).mp plays] at placed
  exact ⟨member, plays, placed⟩

/-- Only a pipeline's process thread submits its batches. -/
private theorem process_of_submitted
    (run : (program setup).Run (initial ι collectors workers channels running) history s) {k : Fin n} {sink : ℕ}
    {batch : B}
    (enabled : act setup s.shared (s.pc party) choice = some (next, after, .pipeline k (.submitted sink batch))) :
    party = .process k := by
  obtain ⟨p, choice', acts⟩ := acts_of_pipeline enabled
  obtain ⟨work, resume, at_⟩ := work_of_submitted acts
  obtain ⟨member, plays, placed⟩ := placed_inside run (k := k) (by rw [at_]; exact nofun)
  rw [at_] at placed
  rw [← (role_iff k party member).mp plays]
  cases member with
  | process => rfl
  | _ => exact placed.elim

/-- Only the main thread flushes a pipeline's sinks, and by then the process thread is over. -/
private theorem exited_of_flushed
    (run : (program setup).Run (initial ι collectors workers channels running) history s) {k : Fin n} {sink : ℕ}
    (enabled : act setup s.shared (s.pc party) choice = some (next, after, .pipeline k (.sinkFlushed sink))) :
    s.pc party = .main (.pipelines k (.sinkFlush sink)) ∧ sink < (setup.pipelines_ k).sinks_ ∧
      s.pc (.process k) = .thread k .exited := by
  obtain ⟨p, choice', acts⟩ := acts_of_pipeline enabled
  obtain ⟨at_, bound⟩ := stop_of_flushed acts
  obtain ⟨member, plays, placed⟩ := placed_inside run (k := k) (by rw [at_]; exact nofun)
  rw [at_] at placed
  cases member with
  | main =>
    have here : Party.main = party := (role_iff k party .main).mp plays
    subst here
    have kept := pipeline_kept run k
    have finished := kept.progress.symm.trans (kept.joined _ at_ trivial)
    exact ⟨stage_of_inside (run_belongs run .main) at_, bound,
      thread_of_inside (run_belongs run (.process k)) (Pipeline.exited_of_progress finished)⟩
  | _ => exact placed.elim

/-- No task of the sink is queued, and no worker has one in hand. -/
structure Quiet (s : State (PipelineController n B) (Pc n B) (Party n ι collectors workers)) (k : Fin n) (sink : ℕ) :
    Prop where
  queued : ∀ task ∈ s.shared.sink_pool_.tasks_, ¬ task.For k sink
  working : ∀ index, ∀ task ∈ (s.pc (.helper (.worker index))).working, ¬ task.For k sink

/-- The sink whose `Flush` a thread is about to call. -/
def flushing (setup : Setup n B) : Pc n B → Option (Fin n × ℕ)
  | .main (.pipelines index (.sinkFlush sink)) =>
    if bound : index < n then
      if sink < (setup.pipelines_ ⟨index, bound⟩).sinks_ then some (⟨index, bound⟩, sink) else none
    else none
  | _ => none

/-- A thread about to flush a sink finds none of its tasks queued or in hand. -/
def unused (setup : Setup n B) (s : State (PipelineController n B) (Pc n B) (Party n ι collectors workers))
    (party : Party n ι collectors workers) : Prop :=
  ∀ found ∈ flushing setup (s.pc party), Quiet s found.1 found.2

/-- A sink that has been flushed is not written to any more. -/
def Silent (history : List (Party n ι collectors workers × Event n B))
    (s : State (PipelineController n B) (Pc n B) (Party n ι collectors workers)) : Prop :=
  ∀ before after party k sink, history = before ++ (party, .pipeline k (.sinkFlushed sink)) :: after →
    (∀ entry ∈ after, ∀ batch, entry.2 ≠ .began k sink batch) ∧
      ∀ party batch, s.pc party ≠ .worker (.writing k sink batch)

omit [Inhabited B] [DecidableEq ι] in
private theorem worker_of_belongs {sink : SinkPc n B} (belongs : Belongs party (.worker sink)) :
    ∃ index, party = .helper (.worker index) := by
  rcases party with _ | _ | ⟨_ | _ | _ | index⟩ <;> first
    | exact ⟨index, rfl⟩
    | exact belongs.elim

/-- Once a sink's process thread is over and none of its tasks is left, that stays so. -/
private theorem Quiet.step (run : (program setup).Run (initial ι collectors workers channels running) history s)
    {k : Fin n} {sink : ℕ} (quiet : Quiet s k sink) (finished : s.pc (.process k) = .thread k .exited)
    (enabled : act setup s.shared (s.pc party) choice = some (next, after, event)) :
    Quiet (s.move party next after) k sink ∧ (s.move party next after).pc (.process k) = .thread k .exited ∧
      ∀ batch, event ≠ .began k sink batch := by
  have apart : party ≠ .process k := by
    rintro rfl
    rw [finished] at enabled
    obtain ⟨_, _, choice', _, _, acts⟩ := act_thread enabled
    obtain ⟨_, _, stuck, _⟩ := inPipeline_cases acts
    cases stuck
  have mine : ∀ task ∈ (s.pc party).working, ¬ task.For k sink := by
    intro task member
    cases at_ : s.pc party with
    | worker here =>
      have belongs := run_belongs run party
      rw [at_] at belongs
      obtain ⟨index, rfl⟩ := worker_of_belongs belongs
      exact quiet.working index task member
    | _ =>
      rw [at_] at member
      exact absurd member List.not_mem_nil
  have present : ∀ task ∈ s.shared.sink_pool_.tasks_ ++ event.submitted, ¬ task.For k sink := by
    intro task member chosen
    rcases List.mem_append.mp member with queued | submitted
    · exact quiet.queued task queued chosen
    · unfold Event.submitted at submitted
      split at submitted
      · cases List.mem_singleton.mp submitted
        obtain ⟨rfl, rfl⟩ := chosen
        exact apart (process_of_submitted run enabled)
      · cases List.mem_singleton.mp submitted
        exact chosen
      · exact absurd submitted List.not_mem_nil
  obtain ⟨working, _, began⟩ := act_working enabled
  rw [act_tasks enabled] at present
  have held : ∀ task ∈ after.working, ¬ task.For k sink := by
    intro task member
    have found := List.mem_append_right event.ended member
    rw [← working] at found
    rcases List.mem_append.mp found with already | taken
    · exact mine task already
    · exact present task (List.mem_append_left _ taken)
  refine ⟨⟨fun task member => present task (List.mem_append_right _ member), ?_⟩,
    (s.move_pc_of_ne next after apart.symm).trans finished, ?_⟩
  · intro index task member
    rw [State.move_pc] at member
    split_ifs at member
    · exact held task member
    · exact quiet.working index task member
  · rintro batch rfl
    have taken := began k sink batch rfl
    rw [taken] at mine
    exact mine _ (List.mem_singleton.mpr rfl) ⟨rfl, rfl⟩

/-- In a run in which every flushed sink was unused, a flushed sink stays so. -/
private theorem quiet_of_flushed
    (run : (program setup).RunWhere (unused setup) (initial ι collectors workers channels running) history target)
    {k : Fin n} {sink : ℕ} (flushed : ∃ party, (party, .pipeline k (.sinkFlushed sink)) ∈ history) :
    Quiet target k sink ∧ target.pc (.process k) = .thread k .exited := by
  refine run.invariant (fun history s => ∀ k sink, (∃ party, (party, .pipeline k (.sinkFlushed sink)) ∈ history) →
    Quiet s k sink ∧ s.pc (.process k) = .thread k .exited) ?_ ?_ k sink flushed
  · rintro k sink ⟨party, member⟩
    cases member
  · intro history s party choice next after event prior ih admitted enabled k sink flushed
    have settled : Quiet s k sink ∧ s.pc (.process k) = .thread k .exited := by
      obtain ⟨by_, member⟩ := flushed
      rcases List.mem_append.mp member with earlier | last
      · exact ih k sink ⟨by_, earlier⟩
      · cases List.mem_singleton.mp last
        obtain ⟨at_, bound, finished⟩ := exited_of_flushed prior.run enabled
        refine ⟨admitted (k, sink) ?_, finished⟩
        rw [at_, flushing, dif_pos k.isLt, if_pos bound]
        exact Option.mem_some_self _
    obtain ⟨quiet, finished, _⟩ := settled.1.step prior.run settled.2 enabled
    exact ⟨quiet, finished⟩

/-- No write begins or goes on after its sink was flushed, in a run in which the pool has none of the
sink's tasks left whenever a sink is flushed. -/
theorem no_write_after_stop
    (run : (program setup).RunWhere (unused setup) (initial ι collectors workers channels running) history target) :
    Silent history target := by
  intro before after party k sink same
  constructor
  · refine run.invariant (fun history _ => ∀ before after, history = before ++ (party, .pipeline k (.sinkFlushed sink)) ::
      after → ∀ entry ∈ after, ∀ batch, entry.2 ≠ .began k sink batch) ?_ ?_ before after same
    · intro before after same
      cases before <;> cases same
    · intro history s actor choice next pc event prior ih _ enabled before after same entry member
      rcases snoc_split same with ⟨_, rfl⟩ | ⟨rest, rfl, front⟩
      · cases member
      · rcases List.mem_append.mp member with earlier | last
        · exact ih before rest front entry earlier
        · obtain ⟨quiet, finished⟩ := quiet_of_flushed prior ⟨party, by
            rw [front]
            exact List.mem_append_right _ List.mem_cons_self⟩
          rw [List.mem_singleton.mp last]
          exact (quiet.step prior.run finished enabled).2.2
  · intro writer batch writing
    obtain ⟨quiet, _⟩ := quiet_of_flushed run ⟨party, by
      rw [same]
      exact List.mem_append_right _ List.mem_cons_self⟩
    have belongs := run_belongs run.run writer
    rw [writing] at belongs
    obtain ⟨index, rfl⟩ := worker_of_belongs belongs
    refine quiet.working index (.write k sink batch) ?_ ⟨rfl, rfl⟩
    rw [writing]
    exact List.mem_singleton.mpr rfl

/-- The pool's queue is first in, first out. -/
theorem run_tasks (run : (program setup).Run (initial ι collectors workers channels running) history target) :
    history.flatMap (fun entry => entry.2.submitted) =
      history.flatMap (fun entry => entry.2.tasks) ++ target.shared.sink_pool_.tasks_ := by
  refine run.invariant (fun history s => history.flatMap (fun entry => entry.2.submitted) =
    history.flatMap (fun entry => entry.2.tasks) ++ s.shared.sink_pool_.tasks_) rfl ?_
  intro history s party choice next after event ih enabled
  simp only [List.flatMap_append, List.flatMap_cons, List.flatMap_nil, List.append_nil, State.move_shared]
  rw [ih, List.append_assoc, act_tasks enabled, List.append_assoc]

/-- A sole worker ends, and begins, its tasks in the order in which it takes them. -/
theorem run_sole_worker {history : List (Party n ι collectors 1 × Event n B)}
    {target : State (PipelineController n B) (Pc n B) (Party n ι collectors 1)}
    (run : (program setup).Run (initial ι collectors 1 channels running) history target) :
    history.flatMap (fun entry => entry.2.tasks) =
        history.flatMap (fun entry => entry.2.ended) ++ (target.pc (.helper (.worker 0))).working ∧
      history.flatMap (fun entry => entry.2.tasks) =
        history.flatMap (fun entry => entry.2.begun) ++ (target.pc (.helper (.worker 0))).unbegun := by
  refine (run.invariant (fun history s => (∀ party, Belongs party (s.pc party)) ∧
    history.flatMap (fun entry => entry.2.tasks) =
        history.flatMap (fun entry => entry.2.ended) ++ (s.pc (.helper (.worker 0))).working ∧
      history.flatMap (fun entry => entry.2.tasks) =
        history.flatMap (fun entry => entry.2.begun) ++ (s.pc (.helper (.worker 0))).unbegun)
    ⟨belongs_start running, rfl, rfl⟩ ?_).2
  intro history s party choice next after event ⟨belongs, ended, begun⟩ enabled
  refine ⟨State.forall_move Belongs (fun other _ => belongs other) (act_belongs enabled (belongs party)), ?_⟩
  simp only [List.flatMap_append, List.flatMap_cons, List.flatMap_nil, List.append_nil]
  by_cases mine : party = .helper (.worker 0)
  · subst mine
    obtain ⟨working, unbegun, _⟩ := act_working enabled
    rw [State.move_pc_self, List.append_assoc, ← working, ← List.append_assoc, ← ended, List.append_assoc, ← unbegun,
      ← List.append_assoc, ← begun]
    exact ⟨rfl, rfl⟩
  · have other : ∀ sink, s.pc party ≠ .worker sink := by
      intro sink at_
      have here := belongs party
      rw [at_] at here
      obtain ⟨index, same⟩ := worker_of_belongs here
      rw [same, Subsingleton.elim index 0] at mine
      exact mine rfl
    obtain ⟨taken, started, finished⟩ := silent_of_idle (act_idle enabled other)
    rw [s.move_pc_of_ne next after (Ne.symm mine), taken, started, finished]
    simp only [List.append_nil]
    exact ⟨ended, begun⟩

end Runs

/-- What the history shows of one sink, with one worker: the writes begin in the order of their
submission, each after the one before has ended, and once nothing of the sink is left all have ended. -/
structure InOrder {ι : Type*} {collectors workers : ℕ} (k : Fin n) (sink : ℕ)
    (history : List (Party n ι collectors workers × Event n B))
    (s : State (PipelineController n B) (Pc n B) (Party n ι collectors workers)) : Prop where
  begun : batches k sink Event.begun history <+: batches k sink Event.submitted history
  apart : ∃ current : List B, batches k sink Event.begun history = batches k sink Event.ended history ++ current ∧
    current.length ≤ 1 ∧ ∀ party batch, s.pc party = .worker (.writing k sink batch) → current = [batch]
  newest : Quiet s k sink → batches k sink Event.ended history = batches k sink Event.submitted history

section Order

variable {ι : Type*} [DecidableEq ι] {collectors workers : ℕ} {channels : Fin n → AsyncChannel B}
  {running : Fin n → Bool}

private theorem inOrder_of_sole_worker {history : List (Party n ι collectors 1 × Event n B)}
    {target : State (PipelineController n B) (Pc n B) (Party n ι collectors 1)}
    (run : (program setup).Run (initial ι collectors 1 channels running) history target) (k : Fin n) (sink : ℕ) :
    InOrder k sink history target := by
  have queue := run_tasks run
  obtain ⟨ended, begun⟩ := run_sole_worker run
  have current : history.flatMap (fun entry => entry.2.begun) =
      history.flatMap (fun entry => entry.2.ended) ++ (target.pc (.helper (.worker 0))).writing := by
    have same := begun.symm.trans ended
    rw [Pc.working_eq, ← List.append_assoc] at same
    exact List.append_cancel_right same
  constructor
  · rw [batches, batches, queue, begun, List.append_assoc, List.filterMap_append]
    exact List.prefix_append ..
  · refine ⟨_, by rw [batches, batches, current, List.filterMap_append], ?_, ?_⟩
    · refine (List.length_filterMap_le ..).trans ?_
      unfold Pc.writing
      split
      · exact le_rfl
      · exact Nat.zero_le 1
    · intro party batch at_
      have belongs := run_belongs run party
      rw [at_] at belongs
      obtain ⟨index, rfl⟩ := worker_of_belongs belongs
      rw [Subsingleton.elim index 0] at at_
      rw [at_]
      simp [Pc.writing, SinkTask.batch?]
  · intro quiet
    rw [batches, batches, queue, ended, List.filterMap_append, List.filterMap_append, batch?_nil (quiet.working 0),
      batch?_nil quiet.queued, List.append_nil, List.append_nil]

/-- With any number of workers the tasks of a sink are taken in the order of their submission; with one,
the writes of a sink happen in that order too, and one at a time. -/
theorem write_order {history : List (Party n ι collectors workers × Event n B)}
    {target : State (PipelineController n B) (Pc n B) (Party n ι collectors workers)}
    (run : (program setup).Run (initial ι collectors workers channels running) history target) (k : Fin n) (sink : ℕ) :
    batches k sink Event.tasks history <+: batches k sink Event.submitted history ∧
      (workers = 1 → InOrder k sink history target) := by
  constructor
  · rw [batches, batches, run_tasks run, List.filterMap_append]
    exact List.prefix_append ..
  · rintro rfl
    exact inOrder_of_sole_worker run k sink

end Order

/-- One push-mode pipeline without processors or aggregator, and one sink. -/
def sample : Setup 1 ℕ := ⟨fun _ => ⟨fun batch => batch == 0, id, 0, false, 1, true⟩, fun _ => true, false⟩

/-- One pipeline that was started, a collect worker, and some sink workers. -/
def begun (workers : ℕ) : State (PipelineController 1 ℕ) (Pc 1 ℕ) (Party 1 Unit 1 workers) :=
  initial Unit 1 workers (fun _ => .make 2 (by decide) .kDropNewest (4 / 5) (1 / 5)) fun _ => true

section Schedules

variable {workers : ℕ}

/-- One thread's consecutive choices. -/
def turn (party : Party 1 Unit 1 workers) (choices : List (Choice 1 ℕ)) : List (Party 1 Unit 1 workers × Choice 1 ℕ) :=
  choices.map (party, ·)

/-- A source enqueues a batch and the process thread submits it, the pool holding some tasks. -/
def deliver (batch tasks : ℕ) : List (Party 1 Unit 1 workers × Choice 1 ℕ) :=
  turn (.helper (.source (Fin.last 0) ())) (.pipeline (.Enqueue batch) :: List.replicate 7 (.pipeline .proceed)) ++
    turn (.process (Fin.last 0)) (List.replicate 8 (.pipeline .proceed) ++ [.pipeline (.pending tasks)] ++
      List.replicate 3 (.pipeline .proceed))

/-- `StopAll`, as far as the call of the sink's `Flush`. -/
def stopAll : List (Party 1 Unit 1 workers × Choice 1 ℕ) :=
  turn .main [.StopAll, .proceed, .proceed] ++ turn (.helper (.collector (Fin.last 0))) [.proceed] ++
    turn .main [.proceed, .proceed, .proceed] ++ turn (.process (Fin.last 0)) (List.replicate 4 (.pipeline .proceed)) ++
    turn .main [.proceed, .proceed, .proceed, .proceed]

end Schedules

/-- Whether an event is the call of a sink's `Flush`. -/
def Event.flushes (k : Fin n) (sink : ℕ) : Event n B → Bool
  | .pipeline j (.sinkFlushed other) => j == k && other == sink
  | _ => false

omit [Inhabited B] in
private theorem Event.of_flushes {k : Fin n} {sink : ℕ} {event : Event n B} (flushes : event.flushes k sink = true) :
    event = .pipeline k (.sinkFlushed sink) := by
  unfold Event.flushes at flushes
  split at flushes
  · simp only [Bool.and_eq_true, beq_iff_eq] at flushes
    obtain ⟨rfl, rfl⟩ := flushes
    rfl
  · cases flushes

/-- A task that is queued when its sink is flushed and stopped is still run. -/
theorem write_after_stop :
    ∃ history target, (program sample).Run (begun 1) history target ∧ ¬ Silent history target := by
  obtain ⟨history, target, run, flushed, writing⟩ := Program.exists_run_of_check
    (program sample) (begun 1)
    (fun target history => (history.any fun entry => entry.2.flushes 0 0) = true ∧
      target.pc (.helper (.worker 0)) = .worker (.writing 0 0 7))
    (deliver 7 0 ++ stopAll ++ turn (.helper (.worker 0)) [.proceed, .proceed]) (by decide +kernel)
  refine ⟨history, target, run, fun silent => ?_⟩
  obtain ⟨⟨party, event⟩, member, shown⟩ := List.any_eq_true.mp flushed
  obtain ⟨before, after, split⟩ := List.append_of_mem member
  cases Event.of_flushes shown
  exact (silent before after party 0 0 split).2 (.helper (.worker 0)) 7 writing

instance {ι : Type*} {collectors workers : ℕ}
    (s : State (PipelineController n B) (Pc n B) (Party n ι collectors workers)) (k : Fin n) (sink : ℕ) :
    Decidable (Quiet s k sink) :=
  decidable_of_iff ((∀ task ∈ s.shared.sink_pool_.tasks_, ¬ task.For k sink) ∧
      ∀ index, ∀ task ∈ (s.pc (.helper (.worker index))).working, ¬ task.For k sink)
    ⟨fun ⟨queued, working⟩ => ⟨queued, working⟩, fun quiet => ⟨quiet.queued, quiet.working⟩⟩

instance {ι : Type*} {collectors workers : ℕ} (setup : Setup n B)
    (s : State (PipelineController n B) (Pc n B) (Party n ι collectors workers)) (party : Party n ι collectors workers) :
    Decidable (unused setup s party) :=
  inferInstanceAs (Decidable (∀ found ∈ flushing setup (s.pc party), Quiet s found.1 found.2))

/-- With the write done before `StopAll`, the run goes on to the end of the destructor. -/
theorem no_write_after_stop_done :
    ∃ history target, (program sample).Run (begun 1) history target ∧ target.pc .main = .main .destroyed ∧
      (history.any fun entry => entry.2.flushes 0 0) = true ∧
      history.flatMap (fun entry => entry.2.ended) = [.write 0 0 7] ∧ Silent history target := by
  obtain ⟨history, target, run, finished, flushed, written⟩ := Program.exists_runWhere_of_check
    (program sample) (unused sample) (begun 1)
    (fun target history => target.pc .main = .main .destroyed ∧
      (history.any fun entry => entry.2.flushes 0 0) = true ∧
      history.flatMap (fun entry => entry.2.ended) = [.write 0 0 7])
    (deliver 7 0 ++ turn (.helper (.worker 0)) [.proceed, .proceed, .wrote true] ++ stopAll ++
      turn .main (List.replicate 5 .proceed) ++ turn (.helper (.worker 0)) [.proceed] ++ turn .main [.proceed])
    (by decide +kernel)
  exact ⟨history, target, run.run, finished, flushed, written, no_write_after_stop run⟩

/-- Two workers write two batches to one sink at the same time, having begun the later one first. -/
theorem writes_overtake :
    ∃ history target, (program sample).Run (begun 2) history target ∧
      batches 0 0 Event.submitted history = [7, 8] ∧ batches 0 0 Event.begun history = [8, 7] ∧
      target.pc (.helper (.worker 0)) = .worker (.writing 0 0 7) ∧
      target.pc (.helper (.worker 1)) = .worker (.writing 0 0 8) :=
  Program.exists_run_of_check (program sample) (begun 2)
    (fun target history => batches 0 0 Event.submitted history = [7, 8] ∧ batches 0 0 Event.begun history = [8, 7] ∧
      target.pc (.helper (.worker 0)) = .worker (.writing 0 0 7) ∧
      target.pc (.helper (.worker 1)) = .worker (.writing 0 0 8))
    (deliver 7 0 ++ deliver 8 1 ++ turn (.helper (.worker 0)) [.proceed] ++
      turn (.helper (.worker 1)) [.proceed, .proceed] ++ turn (.helper (.worker 0)) [.proceed]) (by decide +kernel)

/-- One worker writes the same two batches in their order. -/
theorem write_order_alone :
    ∃ history target, (program sample).Run (begun 1) history target ∧
      batches 0 0 Event.submitted history = [7, 8] ∧ batches 0 0 Event.ended history = [7, 8] ∧
      batches 0 0 Event.tasks history <+: batches 0 0 Event.submitted history ∧ InOrder 0 0 history target := by
  obtain ⟨history, target, run, submitted, ended⟩ := Program.exists_run_of_check (program sample)
    (begun 1)
    (fun _ history => batches 0 0 Event.submitted history = [7, 8] ∧ batches 0 0 Event.ended history = [7, 8])
    (deliver 7 0 ++ deliver 8 1 ++ turn (.helper (.worker 0)) [.proceed, .proceed, .wrote true, .proceed, .proceed,
      .threw]) (by decide +kernel)
  obtain ⟨taken, alone⟩ := write_order run 0 0
  exact ⟨history, target, run, submitted, ended, taken, alone rfl⟩

end PipelineController

end Illuminator
