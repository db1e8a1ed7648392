import Illuminator.Model.PipelineController

/-! # What a controller's threads do

Each thread's program as a relation, with one constructor for each of its branches: what it found, what
it changed, where it stands afterwards and what it showed. Whatever is preserved by a controller's run is
then shown constructor by constructor.
-/

namespace Illuminator

namespace PipelineController

variable {n : ℕ} {B : Type*} [Inhabited B]

/-- One action inside a pipeline. -/
theorem inPipeline_cases {setup : Setup n B} {c next : PipelineController n B} {k : Fin n} {pc after : Pipeline.Pc B}
    {choice : Pipeline.Choice B} {event : Event n B} (acts : inPipeline setup c k pc choice = some (next, after, event)) :
    ∃ p event', Pipeline.act (setup.pipeline k) (c.pipelines_ k) pc choice = some (p, after, event') ∧
      event = .pipeline k event' ∧
      next = { c with
        pipelines_ := Function.update c.pipelines_ k p
        sink_pool_ := submit c.sink_pool_ k event' } := by
  unfold inPipeline at acts
  split at acts
  · next p after' event' enabled =>
    cases acts
    exact ⟨p, event', enabled, rfl, rfl⟩
  · contradiction

/-- An action of the main thread. -/
inductive MainMove (setup : Setup n B) (c : PipelineController n B) :
    Stage → PipelineController n B → Stage → Event n B → Prop
  | begins : MainMove setup c .running c .timer .local
  | stopsTimer (still : c.timer_ ≠ .firing) :
      MainMove setup c .timer { c with timer_ := .over } .collectStop .timerStopped
  | stopsCollect :
      MainMove setup c .collectStop { c with collect_pool_ := c.collect_pool_.requestStop } .collectJoin .local
  | joinsCollect (joined : c.collect_pool_.joined = true) :
      MainMove setup c .collectJoin c (.pipelines 0 .idle) .collectPoolJoined
  | stopped {index : ℕ} (bound : index < n) :
      MainMove setup c (.pipelines index .returned) c (.pipelines (index + 1) .idle) .local
  | stops {index : ℕ} (bound : index < n) {stage after : Pipeline.StopStage} {next : PipelineController n B}
      {event : Event n B} (unfinished : stage ≠ .returned)
      (acts : inPipeline setup c ⟨index, bound⟩ (.stop stage) (stopChoice stage) = some (next, .stop after, event)) :
      MainMove setup c (.pipelines index stage) next (.pipelines index after) event
  | ends {index : ℕ} (beyond : n ≤ index) (stage : Pipeline.StopStage) :
      MainMove setup c (.pipelines index stage) c .stopped .local
  | stopsSinks : MainMove setup c .stopped { c with sink_pool_ := c.sink_pool_.requestStop } .sinkJoin .local
  | joinsSinks (joined : c.sink_pool_.joined = true) : MainMove setup c .sinkJoin c .destroyed .sinkPoolJoined

/-- An action of the timer thread. -/
inductive TimerMove (setup : Setup n B) (c : PipelineController n B) :
    TimerPc n B → PipelineController n B → TimerPc n B → Event n B → Prop
  | skips (k : Fin n) (waits : c.timer_ = .waiting) (pulls : setup.IsPushMode k = false)
      (halted : (c.pipelines_ k).running_ = false) : TimerMove setup c .waiting c .waiting .local
  | collects (k : Fin n) (waits : c.timer_ = .waiting) (pulls : setup.IsPushMode k = false)
      (running : (c.pipelines_ k).running_ = true) :
      TimerMove setup c .waiting { c with timer_ := .firing } (.submitting (.collect k)) .local
  | measures (waits : c.timer_ = .waiting) :
      TimerMove setup c .waiting { c with timer_ := .firing } (.submitting .metrics) .local
  | prunes (waits : c.timer_ = .waiting) (stores : setup.storage_backend_ = true) :
      TimerMove setup c .waiting { c with timer_ := .firing } .pruning .local
  | flushes (k : Fin n) (waits : c.timer_ = .waiting) (aggregates : (setup.pipelines_ k).aggregator_ = true) :
      TimerMove setup c .waiting { c with timer_ := .firing } (.injecting k .outside) .local
  | submits (task : CollectTask n) :
      TimerMove setup c (.submitting task)
        { c with timer_ := .waiting, collect_pool_ := c.collect_pool_.Submit task } .waiting (.scheduled task)
  | pruned : TimerMove setup c .pruning
      { c with timer_ := .waiting, sink_pool_ := c.sink_pool_.Submit .prune } .waiting .pruning
  | injected {k : Fin n} {pc : Pipeline.Pc B} {next : PipelineController n B} {event : Event n B}
      (acts : inPipeline setup c k pc (injectChoice pc) = some (next, .outside, event)) :
      TimerMove setup c (.injecting k pc) { next with timer_ := .waiting } .waiting event
  | injects {k : Fin n} {pc after : Pipeline.Pc B} {next : PipelineController n B} {event : Event n B}
      (acts : inPipeline setup c k pc (injectChoice pc) = some (next, after, event)) :
      TimerMove setup c (.injecting k pc) next (.injecting k after) event

/-- An action of a collect worker. -/
inductive CollectMove (setup : Setup n B) (c : PipelineController n B) :
    CollectPc n B → PipelineController n B → CollectPc n B → Event n B → Prop
  | takes {k : Fin n} {pool : ThreadPool (CollectTask n)}
      (worked : c.collect_pool_.WorkerLoop = some (pool, some (.collect k))) :
      CollectMove setup c .waiting { c with collect_pool_ := pool } (.collecting k) (.collecting k)
  | measures {pool : ThreadPool (CollectTask n)} (worked : c.collect_pool_.WorkerLoop = some (pool, some .metrics)) :
      CollectMove setup c .waiting { c with collect_pool_ := pool } .metrics .local
  | returns {pool : ThreadPool (CollectTask n)} (worked : c.collect_pool_.WorkerLoop = some (pool, none)) :
      CollectMove setup c .waiting { c with collect_pool_ := pool } .returned .local
  | measured : CollectMove setup c .metrics c .waiting .local
  | fruitless (k : Fin n) : CollectMove setup c (.collecting k) c .waiting (.collected k)
  | collects (k : Fin n) {batch : B} (full : (setup.pipelines_ k).Empty batch = false) :
      CollectMove setup c (.collecting k) c (.collected k batch) (.collected k)
  | offered {k : Fin n} {batch : B} {next : PipelineController n B} {event : Event n B}
      (acts : inPipeline setup c k .outside (.Enqueue batch) = some (next, .outside, event)) :
      CollectMove setup c (.collected k batch) next .waiting event
  | offers {k : Fin n} {batch : B} {after : Pipeline.Pc B} {next : PipelineController n B} {event : Event n B}
      (acts : inPipeline setup c k .outside (.Enqueue batch) = some (next, after, event)) :
      CollectMove setup c (.collected k batch) next (.enqueueing k after) event
  | enqueued {k : Fin n} {pc : Pipeline.Pc B} {next : PipelineController n B} {event : Event n B}
      (acts : inPipeline setup c k pc .proceed = some (next, .outside, event)) :
      CollectMove setup c (.enqueueing k pc) next .waiting event
  | enqueues {k : Fin n} {pc after : Pipeline.Pc B} {next : PipelineController n B} {event : Event n B}
      (acts : inPipeline setup c k pc .proceed = some (next, after, event)) :
      CollectMove setup c (.enqueueing k pc) next (.enqueueing k after) event

/-- An action of a sink worker. -/
inductive SinkMove (setup : Setup n B) (c : PipelineController n B) :
    SinkPc n B → PipelineController n B → SinkPc n B → Event n B → Prop
  | takes {task : SinkTask n B} {pool : ThreadPool (SinkTask n B)}
      (worked : c.sink_pool_.WorkerLoop = some (pool, some task)) :
      SinkMove setup c .waiting { c with sink_pool_ := pool } (.taken task) (.took task)
  | returns {pool : ThreadPool (SinkTask n B)} (worked : c.sink_pool_.WorkerLoop = some (pool, none)) :
      SinkMove setup c .waiting { c with sink_pool_ := pool } .returned .local
  | prunes : SinkMove setup c (.taken .prune) c .waiting .pruned
  | begins (k : Fin n) (sink : ℕ) (batch : B) :
      SinkMove setup c (.taken (.write k sink batch)) c (.writing k sink batch) (.began k sink batch)
  | writes (k : Fin n) (sink : ℕ) (batch : B) :
      SinkMove setup c (.writing k sink batch) c .waiting (.wrote k sink batch true)
  | fails {k : Fin n} (sink : ℕ) (batch : B) {after : Pipeline.Pc B} {next : PipelineController n B} {event : Event n B}
      (counts : inPipeline setup c k .outside .failed = some (next, after, event)) :
      SinkMove setup c (.writing k sink batch) next .waiting (.wrote k sink batch false)
  | throws (k : Fin n) (sink : ℕ) (batch : B) :
      SinkMove setup c (.writing k sink batch) c .waiting (.threw k sink batch)

variable {setup : Setup n B} {c next : PipelineController n B} {choice : Choice n B} {event : Event n B}

theorem mainAct_move {stage after : Stage} (enabled : mainAct setup c stage choice = some (next, after, event)) :
    MainMove setup c stage next after event := by
  unfold mainAct at enabled
  split at enabled
  · cases enabled
    exact .begins
  · split_ifs at enabled with firing
    cases enabled
    exact .stopsTimer firing
  · cases enabled
    exact .stopsCollect
  · split_ifs at enabled with joined
    cases enabled
    exact .joinsCollect joined
  · split_ifs at enabled with bound finished
    · cases enabled
      subst finished
      exact .stopped bound
    · simp only [bind, Option.bind_eq_some_iff] at enabled
      obtain ⟨_, acts, enabled⟩ := enabled
      split at enabled
      · cases enabled
        exact .stops bound finished acts
      · contradiction
    · cases enabled
      exact .ends (not_lt.mp bound) _
  · cases enabled
    exact .stopsSinks
  · split_ifs at enabled with joined
    cases enabled
    exact .joinsSinks joined
  · contradiction

theorem timerAct_move {here there : TimerPc n B} (enabled : timerAct setup c here choice = some (next, there, event)) :
    TimerMove setup c here next there event := by
  unfold timerAct at enabled
  split at enabled
  · next timer =>
    obtain ⟨waits, enabled⟩ := Option.ite_none_right_eq_some.mp enabled
    cases timer with
    | collect k =>
      simp only at enabled
      split_ifs at enabled with push running
      · cases enabled
        exact .collects k waits (Bool.eq_false_iff.mpr push) running
      · cases enabled
        exact .skips k waits (Bool.eq_false_iff.mpr push) (Bool.eq_false_iff.mpr running)
    | metrics =>
      cases enabled
      exact .measures waits
    | prune =>
      obtain ⟨stores, enabled⟩ := Option.ite_none_right_eq_some.mp enabled
      cases enabled
      exact .prunes waits stores
    | flush k =>
      obtain ⟨aggregates, enabled⟩ := Option.ite_none_right_eq_some.mp enabled
      cases enabled
      exact .flushes k waits aggregates
  · cases enabled
    exact .submits _
  · cases enabled
    exact .pruned
  · simp only [bind, Option.bind_eq_some_iff] at enabled
    obtain ⟨_, acts, enabled⟩ := enabled
    split at enabled
    · cases enabled
      exact .injected acts
    · cases enabled
      exact .injects acts
  · contradiction

theorem collectAct_move {here there : CollectPc n B}
    (enabled : collectAct setup c here choice = some (next, there, event)) :
    CollectMove setup c here next there event := by
  unfold collectAct at enabled
  split at enabled
  · split at enabled
    · next worked =>
      cases enabled
      exact .takes worked
    · next worked =>
      cases enabled
      exact .measures worked
    · next worked =>
      cases enabled
      exact .returns worked
    · contradiction
  · cases enabled
    exact .measured
  · cases enabled
    exact .fruitless _
  · split_ifs at enabled with empty
    · cases enabled
      exact .fruitless _
    · cases enabled
      exact .collects _ (Bool.eq_false_iff.mpr empty)
  · simp only [bind, Option.bind_eq_some_iff] at enabled
    obtain ⟨_, acts, enabled⟩ := enabled
    split at enabled
    · cases enabled
      exact .offered acts
    · cases enabled
      exact .offers acts
  · simp only [bind, Option.bind_eq_some_iff] at enabled
    obtain ⟨_, acts, enabled⟩ := enabled
    split at enabled
    · cases enabled
      exact .enqueued acts
    · cases enabled
      exact .enqueues acts
  · contradiction

theorem sinkAct_move {here there : SinkPc n B} (enabled : sinkAct setup c here choice = some (next, there, event)) :
    SinkMove setup c here next there event := by
  unfold sinkAct at enabled
  split at enabled
  · split at enabled
    · next worked =>
      cases enabled
      exact .takes worked
    · next worked =>
      cases enabled
      exact .returns worked
    · contradiction
  · cases enabled
    exact .prunes
  · cases enabled
    exact .begins _ _ _
  · cases enabled
    exact .writes _ _ _
  · simp only [bind, Option.bind_eq_some_iff] at enabled
    obtain ⟨⟨_, _, _⟩, counts, enabled⟩ := enabled
    cases enabled
    exact .fails _ _ counts
  · cases enabled
    exact .throws _ _ _
  · contradiction

end PipelineController

end Illuminator
