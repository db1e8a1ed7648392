import Illuminator.Soundness.ControllerMoves
import Mathlib.Data.Fintype.Card

/-! # Stopping pull-mode pipelines

`StopAll` stops the timer, lets the collect pool finish its queue and joins its workers before it
stops the first pipeline. When a pull-mode pipeline's `Stop` begins, no collection is running or will
start again, and its process thread is still in its loop. Nothing is therefore enqueued once the drain
has found the channel empty, and what holds of every pipeline stopped in time holds of it.
-/

namespace Illuminator

namespace Pipeline

open Interleaving

variable {B ι : Type*}

/-- The process thread has left its loop. -/
def Pc.PastLoop : Pc B → Prop
  | .drainTest | .drain _ | .work _ .drain | .work _ .finish | .exited => True
  | _ => False

/-- Before `Stop` the pipeline runs, and the process thread leaves its loop only when it does not. -/
structure Halts (s : State (Pipeline B) (Pc B) (Party ι)) : Prop where
  idle : s.pc .main = .stop .idle → s.shared.running_ = true
  past : (s.pc .process).PastLoop → s.shared.running_ = false

theorem stop_running {setup : Setup B} {p next : Pipeline B} {stage after : StopStage} {choice : Choice B}
    {event : Event B} (stops : stop setup p stage choice = some (next, after, event)) :
    after ≠ .idle ∧ (p.running_ = false → next.running_ = false) := by
  unfold stop at stops
  repeat' split at stops
  all_goals cases stops
  all_goals first
    | exact ⟨nofun, id⟩
    | exact ⟨nofun, fun _ => rfl⟩

variable [Inhabited B] {setup : Setup B} {p next : Pipeline B} {pc after : Pc B} {event : Event B} {choice : Choice B}
  {party : Party ι}

/-- The process thread leaves its loop only when `running_` is false. -/
theorem Move.past (move : Move setup p pc next after event) (later : after.PastLoop) : pc.PastLoop ∨ p.running_ = false := by
  cases move with
  | leaves stopped => exact Or.inr stopped
  | @inside caller => cases caller <;> exact Or.inl later
  | @works _ _ resume => cases resume <;> exact Or.inl later
  | _ => first
    | exact Or.inl trivial
    | exact later.elim

variable [DecidableEq ι] {history : List (Party ι × Event B)} {s target : State (Pipeline B) (Pc B) (Party ι)}

theorem Halts.step (halts : Halts s) (kept : Kept setup history s)
    (enabled : act setup s.shared (s.pc party) choice = some (next, after, event)) :
    Halts (s.move party next after) := by
  have move := act_move enabled
  have placed := kept.placed party
  by_cases main : party = .main
  · subst main
    have process : (s.move .main next after).pc .process = s.pc .process := s.move_pc_of_ne next after nofun
    cases at_ : s.pc .main with
    | stop stage =>
      rw [at_] at enabled
      obtain ⟨⟨_, stage', _⟩, stops, same⟩ := Option.map_eq_some_iff.mp enabled
      cases same
      obtain ⟨begun, still⟩ := stop_running stops
      constructor
      · rw [State.move_pc_self]
        rintro ⟨⟩
        exact absurd rfl begun
      · rw [process]
        exact fun past => still (halts.past past)
    | _ =>
      rw [at_] at placed
      exact placed.elim
  · have running := move.running placed main
    constructor
    · rw [s.move_pc_of_ne next after (Ne.symm main), State.move_shared, running]
      exact halts.idle
    · rw [State.move_shared, running]
      by_cases process : party = .process
      · subst process
        rw [State.move_pc_self]
        intro later
        rcases move.past later with before | stopped
        · exact halts.past before
        · exact stopped
      · rw [s.move_pc_of_ne next after (Ne.symm process)]
        exact halts.past

omit [Inhabited B] [DecidableEq ι] in
/-- A process thread that is past its last `TryDequeue` has left its loop. -/
theorem Kept.stopped (kept : Kept setup history s) (halts : Halts s) (retired : s.shared.process_thread_ ≠ .running) :
    s.pc .main ≠ .stop .idle := by
  intro idle
  rw [kept.progress] at retired
  have past : (s.pc .process).PastLoop := by
    cases at_ : s.pc .process with
    | drain | drainTest | exited => trivial
    | work handler resume =>
      cases resume with
      | loop =>
        rw [at_] at retired
        exact absurd rfl retired
      | _ => trivial
    | _ =>
      rw [at_] at retired
      exact absurd rfl retired
  have running := halts.idle idle
  rw [halts.past past] at running
  cases running

variable {capacity : UInt64} {slots : 2 ≤ (roundUpPow2 capacity).toNat} {policy : DropPolicy} {high_wm low_wm : ℚ}

theorem run_halts (run : (program setup).Run (initial ι capacity slots policy high_wm low_wm) history target) :
    Halts target := by
  have both := run.invariant (fun history s => Kept setup history s ∧ Halts s)
    ⟨kept_started _, fun _ => rfl, False.elim⟩ fun both enabled => ⟨both.1.step enabled, both.2.step both.1 enabled⟩
  exact both.2

end Pipeline

namespace PipelineController

open Interleaving

variable {n : ℕ} {B : Type*} [Inhabited B] {setup : Setup n B} {c next : PipelineController n B} {pc after : Pc n B}
  {choice : Choice n B} {event : Event n B}

/-- The stages of `StopAll` and of the destructor that come after the collect pool is gone. -/
def Stage.Joined : Stage → Prop
  | .pipelines _ _ | .stopped | .sinkJoin | .destroyed => True
  | _ => False

omit [Inhabited B] in
private theorem inPipeline_pool {k : Fin n} {here there : Pipeline.Pc B} {choice : Pipeline.Choice B} [Inhabited B]
    (acts : inPipeline setup c k here choice = some (next, there, event)) :
    next.collect_pool_ = c.collect_pool_ ∧ ∀ j, event ≠ .collecting j := by
  obtain ⟨_, _, _, rfl, rfl⟩ := inPipeline_cases acts
  exact ⟨rfl, nofun⟩

/-- The main thread passes the join only when every collect worker has returned. -/
private theorem MainMove.pool {stage after : Stage} (move : MainMove setup c stage next after event) :
    next.collect_pool_.workers_ = c.collect_pool_.workers_ ∧ next.collect_pool_.returned = c.collect_pool_.returned ∧
      (∀ j, event ≠ .collecting j) ∧ (after.Joined → stage.Joined ∨ c.collect_pool_.joined = true) := by
  cases move with
  | begins | stopsTimer | stopsCollect => exact ⟨rfl, rfl, nofun, False.elim⟩
  | joinsCollect joined => exact ⟨rfl, rfl, nofun, fun _ => Or.inr joined⟩
  | stops _ _ acts =>
    obtain ⟨same, silent⟩ := inPipeline_pool acts
    rw [same]
    exact ⟨rfl, rfl, silent, fun _ => Or.inl trivial⟩
  | _ => exact ⟨rfl, rfl, nofun, fun _ => Or.inl trivial⟩

private theorem TimerMove.pool {here there : TimerPc n B} (move : TimerMove setup c here next there event) :
    next.collect_pool_.workers_ = c.collect_pool_.workers_ ∧ next.collect_pool_.returned = c.collect_pool_.returned ∧
      ∀ j, event ≠ .collecting j := by
  cases move with
  | injected acts | injects acts =>
    obtain ⟨same, silent⟩ := inPipeline_pool acts
    exact ⟨congrArg _ same, congrArg _ same, silent⟩
  | _ => exact ⟨rfl, rfl, nofun⟩

private theorem CollectMove.pool {here there : CollectPc n B} (move : CollectMove setup c here next there event) :
    next.collect_pool_.workers_ = c.collect_pool_.workers_ ∧ here ≠ .returned ∧
      (next.collect_pool_.returned = c.collect_pool_.returned ∨
        there = .returned ∧ next.collect_pool_.returned = c.collect_pool_.returned + 1) := by
  cases move with
  | takes worked | measures worked =>
    obtain ⟨workers, returned⟩ := ThreadPool.WorkerLoop_counts worked
    exact ⟨workers, nofun, Or.inl returned⟩
  | returns worked =>
    obtain ⟨workers, returned⟩ := ThreadPool.WorkerLoop_counts worked
    exact ⟨workers, nofun, Or.inr ⟨rfl, returned⟩⟩
  | offered acts | offers acts | enqueued acts | enqueues acts =>
    obtain ⟨same, _⟩ := inPipeline_pool acts
    exact ⟨congrArg _ same, nofun, Or.inl (congrArg _ same)⟩
  | _ => exact ⟨rfl, nofun, Or.inl rfl⟩

private theorem SinkMove.pool {here there : SinkPc n B} (move : SinkMove setup c here next there event) :
    next.collect_pool_ = c.collect_pool_ ∧ ∀ j, event ≠ .collecting j := by
  cases move with
  | fails _ _ counts => exact ⟨(inPipeline_pool counts).1, nofun⟩
  | _ => exact ⟨rfl, nofun⟩

/-- A collect worker that has returned does nothing more, only a worker's return is counted, and only a
worker collects. -/
theorem act_pool (enabled : act setup c pc choice = some (next, after, event)) :
    next.collect_pool_.workers_ = c.collect_pool_.workers_ ∧ pc ≠ .collector .returned ∧
      (next.collect_pool_.returned = c.collect_pool_.returned ∨
        after = .collector .returned ∧ next.collect_pool_.returned = c.collect_pool_.returned + 1) ∧
      ∀ j, event = .collecting j → ∃ here, pc = .collector here := by
  cases pc with
  | main stage =>
    obtain ⟨⟨_, _, _⟩, acts, same⟩ := Option.map_eq_some_iff.mp enabled
    cases same
    obtain ⟨workers, returned, silent, _⟩ := (mainAct_move acts).pool
    exact ⟨workers, nofun, Or.inl returned, fun j shown => absurd shown (silent j)⟩
  | thread k here =>
    obtain ⟨_, _, _, rfl, _, acts⟩ := act_thread enabled
    obtain ⟨same, silent⟩ := inPipeline_pool acts
    exact ⟨congrArg _ same, nofun, Or.inl (congrArg _ same), fun j shown => absurd shown (silent j)⟩
  | timer here =>
    obtain ⟨⟨_, _, _⟩, acts, same⟩ := Option.map_eq_some_iff.mp enabled
    cases same
    obtain ⟨workers, returned, silent⟩ := (timerAct_move acts).pool
    exact ⟨workers, nofun, Or.inl returned, fun j shown => absurd shown (silent j)⟩
  | collector here =>
    obtain ⟨⟨_, _, _⟩, acts, same⟩ := Option.map_eq_some_iff.mp enabled
    cases same
    obtain ⟨workers, busy, returned⟩ := (collectAct_move acts).pool
    refine ⟨workers, ?_, returned.imp_right fun ⟨finished, counted⟩ => ⟨congrArg _ finished, counted⟩,
      fun _ _ => ⟨here, rfl⟩⟩
    rintro ⟨⟩
    exact busy rfl
  | worker here =>
    obtain ⟨⟨_, _, _⟩, acts, same⟩ := Option.map_eq_some_iff.mp enabled
    cases same
    obtain ⟨same, silent⟩ := (sinkAct_move acts).pool
    exact ⟨congrArg _ same, nofun, Or.inl (congrArg _ same), fun j shown => absurd shown (silent j)⟩

section Runs

variable {ι : Type*} {collectors workers : ℕ}

/-- What `StopAll` relies on when it joins the collect pool. -/
structure Winds (s : State (PipelineController n B) (Pc n B) (Party n ι collectors workers)) : Prop where
  size : collectors ≤ s.shared.collect_pool_.workers_
  served : ∃ done : Finset (Fin collectors), done.card = s.shared.collect_pool_.returned ∧
    ∀ index ∈ done, s.pc (.helper (.collector index)) = .collector .returned
  joined : ∀ stage, s.pc .main = .main stage → stage.Joined →
    ∀ index, s.pc (.helper (.collector index)) = .collector .returned

variable [DecidableEq ι] {channels : Fin n → AsyncChannel B} {running : Fin n → Bool}
  {history : List (Party n ι collectors workers × Event n B)}
  {s target : State (PipelineController n B) (Pc n B) (Party n ι collectors workers)}
  {party : Party n ι collectors workers}

omit [Inhabited B] [DecidableEq ι] in
theorem Winds.all_returned (winds : Winds s) (joined : s.shared.collect_pool_.joined = true) (index : Fin collectors) :
    s.pc (.helper (.collector index)) = .collector .returned := by
  obtain ⟨done, counted, returned⟩ := winds.served
  have full : Fintype.card (Fin collectors) ≤ done.card := by
    rw [Fintype.card_fin, counted, beq_iff_eq.mp joined]
    exact winds.size
  refine returned index ?_
  rw [Finset.eq_univ_of_card done (Nat.le_antisymm (Finset.card_le_univ done) full)]
  exact Finset.mem_univ index

theorem Winds.step (winds : Winds s) (belongs : Belongs party (s.pc party))
    (enabled : act setup s.shared (s.pc party) choice = some (next, after, event)) :
    Winds (s.move party next after) := by
  obtain ⟨workers, busy, returned, _⟩ := act_pool enabled
  have still {index : Fin collectors} (finished : s.pc (.helper (.collector index)) = .collector .returned) :
      (s.move party next after).pc (.helper (.collector index)) = .collector .returned := by
    rw [s.move_pc_of_ne next after, finished]
    rintro rfl
    exact busy finished
  obtain ⟨done, counted, finished⟩ := winds.served
  constructor
  · rw [State.move_shared, workers]
    exact winds.size
  · rcases returned with same | ⟨rfl, one⟩
    · exact ⟨done, counted.trans same.symm, fun index member => still (finished index member)⟩
    · rcases party with _ | _ | ⟨_ | _ | index | _⟩
      case helper.collector =>
        have fresh : index ∉ done := fun member => busy (finished index member)
        refine ⟨insert index done, ?_, fun other member => ?_⟩
        · rw [Finset.card_insert_of_notMem fresh, State.move_shared, one, counted]
        · rcases Finset.mem_insert.mp member with rfl | member
          · exact State.move_pc_self ..
          · exact still (finished other member)
      all_goals exact (act_belongs enabled belongs).elim
  · intro stage at_ later index
    by_cases main : party = .main
    · subst main
      rw [State.move_pc_self] at at_
      subst at_
      cases here : s.pc .main with
      | main before =>
        rw [here] at enabled
        obtain ⟨⟨_, _, _⟩, acts, same⟩ := Option.map_eq_some_iff.mp enabled
        cases same
        rcases ((mainAct_move acts).pool).2.2.2 later with already | joined
        · exact still (winds.joined before here already index)
        · exact still (winds.all_returned joined index)
      | _ =>
        rw [here] at belongs
        exact belongs.elim
    · rw [s.move_pc_of_ne next after (Ne.symm main)] at at_
      exact still (winds.joined stage at_ later index)

omit [Inhabited B] [DecidableEq ι] in
/-- A run starts with every worker at work. -/
private theorem winds_start : Winds (initial ι collectors workers channels running) := by
  refine ⟨?_, ⟨∅, rfl, by simp⟩, ?_⟩
  · change collectors ≤ if collectors = 0 then 1 else collectors
    split_ifs <;> omega
  · rintro _ ⟨⟩ joined
    exact joined.elim

/-- Where a thread stands that may call a pipeline from outside: a pull-mode source's own threads never
do, and the timer only injects. -/
def Calls (setup : Setup n B) : Party n ι collectors workers → Pc n B → Prop
  | .helper (.source k _), pc => setup.IsPushMode k = false → pc = .thread k .outside
  | .helper .timer, .timer (.injecting _ pc) => pc = .outside ∨ ∃ call, pc = .inject call
  | _, _ => True

private theorem silent_of_pull {k : Fin n} (pull : setup.IsPushMode k = false) :
    act setup c (.thread k .outside) choice = none := by
  cases choice with
  | pipeline choice =>
    cases choice with
    | Enqueue => simp only [act, permits, pull, Bool.false_eq_true, ↓reduceIte]
    | pending tasks => exact ite_self (c := (tasks == c.sink_pool_.PendingTasks) = true) none
    | _ => rfl
  | _ => rfl

private theorem inject_stays {setup : Pipeline.Setup B} {p next : Pipeline B} {pc after : Pipeline.Pc B}
    {event : Pipeline.Event B} (calls : pc = .outside ∨ ∃ call, pc = .inject call)
    (acts : Pipeline.act setup p pc (injectChoice pc) = some (next, after, event)) :
    after = .outside ∨ ∃ call, after = .inject call := by
  rcases calls with rfl | ⟨call, rfl⟩
  · simp only [injectChoice, Pipeline.act] at acts
    split_ifs at acts
    · cases acts
      exact Or.inr ⟨_, rfl⟩
    · cases acts
      exact Or.inl rfl
  · simp only [injectChoice, Pipeline.act, bind, Option.bind_eq_some_iff] at acts
    obtain ⟨_, _, acts⟩ := acts
    split at acts
    · cases acts
      exact Or.inr ⟨_, rfl⟩
    · cases acts
      exact Or.inl rfl

omit [DecidableEq ι] in
theorem act_calls (enabled : act setup c pc choice = some (next, after, event)) (belongs : Belongs party pc)
    (calls : Calls setup party pc) : Calls setup party after := by
  rcases party with _ | _ | ⟨k, _⟩ | _ | _ | _
  case helper.source k _ =>
    intro pull
    rw [calls pull, silent_of_pull pull] at enabled
    cases enabled
  case helper.timer =>
    cases pc with
    | timer here =>
      obtain ⟨⟨_, there, _⟩, acts, same⟩ := Option.map_eq_some_iff.mp enabled
      cases same
      cases there with
      | injecting k pc =>
        cases timerAct_move acts with
        | flushes => exact Or.inl rfl
        | injects inside =>
          obtain ⟨_, _, moves, _, _⟩ := inPipeline_cases inside
          exact inject_stays calls moves
      | _ => trivial
    | _ => exact belongs.elim
  all_goals trivial

/-- What is known of every state that a controller's threads can reach. -/
private theorem run_known (run : (program setup).Run (initial ι collectors workers channels running) history target) :
    (∀ party, Belongs party (target.pc party) ∧ Calls setup party (target.pc party)) ∧ Winds target := by
  refine run.invariant (fun _ s => (∀ party, Belongs party (s.pc party) ∧ Calls setup party (s.pc party)) ∧ Winds s)
    ⟨fun party => ⟨belongs_start running party, ?_⟩, winds_start⟩ ?_
  · rcases party with _ | _ | ⟨_ | _ | _ | _⟩ <;> first
      | exact fun _ => rfl
      | exact trivial
  · intro history s party choice next after event known enabled
    obtain ⟨places, winds⟩ := known
    obtain ⟨belongs, calls⟩ := places party
    exact ⟨State.forall_move (fun party pc => Belongs party pc ∧ Calls setup party pc) (fun other _ => places other)
      ⟨act_belongs enabled belongs, act_calls enabled belongs calls⟩, winds.step belongs enabled⟩

omit [Inhabited B] [DecidableEq ι] in
private theorem joined_of_begun {k : Fin n} {pc : Pc n B} (belongs : Belongs (.main : Party n ι collectors workers) pc)
    (begun : pc.inside k ≠ .stop .idle) : ∃ stage, pc = .main stage ∧ stage.Joined := by
  cases pc with
  | main stage =>
    refine ⟨stage, rfl, ?_⟩
    cases stage <;> first
      | exact trivial
      | exact absurd rfl begun
  | _ => exact belongs.elim

/-- Once a pipeline's `Stop` has begun, every collect worker has returned. -/
theorem returned_of_begun (run : (program setup).Run (initial ι collectors workers channels running) history target)
    {k : Fin n} (begun : (target.pc .main).inside k ≠ .stop .idle) (index : Fin collectors) :
    target.pc (.helper (.collector index)) = .collector .returned := by
  obtain ⟨places, winds⟩ := run_known run
  obtain ⟨stage, at_, joined⟩ := joined_of_begun (places .main).1 begun
  exact winds.joined stage at_ joined index

omit [Inhabited B] [DecidableEq ι] in
/-- Only a collect worker or a push-mode source's own thread is ever inside `Enqueue`. -/
private theorem enqueueing_cases {k : Fin n} {pc : Pc n B} {call : AsyncChannel.Pc B}
    {helper : Helper n ι collectors workers} (pull : setup.IsPushMode k = false)
    (belongs : Belongs (.helper helper : Party n ι collectors workers) pc) (calls : Calls setup (.helper helper) pc)
    (inside : pc.inside k = .enqueue call) : ∃ index, helper = .collector index ∧ pc ≠ .collector .returned := by
  cases helper with
  | source j index =>
    cases pc with
    | thread l here =>
      cases (show l = j from belongs)
      change (if j = k then here else .outside) = _ at inside
      split_ifs at inside with same
      subst same
      cases calls pull
      cases inside
    | _ => exact belongs.elim
  | timer =>
    cases pc with
    | timer here =>
      cases here with
      | injecting j here =>
        change (if j = k then here else .outside) = _ at inside
        split_ifs at inside
        rcases calls with rfl | ⟨_, rfl⟩ <;> cases inside
      | _ => cases inside
    | _ => exact belongs.elim
  | collector index =>
    refine ⟨index, rfl, ?_⟩
    rintro rfl
    cases inside
  | worker index =>
    cases pc with
    | worker => cases inside
    | _ => exact belongs.elim

variable {capacity : UInt64} {slots : 2 ≤ (roundUpPow2 capacity).toNat} {policy : DropPolicy} {high_wm low_wm : ℚ}
  {k : Fin n}

omit [DecidableEq ι] in
private theorem pipelineState_fresh (started : running k = true)
    (fresh : channels k = .make capacity slots policy high_wm low_wm) :
    pipelineState k (initial ι collectors workers channels running) =
      Pipeline.initial (Helper n ι collectors workers) capacity slots policy high_wm low_wm := by
  rw [pipelineState_initial, if_pos started, fresh]
  rfl

/-- While a thread is inside `Enqueue` of a pull-mode pipeline, the process thread is in its loop or has
yet to find the channel empty. -/
private theorem running_of_enqueueing (pull : setup.IsPushMode k = false) (started : running k = true)
    (fresh : channels k = .make capacity slots policy high_wm low_wm)
    (run : (program setup).Run (initial ι collectors workers channels running) history s)
    {member : Pipeline.Party (Helper n ι collectors workers)} (plays : role k party = some member)
    {call : AsyncChannel.Pc B} (inside : (s.pc party).inside k = .enqueue call) :
    (s.shared.pipelines_ k).process_thread_ = .running := by
  by_contra retired
  have kept := pipeline_kept run k
  have halts : Pipeline.Halts (pipelineState k s) := by
    have seen := run_pipeline run k
    rw [pipelineState_fresh started fresh] at seen
    exact Pipeline.run_halts seen
  have begun : (s.pc .main).inside k ≠ .stop .idle := kept.stopped halts retired
  have here := (role_iff k party member).mp plays
  have placed : Pipeline.Placed member ((s.pc (place k member)).inside k) := kept.placed member
  rw [here, inside] at placed
  cases member with
  | producer helper =>
    cases here
    obtain ⟨belongs, calls⟩ := (run_known run).1 (.helper helper)
    obtain ⟨index, rfl, busy⟩ := enqueueing_cases pull belongs calls inside
    exact busy (returned_of_begun run begun index)
  | _ => exact placed.elim

/-- No batch of a pull-mode pipeline is pushed once its drain has found the channel empty. -/
theorem run_in_time (pull : setup.IsPushMode k = false) (started : running k = true)
    (fresh : channels k = .make capacity slots policy high_wm low_wm)
    (run : (program setup).Run (initial ι collectors workers channels running) history target) :
    ((Pipeline.program (setup.pipeline k)).restrict Pipeline.inTime).Run
      (Pipeline.initial (Helper n ι collectors workers) capacity slots policy high_wm low_wm)
      (seen (role k) (Event.pipeline? k) history) (pipelineState k target) := by
  rw [← pipelineState_fresh started fresh]
  refine run.component_of _ (fun c => c.pipelines_ k) (Pc.inside k) (Event.pipeline? k) (role k) (place k)
    (role_iff k) ?_
  intro history s party next after choice event reached enabled
  refine (act_pipeline enabled ((run_known reached).1 party).1 k).imp_right ?_
  rintro ⟨actor, choice', event', plays, shown, acts⟩
  refine ⟨actor, choice', event', plays, shown, Program.restrict_act.mpr ⟨?_, acts⟩⟩
  unfold Pipeline.inTime
  split
  · next inside => exact decide_eq_true (running_of_enqueueing pull started fresh reached plays inside)
  · next inside => exact decide_eq_true (running_of_enqueueing pull started fresh reached plays inside)
  · rfl

omit [Inhabited B] [DecidableEq ι] in
private theorem returned_of_collector {here : CollectPc n B} (belongs : Belongs party (s.pc party))
    (returned : ∀ index : Fin collectors, s.pc (.helper (.collector index)) = .collector .returned)
    (at_ : s.pc party = .collector here) : here = .returned := by
  rw [at_] at belongs
  rcases party with _ | _ | ⟨_ | _ | index | _⟩
  case helper.collector => exact Pc.collector.inj (at_.symm.trans (returned index))
  all_goals exact belongs.elim

/-- When every collect worker has returned, no collection starts any more. -/
private theorem no_collection (belongs : ∀ party, Belongs party (s.pc party))
    (returned : ∀ index : Fin collectors, s.pc (.helper (.collector index)) = .collector .returned)
    (run : (program setup).Run s history target) : ∀ entry ∈ history, ∀ j, entry.2 ≠ .collecting j := by
  have kept := run.invariant (fun history s => (∀ party, Belongs party (s.pc party)) ∧
    (∀ index : Fin collectors, s.pc (.helper (.collector index)) = .collector .returned) ∧
    ∀ entry ∈ history, ∀ j, entry.2 ≠ .collecting j) ⟨belongs, returned, by simp⟩ ?_
  · exact kept.2.2
  intro history s party choice next after event ih enabled
  obtain ⟨belongs, returned, silent⟩ := ih
  obtain ⟨_, busy, _, collects⟩ := act_pool enabled
  refine ⟨State.forall_move Belongs (fun other _ => belongs other) (act_belongs enabled (belongs party)), ?_, ?_⟩
  · intro index
    rw [s.move_pc_of_ne next after]
    · exact returned index
    · rintro rfl
      exact busy (returned index)
  · intro entry member
    rcases List.mem_append.mp member with earlier | last
    · exact silent entry earlier
    · rw [List.mem_singleton.mp last]
      intro j shown
      obtain ⟨here, at_⟩ := collects j shown
      rw [returned_of_collector (belongs party) returned at_] at at_
      exact busy at_

/-- In every reachable state in which a pull-mode pipeline's `Stop` has begun, no collection is running
and none starts again; and when that `Stop` has returned, every batch its collections entered has left
the channel, and those not evicted were handed to `HandleData` once each and in order. -/
theorem pull_shutdown (pull : setup.IsPushMode k = false) (started : running k = true)
    (fresh : channels k = .make capacity slots policy high_wm low_wm)
    (run : (program setup).Run (initial ι collectors workers channels running) history target) :
    ((target.pc .main).inside k ≠ .stop .idle →
      (∀ party, target.pc party ≠ .collector (.collecting k)) ∧
      ∀ later final, (program setup).Run target later final → ∀ entry ∈ later, entry.2 ≠ .collecting k) ∧
    ((target.pc .main).inside k = .stop .returned →
      Pipeline.Delivered (seen (role k) (Event.pipeline? k) history)) := by
  constructor
  · intro begun
    have belongs party := ((run_known run).1 party).1
    have returned := returned_of_begun run begun
    constructor
    · intro party at_
      exact nomatch returned_of_collector (belongs party) returned at_
    · intro later final run' entry member
      exact no_collection belongs returned run' entry member k
  · exact Pipeline.shutdown_delivers (run_in_time pull started fresh run)

end Runs

/-- One pull-mode pipeline without processors or aggregator, and one sink. -/
def polled : Setup 1 ℕ := ⟨fun _ => ⟨fun batch => batch == 0, id, 0, false, 1, true⟩, fun _ => false, false⟩

/-- One thread's consecutive choices. -/
def acts (party : Party 1 Unit 1 1) (choices : List (Choice 1 ℕ)) : List (Party 1 Unit 1 1 × Choice 1 ℕ) :=
  choices.map (party, ·)

/-- Two collections are due, one of them running and one queued, when `StopAll` begins; both batches are
enqueued before the pool is joined, and the process thread handles them after that. -/
def polling : List (Party 1 Unit 1 1 × Choice 1 ℕ) :=
  acts (.helper .timer) [.fire (.collect 0), .proceed, .fire (.collect 0)] ++
    acts (.helper (.collector 0)) [.proceed] ++ acts .main [.StopAll] ++ acts (.helper .timer) [.proceed] ++
    acts .main [.proceed, .proceed] ++
    acts (.helper (.collector 0)) (.collected (some 5) :: List.replicate 9 .proceed) ++
    acts (.helper (.collector 0)) (.collected (some 6) :: List.replicate 13 .proceed) ++
    acts .main [.proceed, .proceed] ++
    acts (.process 0) (List.replicate 9 (.pipeline .proceed) ++ [.pipeline (.pending 0)] ++
      List.replicate 11 (.pipeline .proceed) ++ [.pipeline (.pending 1)] ++ List.replicate 6 (.pipeline .proceed)) ++
    acts .main (List.replicate 7 .proceed)

theorem pull_shutdown_polling :
    ∃ history target, (program polled).Run
        (initial Unit 1 1 (fun _ => .make 2 (by decide) .kDropNewest (4 / 5) (1 / 5)) fun _ => true) history target ∧
      (seen (role 0) (Event.pipeline? 0) history).flatMap (fun entry => entry.2.handledBatch) = [5, 6] ∧
      (∀ party, target.pc party ≠ .collector (.collecting 0)) ∧
      Pipeline.Delivered (seen (role 0) (Event.pipeline? 0) history) := by
  obtain ⟨history, target, run, stopped, handled⟩ := Program.exists_run_of_check (program polled)
    (initial Unit 1 1 (fun _ => .make 2 (by decide) .kDropNewest (4 / 5) (1 / 5)) fun _ => true)
    (fun target history => (target.pc .main).inside 0 = .stop .returned ∧
      (seen (role 0) (Event.pipeline? 0) history).flatMap (fun entry => entry.2.handledBatch) = [5, 6]) polling
    (by decide +kernel)
  obtain ⟨silent, delivers⟩ := pull_shutdown (k := 0) rfl rfl rfl run
  exact ⟨history, target, run, handled, (silent (by rw [stopped]; exact nofun)).1, delivers stopped⟩

end PipelineController

end Illuminator
