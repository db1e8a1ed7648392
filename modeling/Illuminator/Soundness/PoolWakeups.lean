import Illuminator.Machine.Actions
import Illuminator.Soundness.PoolTasks

/-! # Wakeups in a pool

While a task is in the queue some worker is awake, or some thread is yet to notify. The pool is told to stop only
when nobody outside is inside `Submit`, and once every waiting worker was notified none waits again.
-/

namespace Illuminator

namespace ThreadPool

variable {V E : Type*}

/-- The worker has something to do that needs nobody else. -/
def Stage.active : Stage V E → Bool
  | .lock | .run _ _ | .notify _ _ => true
  | .wait | .returned => false

theorem Stage.active_of {stage : Stage V E} (awake : stage.waits = false) (present : stage.isReturned = false) :
    stage.active = true := by
  cases stage with
  | lock | run | notify => rfl
  | wait => exact Bool.noConfusion awake
  | returned => exact Bool.noConfusion present

/-- How many workers were joined. -/
def Destruction.joined (workers : ℕ) : Destruction → ℕ
  | .alive | .notify_all => 0
  | .join worker => worker
  | .destroyed => workers

namespace World

variable {w w' : World V E}

structure Wakeups (w : World V E) : Prop where
  some_worker : 0 < w.pool.workers_
  beyond : ∀ worker, w.pool.workers_ ≤ worker → (w.stage worker).isReturned = true
  served : w.pool.tasks_ ≠ [] → 0 < w.calls ∨ ∃ worker, (w.stage worker).active = true
  stopped : w.pool.stop_ = true ↔ w.destruction ≠ .alive
  quiet : w.pool.stop_ = true → w.calls = 0
  awake : w.pool.stop_ = true → w.destruction ≠ .notify_all → ∀ worker, (w.stage worker).waits = false
  exited : ∀ worker < w.pool.workers_, (w.stage worker).isReturned = true → w.pool.stop_ = true
  joined : ∀ worker < w.destruction.joined w.pool.workers_, (w.stage worker).isReturned = true

/-! ## Spec lemmas of the steps -/

theorem notify_one_cases {woken : ℕ} (notified : w.notify_one woken = some w') :
    ((w.stage woken).waits = true ∧ w' = w.place woken .lock) ∨
      ((∀ worker < w.pool.workers_, (w.stage worker).waits = false) ∧ w' = w) := by
  unfold notify_one at notified
  split_ifs at notified with waits awake
  · exact Or.inl ⟨waits, (Option.some.inj notified).symm⟩
  · exact Or.inr ⟨awake, (Option.some.inj notified).symm⟩

/-- A notification always goes through. -/
theorem notify_one_enabled (w : World V E) : ∃ woken w', w.notify_one woken = some w' := by
  by_cases awake : ∀ worker < w.pool.workers_, (w.stage worker).waits = false
  · unfold notify_one
    by_cases waits : (w.stage 0).waits = true
    · exact ⟨0, _, if_pos waits⟩
    · refine ⟨0, w, ?_⟩
      rw [if_neg waits, if_pos awake]
  · push Not at awake
    obtain ⟨woken, _, waits⟩ := awake
    exact ⟨woken, _, if_pos (Bool.not_eq_false _ ▸ waits)⟩

/-- Under the lock a worker takes the first task, leaves when it is told to stop and nothing is left, or waits. -/
theorem look_cases (w : World V E) (worker : ℕ) :
    (∃ task rest, w.pool.tasks_ = task :: rest ∧ w.look worker =
      { w.place worker (.run task.id task.body) with
        pool := { w.pool with tasks_ := rest }, taken := w.taken ++ [task.id] }) ∨
    (w.pool.tasks_ = [] ∧ w.pool.stop_ = true ∧ w.look worker =
      { w.place worker .returned with pool := { w.pool with returned := w.pool.returned + 1 } }) ∨
    (w.pool.tasks_ = [] ∧ w.pool.stop_ = false ∧ w.look worker = w.place worker .wait) := by
  unfold look
  cases tasks : w.pool.tasks_ with
  | cons task rest =>
    have loop : w.pool.WorkerLoop = some ({ w.pool with tasks_ := rest }, some task) := by rw [WorkerLoop, tasks]
    exact Or.inl ⟨task, rest, rfl, by rw [loop]⟩
  | nil =>
    cases stop : w.pool.stop_ with
    | true =>
      have loop : w.pool.WorkerLoop = some ({ w.pool with returned := w.pool.returned + 1 }, none) := by
        simp only [WorkerLoop, tasks, stop, if_true]
      exact Or.inr (Or.inl ⟨rfl, rfl, by rw [loop]⟩)
    | false =>
      have loop : w.pool.WorkerLoop = none := by
        simp only [WorkerLoop, tasks, stop, Bool.false_eq_true, if_false]
      exact Or.inr (Or.inr ⟨rfl, rfl, by rw [loop]⟩)

/-- A step of one worker: it was not gone, it sleeps only while the pool goes on, and leaves only when it stops. -/
structure Moves (w w' : World V E) (worker : ℕ) (stage : Stage V E) : Prop where
  present : (w.stage worker).isReturned = false
  workers : w'.pool.workers_ = w.pool.workers_
  stop : w'.pool.stop_ = w.pool.stop_
  destruction : w'.destruction = w.destruction
  calls : w.calls = 0 → w'.calls = 0
  stages : ∀ other, w'.stage other = if other = worker then stage else w.stage other
  sleeps : stage.waits = true → w.pool.stop_ = false
  leaves : stage.isReturned = true → w.pool.stop_ = true
  served : w'.pool.tasks_ ≠ [] → 0 < w'.calls ∨ stage.active = true

theorem Wakeups.move (wakeups : Wakeups w) (worker : ℕ) (stage : Stage V E) (moves : Moves w w' worker stage) :
    Wakeups w' := by
  have inside : worker < w.pool.workers_ := by
    by_contra outside
    have gone := wakeups.beyond worker (not_lt.mp outside)
    rw [moves.present] at gone
    exact Bool.noConfusion gone
  constructor
  · rw [moves.workers]
    exact wakeups.some_worker
  · intro other outside
    rw [moves.workers] at outside
    rw [moves.stages, if_neg (by omega)]
    exact wakeups.beyond other outside
  · intro queued
    rcases moves.served queued with called | active
    · exact Or.inl called
    · refine Or.inr ⟨worker, ?_⟩
      rw [moves.stages, if_pos rfl]
      exact active
  · rw [moves.stop, moves.destruction]
    exact wakeups.stopped
  · rw [moves.stop]
    exact fun stop => moves.calls (wakeups.quiet stop)
  · rw [moves.stop, moves.destruction]
    intro stop notified other
    rw [moves.stages]
    split_ifs with here
    · by_contra waits
      have going := moves.sleeps (Bool.not_eq_false _ ▸ waits)
      rw [stop] at going
      exact Bool.noConfusion going
    · exact wakeups.awake stop notified other
  · rw [moves.stop, moves.workers]
    intro other below gone
    rw [moves.stages] at gone
    split_ifs at gone with here
    · exact moves.leaves gone
    · exact wakeups.exited other below gone
  · rw [moves.destruction, moves.workers]
    intro other below
    have gone := wakeups.joined other below
    rw [moves.stages, if_neg ?_]
    · exact gone
    · rintro rfl
      rw [moves.present] at gone
      exact Bool.noConfusion gone

theorem waits_present {stage : Stage V E} (waits : stage.waits = true) : stage.isReturned = false := by
  cases stage <;> first | rfl | cases waits

theorem active_not {stage : Stage V E} (active : stage.active = true) :
    stage.waits = false ∧ stage.isReturned = false := by
  cases stage with
  | lock | run | notify => exact ⟨rfl, rfl⟩
  | wait | returned => exact Bool.noConfusion active

/-- A worker goes to a stage in which it is active. -/
theorem Wakeups.goes (wakeups : Wakeups w) {worker : ℕ} (stage : Stage V E)
    (present : (w.stage worker).isReturned = false) (active : stage.active = true)
    (stages : w'.stage = (w.place worker stage).stage) (calls : w.calls = 0 → w'.calls = 0)
    (kept : w'.pool.workers_ = w.pool.workers_ ∧ w'.pool.stop_ = w.pool.stop_ ∧ w'.destruction = w.destruction) :
    Wakeups w' := by
  obtain ⟨awake, stays⟩ := active_not active
  apply wakeups.move worker stage
  refine ⟨present, kept.1, kept.2.1, kept.2.2, calls, ?_, ?_, ?_, fun _ => Or.inr active⟩
  · intro other
    rw [stages, place_stage]
  · exact fun waits => Bool.noConfusion (awake.symm.trans waits)
  · exact fun gone => Bool.noConfusion (stays.symm.trans gone)

/-- Every worker that is not waiting is active until the pool is told to stop. -/
theorem Wakeups.some_active (wakeups : Wakeups w) (going : w.pool.stop_ = false)
    (awake : ∀ worker < w.pool.workers_, (w.stage worker).waits = false) :
    ∃ worker, (w.stage worker).active = true := by
  refine ⟨0, Stage.active_of (awake 0 wakeups.some_worker) ?_⟩
  by_contra gone
  have stopped := wakeups.exited 0 wakeups.some_worker (Bool.not_eq_false _ ▸ gone)
  rw [going] at stopped
  exact Bool.noConfusion stopped

theorem Wakeups.going (wakeups : Wakeups w) (alive : w.destruction = .alive) : w.pool.stop_ = false := by
  by_contra stop
  exact wakeups.stopped.mp (Bool.not_eq_false _ ▸ stop) alive

theorem Wakeups.Submit (wakeups : Wakeups w) (alive : w.destruction = .alive) (body : Body V E) :
    Wakeups { w.insert body with calls := w.calls + 1 } where
  some_worker := wakeups.some_worker
  beyond := wakeups.beyond
  served _ := Or.inl (Nat.succ_pos _)
  stopped := wakeups.stopped
  quiet stop := absurd alive (wakeups.stopped.mp stop)
  awake := wakeups.awake
  exited := wakeups.exited
  joined := wakeups.joined

theorem Wakeups.notify (wakeups : Wakeups w) {woken : ℕ} (called : w.calls ≠ 0)
    (notified : w.notify_one woken = some w') : Wakeups { w' with calls := w'.calls - 1 } := by
  have going : w.pool.stop_ = false := by
    by_contra stop
    exact called (wakeups.quiet (Bool.not_eq_false _ ▸ stop))
  rcases notify_one_cases notified with ⟨waits, rfl⟩ | ⟨awake, rfl⟩
  · exact wakeups.goes .lock (waits_present waits) rfl rfl (fun none => absurd none called) ⟨rfl, rfl, rfl⟩
  · refine { wakeups with served := ?_, quiet := ?_ }
    · exact fun _ => Or.inr (wakeups.some_active going awake)
    · intro stop
      rw [going] at stop
      exact Bool.noConfusion stop

theorem Wakeups.look (wakeups : Wakeups w) {worker : ℕ} (present : (w.stage worker).isReturned = false) :
    Wakeups (w.look worker) := by
  rcases look_cases w worker with ⟨task, rest, _, same⟩ | ⟨empty, stop, same⟩ | ⟨empty, going, same⟩
  · rw [same]
    exact wakeups.goes (.run task.id task.body) present rfl rfl id ⟨rfl, rfl, rfl⟩
  · rw [same]
    apply wakeups.move worker .returned
    exact ⟨present, rfl, rfl, rfl, id, fun other => place_stage worker other _, fun waits => Bool.noConfusion waits,
      fun _ => stop, fun queued => absurd empty queued⟩
  · rw [same]
    apply wakeups.move worker .wait
    exact ⟨present, rfl, rfl, rfl, id, fun other => place_stage worker other _, fun _ => going,
      fun gone => Bool.noConfusion gone, fun queued => absurd empty queued⟩

theorem Wakeups.notified (wakeups : Wakeups w) {woken : ℕ} (notified : w.notify_one woken = some w') : Wakeups w' := by
  rcases notify_one_cases notified with ⟨waits, rfl⟩ | ⟨_, rfl⟩
  · exact wakeups.goes .lock (waits_present waits) rfl rfl (fun none => none) ⟨rfl, rfl, rfl⟩
  · exact wakeups

/-- A worker that does not wait is where it was. -/
theorem notify_one_other {woken worker : ℕ} (notified : w.notify_one woken = some w')
    (awake : (w.stage worker).waits = false) : w'.stage worker = w.stage worker := by
  rcases notify_one_cases notified with ⟨waits, rfl⟩ | ⟨_, rfl⟩
  · rw [place_stage, if_neg]
    rintro rfl
    exact Bool.noConfusion (awake.symm.trans waits)
  · rfl

theorem Wakeups.work (wakeups : Wakeups w) {worker woken : ℕ} (stepped : w.work worker woken = some w') :
    Wakeups w' := by
  have present {stage : Stage V E} (here : w.stage worker = stage) (active : stage.active = true) :
      (w.stage worker).isReturned = false := by
    rw [here]
    exact (active_not active).2
  unfold World.work at stepped
  split at stepped
  · next here =>
    cases stepped
    exact wakeups.look (present here rfl)
  · cases stepped
  · next id value here =>
    cases stepped
    exact wakeups.goes .lock (present here rfl) rfl rfl (fun none => none) ⟨rfl, rfl, rfl⟩
  · next id error here =>
    cases stepped
    exact wakeups.goes .lock (present here rfl) rfl rfl (fun none => none) ⟨rfl, rfl, rfl⟩
  · next id task rest here =>
    cases stepped
    exact wakeups.goes (.notify id rest) (present here rfl) rfl rfl (fun none => none) ⟨rfl, rfl, rfl⟩
  · next id rest here =>
    obtain ⟨notified, woke, rfl⟩ := Option.map_eq_some_iff.mp stepped
    have running : notified.stage worker = .notify id rest := by
      rw [notify_one_other woke (by rw [here]; rfl), here]
    exact (wakeups.notified woke).goes (.run id rest) (by rw [running]; rfl) rfl rfl (fun none => none) ⟨rfl, rfl, rfl⟩
  · cases stepped

theorem Wakeups.notify_all (wakeups : Wakeups w) (stopping : w.destruction = .notify_all) :
    Wakeups { w.notify_all with destruction := .join 0 } := by
  have stages (worker : ℕ) : w.notify_all.stage worker = if (w.stage worker).waits then .lock else w.stage worker := rfl
  have stop : w.pool.stop_ = true := wakeups.stopped.mpr fun alive => by
    rw [stopping] at alive
    cases alive
  refine ⟨wakeups.some_worker, ?_, ?_, ?_, wakeups.quiet, ?_, fun _ _ _ => stop, fun _ below => absurd below (Nat.not_lt_zero _)⟩
  · intro worker outside
    have gone := wakeups.beyond worker outside
    change (w.notify_all.stage worker).isReturned = true
    rw [stages, if_neg]
    · exact gone
    · intro waits
      rw [waits_present waits] at gone
      exact Bool.noConfusion gone
  · intro queued
    rcases wakeups.served queued with called | ⟨worker, active⟩
    · exact Or.inl called
    · refine Or.inr ⟨worker, ?_⟩
      change (w.notify_all.stage worker).active = true
      rw [stages, if_neg]
      · exact active
      · rw [(active_not active).1]
        exact Bool.false_ne_true
  · exact ⟨fun _ alive => Destruction.noConfusion alive, fun _ => stop⟩
  · intro _ _ worker
    change (w.notify_all.stage worker).waits = false
    rw [stages]
    split_ifs with waits
    · rfl
    · exact Bool.not_eq_true _ ▸ waits

theorem Wakeups.teardown (wakeups : Wakeups w) (stepped : w.teardown = some w') : Wakeups w' := by
  unfold World.teardown at stepped
  split at stepped
  · cases stepped
  · next stopping =>
    cases stepped
    exact wakeups.notify_all stopping
  · next worker joining =>
    have stop : w.pool.stop_ = true := wakeups.stopped.mpr fun alive => by
      rw [joining] at alive
      cases alive
    have awake := wakeups.awake stop (by rw [joining]; exact Destruction.noConfusion)
    have before := wakeups.joined
    rw [joining] at before
    split_ifs at stepped with below gone
    · cases stepped
      refine { wakeups with stopped := ?_, awake := fun _ _ => awake, joined := ?_ }
      · exact ⟨fun _ alive => Destruction.noConfusion alive, fun _ => stop⟩
      · intro other joined
        rcases Nat.lt_succ_iff_lt_or_eq.mp joined with earlier | rfl
        · exact before other earlier
        · exact gone
    · cases stepped
      refine { wakeups with stopped := ?_, awake := fun _ _ => awake, joined := ?_ }
      · exact ⟨fun _ alive => Destruction.noConfusion alive, fun _ => stop⟩
      · exact fun other inside => before other (lt_of_lt_of_le inside (not_lt.mp below))
  · cases stepped

theorem Wakeups.step (wakeups : Wakeups w) {action : Action V E} (stepped : ThreadPool.step w action = some w') :
    Wakeups w' := by
  cases action with
  | Submit body =>
    obtain ⟨alive, ⟨⟩⟩ := Option.ite_none_right_eq_some.mp stepped
    exact wakeups.Submit alive body
  | notify_one woken =>
    obtain ⟨called, notified⟩ := Option.ite_none_left_eq_some.mp stepped
    obtain ⟨middle, woke, rfl⟩ := Option.map_eq_some_iff.mp notified
    exact wakeups.notify called woke
  | wake worker =>
    obtain ⟨waits, ⟨⟩⟩ := Option.ite_none_right_eq_some.mp stepped
    exact wakeups.goes .lock (waits_present waits) rfl rfl id ⟨rfl, rfl, rfl⟩
  | work worker woken => exact wakeups.work stepped
  | destroy =>
    obtain ⟨⟨alive, quiet⟩, ⟨⟩⟩ := Option.ite_none_right_eq_some.mp stepped
    refine { wakeups with stopped := ?_, quiet := fun _ => quiet, awake := ?_, exited := fun _ _ _ => rfl, joined := ?_ }
    · exact ⟨fun _ alive => Destruction.noConfusion alive, fun _ => rfl⟩
    · exact fun _ notified => absurd rfl notified
    · exact fun _ below => absurd below (Nat.not_lt_zero _)
  | teardown => exact wakeups.teardown stepped

theorem make_stage (num_threads worker : ℕ) : (World.make num_threads : World V E).stage worker =
    if worker < (World.make num_threads : World V E).pool.workers_ then .lock else .returned := rfl

theorem Wakeups.make (num_threads : ℕ) : Wakeups (World.make num_threads : World V E) where
  some_worker := by
    change 0 < if num_threads = 0 then 1 else num_threads
    split_ifs with none
    · exact Nat.one_pos
    · exact Nat.pos_of_ne_zero none
  beyond worker outside := by
    rw [make_stage, if_neg (not_lt.mpr outside)]
    rfl
  served queued := absurd rfl queued
  stopped := ⟨fun stop => Bool.noConfusion stop, fun gone => absurd rfl gone⟩
  quiet stop := Bool.noConfusion stop
  awake stop := Bool.noConfusion stop
  exited worker inside gone := by
    rw [make_stage, if_pos inside] at gone
    exact Bool.noConfusion gone
  joined _ below := absurd below (Nat.not_lt_zero _)

end World

end ThreadPool

end Illuminator
