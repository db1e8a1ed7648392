import Illuminator.Soundness.PoolWakeups
import Mathlib.Algebra.BigOperators.Group.Finset.Basic
import Mathlib.Algebra.Order.BigOperators.Group.Finset

/-! # Runs of a pool

Every step but a submission from outside, the beginning of the destruction and a wakeup for no reason uses up some of
a finite cost, and some such step is enabled until the pool is finished. So a run ends with every task done and, once
the destruction began, with every worker gone.
-/

namespace Illuminator

namespace ThreadPool

variable {V E : Type*}

/-! ## The cost of what is left to do -/

def Body.size : Body V E → ℕ
  | .ret _ | .throw _ => 1
  | .Submit task rest => task.size + rest.size + 4

def Stage.cost : Stage V E → ℕ
  | .lock => 1
  | .run _ rest => rest.size + 1
  | .notify _ rest => rest.size + 3
  | .wait | .returned => 0

def Destruction.cost (workers : ℕ) : Destruction → ℕ
  | .notify_all => 2 * workers + 2
  | .join worker => workers - worker + 1
  | .alive | .destroyed => 0

/-- What an action from outside, and a wakeup for no reason, may add. -/
def Action.credit (workers : ℕ) : Action V E → ℕ
  | .Submit body => body.size + 4
  | .wake _ => 2
  | .destroy => 2 * workers + 3
  | .notify_one _ | .work _ _ | .teardown => 0

namespace World

variable {w w' : World V E}

def stageCost (w : World V E) : ℕ := ∑ worker ∈ Finset.range w.pool.workers_, (w.stage worker).cost

def queueCost (w : World V E) : ℕ := (w.pool.tasks_.map fun task => task.body.size + 1).sum

def cost (w : World V E) : ℕ :=
  w.stageCost + w.queueCost + 2 * w.calls + w.destruction.cost w.pool.workers_

/-- One worker's move, paid by what its stage costs less. -/
theorem stageCost_place {worker : ℕ} (inside : worker < w.pool.workers_) (stage : Stage V E) :
    (w.place worker stage).stageCost + (w.stage worker).cost = w.stageCost + stage.cost := by
  have member : worker ∈ Finset.range w.pool.workers_ := Finset.mem_range.mpr inside
  have others : ∑ other ∈ (Finset.range w.pool.workers_).erase worker, ((w.place worker stage).stage other).cost =
      ∑ other ∈ (Finset.range w.pool.workers_).erase worker, (w.stage other).cost := by
    refine Finset.sum_congr rfl fun other present => ?_
    rw [place_stage, if_neg (Finset.ne_of_mem_erase present)]
  have before : w.stageCost = (w.stage worker).cost + _ := (Finset.add_sum_erase _ _ member).symm
  have after : (w.place worker stage).stageCost = ((w.place worker stage).stage worker).cost + _ :=
    (Finset.add_sum_erase _ _ member).symm
  rw [place_stage, if_pos rfl, others] at after
  omega

theorem Wakeups.inside (wakeups : Wakeups w) {worker : ℕ} (present : (w.stage worker).isReturned = false) :
    worker < w.pool.workers_ := by
  by_contra outside
  have gone := wakeups.beyond worker (not_lt.mp outside)
  rw [present] at gone
  exact Bool.noConfusion gone

/-- A notification costs at most one more look at the queue. -/
theorem cost_notify_one (wakeups : Wakeups w) {woken : ℕ} (notified : w.notify_one woken = some w') :
    w'.cost ≤ w.cost + 1 ∧ w'.calls = w.calls := by
  rcases notify_one_cases notified with ⟨waits, rfl⟩ | ⟨_, rfl⟩
  · have moved := stageCost_place (wakeups.inside (waits_present waits)) Stage.lock
    change (w.place woken .lock).stageCost + w.queueCost + 2 * w.calls + w.destruction.cost w.pool.workers_ ≤ _ ∧ _
    have look : (Stage.lock : Stage V E).cost = 1 := rfl
    unfold cost
    exact ⟨by omega, rfl⟩
  · exact ⟨Nat.le_succ _, rfl⟩

/-- One worker's step is paid by what its stage and the queue cost less. -/
theorem cost_moves (wakeups : Wakeups w) {worker : ℕ} (stage : Stage V E)
    (present : (w.stage worker).isReturned = false) (stages : w'.stage = (w.place worker stage).stage)
    (kept : w'.pool.workers_ = w.pool.workers_ ∧ w'.calls = w.calls ∧ w'.destruction = w.destruction) :
    w'.cost + (w.stage worker).cost + w.queueCost = w.cost + stage.cost + w'.queueCost := by
  have moved := stageCost_place (wakeups.inside present) stage
  have same : w'.stageCost = (w.place worker stage).stageCost := by
    rw [stageCost, kept.1, stages]
    rfl
  rw [cost, cost, kept.1, kept.2.1, kept.2.2]
  omega

theorem cost_look (wakeups : Wakeups w) {worker : ℕ} (here : w.stage worker = .lock) :
    (w.look worker).cost + 1 ≤ w.cost := by
  have present : (w.stage worker).isReturned = false := by rw [here]; rfl
  have look : (w.stage worker).cost = 1 := by rw [here]; rfl
  rcases look_cases w worker with ⟨task, rest, front, same⟩ | ⟨empty, _, same⟩ | ⟨empty, _, same⟩
  · have popped : w.queueCost = task.body.size + 1 + (w.look worker).queueCost := by
      rw [queueCost, front, List.map_cons, List.sum_cons, same]
      rfl
    have running : (Stage.run task.id task.body).cost = task.body.size + 1 := rfl
    have moved := @cost_moves V E w (w.look worker) wakeups worker (.run task.id task.body) present
      (by rw [same]) (by rw [same]; exact ⟨rfl, rfl, rfl⟩)
    omega
  · have kept : (w.look worker).queueCost = w.queueCost := by rw [same]; rfl
    have gone : (Stage.returned : Stage V E).cost = 0 := rfl
    have moved := @cost_moves V E w (w.look worker) wakeups worker .returned present
      (by rw [same]) (by rw [same]; exact ⟨rfl, rfl, rfl⟩)
    omega
  · have kept : (w.look worker).queueCost = w.queueCost := by rw [same]; rfl
    have asleep : (Stage.wait : Stage V E).cost = 0 := rfl
    have moved := @cost_moves V E w (w.look worker) wakeups worker .wait present
      (by rw [same]) (by rw [same]; exact ⟨rfl, rfl, rfl⟩)
    omega

theorem queueCost_insert (body : Body V E) : (w.insert body).queueCost = w.queueCost + (body.size + 1) := by
  change ((w.pool.tasks_ ++ [(⟨w.bodies.length, body⟩ : Packaged V E)]).map fun task => task.body.size + 1).sum = _
  rw [List.map_append, List.sum_append, List.map_singleton, List.sum_singleton]
  rfl

theorem cost_work (wakeups : Wakeups w) {worker woken : ℕ} (stepped : w.work worker woken = some w') :
    w'.cost + 1 ≤ w.cost := by
  have present {stage : Stage V E} (here : w.stage worker = stage) (active : stage.active = true) :
      (w.stage worker).isReturned = false := by
    rw [here]
    exact (active_not active).2
  unfold World.work at stepped
  split at stepped
  · next here =>
    cases stepped
    exact cost_look wakeups here
  · cases stepped
  · next id value here =>
    cases stepped
    have moved := @cost_moves V E w (w.finish worker id (.ret value) (.ok value)) wakeups worker .lock
      (present here rfl) rfl ⟨rfl, rfl, rfl⟩
    have kept : (w.finish worker id (.ret value) (.ok value)).queueCost = w.queueCost := rfl
    have before : (Stage.run id (.ret value) : Stage V E).cost = 2 := rfl
    have after : (Stage.lock : Stage V E).cost = 1 := rfl
    rw [here] at moved
    omega
  · next id error here =>
    cases stepped
    have moved := @cost_moves V E w (w.finish worker id (.throw error) (.error error)) wakeups worker .lock
      (present here rfl) rfl ⟨rfl, rfl, rfl⟩
    have kept : (w.finish worker id (.throw error) (.error error)).queueCost = w.queueCost := rfl
    have before : (Stage.run id (.throw error) : Stage V E).cost = 2 := rfl
    have after : (Stage.lock : Stage V E).cost = 1 := rfl
    rw [here] at moved
    omega
  · next id task rest here =>
    cases stepped
    have moved := @cost_moves V E w
      { (w.insert task).place worker (.notify id rest) with deeds := w.deeds ++ [(id, .Submit task)] } wakeups worker
      (.notify id rest) (present here rfl) rfl ⟨rfl, rfl, rfl⟩
    have grown : ({ (w.insert task).place worker (.notify id rest) with
      deeds := w.deeds ++ [(id, .Submit task)] } : World V E).queueCost = _ := queueCost_insert task
    have before : (Stage.run id (.Submit task rest) : Stage V E).cost = task.size + rest.size + 4 + 1 := rfl
    have after : (Stage.notify id rest : Stage V E).cost = rest.size + 3 := rfl
    rw [here] at moved
    omega
  · next id rest here =>
    obtain ⟨notified, woke, rfl⟩ := Option.map_eq_some_iff.mp stepped
    obtain ⟨cheap, _⟩ := cost_notify_one wakeups woke
    have running : notified.stage worker = .notify id rest := by
      rw [notify_one_other woke (by rw [here]; rfl), here]
    have moved := @cost_moves V E notified (notified.place worker (.run id rest)) (wakeups.notified woke) worker
      (.run id rest) (by rw [running]; rfl) rfl ⟨rfl, rfl, rfl⟩
    have kept : (notified.place worker (.run id rest)).queueCost = notified.queueCost := rfl
    have before : (Stage.notify id rest : Stage V E).cost = rest.size + 3 := rfl
    have after : (Stage.run id rest : Stage V E).cost = rest.size + 1 := rfl
    rw [running] at moved
    omega
  · cases stepped

theorem cost_notify_all (w : World V E) : w.notify_all.stageCost ≤ w.stageCost + w.pool.workers_ := by
  have each : ∀ worker ∈ Finset.range w.pool.workers_, (w.notify_all.stage worker).cost ≤ (w.stage worker).cost + 1 := by
    intro worker _
    change (if (w.stage worker).waits then Stage.lock else w.stage worker).cost ≤ _
    split_ifs
    · exact Nat.succ_le_succ (Nat.zero_le _)
    · exact Nat.le_succ _
  have total := Finset.sum_le_sum each
  rw [Finset.sum_add_distrib, ← Finset.card_eq_sum_ones, Finset.card_range] at total
  exact total

theorem cost_teardown (stepped : w.teardown = some w') : w'.cost + 1 ≤ w.cost := by
  unfold World.teardown at stepped
  split at stepped
  · cases stepped
  · next stopping =>
    cases stepped
    have woken := cost_notify_all w
    have before : w.destruction.cost w.pool.workers_ = 2 * w.pool.workers_ + 2 := by rw [stopping]; rfl
    change w.notify_all.stageCost + w.queueCost + 2 * w.calls + (w.pool.workers_ - 0 + 1) + 1 ≤ _
    rw [cost, before]
    omega
  · next worker joining =>
    have before : w.destruction.cost w.pool.workers_ = w.pool.workers_ - worker + 1 := by rw [joining]; rfl
    split_ifs at stepped with below gone
    · cases stepped
      change w.stageCost + w.queueCost + 2 * w.calls + (w.pool.workers_ - (worker + 1) + 1) + 1 ≤ _
      rw [cost, before]
      omega
    · cases stepped
      change w.stageCost + w.queueCost + 2 * w.calls + 0 + 1 ≤ _
      rw [cost, before]
      omega
  · cases stepped

/-- Every step is paid for, by what it leaves less to do or by its credit. -/
theorem cost_step (wakeups : Wakeups w) {action : Action V E} (stepped : ThreadPool.step w action = some w') :
    w'.cost + 1 ≤ w.cost + action.credit w.pool.workers_ := by
  cases action with
  | Submit body =>
    obtain ⟨_, ⟨⟩⟩ := Option.ite_none_right_eq_some.mp stepped
    have grown := queueCost_insert (w := w) body
    change w.stageCost + (w.insert body).queueCost + 2 * (w.calls + 1) + w.destruction.cost w.pool.workers_ + 1 ≤
      w.cost + (body.size + 4)
    rw [cost]
    omega
  | notify_one woken =>
    obtain ⟨called, notified⟩ := Option.ite_none_left_eq_some.mp stepped
    obtain ⟨middle, woke, rfl⟩ := Option.map_eq_some_iff.mp notified
    obtain ⟨cheap, calls⟩ := cost_notify_one wakeups woke
    change middle.stageCost + middle.queueCost + 2 * (middle.calls - 1) +
      middle.destruction.cost middle.pool.workers_ + 1 ≤ w.cost + 0
    rw [cost] at cheap
    omega
  | wake worker =>
    obtain ⟨waits, ⟨⟩⟩ := Option.ite_none_right_eq_some.mp stepped
    have moved := @cost_moves V E w (w.place worker .lock) wakeups worker .lock (waits_present waits) rfl ⟨rfl, rfl, rfl⟩
    have kept : (w.place worker .lock).queueCost = w.queueCost := rfl
    have after : (Stage.lock : Stage V E).cost = 1 := rfl
    change (w.place worker .lock).cost + 1 ≤ w.cost + 2
    omega
  | work worker woken => exact cost_work wakeups stepped
  | destroy =>
    obtain ⟨⟨alive, _⟩, ⟨⟩⟩ := Option.ite_none_right_eq_some.mp stepped
    have before : w.destruction.cost w.pool.workers_ = 0 := by rw [alive]; rfl
    change w.stageCost + w.queueCost + 2 * w.calls + (2 * w.pool.workers_ + 2) + 1 ≤
      w.cost + (2 * w.pool.workers_ + 3)
    rw [cost, before]
    omega
  | teardown => exact cost_teardown stepped

/-! ## What a run reaches -/

/-- Nobody outside is inside `Submit`, every task that was submitted is done and its outcome is in its future, and
the destruction has not begun or is over. -/
structure Finished (w : World V E) : Prop where
  calls : w.calls = 0
  tasks : ∀ id body, w.bodies[id]? = some body → w.deedsOf id = body.deeds ∧ w.futures id = some body.outcome
  destruction : w.destruction = .alive ∨ w.destruction = .destroyed

/-- A worker that is active can take a step. -/
theorem work_enabled {worker : ℕ} (active : (w.stage worker).active = true) :
    ∃ woken w', w.work worker woken = some w' := by
  unfold World.work
  cases here : w.stage worker with
  | lock => exact ⟨0, _, rfl⟩
  | wait =>
    rw [here] at active
    exact Bool.noConfusion active
  | returned =>
    rw [here] at active
    exact Bool.noConfusion active
  | run id rest =>
    cases rest with
    | ret value => exact ⟨0, _, rfl⟩
    | throw error => exact ⟨0, _, rfl⟩
    | Submit task rest => exact ⟨0, _, rfl⟩
  | notify id rest =>
    obtain ⟨woken, middle, woke⟩ := notify_one_enabled w
    exact ⟨woken, middle.place worker (.run id rest), by simp only [woke, Option.map_some]⟩

/-- When no worker is active and nobody is inside `Submit`, every task is done. -/
theorem all_done (tasks : Tasks w) (wakeups : Wakeups w) (quiet : w.calls = 0)
    (asleep : ¬ ∃ worker, (w.stage worker).active = true) (id : ℕ) (body : Body V E)
    (submitted : w.bodies[id]? = some body) : w.deedsOf id = body.deeds ∧ w.futures id = some body.outcome := by
  have empty : w.pool.tasks_ = [] := by
    by_contra queued
    rcases wakeups.served queued with called | active
    · omega
    · exact asleep active
  have order := tasks.order
  rw [empty, List.map_nil, List.append_nil] at order
  have taken : id ∈ w.taken := by
    rw [order, List.mem_range]
    exact (List.getElem?_eq_some_iff.mp submitted).1
  rcases tasks.settled id taken with ⟨worker, rest, inside⟩ | ⟨other, found, deeds, stored⟩
  · exfalso
    apply asleep
    refine ⟨worker, ?_⟩
    cases here : w.stage worker with
    | lock | run | notify => rfl
    | wait | returned =>
      rw [here] at inside
      cases inside
  · rw [submitted] at found
    cases found
    exact ⟨deeds, stored⟩

/-- The destructor goes on when no worker is active. -/
theorem teardown_enabled (wakeups : Wakeups w) (asleep : ¬ ∃ worker, (w.stage worker).active = true)
    (begun : w.destruction ≠ .alive) (going : w.destruction ≠ .destroyed) : ∃ w', w.teardown = some w' := by
  unfold teardown
  cases here : w.destruction with
  | alive => exact absurd here begun
  | destroyed => exact absurd here going
  | notify_all => exact ⟨_, rfl⟩
  | join worker =>
    have awake := wakeups.awake (wakeups.stopped.mpr begun) (by rw [here]; exact Destruction.noConfusion) worker
    have gone : (w.stage worker).isReturned = true := by
      by_contra present
      exact asleep ⟨worker, Stage.active_of awake (Bool.not_eq_true _ ▸ present)⟩
    by_cases inside : worker < w.pool.workers_
    · exact ⟨{ w with destruction := .join (worker + 1) }, by simp only [if_pos inside, if_pos gone]⟩
    · exact ⟨{ w with destruction := .destroyed }, by simp only [if_neg inside]⟩

/-- While the pool is not finished, somebody can take a step that needs no credit. -/
theorem step_enabled (tasks : Tasks w) (wakeups : Wakeups w) (unfinished : ¬ Finished w) :
    ∃ action w', action.credit w.pool.workers_ = 0 ∧ ThreadPool.step w action = some w' := by
  by_cases called : w.calls = 0
  · by_cases active : ∃ worker, (w.stage worker).active = true
    · obtain ⟨worker, active⟩ := active
      obtain ⟨woken, w', worked⟩ := work_enabled active
      exact ⟨.work worker woken, w', rfl, worked⟩
    · have done := all_done tasks wakeups called active
      have begun : w.destruction ≠ .alive := fun alive => unfinished ⟨called, done, Or.inl alive⟩
      have going : w.destruction ≠ .destroyed := fun torn => unfinished ⟨called, done, Or.inr torn⟩
      obtain ⟨w', goes⟩ := teardown_enabled wakeups active begun going
      exact ⟨.teardown, w', rfl, goes⟩
  · obtain ⟨woken, middle, woke⟩ := notify_one_enabled w
    refine ⟨.notify_one woken, { middle with calls := middle.calls - 1 }, rfl, ?_⟩
    simp only [ThreadPool.step, if_neg called, woke, Option.map_some]

/-! ## What the pool promises -/

/-- Tasks are taken in the order of the queue, and each body is executed once and its outcome stored. A worker that
throws goes on, and one leaves only when it is told to stop and nothing is left. When the destructor has returned
every worker is gone and every task is done. -/
structure Serves (w : World V E) : Prop where
  in_order : ∃ count ≤ w.bodies.length, w.taken = List.range count
  once : ∀ id body, w.bodies[id]? = some body → w.deedsOf id <+: body.deeds
  only : ∀ id, w.bodies.length ≤ id → w.deedsOf id = []
  stored : ∀ id outcome, w.futures id = some outcome →
    ∃ body, w.bodies[id]? = some body ∧ w.deedsOf id = body.deeds ∧ outcome = body.outcome
  throws : ∀ worker woken id error, w.stage worker = .run id (.throw error) →
    ∃ w', w.work worker woken = some w' ∧ w'.stage worker = .lock ∧ w'.futures id = some (.error error)
  leaves : ∀ worker woken w', w.work worker woken = some w' → (w'.stage worker).isReturned = true →
    w.stage worker = .lock ∧ w.pool.stop_ = true ∧ w.pool.tasks_ = []
  stays : w.destruction = .alive → ∀ worker < w.pool.workers_, (w.stage worker).isReturned = false
  drained : w.destruction = .destroyed → (∀ worker < w.pool.workers_, (w.stage worker).isReturned = true) ∧
    w.pool.tasks_ = [] ∧
    ∀ id body, w.bodies[id]? = some body → w.deedsOf id = body.deeds ∧ w.futures id = some body.outcome

theorem Tasks.in_order (tasks : Tasks w) : ∃ count ≤ w.bodies.length, w.taken = List.range count := by
  have lengths := congrArg List.length tasks.order
  rw [List.length_append, List.length_range] at lengths
  refine ⟨w.taken.length, by omega, ?_⟩
  have front := congrArg (List.take w.taken.length) tasks.order
  rw [List.take_left, List.take_range, Nat.min_eq_left (by omega)] at front
  exact front

theorem Tasks.once (tasks : Tasks w) (id : ℕ) (body : Body V E) (submitted : w.bodies[id]? = some body) :
    w.deedsOf id <+: body.deeds := by
  by_cases taken : id ∈ w.taken
  · rcases tasks.settled id taken with ⟨worker, rest, inside⟩ | ⟨other, found, deeds, _⟩
    · obtain ⟨_, _, other, found, whole, _⟩ := tasks.held worker id rest inside
      rw [submitted] at found
      cases found
      exact ⟨rest.deeds, whole.symm⟩
    · rw [submitted] at found
      cases found
      rw [deeds]
  · rw [(tasks.fresh id taken).1]
    exact List.nil_prefix

theorem Tasks.only (tasks : Tasks w) (id : ℕ) (beyond : w.bodies.length ≤ id) : w.deedsOf id = [] := by
  refine (tasks.fresh id fun taken => ?_).1
  have submitted : id ∈ List.range w.bodies.length := by
    rw [← tasks.order]
    exact List.mem_append_left _ taken
  have below := List.mem_range.mp submitted
  omega

theorem Tasks.stored (tasks : Tasks w) (id : ℕ) (outcome : Except E V) (ready : w.futures id = some outcome) :
    ∃ body, w.bodies[id]? = some body ∧ w.deedsOf id = body.deeds ∧ outcome = body.outcome := by
  have taken : id ∈ w.taken := by
    by_contra waiting
    exact absurd (ready.symm.trans (tasks.fresh id waiting).2) (Option.some_ne_none _)
  rcases tasks.settled id taken with ⟨worker, rest, inside⟩ | ⟨body, found, deeds, stored⟩
  · exact absurd (ready.symm.trans (tasks.held worker id rest inside).2.1) (Option.some_ne_none _)
  · exact ⟨body, found, deeds, Option.some.inj (ready.symm.trans stored)⟩

theorem work_leaves {worker woken : ℕ} (stepped : w.work worker woken = some w')
    (gone : (w'.stage worker).isReturned = true) :
    w.stage worker = .lock ∧ w.pool.stop_ = true ∧ w.pool.tasks_ = [] := by
  have placed {v : World V E} {stage : Stage V E} (same : v.stage worker = stage) (active : stage.active = true)
      (left : (v.stage worker).isReturned = true) : False := by
    rw [same, (active_not active).2] at left
    exact Bool.noConfusion left
  unfold World.work at stepped
  split at stepped
  · next here =>
    cases stepped
    rcases look_cases w worker with ⟨task, rest, _, same⟩ | ⟨empty, stop, same⟩ | ⟨_, _, same⟩
    · rw [same] at gone
      exact (placed (Function.update_self ..) rfl gone).elim
    · exact ⟨here, stop, empty⟩
    · rw [same, place_stage, if_pos rfl] at gone
      exact Bool.noConfusion gone
  · cases stepped
  · cases stepped
    exact (placed (Function.update_self ..) rfl gone).elim
  · cases stepped
    exact (placed (Function.update_self ..) rfl gone).elim
  · cases stepped
    exact (placed (Function.update_self ..) rfl gone).elim
  · obtain ⟨notified, _, rfl⟩ := Option.map_eq_some_iff.mp stepped
    exact (placed (Function.update_self ..) rfl gone).elim
  · cases stepped

theorem serves (tasks : Tasks w) (wakeups : Wakeups w) : Serves w where
  in_order := tasks.in_order
  once := tasks.once
  only := tasks.only
  stored := tasks.stored
  throws worker woken id error inside := by
    refine ⟨w.finish worker id (.throw error) (.error error), by rw [work, inside], ?_, ?_⟩
    · exact Function.update_self ..
    · exact Function.update_self ..
  leaves _ _ _ stepped gone := work_leaves stepped gone
  stays alive worker inside := by
    by_contra gone
    have stop := wakeups.exited worker inside (Bool.not_eq_false _ ▸ gone)
    rw [wakeups.going alive] at stop
    exact Bool.noConfusion stop
  drained torn := by
    have joined := wakeups.joined
    rw [torn] at joined
    have quiet := wakeups.quiet (wakeups.stopped.mpr (by rw [torn]; exact Destruction.noConfusion))
    have asleep : ¬ ∃ worker, (w.stage worker).active = true := by
      rintro ⟨worker, active⟩
      have present := (active_not active).2
      have gone := joined worker (wakeups.inside present)
      rw [present] at gone
      exact Bool.noConfusion gone
    refine ⟨joined, ?_, all_done tasks wakeups quiet asleep⟩
    by_contra queued
    rcases wakeups.served queued with called | active
    · omega
    · exact asleep active

/-! ## Runs -/

theorem notify_one_pool {woken : ℕ} (notified : w.notify_one woken = some w') :
    w'.pool = w.pool ∧ w'.destruction = w.destruction := by
  rcases notify_one_cases notified with ⟨_, rfl⟩ | ⟨_, rfl⟩
  · exact ⟨rfl, rfl⟩
  · exact ⟨rfl, rfl⟩

theorem work_kept {worker woken : ℕ} (stepped : w.work worker woken = some w') :
    w'.pool.workers_ = w.pool.workers_ ∧ w'.destruction = w.destruction := by
  unfold World.work at stepped
  split at stepped
  · cases stepped
    rcases look_cases w worker with ⟨_, _, _, same⟩ | ⟨_, _, same⟩ | ⟨_, _, same⟩
    · rw [same]
      exact ⟨rfl, rfl⟩
    · rw [same]
      exact ⟨rfl, rfl⟩
    · rw [same]
      exact ⟨rfl, rfl⟩
  · cases stepped
  · cases stepped
    exact ⟨rfl, rfl⟩
  · cases stepped
    exact ⟨rfl, rfl⟩
  · cases stepped
    exact ⟨rfl, rfl⟩
  · obtain ⟨notified, woke, rfl⟩ := Option.map_eq_some_iff.mp stepped
    obtain ⟨pool, destruction⟩ := notify_one_pool woke
    exact ⟨congrArg ThreadPool.workers_ pool, destruction⟩
  · cases stepped

/-- The number of workers never changes, and a destruction that began is not taken back. -/
theorem step_kept {action : Action V E} (stepped : ThreadPool.step w action = some w') :
    w'.pool.workers_ = w.pool.workers_ ∧ (w.destruction ≠ .alive → w'.destruction ≠ .alive) := by
  cases action with
  | Submit body =>
    obtain ⟨_, ⟨⟩⟩ := Option.ite_none_right_eq_some.mp stepped
    exact ⟨rfl, id⟩
  | notify_one woken =>
    obtain ⟨_, notified⟩ := Option.ite_none_left_eq_some.mp stepped
    obtain ⟨middle, woke, rfl⟩ := Option.map_eq_some_iff.mp notified
    obtain ⟨pool, destruction⟩ := notify_one_pool woke
    exact ⟨congrArg ThreadPool.workers_ pool, fun begun alive => begun (destruction.symm.trans alive)⟩
  | wake worker =>
    obtain ⟨_, ⟨⟩⟩ := Option.ite_none_right_eq_some.mp stepped
    exact ⟨rfl, id⟩
  | work worker woken =>
    obtain ⟨workers, destruction⟩ := work_kept stepped
    exact ⟨workers, fun begun alive => begun (destruction.symm.trans alive)⟩
  | destroy =>
    obtain ⟨_, ⟨⟩⟩ := Option.ite_none_right_eq_some.mp stepped
    exact ⟨rfl, fun _ => Destruction.noConfusion⟩
  | teardown =>
    change w.teardown = some w' at stepped
    unfold World.teardown at stepped
    split at stepped
    · cases stepped
    · cases stepped
      exact ⟨rfl, fun _ => Destruction.noConfusion⟩
    · split_ifs at stepped
      · cases stepped
        exact ⟨rfl, fun _ => Destruction.noConfusion⟩
      · cases stepped
        exact ⟨rfl, fun _ => Destruction.noConfusion⟩
    · cases stepped

/-- What holds throughout a run of a pool with so many workers. -/
structure Kept (workers : ℕ) (w : World V E) : Prop where
  tasks : Tasks w
  wakeups : Wakeups w
  workers : w.pool.workers_ = workers

theorem Kept.step {workers : ℕ} {action : Action V E} (kept : Kept workers w)
    (stepped : ThreadPool.step w action = some w') : Kept workers w' :=
  ⟨kept.tasks.step stepped, kept.wakeups.step stepped, (step_kept stepped).1.trans kept.workers⟩

theorem Kept.paid (workers : ℕ) :
    Actions.Paid (ThreadPool.step (V := V) (E := E)) (Kept workers) cost (Action.credit workers) :=
  fun kept stepped => kept.workers ▸ cost_step kept.wakeups stepped

end World

open World

/-- In every run of a pool every state keeps the promises; whatever comes next has no more steps than the cost and the
credits allow, and until the pool is finished somebody can go on, so that it can always be finished, and once the
destruction began that is when the destructor has returned. -/
theorem runs_once (num_threads : ℕ) {history : List (Action V E)} {w : World V E}
    (run : Actions.Run step (World.make num_threads) history w) :
    Serves w ∧
    (∀ later w', Actions.Run step w later w' →
      later.length ≤ w.cost + (later.map (Action.credit w.pool.workers_)).sum) ∧
    (¬ Finished w → ∃ action w', action.credit w.pool.workers_ = 0 ∧ step w action = some w') ∧
    ∃ later w', Actions.Run step w later w' ∧ (∀ action ∈ later, action.credit w.pool.workers_ = 0) ∧ Finished w' ∧
      (w.destruction ≠ .alive → w'.destruction = .destroyed) := by
  have initial : Kept (World.make num_threads : World V E).pool.workers_ (World.make num_threads : World V E) :=
    ⟨Tasks.make num_threads, Wakeups.make num_threads, rfl⟩
  have reached := run.keeps Kept.step initial
  obtain ⟨tasks, wakeups, workers⟩ := reached
  have kept : Kept w.pool.workers_ w := ⟨tasks, wakeups, rfl⟩
  refine ⟨serves tasks wakeups, ?_, step_enabled tasks wakeups, ?_⟩
  · intro later w' rest
    have bounded := rest.bounded Kept.step (Kept.paid w.pool.workers_) kept
    omega
  · obtain ⟨later, w', rest, own, finished⟩ := Actions.exists_run_to Finished Kept.step (Kept.paid w.pool.workers_)
      (fun kept unfinished => kept.workers ▸ step_enabled kept.tasks kept.wakeups unfinished) kept
    refine ⟨later, w', rest, own, finished, fun begun => ?_⟩
    have still := rest.keeps (fun begun stepped => (step_kept stepped).2 begun) begun
    exact finished.destruction.resolve_left still

/-- A task that submits another one, which throws, and the destructor that begins before either is taken. -/
private def drainingRun : List (Action ℕ ℕ) :=
  [.work 0 0, .Submit (.Submit (.throw 7) (.ret 5)), .notify_one 0, .destroy, .work 0 0, .work 0 0, .work 0 0,
    .work 0 0, .teardown, .work 0 0, .work 0 0, .work 0 0, .teardown, .teardown]

theorem runs_once_draining :
    ∃ w : World ℕ ℕ, Actions.replay? step (World.make 1) drainingRun = some w ∧ w.destruction = .destroyed ∧
      w.taken = [0, 1] ∧ w.futures 0 = some (.ok 5) ∧ w.futures 1 = some (.error 7) ∧ Serves w := by
  obtain ⟨w, drained⟩ := Option.isSome_iff_exists.mp
    (show (Actions.replay? step (World.make 1) drainingRun).isSome = true from rfl)
  have shown : (Actions.replay? step (World.make 1) drainingRun).map
      (fun w => (w.destruction, w.taken, w.futures 0, w.futures 1)) =
        some (.destroyed, [0, 1], some (.ok 5), some (.error 7)) := rfl
  rw [drained, Option.map_some, Option.some.injEq] at shown
  simp only [Prod.mk.injEq] at shown
  obtain ⟨torn, taken, returned, threw⟩ := shown
  exact ⟨w, drained, torn, taken, returned, threw, (runs_once 1 (Actions.run_of_replay? drained)).1⟩

end ThreadPool

end Illuminator
