import Illuminator.Model.PoolThreads
import Mathlib.Data.List.Nodup
import Mathlib.Data.List.Range

/-! # The tasks of a pool

Tasks are taken in the order in which they were put in the queue. A task that was taken is inside one worker,
which has still to do what is left of the body, or has done all of it and its future holds the outcome.
-/

namespace Illuminator

namespace ThreadPool

variable {V E : Type*}

/-- The task that a worker is inside, with what is left of its body. -/
def Stage.task : Stage V E → Option (ℕ × Body V E)
  | .run id rest => some (id, rest)
  | .notify id rest => some (id, rest)
  | _ => none

namespace World

variable {w : World V E}

/-- What one task has done. -/
def deedsOf (w : World V E) (id : ℕ) : List (Deed V E) := (w.deeds.filter fun entry => entry.1 = id).map Prod.snd

/-- A task that was not taken has done nothing, and one that was taken is inside a worker or settled. -/
structure Tasks (w : World V E) : Prop where
  order : w.taken ++ w.pool.tasks_.map Packaged.id = List.range w.bodies.length
  queued : ∀ task ∈ w.pool.tasks_, w.bodies[task.id]? = some task.body
  fresh : ∀ id, id ∉ w.taken → w.deedsOf id = [] ∧ w.futures id = none
  held : ∀ worker id rest, (w.stage worker).task = some (id, rest) →
    id ∈ w.taken ∧ w.futures id = none ∧
      ∃ body, w.bodies[id]? = some body ∧ body.deeds = w.deedsOf id ++ rest.deeds ∧ body.outcome = rest.outcome
  alone : ∀ worker other id rest rest', (w.stage worker).task = some (id, rest) →
    (w.stage other).task = some (id, rest') → worker = other
  settled : ∀ id ∈ w.taken, (∃ worker rest, (w.stage worker).task = some (id, rest)) ∨
    ∃ body, w.bodies[id]? = some body ∧ w.deedsOf id = body.deeds ∧ w.futures id = some body.outcome

/-! ## What leaves the tasks alone -/

/-- The tasks of two states are the same. -/
structure SameTasks (w w' : World V E) : Prop where
  tasks : w'.pool.tasks_ = w.pool.tasks_
  bodies : w'.bodies = w.bodies
  taken : w'.taken = w.taken
  deeds : w'.deeds = w.deeds
  futures : w'.futures = w.futures
  stage : ∀ worker, (w'.stage worker).task = (w.stage worker).task

theorem Tasks.same {w' : World V E} (tasks : Tasks w) (same : SameTasks w w') : Tasks w' := by
  have deedsOf (id : ℕ) : w'.deedsOf id = w.deedsOf id := by
    rw [World.deedsOf, World.deedsOf, same.deeds]
  constructor
  · rw [same.taken, same.tasks, same.bodies]
    exact tasks.order
  · rw [same.tasks, same.bodies]
    exact tasks.queued
  · intro id
    rw [same.taken, deedsOf, same.futures]
    exact tasks.fresh id
  · intro worker id rest
    rw [same.stage, same.taken, same.futures, same.bodies, deedsOf]
    exact tasks.held worker id rest
  · intro worker other id rest rest'
    rw [same.stage, same.stage]
    exact tasks.alone worker other id rest rest'
  · intro id
    simp only [same.taken, same.stage, same.bodies, deedsOf, same.futures]
    exact tasks.settled id

theorem place_stage (worker other : ℕ) (stage : Stage V E) :
    (w.place worker stage).stage other = if other = worker then stage else w.stage other :=
  Function.update_apply ..

theorem place_task (worker other : ℕ) (stage : Stage V E) :
    ((w.place worker stage).stage other).task = if other = worker then stage.task else (w.stage other).task := by
  rw [place_stage]
  split_ifs <;> rfl

/-- A worker goes to another stage of the same task, or of none. -/
theorem same_place {worker : ℕ} {stage : Stage V E} (same : stage.task = (w.stage worker).task) :
    SameTasks w (w.place worker stage) := by
  refine ⟨rfl, rfl, rfl, rfl, rfl, fun other => ?_⟩
  rw [place_task]
  split_ifs with here
  · rw [same, here]
  · rfl

theorem waits_task {stage : Stage V E} (waits : stage.waits = true) : stage.task = none := by
  cases stage <;> first | rfl | cases waits

theorem same_notify_one {woken : ℕ} {w' : World V E} (notified : w.notify_one woken = some w') : SameTasks w w' := by
  unfold notify_one at notified
  split_ifs at notified with waits
  · cases notified
    exact same_place (waits_task waits).symm
  · cases notified
    exact ⟨rfl, rfl, rfl, rfl, rfl, fun _ => rfl⟩

theorem same_notify_all : SameTasks w w.notify_all := by
  refine ⟨rfl, rfl, rfl, rfl, rfl, fun worker => ?_⟩
  change (if (w.stage worker).waits then Stage.lock else w.stage worker).task = _
  split_ifs with waits
  · exact (waits_task waits).symm
  · rfl

theorem same_teardown {w' : World V E} (stepped : w.teardown = some w') : SameTasks w w' := by
  unfold teardown at stepped
  split at stepped
  · cases stepped
  · cases stepped
    exact ⟨rfl, rfl, rfl, rfl, rfl, same_notify_all.stage⟩
  · split_ifs at stepped
    · cases stepped
      exact ⟨rfl, rfl, rfl, rfl, rfl, fun _ => rfl⟩
    · cases stepped
      exact ⟨rfl, rfl, rfl, rfl, rfl, fun _ => rfl⟩
  · cases stepped

/-! ## What moves a task -/

theorem Tasks.insert (tasks : Tasks w) (body : Body V E) : Tasks (w.insert body) := by
  have kept {id : ℕ} {old : Body V E} (found : w.bodies[id]? = some old) : (w.bodies ++ [body])[id]? = some old := by
    rw [List.getElem?_append_left (List.getElem?_eq_some_iff.mp found).1]
    exact found
  constructor
  · change w.taken ++ (w.pool.tasks_ ++ [(⟨w.bodies.length, body⟩ : Packaged V E)]).map Packaged.id =
      List.range (w.bodies ++ [body]).length
    rw [List.map_append, ← List.append_assoc, tasks.order, List.length_append, List.length_singleton, List.range_succ]
    rfl
  · intro task member
    rcases List.mem_append.mp member with old | new
    · exact kept (tasks.queued task old)
    · obtain rfl := List.mem_singleton.mp new
      exact List.getElem?_concat_length
  · exact tasks.fresh
  · intro worker id rest inside
    obtain ⟨taken, pending, old, found, deeds, outcome⟩ := tasks.held worker id rest inside
    exact ⟨taken, pending, old, kept found, deeds, outcome⟩
  · exact tasks.alone
  · intro id member
    rcases tasks.settled id member with inside | ⟨old, found, deeds, outcome⟩
    · exact Or.inl inside
    · exact Or.inr ⟨old, kept found, deeds, outcome⟩

/-- The task that is taken is the first in the queue, and was not taken before. -/
theorem Tasks.take {worker : ℕ} {task : Packaged V E} {rest : List (Packaged V E)} {pool : ThreadPool (Packaged V E)}
    (tasks : Tasks w) (idle : (w.stage worker).task = none) (front : w.pool.tasks_ = task :: rest)
    (popped : pool.tasks_ = rest) :
    Tasks { w.place worker (.run task.id task.body) with pool := pool, taken := w.taken ++ [task.id] } := by
  have order := tasks.order
  rw [front, List.map_cons] at order
  have once : task.id ∉ w.taken := by
    have distinct : (w.taken ++ task.id :: rest.map Packaged.id).Nodup := by
      rw [order]
      exact List.nodup_range
    intro before
    exact (List.nodup_append.mp distinct).2.2 task.id before task.id (List.mem_cons_self ..) rfl
  have found := tasks.queued task (front ▸ List.mem_cons_self ..)
  obtain ⟨nothing, pending⟩ := tasks.fresh task.id once
  constructor
  · change (w.taken ++ [task.id]) ++ pool.tasks_.map Packaged.id = List.range w.bodies.length
    rw [popped, List.append_assoc, List.singleton_append]
    exact order
  · intro other member
    rw [popped] at member
    exact tasks.queued other (front ▸ List.mem_cons_of_mem task member)
  · intro id outside
    exact tasks.fresh id fun member => outside (List.mem_append_left _ member)
  · intro other id left inside
    change ((w.place worker (.run task.id task.body)).stage other).task = some (id, left) at inside
    rw [place_task] at inside
    split_ifs at inside with here
    · cases inside
      refine ⟨List.mem_append_right _ (List.mem_singleton_self _), pending, task.body, found, ?_, rfl⟩
      change task.body.deeds = w.deedsOf task.id ++ task.body.deeds
      rw [nothing, List.nil_append]
    · obtain ⟨taken, undone, body, listed, deeds, outcome⟩ := tasks.held other id left inside
      exact ⟨List.mem_append_left _ taken, undone, body, listed, deeds, outcome⟩
  · intro first second id left left' inside inside'
    change ((w.place worker (.run task.id task.body)).stage first).task = some (id, left) at inside
    change ((w.place worker (.run task.id task.body)).stage second).task = some (id, left') at inside'
    rw [place_task] at inside inside'
    split_ifs at inside inside' with here there there
    · rw [here, there]
    · cases inside
      exact absurd (tasks.held second task.id left' inside').1 once
    · cases inside'
      exact absurd (tasks.held first task.id left inside).1 once
    · exact tasks.alone first second id left left' inside inside'
  · intro id member
    rcases List.mem_append.mp member with before | now
    · rcases tasks.settled id before with ⟨other, left, inside⟩ | done
      · refine Or.inl ⟨other, left, ?_⟩
        change ((w.place worker (.run task.id task.body)).stage other).task = some (id, left)
        rw [place_task, if_neg ?_]
        · exact inside
        · rintro rfl
          exact absurd (idle.symm.trans inside) (Option.some_ne_none _).symm
      · exact Or.inr done
    · obtain rfl := List.mem_singleton.mp now
      refine Or.inl ⟨worker, task.body, ?_⟩
      change ((w.place worker (.run task.id task.body)).stage worker).task = some (task.id, task.body)
      rw [place_task, if_pos rfl]
      rfl

/-- One more deed is the deed of one task. -/
theorem deedsOf_snoc {w' : World V E} {id : ℕ} {deed : Deed V E} (deeds : w'.deeds = w.deeds ++ [(id, deed)])
    (other : ℕ) : w'.deedsOf other = if other = id then w.deedsOf other ++ [deed] else w.deedsOf other := by
  rw [deedsOf, deedsOf, deeds, List.filter_append, List.map_append, List.filter_singleton]
  split_ifs with same
  · have shown : decide ((id, deed).1 = other) = true := decide_eq_true same.symm
    rw [shown]
    rfl
  · have hidden : decide ((id, deed).1 = other) = false := decide_eq_false (Ne.symm same)
    rw [hidden, cond_false, List.map_nil, List.append_nil]

/-- One more deed of the task that a worker is inside, after which `left` is left of it, or nothing. -/
structure Acts (w w' : World V E) (worker id : ℕ) (rest : Body V E) (deed : Deed V E) (left : Option (Body V E)) :
    Prop where
  inside : (w.stage worker).task = some (id, rest)
  does : rest.deeds = deed :: left.elim [] Body.deeds
  ends : ∀ body ∈ left, rest.outcome = body.outcome
  tasks : w'.pool.tasks_ = w.pool.tasks_
  bodies : w'.bodies = w.bodies
  taken : w'.taken = w.taken
  deeds : w'.deeds = w.deeds ++ [(id, deed)]
  stage : ∀ other, (w'.stage other).task = if other = worker then left.map (Prod.mk id) else (w.stage other).task
  futures : ∀ other, w'.futures other = if other = id ∧ left.isNone then some rest.outcome else w.futures other

theorem Tasks.act {w' : World V E} {worker id : ℕ} {rest : Body V E} {deed : Deed V E} {left : Option (Body V E)}
    (tasks : Tasks w) (acts : Acts w w' worker id rest deed left) : Tasks w' := by
  obtain ⟨taken, pending, body, found, whole, ends⟩ := tasks.held worker id rest acts.inside
  have others {other : ℕ} (different : other ≠ id) :
      w'.deedsOf other = w.deedsOf other ∧ w'.futures other = w.futures other := by
    rw [deedsOf_snoc acts.deeds, if_neg different, acts.futures, if_neg fun both => different both.1]
    exact ⟨rfl, rfl⟩
  have elsewhere {other id' : ℕ} {rest' : Body V E} (there : other ≠ worker)
      (holds : (w.stage other).task = some (id', rest')) : id' ≠ id := by
    rintro rfl
    exact there (tasks.alone other worker id' rest' rest holds acts.inside)
  constructor
  · rw [acts.taken, acts.tasks, acts.bodies]
    exact tasks.order
  · rw [acts.tasks, acts.bodies]
    exact tasks.queued
  · intro other outside
    rw [acts.taken] at outside
    have different : other ≠ id := fun same => outside (same ▸ taken)
    rw [(others different).1, (others different).2]
    exact tasks.fresh other outside
  · intro other id' rest' holds
    rw [acts.stage] at holds
    rw [acts.taken, acts.bodies]
    split_ifs at holds with here
    · obtain ⟨next, now, same⟩ := Option.map_eq_some_iff.mp holds
      cases same
      have does := acts.does
      rw [now] at does
      refine ⟨taken, ?_, body, found, ?_, ends.trans (acts.ends rest' now)⟩
      · rw [acts.futures, now, if_neg fun both => Bool.noConfusion both.2]
        exact pending
      · rw [deedsOf_snoc acts.deeds, if_pos rfl, whole, does, List.append_assoc]
        rfl
    · have different := elsewhere here holds
      rw [(others different).1, (others different).2]
      exact tasks.held other id' rest' holds
  · intro first second id' left' left'' holds holds'
    rw [acts.stage] at holds holds'
    split_ifs at holds holds' with here there there
    · rw [here, there]
    · obtain ⟨next, now, same⟩ := Option.map_eq_some_iff.mp holds
      cases same
      exact absurd rfl (elsewhere there holds')
    · obtain ⟨next, now, same⟩ := Option.map_eq_some_iff.mp holds'
      cases same
      exact absurd rfl (elsewhere here holds)
    · exact tasks.alone first second id' left' left'' holds holds'
  · intro other member
    rw [acts.taken] at member
    rw [acts.bodies]
    by_cases same : other = id
    · subst same
      cases now : left with
      | none =>
        have does := acts.does
        rw [now] at does
        refine Or.inr ⟨body, found, ?_, ?_⟩
        · rw [deedsOf_snoc acts.deeds, if_pos rfl, whole, does]
          rfl
        · rw [acts.futures, now, if_pos ⟨rfl, rfl⟩, ends]
      | some next =>
        refine Or.inl ⟨worker, next, ?_⟩
        rw [acts.stage, if_pos rfl, now]
        rfl
    · rw [(others same).1, (others same).2]
      rcases tasks.settled other member with ⟨holder, rest', holds⟩ | done
      · refine Or.inl ⟨holder, rest', ?_⟩
        rw [acts.stage, if_neg ?_]
        · exact holds
        · rintro rfl
          rw [acts.inside] at holds
          cases holds
          exact same rfl
      · exact Or.inr done

theorem Tasks.look (tasks : Tasks w) {worker : ℕ} (idle : (w.stage worker).task = none) : Tasks (w.look worker) := by
  unfold World.look WorkerLoop
  cases front : w.pool.tasks_ with
  | cons task rest => exact tasks.take idle front rfl
  | nil =>
    cases w.pool.stop_ with
    | true => exact tasks.same ⟨front.symm ▸ rfl, rfl, rfl, rfl, rfl, (@same_place V E w worker .returned idle.symm).stage⟩
    | false => exact tasks.same (same_place idle.symm)

/-- A task's own section of `Submit` puts a task in the queue, and is a deed. -/
theorem acts_Submit {worker id : ℕ} {task rest : Body V E} (inside : w.stage worker = .run id (.Submit task rest)) :
    Acts (w.insert task)
      { (w.insert task).place worker (.notify id rest) with deeds := w.deeds ++ [(id, .Submit task)] }
      worker id (.Submit task rest) (.Submit task) (some rest) where
  inside := congrArg Stage.task inside
  does := rfl
  ends body left := by
    cases left
    rfl
  tasks := rfl
  bodies := rfl
  taken := rfl
  deeds := rfl
  stage other := place_task worker other (.notify id rest)
  futures other := (if_neg fun both => Bool.noConfusion both.2).symm

theorem acts_finish {worker id : ℕ} {rest : Body V E} {deed : Deed V E} (inside : w.stage worker = .run id rest)
    (does : rest.deeds = [deed]) :
    Acts w (w.finish worker id deed rest.outcome) worker id rest deed none where
  inside := congrArg Stage.task inside
  does := does
  ends body left := by cases left
  tasks := rfl
  bodies := rfl
  taken := rfl
  deeds := rfl
  stage other := place_task worker other .lock
  futures other := by
    change Function.update w.futures id (some rest.outcome) other = _
    rw [Function.update_apply, Option.isNone_none]
    simp only [and_true]

theorem Tasks.work (tasks : Tasks w) {worker woken : ℕ} {w' : World V E} (stepped : w.work worker woken = some w') :
    Tasks w' := by
  unfold World.work at stepped
  split at stepped
  · next before =>
    cases stepped
    exact tasks.look (congrArg Stage.task before)
  · cases stepped
  · next id value inside =>
    cases stepped
    exact tasks.act (acts_finish inside rfl)
  · next id error inside =>
    cases stepped
    exact tasks.act (acts_finish inside rfl)
  · next id task rest inside =>
    cases stepped
    exact (tasks.insert task).act (acts_Submit inside)
  · next id rest inside =>
    obtain ⟨notified, woke, rfl⟩ := Option.map_eq_some_iff.mp stepped
    have same := same_notify_one woke
    apply (tasks.same same).same
    apply same_place
    rw [same.stage, inside]
    rfl
  · cases stepped

theorem Tasks.step (tasks : Tasks w) {action : Action V E} {w' : World V E}
    (stepped : ThreadPool.step w action = some w') : Tasks w' := by
  cases action with
  | Submit body =>
    obtain ⟨_, ⟨⟩⟩ := Option.ite_none_right_eq_some.mp stepped
    exact (tasks.insert body).same ⟨rfl, rfl, rfl, rfl, rfl, fun _ => rfl⟩
  | notify_one woken =>
    obtain ⟨_, notified⟩ := Option.ite_none_left_eq_some.mp stepped
    obtain ⟨middle, woke, rfl⟩ := Option.map_eq_some_iff.mp notified
    exact (tasks.same (same_notify_one woke)).same ⟨rfl, rfl, rfl, rfl, rfl, fun _ => rfl⟩
  | wake worker =>
    obtain ⟨waits, ⟨⟩⟩ := Option.ite_none_right_eq_some.mp stepped
    exact tasks.same (same_place (waits_task waits).symm)
  | work worker woken => exact tasks.work stepped
  | destroy =>
    obtain ⟨_, ⟨⟩⟩ := Option.ite_none_right_eq_some.mp stepped
    exact tasks.same ⟨rfl, rfl, rfl, rfl, rfl, fun _ => rfl⟩
  | teardown => exact tasks.same (same_teardown stepped)

theorem Tasks.make (num_threads : ℕ) : Tasks (World.make num_threads : World V E) := by
  have nobody (worker : ℕ) : ((World.make num_threads : World V E).stage worker).task = none := by
    change (if _ then Stage.lock else Stage.returned).task = none
    split_ifs <;> rfl
  constructor
  · rfl
  · exact fun task member => absurd member List.not_mem_nil
  · exact fun id _ => ⟨rfl, rfl⟩
  · intro worker id rest inside
    exact absurd ((nobody worker).symm.trans inside) (Option.some_ne_none _).symm
  · intro worker other id rest rest' inside
    exact absurd ((nobody worker).symm.trans inside) (Option.some_ne_none _).symm
  · exact fun id member => absurd member List.not_mem_nil

end World

end ThreadPool

end Illuminator
