import Mathlib.Algebra.BigOperators.Group.Finset.Basic
import Mathlib.Data.Multiset.AddSub
import Mathlib.Tactic.Abel

/-! # Interleaved runs of threads over shared state

A program gives one thread's atomic actions: each reads and writes the shared state, moves the
thread's own control state and emits one event. A run interleaves any number of threads in any
order and records who emitted what. Reachability facts are proved by one invariant rule. The
ledger rule balances, over a whole run, what threads have incurred against what they have
settled, with the difference held in their control states; no finiteness of the thread type is
needed. Runs project along a simulation, actions that make no difference to the others can be removed
from them, and a restricted program has the runs whose steps all meet a condition. Replay executes an
explicit schedule and certifies the run it produces.
-/

namespace Interleaving

/-- One thread's program. A `none` action is disabled in that shared and control state. -/
structure Program (σ π κ ε : Type*) where
  act : σ → π → κ → Option (σ × π × ε)

/-- The shared state together with the control state of every thread. -/
structure State (σ π τ : Type*) where
  shared : σ
  pc : τ → π

variable {σ π κ ε τ : Type*} [DecidableEq τ]

/-- Replace the shared state and one thread's control state. -/
def State.move (s : State σ π τ) (thread : τ) (shared : σ) (pc : π) : State σ π τ :=
  ⟨shared, Function.update s.pc thread pc⟩

@[simp] theorem State.move_shared (s : State σ π τ) (thread : τ) (shared : σ) (pc : π) :
    (s.move thread shared pc).shared = shared := rfl

@[simp] theorem State.move_pc_self (s : State σ π τ) (thread : τ) (shared : σ) (pc : π) :
    (s.move thread shared pc).pc thread = pc := Function.update_self ..

theorem State.move_pc_of_ne (s : State σ π τ) {thread other : τ} (shared : σ) (pc : π)
    (different : other ≠ thread) : (s.move thread shared pc).pc other = s.pc other :=
  Function.update_of_ne different ..

theorem State.move_pc (s : State σ π τ) (thread other : τ) (shared : σ) (pc : π) :
    (s.move thread shared pc).pc other = if other = thread then pc else s.pc other := by
  simp only [move, Function.update_apply]

@[simp] theorem State.move_move (s : State σ π τ) (thread : τ) (first second : σ) (before after : π) :
    (s.move thread first before).move thread second after = s.move thread second after := by
  simp only [move, Function.update_idem]

@[simp] theorem State.move_self (s : State σ π τ) (thread : τ) : s.move thread s.shared (s.pc thread) = s := by
  simp only [move, Function.update_eq_self]

/-- A property of every thread's control state follows a move. -/
theorem State.forall_move (holds : τ → π → Prop) {s : State σ π τ} {thread : τ} {shared : σ} {pc : π}
    (others : ∀ t, t ≠ thread → holds t (s.pc t)) (mine : holds thread pc) :
    ∀ t, holds t ((s.move thread shared pc).pc t) := by
  intro t
  rw [State.move_pc]
  split_ifs with same
  · rw [same]
    exact mine
  · exact others t same

/-- Some thread still has a property of its control state after a move that keeps it. -/
theorem State.exists_move (holds : π → Prop) {s : State σ π τ} {thread : τ} {shared : σ} {pc : π}
    (found : ∃ t, holds (s.pc t)) (mine : holds (s.pc thread) → holds pc) :
    ∃ t, holds ((s.move thread shared pc).pc t) := by
  obtain ⟨t, held⟩ := found
  refine ⟨t, ?_⟩
  rw [State.move_pc]
  split_ifs with same
  · rw [same] at held
    exact mine held
  · exact held

/-- No two threads hold the same resource. -/
def State.Exclusive {α : Type*} (holds : π → Option α) (s : State σ π τ) : Prop :=
  ∀ t u k, holds (s.pc t) = some k → holds (s.pc u) = some k → t = u

/-- A move keeps exclusion when what the thread now holds is held by no other thread. -/
theorem State.Exclusive.move {α : Type*} {holds : π → Option α} {s : State σ π τ}
    (exclusive : s.Exclusive holds) {thread : τ} (shared : σ) {pc : π}
    (fresh : ∀ k, holds pc = some k → ∀ u, u ≠ thread → holds (s.pc u) ≠ some k) :
    (s.move thread shared pc).Exclusive holds := by
  intro t u k heldT heldU
  rw [State.move_pc] at heldT heldU
  split_ifs at heldT heldU with atT atU atU
  · rw [atT, atU]
  · exact absurd heldU (fresh k heldT u atU)
  · exact absurd heldT (fresh k heldU t atT)
  · exact exclusive t u k heldT heldU

/-- Giving a resource up, or keeping the one already held, keeps exclusion. -/
theorem State.Exclusive.move_of_held {α : Type*} {holds : π → Option α} {s : State σ π τ}
    (exclusive : s.Exclusive holds) {thread : τ} (shared : σ) {pc : π}
    (kept : ∀ k, holds pc = some k → holds (s.pc thread) = some k) :
    (s.move thread shared pc).Exclusive holds :=
  exclusive.move shared fun k held u other heldU => other (exclusive u thread k heldU (kept k held))

/-- One enabled action of one thread. -/
inductive Program.Step (P : Program σ π κ ε) : State σ π τ → τ × ε → State σ π τ → Prop
  | act {s : State σ π τ} {thread : τ} {choice : κ} {shared : σ} {pc : π} {event : ε}
      (enabled : P.act s.shared (s.pc thread) choice = some (shared, pc, event)) :
      P.Step s (thread, event) (s.move thread shared pc)

/-- Every finite interleaving from a source, with its history in order. -/
inductive Program.Run (P : Program σ π κ ε) (source : State σ π τ) :
    List (τ × ε) → State σ π τ → Prop
  | nil : P.Run source [] source
  | snoc {history : List (τ × ε)} {middle target : State σ π τ} {entry : τ × ε}
      (prior : P.Run source history middle) (step : P.Step middle entry target) :
      P.Run source (history ++ [entry]) target

/-- A view of the shared state and of every thread's control state. -/
def State.view {σ' π' : Type*} (shared : σ → σ') (pc : π → π') (s : State σ π τ) : State σ' π' τ :=
  ⟨shared s.shared, fun t => pc (s.pc t)⟩

theorem State.view_move {σ' π' : Type*} (look : σ → σ') (control : π → π') (s : State σ π τ) (thread : τ)
    (shared : σ) (pc : π) :
    (s.move thread shared pc).view look control = (s.view look control).move thread (look shared) (control pc) := by
  refine congrArg (State.mk _) (funext fun t => ?_)
  rw [State.move_pc, Function.update_apply]
  split_ifs <;> rfl

/-- An entry of a history that has just grown is the last one, or was there before. -/
theorem snoc_split {α : Type*} {history before after : List α} {last here : α}
    (same : history ++ [last] = before ++ here :: after) :
    (last = here ∧ after = []) ∨ ∃ rest, after = rest ++ [last] ∧ history = before ++ here :: rest := by
  rcases List.eq_nil_or_concat after with rfl | ⟨rest, final, rfl⟩
  · obtain ⟨_, ends⟩ := List.append_inj' same rfl
    exact Or.inl ⟨(List.cons.inj ends).1, rfl⟩
  · rw [List.concat_eq_append, ← List.cons_append, ← List.append_assoc] at same
    obtain ⟨front, ends⟩ := List.append_inj' same rfl
    obtain ⟨rfl, _⟩ := List.cons.inj ends
    exact Or.inr ⟨rest, List.concat_eq_append, front⟩

/-- The end of a history that has just grown is empty, or it has grown with it. -/
theorem suffix_split {α : Type*} {history before part : List α} {last : α} (same : history ++ [last] = before ++ part) :
    part = [] ∨ ∃ rest, part = rest ++ [last] ∧ history = before ++ rest := by
  rcases List.eq_nil_or_concat part with rfl | ⟨rest, final, rfl⟩
  · exact Or.inl rfl
  · rw [List.concat_eq_append, ← List.append_assoc] at same
    obtain ⟨front, ends⟩ := List.append_inj' same rfl
    obtain ⟨rfl, _⟩ := List.cons.inj ends
    exact Or.inr ⟨rest, List.concat_eq_append, front⟩

/-- What is not the newest entry of a history was there before. -/
theorem mem_of_snoc {α : Type*} {history : List α} {last here : α} (member : here ∈ history ++ [last])
    (other : here ≠ last) : here ∈ history :=
  (List.mem_append.mp member).resolve_right fun newest => other (List.mem_singleton.mp newest)

/-- The events of one thread, in order. -/
def own (thread : τ) (history : List (τ × ε)) : List ε :=
  (history.filter fun entry => entry.1 = thread).map Prod.snd

theorem own_cons (thread actor : τ) (event : ε) (rest : List (τ × ε)) :
    own thread ((actor, event) :: rest) =
      if actor = thread then event :: own thread rest else own thread rest := by
  rw [own, List.filter_cons]
  split_ifs with same <;> simp_all [own]

/-- How many events of a history answer to a description. -/
def tally (shows : ε → Bool) (history : List (τ × ε)) : ℕ := history.countP fun entry => shows entry.2

omit [DecidableEq τ] in
theorem sum_tally (shows : ε → Bool) (history : List (τ × ε)) :
    (history.map fun entry => (shows entry.2).toNat).sum = tally shows history := by
  induction history with
  | nil => rfl
  | cons entry rest ih =>
    rw [List.map_cons, List.sum_cons, ih, tally, tally, List.countP_cons, Nat.add_comm]
    cases shows entry.2 <;> rfl

namespace Program

variable {P : Program σ π κ ε} {source middle target : State σ π τ}
  {history first second : List (τ × ε)}

/-- Runs compose at their shared endpoint. -/
theorem Run.append (left : P.Run source first middle) (right : P.Run middle second target) :
    P.Run source (first ++ second) target := by
  induction right with
  | nil => simpa only [List.append_nil] using left
  | snoc _ step ih => simpa only [List.append_assoc] using ih.snoc step

/-- An invariant of the history and the state, kept by every enabled action, holds throughout. -/
theorem Run.invariant (holds : List (τ × ε) → State σ π τ → Prop) (initial : holds [] source)
    (preserved : ∀ {history : List (τ × ε)} {s : State σ π τ} {thread : τ} {choice : κ}
      {shared : σ} {pc : π} {event : ε}, holds history s →
      P.act s.shared (s.pc thread) choice = some (shared, pc, event) →
      holds (history ++ [(thread, event)]) (s.move thread shared pc))
    (run : P.Run source history target) : holds history target := by
  induction run with
  | nil => exact initial
  | snoc _ step ih =>
    cases step with
    | act enabled => exact preserved ih enabled

/-- What a run did last, and the run before that. -/
theorem Run.last {entry : τ × ε} (run : P.Run source (history ++ [entry]) target) :
    ∃ middle, P.Run source history middle ∧ P.Step middle entry target := by
  generalize whole : history ++ [entry] = both at run
  cases run with
  | nil => exact absurd whole (List.append_ne_nil_of_right_ne_nil _ (List.cons_ne_nil entry []))
  | @snoc prior middle _ last before step =>
    obtain ⟨rfl, ends⟩ := List.append_inj' whole rfl
    obtain rfl : entry = last := (List.cons.inj ends).1
    exact ⟨middle, before, step⟩

/-- A run passes some state at every point of its history. -/
theorem Run.split (run : P.Run source (first ++ second) target) :
    ∃ middle, P.Run source first middle ∧ P.Run middle second target := by
  induction second using List.reverseRecOn generalizing target with
  | nil =>
    rw [List.append_nil] at run
    exact ⟨target, run, .nil⟩
  | append_singleton rest entry ih =>
    rw [← List.append_assoc] at run
    obtain ⟨before, prior, step⟩ := run.last
    obtain ⟨middle, left, right⟩ := ih prior
    exact ⟨middle, left, right.snoc step⟩

/-- The states before and after an entry of a run's history. -/
theorem Run.taken {entry : τ × ε} (run : P.Run source (first ++ entry :: second) target) :
    ∃ before after, P.Run source first before ∧ P.Step before entry after ∧ P.Run after second target := by
  rw [List.append_cons] at run
  obtain ⟨after, left, right⟩ := run.split
  obtain ⟨before, prior, step⟩ := left.last
  exact ⟨before, after, prior, step, right⟩

/-- Actions can be removed from a run when they leave a relation alone that lets the others be taken in
the related state. -/
theorem Run.filter (keeps : τ × ε → Bool) (relates : State σ π τ → State σ π τ → Prop) {origin : State σ π τ}
    (starts : relates source origin)
    (dropped : ∀ {s r : State σ π τ} {thread : τ} {choice : κ} {shared : σ} {pc : π} {event : ε},
      P.act s.shared (s.pc thread) choice = some (shared, pc, event) → keeps (thread, event) = false →
      relates s r → relates (s.move thread shared pc) r)
    (kept : ∀ {s r : State σ π τ} {thread : τ} {choice : κ} {shared : σ} {pc : π} {event : ε},
      P.act s.shared (s.pc thread) choice = some (shared, pc, event) → keeps (thread, event) = true → relates s r →
      ∃ choice' shared' pc', P.act r.shared (r.pc thread) choice' = some (shared', pc', event) ∧
        relates (s.move thread shared pc) (r.move thread shared' pc'))
    (run : P.Run source history target) :
    ∃ left, P.Run origin (history.filter keeps) left ∧ relates target left := by
  refine run.invariant (fun history s => ∃ left, P.Run origin (history.filter keeps) left ∧ relates s left)
    ⟨origin, .nil, starts⟩ ?_
  rintro history s thread choice shared pc event ⟨left, ran, related⟩ enabled
  rw [List.filter_append]
  cases keep : keeps (thread, event) with
  | false =>
    rw [List.filter_cons_of_neg (by simp [keep]), List.filter_nil, List.append_nil]
    exact ⟨left, ran, dropped enabled keep related⟩
  | true =>
    obtain ⟨choice', shared', pc', acts, still⟩ := kept enabled keep related
    rw [List.filter_cons_of_pos keep, List.filter_nil]
    exact ⟨_, ran.snoc (.act acts), still⟩

/-- A shared quantity that every action moves by its event's amount is the sum of the amounts. -/
theorem Run.measure {M : Type*} [AddMonoid M] (value : σ → M) (amount : ε → M)
    (moves : ∀ {shared next : σ} {pc after : π} {choice : κ} {event : ε},
      P.act shared pc choice = some (next, after, event) → value next = value shared + amount event)
    (run : P.Run source history target) :
    value target.shared = value source.shared + (history.map fun entry => amount entry.2).sum := by
  refine run.invariant (fun history s =>
    value s.shared = value source.shared + (history.map fun entry => amount entry.2).sum)
    (by simp) ?_
  intro history s thread choice shared pc event ih enabled
  simp only [State.move_shared, moves enabled, ih, List.map_append, List.map_cons, List.map_nil,
    List.sum_append, List.sum_cons, List.sum_nil, add_zero, add_assoc]

private theorem sum_move {M : Type*} [AddCommMonoid M] (owed : τ → π → M) (s : State σ π τ)
    {threads : Finset τ} {thread : τ} (member : thread ∈ threads) (shared : σ) (pc : π) :
    (∑ t ∈ threads, owed t ((s.move thread shared pc).pc t)) + owed thread (s.pc thread) =
      (∑ t ∈ threads, owed t (s.pc t)) + owed thread pc := by
  rw [← Finset.add_sum_erase threads _ member, ← Finset.add_sum_erase threads _ member]
  have others : ∑ t ∈ threads.erase thread, owed t ((s.move thread shared pc).pc t) =
      ∑ t ∈ threads.erase thread, owed t (s.pc t) :=
    Finset.sum_congr rfl fun t present => by
      rw [s.move_pc_of_ne shared pc (Finset.ne_of_mem_erase present)]
  rw [others, State.move_pc_self]
  abel

/-- If each action's incurred amount is either settled at once or kept in the thread's control
state, then over a run the incurred total is the settled total plus what is still owed. -/
theorem Run.ledger {M : Type*} [AddCancelCommMonoid M] (owed : τ → π → M) (incurred settled : τ → ε → M)
    (idle : ∀ t, owed t (source.pc t) = 0)
    (balanced : ∀ {thread : τ} {shared next : σ} {pc after : π} {choice : κ} {event : ε},
      P.act shared pc choice = some (next, after, event) →
      owed thread pc + incurred thread event = settled thread event + owed thread after)
    (run : P.Run source history target) {threads : Finset τ}
    (covered : ∀ entry ∈ history, entry.1 ∈ threads) :
    (history.map fun entry => incurred entry.1 entry.2).sum =
      (history.map fun entry => settled entry.1 entry.2).sum + ∑ t ∈ threads, owed t (target.pc t) := by
  refine run.invariant (fun history s => (∀ entry ∈ history, entry.1 ∈ threads) →
    (history.map fun entry => incurred entry.1 entry.2).sum =
      (history.map fun entry => settled entry.1 entry.2).sum + ∑ t ∈ threads, owed t (s.pc t))
    (by simp [idle]) ?_ covered
  intro history s thread choice shared pc event ih enabled covered
  have member : thread ∈ threads := covered (thread, event) (by simp)
  have prior := ih fun entry present => covered entry (List.mem_append_left _ present)
  have moved := sum_move owed s member shared pc
  have balance : owed thread (s.pc thread) + incurred thread event =
      settled thread event + owed thread pc := balanced enabled
  simp only [List.map_append, List.map_cons, List.map_nil, List.sum_append, List.sum_cons,
    List.sum_nil, add_zero, prior]
  apply add_right_cancel (b := owed thread (s.pc thread))
  calc _ = (history.map fun entry => settled entry.1 entry.2).sum +
        (∑ t ∈ threads, owed t (s.pc t)) + (owed thread (s.pc thread) + incurred thread event) := by
        abel
    _ = (history.map fun entry => settled entry.1 entry.2).sum + settled thread event +
        ((∑ t ∈ threads, owed t (s.pc t)) + owed thread pc) := by rw [balance]; abel
    _ = _ := by rw [← moved]; abel

/-- With no thread owing anything, a run settles exactly what it incurred. -/
theorem Run.settled {M : Type*} [AddCancelCommMonoid M] (owed : τ → π → M) (incurred settled : τ → ε → M)
    (idle : ∀ t, owed t (source.pc t) = 0)
    (balanced : ∀ {thread : τ} {shared next : σ} {pc after : π} {choice : κ} {event : ε},
      P.act shared pc choice = some (next, after, event) →
      owed thread pc + incurred thread event = settled thread event + owed thread after)
    (run : P.Run source history target) (quiet : ∀ t, owed t (target.pc t) = 0) :
    (history.map fun entry => incurred entry.1 entry.2).sum =
      (history.map fun entry => settled entry.1 entry.2).sum := by
  have covered : ∀ entry ∈ history, entry.1 ∈ (history.map Prod.fst).toFinset :=
    fun entry present => List.mem_toFinset.mpr (List.mem_map_of_mem present)
  have balance := run.ledger owed incurred settled idle balanced covered
  simpa only [quiet, Finset.sum_const_zero, add_zero] using balance

/-- The ledger of one thread in order: what it has incurred is what it has settled, followed by
what it still owes. `belongs` is what is known of where the thread stands. -/
theorem Run.own_ledger_of {α : Type*} (owed : π → List α) (incurred settled : ε → List α) (thread : τ)
    (belongs : π → Prop) (starts : belongs (source.pc thread)) (idle : owed (source.pc thread) = [])
    (stays : ∀ {shared next : σ} {pc after : π} {choice : κ} {event : ε},
      P.act shared pc choice = some (next, after, event) → belongs pc → belongs after)
    (balanced : ∀ {shared next : σ} {pc after : π} {choice : κ} {event : ε},
      P.act shared pc choice = some (next, after, event) → belongs pc →
      owed pc ++ incurred event = settled event ++ owed after)
    (run : P.Run source history target) :
    (own thread history).flatMap incurred = (own thread history).flatMap settled ++ owed (target.pc thread) := by
  have both := run.invariant (fun history s => belongs (s.pc thread) ∧
    (own thread history).flatMap incurred = (own thread history).flatMap settled ++ owed (s.pc thread))
    ⟨starts, by simp [own, idle]⟩ ?_
  · exact both.2
  intro history s actor choice shared pc event ih enabled
  obtain ⟨belonging, ih⟩ := ih
  by_cases same : actor = thread
  · subst same
    have balance : owed (s.pc actor) ++ incurred event = settled event ++ owed pc := balanced enabled belonging
    rw [State.move_pc_self]
    refine ⟨stays enabled belonging, ?_⟩
    simp only [own, List.filter_append, List.filter_cons, decide_true, ↓reduceIte, List.filter_nil,
      List.map_append, List.map_cons, List.map_nil, List.flatMap_append, List.flatMap_cons,
      List.flatMap_nil, List.append_nil] at ih ⊢
    rw [ih, List.append_assoc, balance, List.append_assoc]
  · rw [s.move_pc_of_ne shared pc (Ne.symm same)]
    refine ⟨belonging, ?_⟩
    simpa only [own, List.filter_append, List.filter_cons, same, decide_false, Bool.false_eq_true,
      ↓reduceIte, List.filter_nil, List.append_nil] using ih

/-- The ledger of one thread, when every action balances. -/
theorem Run.own_ledger {α : Type*} (owed : π → List α) (incurred settled : ε → List α) (thread : τ)
    (idle : owed (source.pc thread) = [])
    (balanced : ∀ {shared next : σ} {pc after : π} {choice : κ} {event : ε},
      P.act shared pc choice = some (next, after, event) →
      owed pc ++ incurred event = settled event ++ owed after)
    (run : P.Run source history target) :
    (own thread history).flatMap incurred = (own thread history).flatMap settled ++ owed (target.pc thread) :=
  run.own_ledger_of owed incurred settled thread (fun _ => True) trivial idle (fun _ _ => trivial)
    fun enabled _ => balanced enabled

/-- A program in which each action is an action of another program, or leaves the view of it alone,
has runs that are runs of the other program. -/
theorem Run.project {σ' π' κ' ε' : Type*} (Q : Program σ' π' κ' ε') (view : σ → σ') (control : π → π')
    (shows : ε → Option ε')
    (simulates : ∀ {shared next : σ} {pc after : π} {choice : κ} {event : ε},
      P.act shared pc choice = some (next, after, event) →
      (shows event = none ∧ view next = view shared ∧ control after = control pc) ∨
        ∃ choice' event', shows event = some event' ∧
          Q.act (view shared) (control pc) choice' = some (view next, control after, event'))
    (run : P.Run source history target) :
    Q.Run (source.view view control) (history.filterMap fun entry => (shows entry.2).map (Prod.mk entry.1))
      (target.view view control) := by
  refine run.invariant (fun history s => Q.Run (source.view view control)
    (history.filterMap fun entry => (shows entry.2).map (Prod.mk entry.1)) (s.view view control)) .nil ?_
  intro history s thread choice shared pc event ih enabled
  rw [List.filterMap_append, State.view_move]
  rcases simulates enabled with ⟨hidden, same, still⟩ | ⟨choice', event', shown, acts⟩
  · have unmoved : (s.view view control).move thread (view shared) (control pc) = s.view view control := by
      rw [same, still]
      exact State.move_self (s.view view control) thread
    simpa only [List.filterMap_cons, hidden, Option.map_none, List.filterMap_nil, List.append_nil, unmoved] using ih
  · have step : Q.Step (s.view view control) (thread, event')
        ((s.view view control).move thread (view shared) (control pc)) := .act acts
    simpa only [List.filterMap_cons, shown, Option.map_some, List.filterMap_nil] using ih.snoc step

/-- The program whose actions are those taken from states that meet a condition. -/
def restrict (P : Program σ π κ ε) (condition : σ → π → Bool) : Program σ π κ ε :=
  ⟨fun shared pc choice => if condition shared pc then P.act shared pc choice else none⟩

theorem restrict_act {condition : σ → π → Bool} {shared next : σ} {pc after : π} {choice : κ} {event : ε} :
    (P.restrict condition).act shared pc choice = some (next, after, event) ↔
      condition shared pc = true ∧ P.act shared pc choice = some (next, after, event) := by
  simp only [restrict, Option.ite_none_right_eq_some]

/-- A run whose steps all meet the condition is a run. -/
theorem Run.unrestrict {condition : σ → π → Bool} (run : (P.restrict condition).Run source history target) :
    P.Run source history target := by
  induction run with
  | nil => exact .nil
  | snoc _ step ih =>
    cases step with
    | act enabled => exact ih.snoc (.act (restrict_act.mp enabled).2)

/-- A run in which every event witnesses the condition is a run whose steps all meet it. -/
theorem Run.restrict {condition : σ → π → Bool} (witnesses : ε → Prop)
    (met : ∀ {shared next : σ} {pc after : π} {choice : κ} {event : ε},
      P.act shared pc choice = some (next, after, event) → witnesses event → condition shared pc = true)
    (run : P.Run source history target) (all : ∀ entry ∈ history, witnesses entry.2) :
    (P.restrict condition).Run source history target := by
  induction run with
  | nil => exact .nil
  | @snoc history middle target entry _ step ih =>
    have prior := ih fun entry present => all entry (List.mem_append_left _ present)
    have last : witnesses entry.2 := all entry (by simp)
    cases step with
    | act enabled => exact prior.snoc (.act (restrict_act.mpr ⟨met enabled last, enabled⟩))

/-- Execute an explicit schedule of threads and choices, collecting the history. -/
def replay? (P : Program σ π κ ε) (s : State σ π τ) : List (τ × κ) → Option (State σ π τ × List (τ × ε))
  | [] => some (s, [])
  | (thread, choice) :: rest =>
    match P.act s.shared (s.pc thread) choice with
    | none => none
    | some (shared, pc, event) =>
      (P.replay? (s.move thread shared pc) rest).map fun result =>
        (result.1, (thread, event) :: result.2)

/-- A successful replay is a run with the collected history. -/
theorem run_of_replay? {schedule : List (τ × κ)}
    (success : P.replay? source schedule = some (target, history)) : P.Run source history target := by
  induction schedule generalizing source history with
  | nil =>
    cases success
    exact .nil
  | cons entry rest ih =>
    obtain ⟨thread, choice⟩ := entry
    simp only [replay?] at success
    split at success
    · contradiction
    · next shared pc event enabled =>
      obtain ⟨⟨final, tail⟩, replayed, same⟩ := Option.map_eq_some_iff.mp success
      cases same
      exact (Run.nil.snoc (.act enabled)).append (ih replayed)

/-- What an explicit schedule shows is shown by a run. -/
theorem exists_run_of_replay? {α : Type*} (observe : State σ π τ → List (τ × ε) → α) {expected : α}
    {schedule : List (τ × κ)}
    (shown : (P.replay? source schedule).map (fun result => observe result.1 result.2) = some expected) :
    ∃ history target, P.Run source history target ∧ observe target history = expected := by
  obtain ⟨⟨target, history⟩, success, seen⟩ := Option.map_eq_some_iff.mp shown
  exact ⟨history, target, run_of_replay? success, seen⟩

/-- What an explicit schedule is checked to reach is reached by a run. -/
theorem exists_run_of_check (P : Program σ π κ ε) (source : State σ π τ)
    (holds : State σ π τ → List (τ × ε) → Prop) [∀ s history, Decidable (holds s history)]
    (schedule : List (τ × κ))
    (checked : (P.replay? source schedule).any (fun result => decide (holds result.1 result.2)) = true) :
    ∃ history target, P.Run source history target ∧ holds target history := by
  obtain ⟨⟨target, history⟩, success, holding⟩ := (Option.any_eq_true _ _).mp checked
  exact ⟨history, target, run_of_replay? success, of_decide_eq_true holding⟩

/-- Execute one thread's choices with nobody else moving. -/
def solo? (P : Program σ π κ ε) (shared : σ) (pc : π) : List κ → Option (σ × π × List ε)
  | [] => some (shared, pc, [])
  | choice :: rest =>
    match P.act shared pc choice with
    | none => none
    | some (next, after, event) =>
      (P.solo? next after rest).map fun result => (result.1, result.2.1, event :: result.2.2)

/-- An uninterrupted execution is a run in which only its thread moves. -/
theorem run_of_solo? {s : State σ π τ} {thread : τ} (choices : List κ) {shared : σ} {pc : π}
    {events : List ε} (success : P.solo? s.shared (s.pc thread) choices = some (shared, pc, events)) :
    P.Run s (events.map (Prod.mk thread)) (s.move thread shared pc) := by
  induction choices generalizing s events with
  | nil =>
    cases success
    rw [State.move_self]
    exact .nil
  | cons choice rest ih =>
    simp only [solo?] at success
    split at success
    · contradiction
    · next next after event enabled =>
      obtain ⟨⟨final, last, tail⟩, executed, same⟩ := Option.map_eq_some_iff.mp success
      cases same
      have moved : P.Run (s.move thread next after) (tail.map (Prod.mk thread)) _ :=
        ih (by rw [State.move_pc_self]; exact executed)
      rw [State.move_move] at moved
      exact (Run.nil.snoc (.act enabled)).append moved

/-- Actions of one thread with nobody else moving, in steps. -/
inductive Solo (P : Program σ π κ ε) : σ → π → σ → π → Prop
  | refl (shared : σ) (pc : π) : P.Solo shared pc shared pc
  | step {shared next last : σ} {pc after final : π} {choice : κ} {event : ε}
      (enabled : P.act shared pc choice = some (next, after, event)) (rest : P.Solo next after last final) :
      P.Solo shared pc last final

omit [DecidableEq τ] in
theorem Solo.trans {first second third : σ} {before between after : π} (left : P.Solo first before second between)
    (right : P.Solo second between third after) : P.Solo first before third after := by
  induction left with
  | refl => exact right
  | step enabled _ ih => exact .step enabled (ih right)

omit [DecidableEq τ] in
theorem Solo.one {shared next : σ} {pc after : π} {choice : κ} {event : ε}
    (enabled : P.act shared pc choice = some (next, after, event)) : P.Solo shared pc next after :=
  .step enabled (.refl next after)

theorem Solo.run {s : State σ π τ} {thread : τ} {shared : σ} {pc : π}
    (solo : P.Solo s.shared (s.pc thread) shared pc) :
    ∃ events : List ε, P.Run s (events.map (Prod.mk thread)) (s.move thread shared pc) := by
  generalize here : s.shared = first at solo
  generalize there : s.pc thread = before at solo
  induction solo generalizing s with
  | refl =>
    subst here there
    rw [State.move_self]
    exact ⟨[], .nil⟩
  | @step first next last before after final choice event enabled rest ih =>
    subst here there
    obtain ⟨events, run⟩ := ih (s := s.move thread next after) rfl (State.move_pc_self ..)
    rw [State.move_move] at run
    exact ⟨event :: events, (Run.nil.snoc (.act enabled)).append run⟩

end Program

end Interleaving
