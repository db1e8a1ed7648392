import Illuminator.Model.WebSocketSinkStore

/-! # Isolation of the WebSocket store

Under each key the store holds the last batches pushed there, whatever the threads do under other keys:
their operations can be removed from a run, and the others are still answered as they were.
-/

namespace Illuminator

open Interleaving

namespace WebSocketSinkStore

variable {B τ : Type} {max_keep : Bytes → ℕ}

/-- The batches that a history pushes under a key, in order. -/
def pushed (key : Bytes) (history : List (τ × Performed B)) : List (Option B) :=
  history.filterMap fun entry => entry.2.pushes key

theorem pushed_append (key : Bytes) (first second : List (τ × Performed B)) :
    pushed key (first ++ second) = pushed key first ++ pushed key second :=
  List.filterMap_append

/-- What one operation does to the batches kept under a key. -/
theorem perform_buffer (max_keep : Bytes → ℕ) (store : WebSocketSinkStore B) (operation : Operation B) (key : Bytes) :
    (perform max_keep store operation).1.buffer key =
      ((perform max_keep store operation).2.pushes key).elim (store.buffer key) fun batch =>
        (store.buffer key ++ [batch]).rtake (max_keep key) := by
  cases operation with
  | PushBatch pushed batch =>
    rw [perform, buffer_PushBatch]
    by_cases same : pushed = key
    · subst same
      simp [Performed.pushes]
    · simp [Performed.pushes, same, Ne.symm same]
  | Latest _ => rfl
  | SnapshotRecent _ _ => rfl

theorem pushes_of_ne {performed : Performed B} {key : Bytes} (other : performed.key ≠ key) :
    performed.pushes key = none := by
  cases performed with
  | PushBatch pushed batch => exact if_neg other
  | Latest _ _ => rfl
  | SnapshotRecent _ _ _ => rfl

/-- An operation is answered from what is kept under its key. -/
theorem perform_congr {store other : WebSocketSinkStore B} (operation : Operation B)
    (same : store.buffer (perform max_keep store operation).2.key =
      other.buffer (perform max_keep store operation).2.key) :
    (perform max_keep other operation).2 = (perform max_keep store operation).2 := by
  cases operation with
  | PushBatch _ _ => rfl
  | Latest key =>
    simp only [perform, Performed.key] at same ⊢
    rw [Latest_eq, Latest_eq, same]
  | SnapshotRecent key max_n =>
    simp only [perform, Performed.key] at same ⊢
    rw [SnapshotRecent_eq, SnapshotRecent_eq, same]

variable [DecidableEq τ] {history before after : List (τ × Performed B)}
  {target : State (WebSocketSinkStore B) Unit τ}

theorem act_eq {store next : WebSocketSinkStore B} {pc left : Unit} {operation : Operation B} {performed : Performed B}
    (acts : (program max_keep).act store pc operation = some (next, left, performed)) :
    perform max_keep store operation = (next, performed) := by
  cases acts
  rfl

/-- What is kept under a key is the end of what has been pushed there. -/
theorem buffer_of_run (run : (program max_keep).Run (source τ) history target) (key : Bytes) :
    target.shared.buffer key = (pushed key history).rtake (max_keep key) := by
  refine run.invariant (fun history s => s.shared.buffer key = (pushed key history).rtake (max_keep key))
    (List.rtake_nil _).symm ?_
  intro history s thread operation shared pc performed kept enabled
  have made := perform_buffer max_keep s.shared operation key
  rw [act_eq enabled] at made
  rw [State.move_shared, made, pushed_append, kept]
  cases pushes : performed.pushes key with
  | none => simp [pushed, pushes]
  | some batch =>
    rw [Option.elim_some, List.rtake_append_rtake]
    simp [pushed, pushes]

/-- The last batch pushed under a key. -/
def lastPushed (key : Bytes) (history : List (τ × Performed B)) : Option B := (pushed key history).getLast?.join

/-- The last batches pushed under a key, at most `n` of them and at most as many as are kept. -/
def recentlyPushed (max_keep : Bytes → ℕ) (key : Bytes) (n : ℕ) (history : List (τ × Performed B)) : List (Option B) :=
  (pushed key history).rtake (min n (min (max_keep key) (pushed key history).length))

/-- What the store answers for each key after a history. -/
structure Answers (max_keep : Bytes → ℕ) (history : List (τ × Performed B)) (store : WebSocketSinkStore B) : Prop where
  latest : ∀ key, store.Latest key = lastPushed key history
  recent : ∀ key n, store.SnapshotRecent key n = recentlyPushed max_keep key n history

/-- An operation has been answered by what had been pushed before. -/
def Performed.Answered (max_keep : Bytes → ℕ) (before : List (τ × Performed B)) : Performed B → Prop
  | .PushBatch _ _ => True
  | .Latest key answer => answer = lastPushed key before
  | .SnapshotRecent key n answer => answer = recentlyPushed max_keep key n before

theorem answers_of_run (positive : ∀ key, 1 ≤ max_keep key)
    (run : (program max_keep).Run (source τ) history target) : Answers max_keep history target.shared where
  latest key := by rw [Latest_eq, buffer_of_run run, List.getLast?_rtake _ (positive key), lastPushed]
  recent key n := by
    rw [SnapshotRecent_eq, buffer_of_run run, List.rtake_rtake, recentlyPushed, ← min_assoc, List.rtake_min_length]

omit [DecidableEq τ] in
theorem Answers.answered {store : WebSocketSinkStore B} (answers : Answers max_keep history store)
    (operation : Operation B) : (perform max_keep store operation).2.Answered max_keep history := by
  cases operation with
  | PushBatch _ _ => trivial
  | Latest key => exact answers.latest key
  | SnapshotRecent key n => exact answers.recent key n

/-- What holds of a history of the store: the store answers by what has been pushed under the key, each
operation was answered by what had been pushed by then, and the operations on other keys can be removed. -/
structure Isolated (max_keep : Bytes → ℕ) (history : List (τ × Performed B)) (store : WebSocketSinkStore B) : Prop where
  now : Answers max_keep history store
  before : ∀ before after thread performed, history = before ++ (thread, performed) :: after →
    performed.Answered max_keep before
  alone : ∀ key, ∃ left, (program max_keep).Run (source τ) (history.filter fun entry => entry.2.key = key) left ∧
    left.shared.Latest key = store.Latest key ∧ ∀ n, left.shared.SnapshotRecent key n = store.SnapshotRecent key n

/-- A run without the operations on other keys keeps the same batches under the key. -/
theorem run_filter (run : (program max_keep).Run (source τ) history target) (key : Bytes) :
    ∃ left, (program max_keep).Run (source τ) (history.filter fun entry => entry.2.key = key) left ∧
      target.shared.buffer key = left.shared.buffer key := by
  refine run.filter (fun entry => entry.2.key = key) (fun s r => s.shared.buffer key = r.shared.buffer key) rfl ?_ ?_
  · intro s r thread operation shared pc performed enabled other same
    have made := perform_buffer max_keep s.shared operation key
    rw [act_eq enabled, pushes_of_ne (of_decide_eq_false other)] at made
    exact made.trans same
  · intro s r thread operation shared pc performed enabled mine same
    have mine : performed.key = key := of_decide_eq_true mine
    have made := act_eq enabled
    have answered : (perform max_keep r.shared operation).2 = performed := by
      have read : (perform max_keep s.shared operation).2 = performed := congrArg Prod.snd made
      rw [perform_congr operation (by rw [read, mine]; exact same), read]
    refine ⟨operation, (perform max_keep r.shared operation).1, (), ?_, ?_⟩
    · change some ((perform max_keep r.shared operation).1, (), (perform max_keep r.shared operation).2) = _
      rw [answered]
    · have left := perform_buffer max_keep s.shared operation key
      have right := perform_buffer max_keep r.shared operation key
      rw [made] at left
      rw [answered] at right
      rw [State.move_shared, State.move_shared, left, right, same]

theorem isolated_of_run (positive : ∀ key, 1 ≤ max_keep key)
    (run : (program max_keep).Run (source τ) history target) : Isolated max_keep history target.shared where
  now := answers_of_run positive run
  before before after thread performed whole := by
    subst whole
    obtain ⟨earlier, _, prior, step, _⟩ := run.taken
    cases step with
    | @act _ operation shared pc _ enabled =>
      have answered := (answers_of_run positive prior).answered operation
      rwa [act_eq enabled] at answered
  alone key := by
    obtain ⟨left, ran, same⟩ := run_filter run key
    refine ⟨left, ran, ?_, fun n => ?_⟩
    · rw [Latest_eq, Latest_eq, same]
    · rw [SnapshotRecent_eq, SnapshotRecent_eq, same]

end WebSocketSinkStore

end Illuminator
