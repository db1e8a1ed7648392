import Illuminator.Model.Delivery
import Mathlib.Algebra.BigOperators.Group.List.Basic

/-! # Which failures are counted

Without an exception each batch ends in one of five ways, and `error_count_` grows by the processor
failures, the overload drops and the writes that were not `Ok`. A write that throws in the pool is
lost without being counted, and any other exception leaves the process thread. A handler that meets
no exception does what the pipeline's program says.
-/

namespace Illuminator

namespace Delivery

variable {B : Type*} {p : Plugins B} {batch : B}

def Answer.threw {α : Type*} : Answer α → Bool
  | .returns _ => false
  | .throws => true

/-- The calls that the operator is to hear of. -/
def Call.failed : Call → Bool
  | .Process (.returns ok) => !ok
  | .Process .throws => true
  | .Add => false
  | .dropped => true
  | .Write (.returns ok) => !ok
  | .Write .throws => true

/-- Processors that have passed a batch on. -/
def passed (n : ℕ) : List Call := List.replicate n (.Process (.returns true))

/-- The calls that show how a batch has ended. -/
def Ending.Shows (p : Plugins B) (calls : List Call) : Ending → Prop
  | .rejected => ∃ n, calls = passed n ++ [.Process (.returns false)]
  | .filtered => ∃ n, calls = passed n ++ [.Process (.returns true)]
  | .added => ∃ n, calls = passed n ++ [.Add]
  | .overloaded => ∃ n, calls = passed n ++ [.dropped]
  | .offered => ∃ n, ∃ oks : List (Answer Bool), calls = passed n ++ oks.map Call.Write ∧ oks.length = p.sinks_.length
  | .escaped => False

/-- The batch has ended without an exception on the process thread, and every failure is counted. -/
structure Counted (p : Plugins B) (h : Handled) : Prop where
  errors : h.errors = h.calls.countP Call.failed
  ends : h.ends.Shows p h.calls

/-- No sink's `Write` throws, if it is called. -/
def NoThrowSinks (p : Plugins B) (batch : B) : Prop :=
  (∃ PendingTasks, p.sink_pool_ = some PendingTasks ∧ Pipeline.kMaxPendingTasks < PendingTasks batch) ∨
    ∀ Write ∈ p.sinks_, (Write batch).threw = false

/-- Nothing that is called behind the processors throws. -/
def NoThrowDelivery (p : Plugins B) (batch : B) : Prop :=
  match p.aggregator_ with
  | none => NoThrowSinks p batch
  | some aggregator => (aggregator.Add batch).threw = false

/-- Nothing that is called for a batch throws. -/
def NoThrow (p : Plugins B) : List (B → Answer (Except Status B)) → B → Prop
  | [], batch => NoThrowDelivery p batch
  | Process :: rest, batch =>
    match Process batch with
    | .throws => False
    | .returns (.error _) => True
    | .returns (.ok result) => p.Empty result = false → NoThrow p rest result

private theorem passed_succ (n : ℕ) : passed (n + 1) = .Process (.returns true) :: passed n := List.replicate_succ

/-- One more processor has passed the batch on. -/
theorem Ending.Shows.after {calls : List Call} {ending : Ending} (shown : ending.Shows p calls) :
    ending.Shows p (.Process (.returns true) :: calls) := by
  cases ending with
  | escaped => exact shown
  | offered =>
    obtain ⟨n, oks, rfl, long⟩ := shown
    exact ⟨n + 1, oks, by rw [passed_succ, List.cons_append], long⟩
  | _ =>
    obtain ⟨n, rfl⟩ := shown
    exact ⟨n + 1, by rw [passed_succ, List.cons_append]⟩

/-- What a loop over the sinks shows: a write for each, with the errors that have been counted. -/
theorem writeInline_counted (batch : B) (sinks : List (B → Answer Status))
    (quiet : ∀ Write ∈ sinks, (Write batch).threw = false) :
    ∃ oks : List (Answer Bool), (writeInline batch sinks).calls = oks.map Call.Write ∧ oks.length = sinks.length ∧
      (writeInline batch sinks).errors = (writeInline batch sinks).calls.countP Call.failed ∧
      (writeInline batch sinks).ends = .offered := by
  induction sinks with
  | nil => exact ⟨[], rfl, rfl, rfl, rfl⟩
  | cons Write rest ih =>
    obtain ⟨first, later⟩ := List.forall_mem_cons.mp quiet
    obtain ⟨oks, calls, long, counts, ends⟩ := ih later
    rw [writeInline]
    cases answer : Write batch with
    | throws =>
      rw [answer] at first
      cases first
    | returns status =>
      refine ⟨.returns status.ok :: oks, ?_, ?_, ?_, ends⟩
      · exact congrArg (_ :: ·) calls
      · exact congrArg Nat.succ long
      · change _ + _ = List.countP _ (_ :: _)
        rw [counts, List.countP_cons, Nat.add_comm]
        cases status.ok <;> rfl

theorem writeInline_escapes {batch : B} {sinks : List (B → Answer Status)} {Write : B → Answer Status}
    (present : Write ∈ sinks) (throws : (Write batch).threw = true) : (writeInline batch sinks).ends = .escaped := by
  induction sinks with
  | nil => cases present
  | cons head rest ih =>
    rw [writeInline]
    cases answer : head batch with
    | throws => rfl
    | returns status =>
      rcases List.mem_cons.mp present with rfl | later
      · rw [answer] at throws
        cases throws
      · exact ih later

private theorem runTask_errors (batch : B) (Write : B → Answer Status) :
    (runTask batch Write).2 + (if (Write batch).threw then 1 else 0) =
      if (runTask batch Write).1.failed then 1 else 0 := by
  rw [runTask]
  cases Write batch with
  | throws => rfl
  | returns status =>
    rcases Bool.eq_false_or_eq_true status.ok with good | bad
    · simp only [Answer.threw, Call.failed, good, Bool.not_true, Bool.false_eq_true, ↓reduceIte]
    · simp only [Answer.threw, Call.failed, bad, Bool.not_false, Bool.false_eq_true, ↓reduceIte]

/-- The tasks of a batch count the writes that returned an error, and miss those that threw. -/
theorem writePooled_errors (batch : B) (sinks : List (B → Answer Status)) :
    (writePooled batch sinks).errors + (sinks.countP fun Write => (Write batch).threw) =
      (writePooled batch sinks).calls.countP Call.failed := by
  induction sinks with
  | nil => rfl
  | cons Write rest ih =>
    have first := runTask_errors batch Write
    simp only [writePooled, List.map_cons, List.sum_cons, List.countP_cons] at ih ⊢
    omega

theorem writePooled_counted (batch : B) (sinks : List (B → Answer Status)) :
    ∃ oks : List (Answer Bool), (writePooled batch sinks).calls = oks.map Call.Write ∧ oks.length = sinks.length := by
  refine ⟨sinks.map fun Write => (Write batch).ok, ?_, List.length_map _⟩
  simp only [writePooled, List.map_map]
  refine List.map_congr_left fun Write _ => ?_
  simp only [Function.comp_apply, runTask]
  cases Write batch <;> rfl

theorem Counted.not_escaped {h : Handled} (counted : Counted p h) : h.ends ≠ .escaped := by
  intro escapes
  have shown := counted.ends
  rw [escapes] at shown
  exact shown

/-- A batch that is given to the sinks is accounted for when no sink throws. -/
theorem SubmitToSinks_counted (quiet : NoThrowSinks p batch) : Counted p (SubmitToSinks p batch) := by
  unfold SubmitToSinks
  unfold NoThrowSinks at quiet
  cases pool : p.sink_pool_ with
  | none =>
    rw [pool] at quiet
    obtain ⟨_, absent, _⟩ | quiet := quiet
    · cases absent
    · obtain ⟨oks, calls, long, counts, ends⟩ := writeInline_counted batch p.sinks_ quiet
      refine ⟨counts, ?_⟩
      rw [ends]
      exact ⟨0, oks, calls, long⟩
  | some PendingTasks =>
    simp only
    split_ifs with overloaded
    · exact ⟨rfl, 0, rfl⟩
    · rw [pool] at quiet
      obtain ⟨_, same, more⟩ | quiet := quiet
      · cases same
        exact absurd more overloaded
      · obtain ⟨oks, calls, long⟩ := writePooled_counted batch p.sinks_
        have none : (p.sinks_.countP fun Write => (Write batch).threw) = 0 := by
          simpa only [List.countP_eq_zero, Bool.not_eq_true] using quiet
        have errors := writePooled_errors batch p.sinks_
        rw [none, Nat.add_zero] at errors
        exact ⟨errors, 0, oks, calls, long⟩

/-- If a sink throws, the exception leaves the thread or is not counted. -/
theorem noThrowSinks_of_errors (errors : (SubmitToSinks p batch).errors = (SubmitToSinks p batch).calls.countP Call.failed)
    (ends : (SubmitToSinks p batch).ends ≠ .escaped) : NoThrowSinks p batch := by
  unfold SubmitToSinks at errors ends
  unfold NoThrowSinks
  cases pool : p.sink_pool_ with
  | none =>
    rw [pool] at ends
    refine Or.inr fun Write present => ?_
    by_contra throws
    exact ends (writeInline_escapes present (Bool.eq_true_of_not_eq_false throws))
  | some PendingTasks =>
    rw [pool] at errors
    by_cases overloaded : Pipeline.kMaxPendingTasks < PendingTasks batch
    · exact Or.inl ⟨PendingTasks, rfl, overloaded⟩
    · simp only [if_neg overloaded] at errors
      have counts := writePooled_errors batch p.sinks_
      have none : (p.sinks_.countP fun Write => (Write batch).threw) = 0 := by omega
      right
      simpa only [List.countP_eq_zero, Bool.not_eq_true] using none

/-- Counting the batch changes nothing else. -/
theorem counted_same (h : Handled) : h.counted.calls = h.calls ∧ h.counted.errors = h.errors ∧ h.counted.ends = h.ends := by
  unfold Handled.counted
  split_ifs <;> exact ⟨rfl, rfl, rfl⟩

theorem deliver_counted (quiet : NoThrowDelivery p batch) : Counted p (deliver p batch) := by
  unfold deliver
  unfold NoThrowDelivery at quiet
  cases aggregates : p.aggregator_ with
  | none =>
    rw [aggregates] at quiet
    obtain ⟨calls, errors, ends⟩ := counted_same (SubmitToSinks p batch)
    have counted := SubmitToSinks_counted quiet
    refine ⟨?_, ?_⟩
    · rw [errors, calls]
      exact counted.errors
    · rw [ends, calls]
      exact counted.ends
  | some aggregator =>
    rw [aggregates] at quiet
    simp only at quiet ⊢
    cases answer : aggregator.Add batch with
    | returns status => exact ⟨rfl, 0, rfl⟩
    | throws =>
      rw [answer] at quiet
      cases quiet

theorem noThrowDelivery_of_errors (errors : (deliver p batch).errors = (deliver p batch).calls.countP Call.failed)
    (ends : (deliver p batch).ends ≠ .escaped) : NoThrowDelivery p batch := by
  unfold deliver at errors ends
  unfold NoThrowDelivery
  cases aggregates : p.aggregator_ with
  | none =>
    rw [aggregates] at errors ends
    obtain ⟨calls, same, ended⟩ := counted_same (SubmitToSinks p batch)
    simp only [calls, same, ended] at errors ends
    exact noThrowSinks_of_errors errors ends
  | some aggregator =>
    rw [aggregates] at ends
    simp only at ends ⊢
    cases answer : aggregator.Add batch with
    | returns status => rfl
    | throws =>
      rw [answer] at ends
      exact absurd rfl ends

theorem runProcessors_counted {processors : List (B → Answer (Except Status B))} (quiet : NoThrow p processors batch) :
    Counted p (runProcessors p processors batch) := by
  induction processors generalizing batch with
  | nil => exact deliver_counted quiet
  | cons Process rest ih =>
    rw [NoThrow] at quiet
    rw [runProcessors]
    cases answer : Process batch with
    | throws =>
      rw [answer] at quiet
      exact quiet.elim
    | returns result =>
      rw [answer] at quiet
      cases result with
      | error status => exact ⟨rfl, 0, rfl⟩
      | ok result =>
        simp only at quiet ⊢
        split_ifs with empty
        · exact ⟨rfl, 0, rfl⟩
        · have later := ih (quiet (Bool.eq_false_iff.mpr empty))
          refine ⟨?_, later.ends.after⟩
          change 0 + _ = List.countP _ (_ :: _)
          rw [Nat.zero_add, later.errors]
          exact (List.countP_cons_of_neg Bool.false_ne_true).symm

theorem noThrow_of_errors {processors : List (B → Answer (Except Status B))}
    (errors : (runProcessors p processors batch).errors = (runProcessors p processors batch).calls.countP Call.failed)
    (ends : (runProcessors p processors batch).ends ≠ .escaped) : NoThrow p processors batch := by
  induction processors generalizing batch with
  | nil => exact noThrowDelivery_of_errors errors ends
  | cons Process rest ih =>
    rw [runProcessors] at errors ends
    rw [NoThrow]
    cases answer : Process batch with
    | throws =>
      rw [answer] at ends
      exact absurd rfl ends
    | returns result =>
      cases result with
      | error status => trivial
      | ok result =>
        rw [answer] at errors ends
        intro some
        simp only [some, Bool.false_eq_true, ↓reduceIte] at errors ends
        refine ih ?_ ends
        change 0 + _ = List.countP _ (_ :: _) at errors
        rw [Nat.zero_add] at errors
        exact errors.trans (List.countP_cons_of_neg Bool.false_ne_true)

/-- A batch from the channel ends without an exception on the process thread in one of the five ways, with
every failure counted, if and only if nothing that is called for it throws. -/
theorem deliveries_counted_iff (p : Plugins B) (batch : B) :
    Counted p (HandleData p batch) ↔ NoThrow p p.processors_ batch :=
  ⟨fun counted => noThrow_of_errors counted.errors counted.not_escaped, runProcessors_counted⟩

/-- Nothing that a flush calls throws. -/
def NoThrowFlush (p : Plugins B) : Prop :=
  match p.aggregator_ with
  | none => True
  | some aggregator =>
    match aggregator.Flush with
    | .throws => False
    | .returns (.error _) => True
    | .returns (.ok batches) => ∀ batch ∈ batches, NoThrowSinks p batch

theorem submitEach_counted (p : Plugins B) (batches : List B) :
    (∀ h ∈ submitEach p batches, Counted p h) ↔ ∀ batch ∈ batches, NoThrowSinks p batch := by
  induction batches with
  | nil => exact iff_of_true (fun h never => absurd never List.not_mem_nil) fun h never => absurd never List.not_mem_nil
  | cons batch rest ih =>
    have first : Counted p (SubmitToSinks p batch) ↔ NoThrowSinks p batch :=
      ⟨fun counted => noThrowSinks_of_errors counted.errors counted.not_escaped, SubmitToSinks_counted⟩
    rw [submitEach, List.forall_mem_cons, List.forall_mem_cons, first]
    refine and_congr_right fun quiet => ?_
    rw [if_neg (SubmitToSinks_counted quiet).not_escaped]
    exact ih

/-- The batches of a flush are accounted for if and only if nothing that the flush calls throws. -/
theorem flush_counted_iff (p : Plugins B) :
    ((HandleFlush p).2 = false ∧ ∀ h ∈ (HandleFlush p).1, Counted p h) ↔ NoThrowFlush p := by
  unfold HandleFlush NoThrowFlush
  cases p.aggregator_ with
  | none => exact iff_of_true ⟨rfl, fun h never => absurd never List.not_mem_nil⟩ trivial
  | some aggregator =>
    simp only
    cases aggregator.Flush with
    | throws => exact iff_of_false (fun both => Bool.false_ne_true both.1.symm) id
    | returns result =>
      cases result with
      | error status => exact iff_of_true ⟨rfl, fun h never => absurd never List.not_mem_nil⟩ trivial
      | ok batches => exact (and_iff_right rfl).trans (submitEach_counted p batches)

/-- The only sink of a pipeline, with what it does. -/
def sink (answer : Answer Status) (pooled : Bool) : Plugins Unit where
  Empty _ := false
  processors_ := []
  aggregator_ := none
  sinks_ := [fun _ => answer]
  sink_pool_ := if pooled then some fun _ => 0 else none

/-- A write that throws in the pool is offered and not counted, and without a pool it ends the process
thread. -/
theorem lost_uncounted :
    ((HandleData (sink .throws true) ()).ends = .offered ∧ (HandleData (sink .throws true) ()).errors = 0 ∧
      ¬ Counted (sink .throws true) (HandleData (sink .throws true) ())) ∧
    (HandleData (sink .throws false) ()).ends = .escaped ∧
      ¬ Counted (sink .throws false) (HandleData (sink .throws false) ()) := by
  refine ⟨⟨rfl, rfl, fun counted => ?_⟩, rfl, fun counted => counted.ends⟩
  have errors : 0 = 1 := counted.errors
  exact absurd errors Nat.zero_ne_one

/-! ## The pipeline's program -/

section Program

open Pipeline

/-- The actions of one handler, from where it stands to its end. -/
inductive Handles (setup : Setup B) : Pipeline B → Work B → List (Event B) → Pipeline B → Prop
  | ends {pipe next : Pipeline B} {work : Work B} {event : Event B} (choice : Choice B)
      (acts : handle setup pipe work choice = some (next, none, event)) : Handles setup pipe work [event] next
  | goes {pipe next final : Pipeline B} {work after : Work B} {event : Event B} {events : List (Event B)}
      (choice : Choice B) (acts : handle setup pipe work choice = some (next, some after, event))
      (later : Handles setup next after events final) : Handles setup pipe work (event :: events) final

/-- The pipeline that has these plugins. -/
def Plugins.setup (p : Plugins B) (Size : B → ℕ) : Setup B :=
  ⟨p.Empty, Size, p.processors_.length, p.aggregator_.isSome, p.sinks_.length, p.sink_pool_.isSome⟩

/-- What the process thread adds to `error_count_` itself. The pool adds the rest. -/
def ownErrors (p : Plugins B) (h : Handled) : ℕ := if p.sink_pool_.isSome ∧ h.ends = .offered then 0 else h.errors

/-- The pipeline after a batch, with what it has counted. -/
def Plugins.after (pipe : Pipeline B) (errors batches : ℕ) : Pipeline B :=
  { pipe with
    error_count_ := pipe.error_count_ + errors
    batches_processed_ := pipe.batches_processed_ + batches }

private theorem writes_handled (Size : B → ℕ) (none : p.sink_pool_ = none) (rest : List (B → Answer Status)) {k : ℕ}
    (split : k + rest.length = p.sinks_.length) (quiet : ∀ Write ∈ rest, (Write batch).threw = false)
    (pipe : Pipeline B) :
    ∃ events, Handles (p.setup Size) pipe (.submitTo batch k .data) events
      (Plugins.after pipe (writeInline batch rest).errors 1) := by
  have unpooled : (p.setup Size).sink_pool_ = false := by rw [Plugins.setup, none, Option.isSome_none]
  induction rest generalizing k pipe with
  | nil =>
    have last : ¬ k < (p.setup Size).sinks_ := not_lt.mpr (le_of_eq split.symm)
    have leaves : handle (p.setup Size) pipe (.submitTo batch k .data) .proceed = some (pipe, some .count, .local) := by
      rw [handle, if_neg last]
      rfl
    have counts : handle (p.setup Size) pipe .count .proceed = some (Plugins.after pipe 0 1, Option.none, .local) := rfl
    exact ⟨_, .goes .proceed leaves (.ends .proceed counts)⟩
  | cons Write rest ih =>
    obtain ⟨first, later⟩ := List.forall_mem_cons.mp quiet
    have more : k < (p.setup Size).sinks_ := by
      change k < p.sinks_.length
      rw [← split, List.length_cons]
      omega
    cases answer : Write batch with
    | throws =>
      rw [answer] at first
      cases first
    | returns status =>
      have writes : handle (p.setup Size) pipe (.submitTo batch k .data) (.wrote status.ok) =
          some (Plugins.after pipe (if status.ok then 0 else 1) 0, some (.submitTo batch (k + 1) .data),
            .wrote k batch status.ok) := by
        rw [handle, if_pos ⟨more, unpooled⟩]
        rfl
      obtain ⟨events, handled⟩ := ih (k := k + 1) (by rw [← split, List.length_cons]; omega) later
        (Plugins.after pipe (if status.ok then 0 else 1) 0)
      refine ⟨.wrote k batch status.ok :: events, .goes _ writes ?_⟩
      have same : Plugins.after (Plugins.after pipe (if status.ok then 0 else 1) 0) (writeInline batch rest).errors 1 =
          Plugins.after pipe (writeInline batch (Write :: rest)).errors 1 := by
        rw [writeInline, answer]
        simp only [Plugins.after, Handled.after, Nat.add_assoc, Nat.add_zero]
      rw [← same]
      exact handled

private theorem tasks_handled (Size : B → ℕ) (pooled : p.sink_pool_.isSome = true) (left : ℕ) {k : ℕ}
    (split : k + left = p.sinks_.length) (pipe : Pipeline B) :
    ∃ events, Handles (p.setup Size) pipe (.submitTo batch k .data) events (Plugins.after pipe 0 1) := by
  induction left generalizing k with
  | zero =>
    have last : ¬ k < (p.setup Size).sinks_ := not_lt.mpr (le_of_eq split.symm)
    have leaves : handle (p.setup Size) pipe (.submitTo batch k .data) .proceed = some (pipe, some .count, .local) := by
      rw [handle, if_neg last]
      rfl
    have counts : handle (p.setup Size) pipe .count .proceed = some (Plugins.after pipe 0 1, none, .local) := rfl
    exact ⟨_, .goes .proceed leaves (.ends .proceed counts)⟩
  | succ left ih =>
    have more : k < (p.setup Size).sinks_ := by
      change k < p.sinks_.length
      omega
    have submits : handle (p.setup Size) pipe (.submitTo batch k .data) .proceed =
        some (pipe, some (.submitTo batch (k + 1) .data), .submitted k batch) := by
      rw [handle, if_pos more]
      exact if_pos pooled
    obtain ⟨events, handled⟩ := ih (k := k + 1) (by omega)
    exact ⟨_, .goes .proceed submits handled⟩

theorem SubmitToSinks_batches (p : Plugins B) (batch : B) : (SubmitToSinks p batch).batches = 0 := by
  have inline : ∀ sinks, (writeInline batch sinks).batches = 0 := by
    intro sinks
    induction sinks with
    | nil => rfl
    | cons Write rest ih =>
      rw [writeInline]
      cases Write batch with
      | returns status => exact ih
      | throws => rfl
  unfold SubmitToSinks
  cases p.sink_pool_ with
  | none => exact inline p.sinks_
  | some PendingTasks =>
    simp only
    split_ifs <;> rfl

/-- Behind the processors, the program's handler does what is said here. -/
private theorem deliver_handled (Size : B → ℕ) (quiet : NoThrowDelivery p batch) (pipe : Pipeline B) :
    ∃ events, Handles (p.setup Size) pipe (.process batch 0) events
      (Plugins.after pipe (ownErrors p (deliver p batch)) (deliver p batch).batches) := by
  have counts : ∀ q : Pipeline B, handle (p.setup Size) q .count .proceed = some (Plugins.after q 0 1, none, .local) :=
    fun _ => rfl
  unfold NoThrowDelivery at quiet
  cases aggregates : p.aggregator_ with
  | some aggregator =>
    rw [aggregates] at quiet
    have adds : handle (p.setup Size) pipe (.process batch 0) .proceed = some (pipe, some .count, .added batch) := by
      rw [handle, Plugins.setup, aggregates]
      rfl
    cases answer : aggregator.Add batch with
    | throws =>
      simp only [answer] at quiet
      cases quiet
    | returns status =>
      have made : deliver p batch = ⟨[.Add], 0, 1, .added⟩ := by
        rw [deliver, aggregates]
        simp only [answer]
      refine ⟨[.added batch, .local], .goes .proceed adds (.ends .proceed ?_)⟩
      rw [counts, made]
      simp only [ownErrors, reduceCtorEq, and_false, ↓reduceIte]
  | none =>
    rw [aggregates] at quiet
    have submits : handle (p.setup Size) pipe (.process batch 0) .proceed =
        some (pipe, some (.submit batch .data), .local) := by
      rw [handle, Plugins.setup, aggregates]
      rfl
    have made : deliver p batch = (SubmitToSinks p batch).counted := by rw [deliver, aggregates]
    have once : (deliver p batch).ends = (SubmitToSinks p batch).ends ∧
        (deliver p batch).errors = (SubmitToSinks p batch).errors ∧
        (deliver p batch).batches = (SubmitToSinks p batch).batches + 1 := by
      rw [made, Handled.counted, if_neg (SubmitToSinks_counted quiet).not_escaped]
      exact ⟨rfl, rfl, rfl⟩
    obtain ⟨ends, errors, batches⟩ := once
    rw [ownErrors, ends, errors, batches, SubmitToSinks_batches, Nat.zero_add]
    unfold NoThrowSinks at quiet
    unfold SubmitToSinks
    cases pool : p.sink_pool_ with
    | none =>
      rw [pool] at quiet
      obtain ⟨_, absent, _⟩ | quiet := quiet
      · cases absent
      · have begins : handle (p.setup Size) pipe (.submit batch .data) .proceed =
            some (pipe, some (.submitTo batch 0 .data), .local) := by
          rw [handle, Plugins.setup, pool]
          rfl
        obtain ⟨events, handled⟩ := writes_handled Size pool p.sinks_ (Nat.zero_add _) quiet pipe
        refine ⟨.local :: .local :: events, .goes .proceed submits (.goes .proceed begins ?_)⟩
        simpa only [Option.isSome_none, Bool.false_eq_true, false_and, ↓reduceIte] using handled
    | some PendingTasks =>
      have pooled : (p.setup Size).sink_pool_ = true := by rw [Plugins.setup, pool, Option.isSome_some]
      by_cases overloaded : kMaxPendingTasks < PendingTasks batch
      · have drops : handle (p.setup Size) pipe (.submit batch .data) (.pending (PendingTasks batch)) =
            some (Plugins.after pipe 1 0, some .count, .overloaded batch) := by
          rw [handle, if_pos pooled, if_pos overloaded]
          rfl
        refine ⟨[.local, .overloaded batch, .local], .goes .proceed submits (.goes _ drops (.ends .proceed ?_))⟩
        rw [counts]
        simp only [if_pos overloaded, reduceCtorEq, and_false, ↓reduceIte, Plugins.after, Nat.add_zero]
      · have begins : handle (p.setup Size) pipe (.submit batch .data) (.pending (PendingTasks batch)) =
            some (pipe, some (.submitTo batch 0 .data), .local) := by
          rw [handle, if_pos pooled, if_neg overloaded]
        have some : p.sink_pool_.isSome = true := by rw [pool, Option.isSome_some]
        obtain ⟨events, handled⟩ := tasks_handled Size some p.sinks_.length (Nat.zero_add _) pipe
        refine ⟨.local :: .local :: events, .goes .proceed submits (.goes _ begins ?_)⟩
        simpa only [if_neg overloaded, writePooled, Option.isSome_some, true_and, ↓reduceIte] using handled

private theorem runProcessors_handled (Size : B → ℕ) (pipe : Pipeline B)
    {processors : List (B → Answer (Except Status B))} (quiet : NoThrow p processors batch) :
    ∃ events, Handles (p.setup Size) pipe (.process batch processors.length) events
      (Plugins.after pipe (ownErrors p (runProcessors p processors batch)) (runProcessors p processors batch).batches) := by
  induction processors generalizing batch with
  | nil => exact deliver_handled Size quiet pipe
  | cons Process rest ih =>
    rw [NoThrow] at quiet
    rw [runProcessors]
    cases answer : Process batch with
    | throws =>
      rw [answer] at quiet
      exact quiet.elim
    | returns result =>
      rw [answer] at quiet
      cases result with
      | error status =>
        have rejects : handle (p.setup Size) pipe (.process batch (rest.length + 1)) (.processed none) =
            some (Plugins.after pipe 1 0, none, .rejected) := rfl
        refine ⟨[.rejected], .ends (.processed none) ?_⟩
        rw [List.length_cons, rejects]
        simp only [ownErrors, reduceCtorEq, and_false, ↓reduceIte]
      | ok result =>
        simp only at quiet ⊢
        split_ifs with empty
        · have filters : handle (p.setup Size) pipe (.process batch (rest.length + 1)) (.processed (some result)) =
              some (Plugins.after pipe 0 0, none, .filtered) := by
            rw [handle]
            exact if_pos empty
          refine ⟨[.filtered], .ends (.processed (some result)) ?_⟩
          rw [List.length_cons, filters]
          simp only [ownErrors, reduceCtorEq, and_false, ↓reduceIte]
        · have passes : handle (p.setup Size) pipe (.process batch (rest.length + 1)) (.processed (some result)) =
              some (pipe, some (.process result rest.length), .local) := by
            rw [handle]
            exact if_neg empty
          obtain ⟨events, handled⟩ := ih (quiet (Bool.eq_false_iff.mpr empty))
          refine ⟨.local :: events, .goes _ passes ?_⟩
          simpa only [ownErrors, Handled.after, Nat.zero_add] using handled

/-- A batch for which nothing throws is handled by the pipeline's program with the same counts. -/
theorem HandleData_handled (Size : B → ℕ) (pipe : Pipeline B) (quiet : NoThrow p p.processors_ batch) :
    ∃ events, Handles (p.setup Size) pipe (.data batch) events
      (Plugins.after { pipe with records_processed_ := pipe.records_processed_ + Size batch }
        (ownErrors p (HandleData p batch)) (HandleData p batch).batches) := by
  obtain ⟨events, handled⟩ :=
    runProcessors_handled Size { pipe with records_processed_ := pipe.records_processed_ + Size batch } quiet
  exact ⟨.handled batch :: events, .goes .proceed rfl handled⟩

end Program

end Delivery

end Illuminator
