import Illuminator.Model.Processors
import Illuminator.Soundness.FailedDeliveries

/-! # Processing over HTTP and in the pipeline

`HandleData` leaves its loop at the first empty batch, and `RunProcessors` does not. They come to the
same for processors that never fail and turn an empty batch into an empty one, as the filter, the stack
merger, the stack symbolizer and the passthrough do.
-/

namespace Illuminator

namespace Delivery

variable {B : Type*}

/-- How the loop of `HandleData` over the processors ends. -/
inductive Through (B : Type*) where
  | hands (batch : B)
  | drops
  | rejects
  | escapes

def through (Empty : B → Bool) : List (B → Answer (Except Status B)) → B → Through B
  | [], batch => .hands batch
  | Process :: rest, batch =>
    match Process batch with
    | .throws => .escapes
    | .returns (.error _) => .rejects
    | .returns (.ok result) => if Empty result then .drops else through Empty rest result

/-- What `HandleData` does once its loop has ended so. -/
def finish (p : Plugins B) : Through B → Handled
  | .hands batch => deliver p batch
  | .drops => ⟨[.Process (.returns true)], 0, 0, .filtered⟩
  | .rejects => ⟨[.Process (.returns false)], 1, 0, .rejected⟩
  | .escapes => ⟨[.Process .throws], 0, 0, .escaped⟩

/-- `HandleData` is its loop and what follows it. -/
theorem HandleData_through (p : Plugins B) (batch : B) :
    ∃ n, HandleData p batch =
      { finish p (through p.Empty p.processors_ batch) with
        calls := passed n ++ (finish p (through p.Empty p.processors_ batch)).calls } := by
  unfold HandleData
  induction p.processors_ generalizing batch with
  | nil => exact ⟨0, rfl⟩
  | cons Process rest ih =>
    rw [runProcessors, through]
    cases Process batch with
    | throws => exact ⟨0, rfl⟩
    | returns answer =>
      cases answer with
      | error status => exact ⟨0, rfl⟩
      | ok result =>
        by_cases empty : p.Empty result = true
        · simp only [if_pos empty]
          exact ⟨0, rfl⟩
        · simp only [if_neg empty]
          obtain ⟨n, same⟩ := ih result
          refine ⟨n + 1, ?_⟩
          rw [same, Handled.after, Nat.zero_add]
          rfl

/-- `HandleData` hands a batch to the aggregator or the sinks. -/
def HandsOver (p : Plugins B) (batch b : B) : Prop :=
  through p.Empty p.processors_ batch = .hands b ∧
    ∃ n, HandleData p batch = { deliver p b with calls := passed n ++ (deliver p b).calls }

theorem handsOver_iff (p : Plugins B) (batch b : B) :
    HandsOver p batch b ↔ through p.Empty p.processors_ batch = .hands b := by
  constructor
  · exact And.left
  · intro hands
    obtain ⟨n, same⟩ := HandleData_through p batch
    rw [hands] at same
    exact ⟨hands, n, same⟩

theorem writeInline_ends (batch : B) (sinks : List (B → Answer Status)) :
    (writeInline batch sinks).ends = .offered ∨ (writeInline batch sinks).ends = .escaped := by
  induction sinks with
  | nil => exact .inl rfl
  | cons Write rest ih =>
    rw [writeInline]
    cases Write batch with
    | throws => exact .inr rfl
    | returns status => exact ih

/-- What follows the loop neither filters nor rejects a batch. -/
theorem deliver_ends (p : Plugins B) (batch : B) :
    (deliver p batch).ends ≠ .filtered ∧ (deliver p batch).ends ≠ .rejected := by
  unfold deliver
  cases p.aggregator_ with
  | some aggregator =>
    cases answer : aggregator.Add batch <;> simp only [answer] <;> exact ⟨by decide, by decide⟩
  | none =>
    simp only [(counted_same _).2.2]
    unfold SubmitToSinks
    cases p.sink_pool_ with
    | none =>
      obtain offered | escaped := writeInline_ends batch p.sinks_
      · simp only [offered]
        exact ⟨by decide, by decide⟩
      · simp only [escaped]
        exact ⟨by decide, by decide⟩
    | some PendingTasks =>
      simp only
      split_ifs
      · exact ⟨by decide, by decide⟩
      · change Ending.offered ≠ _ ∧ Ending.offered ≠ _
        exact ⟨by decide, by decide⟩

theorem HandleData_ends (p : Plugins B) (batch : B) :
    (HandleData p batch).ends = (finish p (through p.Empty p.processors_ batch)).ends := by
  obtain ⟨n, same⟩ := HandleData_through p batch
  rw [same]

theorem ends_filtered_iff (p : Plugins B) (batch : B) :
    (HandleData p batch).ends = .filtered ↔ through p.Empty p.processors_ batch = .drops := by
  rw [HandleData_ends]
  cases through p.Empty p.processors_ batch with
  | hands b => exact iff_of_false (deliver_ends p b).1 (by simp)
  | drops => exact iff_of_true rfl rfl
  | rejects => exact iff_of_false (by simp [finish]) (by simp)
  | escapes => exact iff_of_false (by simp [finish]) (by simp)

theorem ends_rejected_iff (p : Plugins B) (batch : B) :
    (HandleData p batch).ends = .rejected ↔ through p.Empty p.processors_ batch = .rejects := by
  rw [HandleData_ends]
  cases through p.Empty p.processors_ batch with
  | hands b => exact iff_of_false (deliver_ends p b).2 (by simp)
  | drops => exact iff_of_false (by simp [finish]) (by simp)
  | rejects => exact iff_of_true rfl rfl
  | escapes => exact iff_of_false (by simp [finish]) (by simp)

/-- A processor that does not fail, and makes an empty batch of an empty one. -/
def KeepsEmpty (Empty : B → Bool) (Process : B → Answer (Except Status B)) : Prop :=
  ∀ batch, ∃ result, Process batch = .returns (.ok result) ∧ (Empty batch = true → Empty result = true)

/-- Both loops, for such processors. -/
theorem run_through {Empty : B → Bool} {processors : List (B → Answer (Except Status B))}
    (keep : ∀ Process ∈ processors, KeepsEmpty Empty Process) (batch : B) :
    ∃ result, RunProcessors processors batch = .returns (.ok result) ∧ (Empty batch = true → Empty result = true) ∧
      (Empty batch = false → through Empty processors batch = if Empty result then .drops else .hands result) := by
  induction processors generalizing batch with
  | nil =>
    refine ⟨batch, rfl, id, fun nonempty => ?_⟩
    rw [nonempty]
    rfl
  | cons Process rest ih =>
    obtain ⟨first, later⟩ := List.forall_mem_cons.mp keep
    obtain ⟨middle, processed, stays⟩ := first batch
    obtain ⟨result, ran, still, looped⟩ := ih later middle
    refine ⟨result, ?_, fun empty => still (stays empty), fun _ => ?_⟩
    · rw [RunProcessors, processed]
      exact ran
    · rw [through, processed]
      cases emptied : Empty middle with
      | true => simp only [emptied, if_true, still emptied]
      | false => simp only [emptied, Bool.false_eq_true, if_false, looped emptied]

end Delivery

namespace Processors

open Delivery

variable {S D : Type}

/-- A processor in a chain, with what its call finds. -/
structure Link (S : Type) where
  world : World S
  processor : Processor S

def Link.Process (link : Link S) (batch : DataBatch D) : Answer (Except Status (DataBatch D)) :=
  .returns (.ok (link.processor.Process link.world batch).1)

/-- A pipeline whose processors are a chain. -/
def pipeline (chain : List (Link S)) (aggregator_ : Option (Aggregator (DataBatch D)))
    (sinks_ : List (DataBatch D → Answer Status)) (sink_pool_ : Option (DataBatch D → ℕ)) : Plugins (DataBatch D) where
  Empty := DataBatch.Empty
  processors_ := chain.map Link.Process
  aggregator_ := aggregator_
  sinks_ := sinks_
  sink_pool_ := sink_pool_

theorem Empty_iff (batch : DataBatch D) : batch.Empty = true ↔ batch.records = [] ∧ batch.stack_samples = [] := by
  rw [DataBatch.Empty, Bool.and_eq_true, List.isEmpty_iff, List.isEmpty_iff]

/-- Every kind of processor makes an empty batch of an empty one. -/
theorem Process_Empty (world : World S) (processor : Processor S) {batch : DataBatch D} (empty : batch.Empty = true) :
    (processor.Process world batch).1.Empty = true := by
  rw [Empty_iff] at empty
  obtain ⟨records, samples⟩ := empty
  cases processor with
  | filter processor =>
    change (processor.Process batch).Empty = true
    unfold FilterProcessor.Process
    split_ifs
    · exact (Empty_iff batch).mpr ⟨records, samples⟩
    · rw [Empty_iff]
      exact ⟨by rw [records]; rfl, samples⟩
  | stack_merger processor order =>
    have passes : processor.Process order (some batch) = some batch := if_pos (by rw [samples]; rfl)
    change ((processor.Process order (some batch)).getD batch).Empty = true
    rw [passes]
    exact (Empty_iff batch).mpr ⟨records, samples⟩
  | stack_symbolizer processor =>
    rw [Empty_iff]
    refine ⟨records, ?_⟩
    simp only [Processor.Process, StackSymbolizerProcessor.Process, samples, List.mapM_nil]
    rfl
  | passthrough => exact (Empty_iff batch).mpr ⟨records, samples⟩

theorem keepsEmpty (link : Link S) : KeepsEmpty DataBatch.Empty (link.Process (D := D)) :=
  fun _ => ⟨_, rfl, Process_Empty link.world link.processor⟩

/-- **HTTP and the pipeline process alike.** A batch that is not empty comes out of `RunProcessors` as a batch that is
not empty exactly when `HandleData` hands that batch on, as an empty one exactly when it is dropped, and as an error
exactly when one is counted. -/
theorem http_agrees (chain : List (Link S)) (aggregator_ : Option (Aggregator (DataBatch D)))
    (sinks_ : List (DataBatch D → Answer Status)) (sink_pool_ : Option (DataBatch D → ℕ)) (batch : DataBatch D)
    (nonempty : batch.Empty = false) :
    let p := pipeline chain aggregator_ sinks_ sink_pool_
    (∀ b, RunProcessors p.processors_ batch = .returns (.ok b) ∧ b.Empty = false ↔ HandsOver p batch b) ∧
    ((∃ b, RunProcessors p.processors_ batch = .returns (.ok b) ∧ b.Empty = true) ↔
      (HandleData p batch).ends = .filtered) ∧
    ((∃ status, RunProcessors p.processors_ batch = .returns (.error status)) ↔
      (HandleData p batch).ends = .rejected) := by
  intro p
  have keep : ∀ Process ∈ p.processors_, KeepsEmpty DataBatch.Empty Process := by
    intro Process member
    obtain ⟨link, -, rfl⟩ := List.mem_map.mp member
    exact keepsEmpty link
  obtain ⟨result, ran, -, looped⟩ := run_through keep batch
  have loop : through p.Empty p.processors_ batch = if result.Empty then .drops else .hands result := looped nonempty
  simp only [handsOver_iff, ends_filtered_iff, ends_rejected_iff, loop, ran]
  cases empty : result.Empty with
  | true =>
    refine ⟨fun b => ?_, ?_, ?_⟩
    · refine iff_of_false ?_ (by simp)
      rintro ⟨same, full⟩
      cases same
      exact absurd (empty.symm.trans full) (by decide)
    · exact iff_of_true ⟨result, rfl, empty⟩ rfl
    · exact iff_of_false (by simp) (by simp)
  | false =>
    refine ⟨fun b => ?_, ?_, ?_⟩
    · constructor
      · rintro ⟨same, -⟩
        cases same
        rfl
      · intro same
        cases same
        exact ⟨rfl, empty⟩
    · refine iff_of_false ?_ (by simp)
      rintro ⟨b, same, full⟩
      cases same
      exact absurd (empty.symm.trans full) (by decide)
    · exact iff_of_false (by simp) (by simp)

/-- One record that a filter leaves out, in a chain of two. -/
theorem http_agrees_filtered :
    let p := pipeline [⟨⟨0, fun _ => none, fun _ => none, fun _ _ => []⟩, .filter ⟨ascii "env", ascii "dev"⟩⟩,
      ⟨⟨0, fun _ => none, fun _ => some (), fun _ _ => []⟩, .passthrough⟩] none [fun _ => .returns .Ok] none
    let batch : DataBatch ℚ := { type := .kMetrics, records := [⟨0, [⟨ascii "env", ascii "dev"⟩], ∅⟩] }
    batch.Empty = false ∧ (∃ b, RunProcessors p.processors_ batch = .returns (.ok b) ∧ b.Empty = true) ∧
      (HandleData p batch).ends = .filtered := by
  intro p batch
  have agrees := http_agrees [⟨⟨0, fun _ => none, fun _ => none, fun _ _ => []⟩, .filter ⟨ascii "env", ascii "dev"⟩⟩,
    ⟨⟨0, fun _ => none, fun _ => some (), fun _ _ => []⟩, .passthrough⟩] none [fun _ => .returns .Ok] none batch rfl
  have dropped : (HandleData p batch).ends = .filtered := by decide
  exact ⟨rfl, agrees.2.1.mpr dropped, dropped⟩

end Processors

end Illuminator
