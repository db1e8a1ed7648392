import Illuminator.Model.CpuStatsAggregator

/-! # Windows of the aggregator

At any point of a run the aggregator holds exactly what arrived since the flush before: both buffers
are gathered from the arrivals of the open window, and every flush gave the batches of a buffer
gathered from the arrivals of its own window. The windows follow each other without gap or overlap.
-/

namespace Illuminator

variable {D : Type}

/-- The records that arrivals hand to `Add`. -/
def addedRecords (merger : StackMergerProcessor) (arrivals : List (Arrival D)) : List (Record D) :=
  arrivals.flatMap fun arrival => (arrival.added merger).elim [] DataBatch.records

/-- The stack samples that arrivals hand to `Add`. -/
def addedSamples (merger : StackMergerProcessor) (arrivals : List (Arrival D)) : List StackSample :=
  arrivals.flatMap fun arrival => (arrival.added merger).elim [] DataBatch.stack_samples

/-- The arrivals among a run's operations. -/
def arrivals (operations : List (Operation D)) : List (Arrival D) :=
  operations.filterMap fun
    | .arrive arrival => some arrival
    | .flush _ => none

namespace CpuStatsAggregator

variable [Double D]

/-- An aggregator after the arrivals of one window. -/
def window (merger : StackMergerProcessor) (arrivals : List (Arrival D)) : CpuStatsAggregator D :=
  { record_buffer_ := (∅ : AList fun _ : Bytes => RecordSeries D).gather MakeRecordKey addRecord
      (addedRecords merger arrivals)
    stack_buffer_ := (∅ : AList fun _ : Bytes => AggStackSample).gather MakeStackKey addSample
      (addedSamples merger arrivals) }

/-- One more arrival is one more batch in both buffers. -/
theorem window_append (merger : StackMergerProcessor) (arrivals : List (Arrival D)) (arrival : Arrival D) :
    (window merger arrivals).Add (arrival.added merger) = window merger (arrivals ++ [arrival]) := by
  simp only [window, addedRecords, addedSamples, List.flatMap_append, List.flatMap_singleton, AList.gather_append]
  cases arrival.added merger with
  | none => rfl
  | some batch => rfl

/-- The records of a flush. -/
theorem flush_records (order : FlushOrder D) (aggregator : CpuStatsAggregator D) :
    (aggregator.Flush order).1.flatMap DataBatch.records =
      (order.records.visit aggregator.record_buffer_).map (flushRecord order) := by
  have perm := order.records.perm aggregator.record_buffer_
  simp only [Flush, List.isEmpty_iff]
  split_ifs with empty _ _ <;> simp_all

/-- The stack samples of a flush. -/
theorem flush_samples (order : FlushOrder D) (aggregator : CpuStatsAggregator D) :
    (aggregator.Flush order).1.flatMap DataBatch.stack_samples =
      (order.samples.visit aggregator.stack_buffer_).map (flushSample order) := by
  have perm := order.samples.perm aggregator.stack_buffer_
  simp only [Flush, List.isEmpty_iff]
  split_ifs with _ empty _ <;> simp_all

end CpuStatsAggregator

namespace Session

open CpuStatsAggregator

variable [Double D]

/-- The history and the aggregator belong together. -/
structure Recorded (merger : StackMergerProcessor) (operations : List (Operation D)) (session : Session D) : Prop where
  aggregator : session.aggregator = window merger session.pending
  flushed : ∀ w ∈ session.flushed, ∃ order, w.batches = ((window merger w.arrivals).Flush order).1
  arrivals : session.flushed.flatMap Window.arrivals ++ session.pending = arrivals operations

theorem step_recorded {merger : StackMergerProcessor} {operations : List (Operation D)} {session : Session D}
    (recorded : Recorded merger operations session) (operation : Operation D) :
    Recorded merger (operations ++ [operation]) (session.step merger operation) := by
  cases operation with
  | arrive arrival =>
    refine ⟨?_, recorded.flushed, ?_⟩
    · change session.aggregator.Add (arrival.added merger) = window merger (session.pending ++ [arrival])
      rw [recorded.aggregator, window_append]
    · change session.flushed.flatMap Window.arrivals ++ (session.pending ++ [arrival]) = _
      rw [← List.append_assoc, recorded.arrivals, Illuminator.arrivals, Illuminator.arrivals, List.filterMap_append]
      rfl
  | flush order =>
    refine ⟨rfl, ?_, ?_⟩
    · intro w member
      rcases List.mem_append.mp member with earlier | last
      · exact recorded.flushed w earlier
      · obtain rfl := List.mem_singleton.mp last
        exact ⟨order, by rw [← recorded.aggregator]⟩
    · change (session.flushed ++ [_]).flatMap Window.arrivals ++ [] = _
      rw [List.append_nil, List.flatMap_append, List.flatMap_singleton, recorded.arrivals, Illuminator.arrivals,
        Illuminator.arrivals, List.filterMap_append]
      exact (List.append_nil _).symm

/-- Every run keeps its history. -/
theorem run_recorded (merger : StackMergerProcessor) (operations : List (Operation D)) :
    Recorded merger operations (run merger operations) := by
  induction operations using List.reverseRecOn with
  | nil => exact ⟨rfl, by simp [run], rfl⟩
  | append_singleton operations operation ih =>
    rw [run, List.foldl_append]
    exact step_recorded ih operation

end Session

end Illuminator
