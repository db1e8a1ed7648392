import Illuminator.Soundness.StackCounts
import Mathlib.Data.Rat.Defs

/-! # Durations of merged stacks

Off-CPU samples weigh by `duration_ns`. The merger keeps the duration of a group's first sample only,
and the aggregator's entries have neither a duration nor a type, so what a flush gives is zero
nanoseconds on the CPU. That is right for exactly the windows in which nothing else came in.
-/

namespace Illuminator

open CpuStatsAggregator

variable {D : Type}

/-- The sample of its batch into whose entry the merger takes a sample. -/
def Arrival.into (merger : StackMergerProcessor) (arrival : Arrival D) (x : StackSample) : StackSample :=
  match arrival with
  | .add _ => x
  | .merge batch _ =>
    ((batch.elim [] DataBatch.stack_samples).find? fun y => merger.StackKey y = merger.StackKey x).getD x

/-- The input samples that end up in a window's flushed samples of one identity. -/
def mergedInto (merger : StackMergerProcessor) (arrivals : List (Arrival D)) (identity : StackIdentity) :
    List StackSample :=
  arrivals.flatMap fun arrival =>
    (arrival.input.elim [] DataBatch.stack_samples).filter fun x => (arrival.into merger x).identity = identity

/-- Each flushed sample has the total duration and the type of the samples merged into it. -/
def WeightsConserved (merger : StackMergerProcessor) (w : Window D) : Prop :=
  ∀ s ∈ w.samples,
    s.duration_ns.toNat = ((mergedInto merger w.arrivals s.identity).map fun x => x.duration_ns.toNat).sum ∧
      ∀ x ∈ mergedInto merger w.arrivals s.identity, x.sample_type = s.sample_type

/-- No input sample has a duration or was taken off the CPU. -/
def Weightless (w : Window D) : Prop :=
  ∀ x ∈ inputSamples w.arrivals, x.duration_ns = 0 ∧ x.sample_type = .kOnCpu

namespace StackMergerProcessor

variable (merger : StackMergerProcessor) (samples : List StackSample)

/-- The first sample with a key, which the merger keeps for that key. -/
def leader (key : Bytes) : Option StackSample := samples.find? fun y => merger.StackKey y = key

theorem collect_mergeSample (held : StackSample) (rest : List StackSample) :
    AList.collect mergeSample (some held) rest = some { held with count := held.count + totalCount rest } := by
  induction rest generalizing held with
  | nil => simp [AList.collect]
  | cons item rest ih =>
    change AList.collect mergeSample (some { held with count := held.count + item.count }) rest = _
    rw [ih]
    simp only [totalCount, List.map_cons, List.sum_cons, add_assoc]

/-- A group's entry is its leader with the group's counts. -/
theorem mem_mergeSamples {entry : Sigma fun _ : Bytes => StackSample}
    (member : entry ∈ (merger.mergeSamples samples).entries) :
    ∃ first, leader merger samples entry.1 = some first ∧
      entry.2 = { first with count := totalCount (samples.filter fun y => merger.StackKey y = entry.1) } := by
  obtain ⟨collected, item, inside, key⟩ := AList.exists_of_mem_gather member
  rw [leader, ← List.head?_filter]
  cases group : samples.filter fun y => merger.StackKey y = entry.1 with
  | nil => exact absurd key (by simpa using List.filter_eq_nil_iff.mp group item inside)
  | cons first rest =>
    rw [group] at collected
    refine ⟨first, rfl, ?_⟩
    have whole := (collect_mergeSample first rest).symm.trans collected
    rw [← Option.some.inj whole]
    simp only [totalCount, List.map_cons, List.sum_cons]

theorem mergeSamples_identity {entry : Sigma fun _ : Bytes => StackSample}
    (member : entry ∈ (merger.mergeSamples samples).entries) :
    (leader merger samples entry.1).map StackSample.identity = some entry.2.identity := by
  obtain ⟨first, found, same⟩ := mem_mergeSamples merger samples member
  rw [found, same]
  rfl

/-- Every sample's key has its entry, which stands for the sample's leader. -/
theorem exists_entry {x : StackSample} (member : x ∈ samples) :
    ∃ entry ∈ (merger.mergeSamples samples).entries, entry.1 = merger.StackKey x ∧
      entry.2.identity = ((leader merger samples (merger.StackKey x)).getD x).identity := by
  obtain ⟨entry, inside, key⟩ := AList.exists_entry_of_mem merger.StackKey mergeSample member
  obtain ⟨first, found, same⟩ := mem_mergeSamples merger samples inside
  refine ⟨entry, inside, key, ?_⟩
  rw [← key, found, same]
  rfl

end StackMergerProcessor

/-! ## From the input to the flush -/

theorem totalCount_filter (samples : List StackSample) (keep : StackSample → Prop) [DecidablePred keep] :
    totalCount (samples.filter fun x => keep x) = (samples.map fun x => if keep x then x.count else 0).sum := by
  induction samples with
  | nil => rfl
  | cons x rest ih =>
    rw [List.map_cons, List.sum_cons, ← ih]
    by_cases kept : keep x
    · rw [List.filter_cons_of_pos (by simpa using kept), if_pos kept]
      rfl
    · rw [List.filter_cons_of_neg (by simpa using kept), if_neg kept, zero_add]

/-- An arrival adds, for each identity, the counts of the samples that end up under it. -/
theorem totalCount_into (merger : StackMergerProcessor) (arrival : Arrival D) (identity : StackIdentity) :
    totalCount (((arrival.added merger).elim [] DataBatch.stack_samples).filter (·.identity = identity)) =
      totalCount ((arrival.input.elim [] DataBatch.stack_samples).filter fun x =>
        (arrival.into merger x).identity = identity) := by
  cases arrival with
  | add batch => rfl
  | merge batch order =>
    cases batch with
    | none => rfl
    | some batch =>
      by_cases empty : batch.stack_samples = []
      · simp [Arrival.added, Arrival.input, StackMergerProcessor.Process, empty]
      · let stands (key : Bytes) : Prop :=
          (merger.leader batch.stack_samples key).map StackSample.identity = some identity
        have total := AList.total_gather (fun key sample => if stands key then sample.count else 0)
          (fun x => if stands (merger.StackKey x) then x.count else 0) merger.StackKey
          StackMergerProcessor.mergeSample (fun old item => by
            split_ifs
            · exact StackMergerProcessor.count_mergeSample old item
            · cases old <;> simp) ∅ batch.stack_samples
        rw [AList.total_empty, zero_add] at total
        have outputs : totalCount ((((Arrival.merge (some batch) order).added merger).elim []
              DataBatch.stack_samples).filter (·.identity = identity)) =
            (merger.mergeSamples batch.stack_samples).total fun key sample => if stands key then sample.count else 0 := by
          rw [Arrival.added, StackMergerProcessor.process_samples merger order empty, totalCount_filter, List.map_map,
            ((order.perm _).map _).sum_eq]
          refine congrArg List.sum (List.map_congr_left fun entry inside => ?_)
          have leads := merger.mergeSamples_identity batch.stack_samples inside
          simp only [Function.comp_apply, stands, leads, Option.some.injEq]
        have inputs : (batch.stack_samples.map fun x => if stands (merger.StackKey x) then x.count else 0) =
            batch.stack_samples.map fun x => if ((Arrival.merge (some batch) order).into merger x).identity = identity
              then x.count else 0 := by
          refine List.map_congr_left fun x inside => ?_
          obtain ⟨entry, member, key, _⟩ := merger.exists_entry batch.stack_samples inside
          obtain ⟨first, found, _⟩ := merger.mem_mergeSamples batch.stack_samples member
          rw [key] at found
          have into : (Arrival.merge (some batch) order).into merger x = first := congrArg (Option.getD · x) found
          simp only [stands, found, into, Option.map_some, Option.some.injEq]
        rw [outputs, Arrival.input, Option.elim_some, totalCount_filter, ← inputs]
        exact total

/-- A flushed sample counts the input samples merged into it. -/
theorem flushed_count_inputs [Double D] (merger : StackMergerProcessor) (arrivals : List (Arrival D))
    (order : FlushOrder D) {s : StackSample}
    (member : s ∈ ((window merger arrivals).Flush order).1.flatMap DataBatch.stack_samples) :
    s.count = totalCount (mergedInto merger arrivals s.identity) := by
  rw [flushed_count merger arrivals order member]
  clear member
  induction arrivals with
  | nil => rfl
  | cons arrival rest ih =>
    simp only [addedSamples, mergedInto, List.flatMap_cons, List.filter_append, totalCount_append] at ih ⊢
    rw [totalCount_into, ih]

/-- What an input sample ends up in is added with its arrival. -/
theorem exists_added (merger : StackMergerProcessor) (arrival : Arrival D) {x : StackSample}
    (member : x ∈ arrival.input.elim [] DataBatch.stack_samples) :
    ∃ y ∈ (arrival.added merger).elim [] DataBatch.stack_samples, y.identity = (arrival.into merger x).identity := by
  cases arrival with
  | add batch => exact ⟨x, member, rfl⟩
  | merge batch order =>
    cases batch with
    | none => nomatch member
    | some batch =>
      have filled : batch.stack_samples ≠ [] := List.ne_nil_of_mem member
      obtain ⟨entry, inside, _, identity⟩ := merger.exists_entry batch.stack_samples member
      rw [Arrival.added, StackMergerProcessor.process_samples merger order filled]
      exact ⟨entry.2, List.mem_map.mpr ⟨entry, order.mem_visit.mpr inside, rfl⟩, identity⟩

/-- Every added sample has its flushed sample. -/
theorem exists_flushed [Double D] (merger : StackMergerProcessor) (arrivals : List (Arrival D)) (order : FlushOrder D)
    {y : StackSample} (member : y ∈ addedSamples merger arrivals) :
    ∃ s ∈ ((window merger arrivals).Flush order).1.flatMap DataBatch.stack_samples, s.identity = y.identity := by
  obtain ⟨entry, inside, key⟩ := AList.exists_entry_of_mem MakeStackKey addSample member
  obtain ⟨z, _, zKey, stands, _⟩ := entry_stands merger arrivals inside
  refine ⟨flushSample order entry, ?_, ?_⟩
  · rw [flush_samples]
    exact List.mem_map.mpr ⟨entry, order.samples.mem_visit.mpr inside, rfl⟩
  · rw [flushSample_identity order stands]
    exact (makeStackKey_eq_iff z y).mp (zKey.symm.trans key)

/-- Every input sample of a window is merged into one of its flushed samples. -/
theorem exists_mergedInto [Double D] (merger : StackMergerProcessor) (arrivals : List (Arrival D))
    (order : FlushOrder D) {x : StackSample} (member : x ∈ inputSamples arrivals) :
    ∃ s ∈ ((window merger arrivals).Flush order).1.flatMap DataBatch.stack_samples,
      x ∈ mergedInto merger arrivals s.identity := by
  obtain ⟨arrival, arrived, brought⟩ := List.mem_flatMap.mp member
  obtain ⟨y, added, into⟩ := exists_added merger arrival brought
  obtain ⟨s, flushed, identity⟩ := exists_flushed merger arrivals order (List.mem_flatMap.mpr ⟨arrival, arrived, added⟩)
  refine ⟨s, flushed, List.mem_flatMap.mpr ⟨arrival, arrived, List.mem_filter.mpr ⟨brought, ?_⟩⟩⟩
  rw [identity, into]
  exact decide_eq_true rfl

theorem mergedInto_subset (merger : StackMergerProcessor) (arrivals : List (Arrival D)) (identity : StackIdentity)
    {x : StackSample} (member : x ∈ mergedInto merger arrivals identity) : x ∈ inputSamples arrivals := by
  obtain ⟨arrival, arrived, brought⟩ := List.mem_flatMap.mp member
  exact List.mem_flatMap.mpr ⟨arrival, arrived, (List.mem_filter.mp brought).1⟩

/-- A flush copies neither durations nor types. -/
theorem flushed_weight [Double D] (merger : StackMergerProcessor) (arrivals : List (Arrival D)) (order : FlushOrder D)
    {s : StackSample} (member : s ∈ ((window merger arrivals).Flush order).1.flatMap DataBatch.stack_samples) :
    s.duration_ns = 0 ∧ s.sample_type = .kOnCpu := by
  obtain ⟨entry, _, rfl⟩ := mem_flush_samples merger arrivals order member
  exact ⟨rfl, rfl⟩

theorem window_weights [Double D] (merger : StackMergerProcessor) {w : Window D} {order : FlushOrder D}
    (batches : w.batches = ((window merger w.arrivals).Flush order).1) :
    WeightsConserved merger w ↔ Weightless w := by
  rw [WeightsConserved, Window.samples, batches]
  constructor
  · intro conserved x member
    obtain ⟨s, flushed, merged⟩ := exists_mergedInto merger w.arrivals order member
    obtain ⟨duration, types⟩ := conserved s flushed
    obtain ⟨zero, onCpu⟩ := flushed_weight merger w.arrivals order flushed
    rw [zero] at duration
    have none := List.sum_eq_zero_iff_forall_eq_nat.mp duration.symm x.duration_ns.toNat (List.mem_map.mpr ⟨x, merged, rfl⟩)
    exact ⟨UInt64.toNat_inj.mp none, (types x merged).trans onCpu⟩
  · intro weightless s flushed
    obtain ⟨zero, onCpu⟩ := flushed_weight merger w.arrivals order flushed
    refine ⟨?_, fun x merged => ?_⟩
    · rw [zero]
      refine (List.sum_eq_zero fun n inside => ?_).symm
      obtain ⟨x, merged, rfl⟩ := List.mem_map.mp inside
      rw [(weightless x (mergedInto_subset merger w.arrivals s.identity merged)).1]
      rfl
    · rw [onCpu]
      exact (weightless x (mergedInto_subset merger w.arrivals s.identity merged)).2

/-- **When weights are conserved.** In a run, every flush gives each stack the duration and the type of
the samples merged into it exactly when every ended window brought only on-CPU samples of no duration. -/
theorem weights_conserved_iff [Double D] (merger : StackMergerProcessor) (operations : List (Operation D)) :
    (∀ w ∈ (Session.run merger operations).flushed, WeightsConserved merger w) ↔
      ∀ w ∈ (Session.run merger operations).flushed, Weightless w := by
  refine forall₂_congr fun w member => ?_
  obtain ⟨order, batches⟩ := (Session.run_recorded merger operations).flushed w member
  exact window_weights merger batches

/-- Two waits of one thread in one function. -/
def waits : DataBatch ℚ :=
  { type := .kProfile
    stack_samples := [
      { timestamp := 1, pid := 7, tid := 7, sample_type := .kOffCpu, duration_ns := 5000,
        user_stack := [⟨64, [], [], 0, []⟩] },
      { timestamp := 2, pid := 7, tid := 7, sample_type := .kOffCpu, duration_ns := 3000,
        user_stack := [⟨64, [], [], 0, []⟩] }] }

/-- Merged and flushed, eight microseconds of waiting are none. -/
theorem waits_lost : ∃ w ∈ (Session.run {} [.arrive (.merge (some waits) (.listed _)), .flush (.listed ℚ 9)]).flushed,
    (w.samples.map fun s => (s.count, s.duration_ns, s.sample_type)) = [(2, 0, .kOnCpu)] ∧
      ¬ WeightsConserved {} w := by
  refine ⟨⟨[.merge (some waits) (.listed _)], _⟩, List.mem_cons_self .., by decide, fun conserved => ?_⟩
  exact absurd (conserved _ (List.mem_cons_self ..)).1 (by decide)

end Illuminator
