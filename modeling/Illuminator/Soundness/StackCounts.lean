import Illuminator.Soundness.AggregatorWindows
import Illuminator.ToMathlib.Delimited

/-! # Conservation of stack counts

Both stages gather samples by a rendered key and add up their counts, so no count is lost or invented
between a source and the flushes, whatever the keys are. The aggregator's key is moreover an exact
rendering of a thread and two address lists: decimal numerals contain none of the delimiters, hence
a flushed sample stands for one thread and one pair of stacks.
-/

namespace Illuminator

/-- What tells stack samples apart: process, thread, user addresses and kernel addresses. -/
structure StackIdentity where
  pid : UInt32
  tid : UInt32
  user : List UInt64
  kernel : List UInt64
  deriving DecidableEq

def StackSample.identity (s : StackSample) : StackIdentity :=
  ⟨s.pid, s.tid, s.user_stack.map StackFrame.address, s.kernel_stack.map StackFrame.address⟩

/-- All stack samples that a run's arrivals brought. -/
def inputSamples {D : Type} (arrivals : List (Arrival D)) : List StackSample :=
  arrivals.flatMap fun arrival => arrival.input.elim [] DataBatch.stack_samples

/-- The stack samples that a window's flush gave. -/
def Window.samples {D : Type} (w : Window D) : List StackSample := w.batches.flatMap DataBatch.stack_samples

/-- The sum of the counts, in 64-bit arithmetic. -/
def totalCount (samples : List StackSample) : UInt64 := (samples.map StackSample.count).sum

@[simp] theorem inputSamples_append {D : Type} (first second : List (Arrival D)) :
    inputSamples (first ++ second) = inputSamples first ++ inputSamples second := List.flatMap_append

@[simp] theorem totalCount_nil : totalCount [] = 0 := rfl

@[simp] theorem totalCount_append (first second : List StackSample) :
    totalCount (first ++ second) = totalCount first + totalCount second := by
  rw [totalCount, List.map_append, List.sum_append]
  rfl

namespace StackMergerProcessor

variable {D : Type}

theorem process_samples (merger : StackMergerProcessor) (order : Traversal StackSample) {batch : DataBatch D}
    (some : batch.stack_samples ≠ []) :
    (merger.Process order (.some batch)).elim [] DataBatch.stack_samples =
      (order.visit (merger.mergeSamples batch.stack_samples)).map Sigma.snd := by
  rw [Process, if_neg (by simpa using some)]
  rfl

theorem count_mergeSample (held : Option StackSample) (src : StackSample) :
    (mergeSample held src).count = held.elim 0 StackSample.count + src.count := by
  cases held with
  | none => exact (zero_add _).symm
  | some sample => rfl

/-- Merging keeps the sum of the counts. -/
theorem totalCount_process (merger : StackMergerProcessor) (order : Traversal StackSample)
    (input : Option (DataBatch D)) :
    totalCount ((merger.Process order input).elim [] DataBatch.stack_samples) =
      totalCount (input.elim [] DataBatch.stack_samples) := by
  cases input with
  | none => rfl
  | some batch =>
    by_cases empty : batch.stack_samples = []
    · rw [Process, if_pos (by simpa using empty)]
    · have total := AList.total_gather (fun _ sample => sample.count) StackSample.count merger.StackKey mergeSample
        count_mergeSample ∅ batch.stack_samples
      rw [AList.total_empty, zero_add] at total
      rw [process_samples merger order empty, totalCount, List.map_map, Option.elim_some, totalCount, ← total]
      exact ((order.perm _).map _).sum_eq

end StackMergerProcessor

/-- The delimiters `:`, `,`, `;` and `|` are not digits. -/
theorem delimiter_notMem {delimiter : UInt8} (outside : delimiter.toNat < 48 ∨ 57 < delimiter.toNat) (n : ℕ) :
    delimiter ∉ to_string n := by
  intro member
  have range := to_string_range member
  omega

namespace CpuStatsAggregator

private theorem addresses_pieces (stack : List StackFrame) :
    (stack.flatMap fun f => to_string f.address.toNat ++ [0x2C]) =
      Delimited.pieces 0x2C (fun address : UInt64 => to_string address.toNat) (stack.map StackFrame.address) := by
  rw [Delimited.pieces, List.flatMap_map]

/-- The rendered key determines thread and addresses, and is determined by them. -/
theorem makeStackKey_eq_iff (s t : StackSample) : MakeStackKey s = MakeStackKey t ↔ s.identity = t.identity := by
  have numerals : Function.Injective fun address : UInt64 => to_string address.toNat :=
    fun _ _ same => UInt64.toNat_inj.mp (to_string_injective same)
  have injective : Function.Injective (Delimited.pieces 0x2C fun address : UInt64 => to_string address.toNat) :=
    Delimited.pieces_injective numerals fun address => delimiter_notMem (by decide) address.toNat
  simp only [MakeStackKey, addresses_pieces, List.append_assoc, List.cons_append, StackSample.identity,
    StackIdentity.mk.injEq]
  constructor
  · intro same
    obtain ⟨pids, afterPid⟩ := Delimited.cut (delimiter_notMem (by decide) _) (delimiter_notMem (by decide) _) same
    obtain ⟨tids, afterTid⟩ := Delimited.cut (delimiter_notMem (by decide) _) (delimiter_notMem (by decide) _) afterPid
    have bars (addresses : List UInt64) :
        (0x7C : UInt8) ∉ Delimited.pieces 0x2C (fun address : UInt64 => to_string address.toNat) addresses :=
      Delimited.notMem_pieces (by decide) fun address _ => delimiter_notMem (by decide) address.toNat
    obtain ⟨users, kernels⟩ := Delimited.cut (bars _) (bars _) afterTid
    exact ⟨UInt32.toNat_inj.mp (to_string_injective pids), UInt32.toNat_inj.mp (to_string_injective tids),
      injective users, injective kernels⟩
  · rintro ⟨pids, tids, users, kernels⟩
    rw [pids, tids, users, kernels]

theorem count_addSample (held : Option AggStackSample) (sample : StackSample) :
    (addSample held sample).count = held.elim 0 AggStackSample.count + sample.count := by
  cases held <;> rfl

/-- What a held entry has in common with the samples gathered in it. -/
def Stands (identity : StackIdentity) (agg : AggStackSample) : Prop :=
  agg.pid = identity.pid ∧ agg.tid = identity.tid ∧
    agg.user_stack.map StackFrame.address = identity.user ∧
    agg.kernel_stack.map StackFrame.address = identity.kernel

/-- Frames are copied once, and later samples of the entry have the same addresses. -/
private theorem stands_addSample {held : Option AggStackSample} {sample : StackSample}
    (before : ∀ agg, held = some agg → Stands sample.identity agg) :
    Stands sample.identity (addSample held sample) := by
  refine ⟨rfl, rfl, ?_, ?_⟩
  · simp only [addSample]
    split_ifs with empty
    · rfl
    · cases held with
      | none => exact absurd rfl empty
      | some agg => exact (before agg rfl).2.2.1
  · simp only [addSample]
    split_ifs with empty
    · rfl
    · cases held with
      | none => exact absurd rfl empty
      | some agg => exact (before agg rfl).2.2.2

section Window

variable {D : Type} [Double D] (merger : StackMergerProcessor) (arrivals : List (Arrival D)) (order : FlushOrder D)

/-- The buffer of stack samples at the end of a window. -/
abbrev windowStacks : AList fun _ : Bytes => AggStackSample := (window merger arrivals).stack_buffer_

/-- An entry stands for the added samples of one identity, with the sum of their counts. -/
theorem entry_stands {entry : Sigma fun _ : Bytes => AggStackSample}
    (member : entry ∈ (windowStacks merger arrivals).entries) :
    ∃ sample ∈ addedSamples merger arrivals, entry.1 = MakeStackKey sample ∧
      Stands sample.identity entry.2 ∧
      entry.2.count = totalCount ((addedSamples merger arrivals).filter (·.identity = sample.identity)) := by
  obtain ⟨collected, sample, inside, key⟩ := AList.exists_of_mem_gather member
  have group : ((addedSamples merger arrivals).filter fun item => MakeStackKey item = entry.1) =
      (addedSamples merger arrivals).filter (·.identity = sample.identity) := by
    refine List.filter_congr fun item _ => decide_eq_decide.mpr ?_
    rw [← key]
    exact makeStackKey_eq_iff item sample
  rw [group] at collected
  refine ⟨sample, inside, key.symm, ?_, ?_⟩
  · refine AList.collect_induction (P := Stands sample.identity) (by simp)
      (fun held item grouped before => ?_) entry.2 collected
    have same : item.identity = sample.identity := of_decide_eq_true (List.mem_filter.mp grouped).2
    rw [← same] at before ⊢
    exact stands_addSample before
  · have sum := AList.weight_collect AggStackSample.count StackSample.count addSample count_addSample none
      ((addedSamples merger arrivals).filter (·.identity = sample.identity))
    rw [collected, Option.elim_some, Option.elim_none, zero_add] at sum
    exact sum

omit [Double D] in
theorem flushSample_identity {identity : StackIdentity} {entry : Sigma fun _ : Bytes => AggStackSample}
    (stands : Stands identity entry.2) : (flushSample order entry).identity = identity := by
  obtain ⟨pid, tid, user, kernel⟩ := stands
  cases identity
  exact StackIdentity.mk.injEq .. ▸ ⟨pid, tid, user, kernel⟩

/-- Every flushed sample is made of an entry of the buffer. -/
theorem mem_flush_samples {s : StackSample}
    (member : s ∈ ((window merger arrivals).Flush order).1.flatMap DataBatch.stack_samples) :
    ∃ entry ∈ (windowStacks merger arrivals).entries, flushSample order entry = s := by
  rw [flush_samples] at member
  obtain ⟨entry, visited, same⟩ := List.mem_map.mp member
  exact ⟨entry, order.samples.mem_visit.mp visited, same⟩

/-- A flushed sample's count is that of the added samples of its identity. -/
theorem flushed_count {s : StackSample}
    (member : s ∈ ((window merger arrivals).Flush order).1.flatMap DataBatch.stack_samples) :
    s.count = totalCount ((addedSamples merger arrivals).filter (·.identity = s.identity)) := by
  obtain ⟨entry, inside, rfl⟩ := mem_flush_samples merger arrivals order member
  obtain ⟨sample, _, _, stands, count⟩ := entry_stands merger arrivals inside
  rw [flushSample_identity order stands, ← count]
  rfl

/-- No two samples of one flush have the same identity. -/
theorem flushed_nodup :
    ((((window merger arrivals).Flush order).1.flatMap DataBatch.stack_samples).map StackSample.identity).Nodup := by
  rw [flush_samples, List.map_map]
  refine List.Nodup.map_on ?_ (List.Nodup.of_map _ (order.samples.nodup_visit _))
  intro first left second right same
  have left := order.samples.mem_visit.mp left
  have right := order.samples.mem_visit.mp right
  obtain ⟨one, _, oneKey, oneStands, _⟩ := entry_stands merger arrivals left
  obtain ⟨two, _, twoKey, twoStands, _⟩ := entry_stands merger arrivals right
  have identities : one.identity = two.identity := by
    rw [← flushSample_identity order oneStands, ← flushSample_identity order twoStands]
    exact same
  refine AList.entry_ext left right ?_
  rw [oneKey, twoKey]
  exact (makeStackKey_eq_iff one two).mpr identities

theorem total_windowStacks :
    (windowStacks merger arrivals).total (fun _ agg => agg.count) = totalCount (addedSamples merger arrivals) := by
  have total := AList.total_gather (fun _ agg => agg.count) StackSample.count MakeStackKey addSample count_addSample ∅
    (addedSamples merger arrivals)
  rwa [AList.total_empty, zero_add] at total

theorem flushed_total :
    totalCount (((window merger arrivals).Flush order).1.flatMap DataBatch.stack_samples) =
      totalCount (addedSamples merger arrivals) := by
  rw [← total_windowStacks, flush_samples, totalCount, List.map_map]
  exact ((order.samples.perm _).map _).sum_eq

end Window

end CpuStatsAggregator

open CpuStatsAggregator

variable {D : Type}

/-- What arrives is added with the same total count. -/
theorem totalCount_added (merger : StackMergerProcessor) (arrivals : List (Arrival D)) :
    totalCount (addedSamples merger arrivals) = totalCount (inputSamples arrivals) := by
  induction arrivals with
  | nil => rfl
  | cons arrival rest ih =>
    have first : totalCount ((arrival.added merger).elim [] DataBatch.stack_samples) =
        totalCount (arrival.input.elim [] DataBatch.stack_samples) := by
      cases arrival with
      | add batch => rfl
      | merge batch order => exact merger.totalCount_process order batch
    rw [addedSamples, inputSamples, List.flatMap_cons, List.flatMap_cons, totalCount_append, totalCount_append, first]
    exact congrArg _ ih

/-- Ended windows gave out what arrived in them. -/
theorem windows_total [Double D] (merger : StackMergerProcessor) (windows : List (Window D))
    (given : ∀ w ∈ windows, ∃ order, w.batches = ((window merger w.arrivals).Flush order).1) :
    totalCount (windows.flatMap Window.samples) = totalCount (inputSamples (windows.flatMap Window.arrivals)) := by
  induction windows with
  | nil => rfl
  | cons w rest ih =>
    obtain ⟨order, batches⟩ := given w (List.mem_cons_self ..)
    have first : totalCount w.samples = totalCount (inputSamples w.arrivals) := by
      rw [Window.samples, batches, flushed_total, totalCount_added]
    rw [List.flatMap_cons, List.flatMap_cons, inputSamples_append, totalCount_append, totalCount_append, first,
      ih fun w inside => given w (List.mem_cons_of_mem _ inside)]

/-- **Stack counts are conserved.** In every run of arrivals and flushes, the counts flushed so far
and those still buffered add up to the counts that came in; a flushed sample counts what was added
for its thread and addresses in its window, no other sample of the flush has them, and the key under
which samples are gathered identifies them. -/
theorem stack_counts [Double D] (merger : StackMergerProcessor) (operations : List (Operation D)) :
    let session := Session.run merger operations
    totalCount (session.flushed.flatMap Window.samples) +
        session.aggregator.stack_buffer_.total (fun _ agg => agg.count) =
      totalCount (inputSamples (arrivals operations)) ∧
    (∀ w ∈ session.flushed, ∀ s ∈ w.samples,
      s.count = totalCount ((addedSamples merger w.arrivals).filter (·.identity = s.identity))) ∧
    (∀ w ∈ session.flushed, (w.samples.map StackSample.identity).Nodup) ∧
    ∀ s t : StackSample, MakeStackKey s = MakeStackKey t ↔ s.identity = t.identity := by
  intro session
  have recorded := Session.run_recorded merger operations
  refine ⟨?_, ?_, ?_, makeStackKey_eq_iff⟩
  · rw [windows_total merger session.flushed recorded.flushed, recorded.aggregator, total_windowStacks,
      totalCount_added, ← totalCount_append, ← inputSamples_append, recorded.arrivals]
  · intro w member s inside
    obtain ⟨order, batches⟩ := recorded.flushed w member
    rw [Window.samples, batches] at inside
    exact flushed_count merger w.arrivals order inside
  · intro w member
    obtain ⟨order, batches⟩ := recorded.flushed w member
    rw [Window.samples, batches]
    exact flushed_nodup merger w.arrivals order

end Illuminator
