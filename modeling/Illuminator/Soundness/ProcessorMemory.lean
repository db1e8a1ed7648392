import Illuminator.Model.Processors

/-! # What processors remember of a batch without samples

Such a batch leaves at most expired entries of the symbolizer's caches behind, and those would be purged
before anything else is looked up. From then on the processor behaves as if it had not seen the batch.
-/

namespace Illuminator

namespace Processors

variable {S D : Type}

/-- From a moment on two processors do the same. -/
def Alike (D : Type) (now : Instant) (p q : Processor S) : Prop :=
  ∀ (world : World S) (input : DataBatch D), now ≤ world.now → p.Process world input = q.Process world input

theorem Alike.refl (now : Instant) (p : Processor S) : Alike D now p p := fun _ _ _ => rfl

theorem Alike.later {now later : Instant} {p q : Processor S} (alike : Alike D now p q) (after : now ≤ later) :
    Alike D later p q := fun world input reached => alike world input (after.trans reached)

namespace StackSymbolizerProcessor

/-- What has expired stays expired. -/
theorem expired_later {s : StackSymbolizerProcessor S} {now later : Instant} (after : now ≤ later)
    {entry : MapsCacheEntry} (old : s.expired now entry = true) : s.expired later entry = true := by
  simp only [expired, Bool.and_eq_true, decide_eq_true_eq] at old ⊢
  refine ⟨old.1, lt_of_lt_of_le old.2 ?_⟩
  exact Int.tdiv_le_tdiv (by decide) (Int.sub_le_sub_right after _)

theorem purge_purge (s : StackSymbolizerProcessor S) {now later : Instant} (after : now ≤ later) :
    (s.PurgeExpiredMapsCaches now).PurgeExpiredMapsCaches later = s.PurgeExpiredMapsCaches later := by
  have entries : (fun pid => ((s.maps_cache_ pid).filter fun entry => !s.expired now entry).filter fun entry =>
      !s.expired later entry) = fun pid => (s.maps_cache_ pid).filter fun entry => !s.expired later entry := by
    funext pid
    cases s.maps_cache_ pid with
    | none => rfl
    | some entry =>
      cases old : s.expired now entry with
      | true => simp [Option.filter, old, expired_later after old]
      | false => simp [Option.filter, old]
  exact congrArg (fun maps_cache_ => { s with maps_cache_ }) entries

/-- A symbolizer that has purged its caches does what it would have done. -/
theorem process_purged (s : StackSymbolizerProcessor S) {now : Instant} {world : World S} (after : now ≤ world.now)
    (input : DataBatch D) : (s.PurgeExpiredMapsCaches now).Process world input = s.Process world input := by
  rw [Process, Process, purge_purge s after]

theorem process_without_samples (s : StackSymbolizerProcessor S) (world : World S) {input : DataBatch D}
    (none : input.stack_samples = []) : s.Process world input = (input, s.PurgeExpiredMapsCaches world.now) := by
  obtain ⟨type, records, stack_samples⟩ := input
  subst none
  rfl

end StackSymbolizerProcessor

/-- A batch without samples comes out without samples. -/
theorem process_samples (p : Processor S) (world : World S) {input : DataBatch D} (none : input.stack_samples = []) :
    (p.Process world input).1.stack_samples = [] := by
  cases p with
  | filter processor =>
    change (processor.Process input).stack_samples = []
    unfold FilterProcessor.Process
    split_ifs <;> exact none
  | stack_merger processor order =>
    obtain ⟨type, records, stack_samples⟩ := input
    subst none
    rfl
  | stack_symbolizer processor =>
    change (processor.Process world input).1.stack_samples = []
    rw [processor.process_without_samples world none]
    exact none
  | passthrough => exact none

/-- A processor that has had a batch without samples behaves as before. -/
theorem Alike.process {now : Instant} {p q : Processor S} (alike : Alike D now p q) {world : World S}
    {input : DataBatch D} (after : now ≤ world.now) (none : input.stack_samples = []) :
    Alike D world.now (p.Process world input).2 q := by
  have later := alike.later after
  cases p with
  | filter processor => exact later
  | stack_merger processor order => exact later
  | stack_symbolizer processor =>
    intro world' input' reached
    rw [← later world' input' reached]
    change (Processor.stack_symbolizer (processor.Process world input).2).Process world' input' = _
    rw [processor.process_without_samples world none]
    simp only [Processor.Process, processor.process_purged reached]
  | passthrough => exact later

end Processors

end Illuminator
