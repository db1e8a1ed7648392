import Illuminator.Model.BatchViews

/-! # Who owns a batch's views

What is interned belongs to the batch that interned it, and what a batch owned before it still owns.
A batch built anew owns none of the strings that are copied into it as views: the filter's records and
samples, and the stack merger's records. A chain therefore keeps its batches whole exactly when
nothing but empty strings is copied in that way.
-/

namespace Illuminator

namespace Views

open Arenas

variable {D : Type} {β γ : Type}

def Interner.Owns (i : Interner) (view : View) : Prop := OwnedBy i.memory i.arena view

/-- The batch's arena is the same one, with more in it. -/
structure Interner.Leads (i later : Interner) : Prop where
  same : later.arena = i.arena
  grown : Grows i.memory later.memory

theorem Interner.Leads.refl (i : Interner) : i.Leads i := ⟨rfl, .refl _⟩

theorem Interner.Leads.trans {i later final : Interner} (first : i.Leads later) (second : later.Leads final) :
    i.Leads final :=
  ⟨second.same.trans first.same, first.grown.trans second.grown⟩

theorem Interner.Leads.owns {i later : Interner} (leads : i.Leads later) {view : View} (owned : i.Owns view) :
    later.Owns view := by
  rw [Interner.Owns, leads.same]
  exact OwnedBy.grows owned leads.grown

/-- Interning that is given views its batch owns returns views its batch owns. -/
def Keeps (code : Interning β) (before : List View) (after : β → List View) : Prop :=
  ∀ i : Interner, (∀ view ∈ before, i.Owns view) →
    i.Leads (code i).2 ∧ ∀ view ∈ after (code i).1, (code i).2.Owns view

theorem Keeps.pure {result : β} {before : List View} {after : β → List View} (given : after result ⊆ before) :
    Keeps (Pure.pure result) before after :=
  fun i owned => ⟨.refl i, fun view present => owned view (given present)⟩

theorem Keeps.bind {code : Interning β} {next : β → Interning γ} {before : List View} {middle : β → List View}
    {after : γ → List View} (first : Keeps code before middle)
    (second : ∀ result, Keeps (next result) (middle result ++ before) after) : Keeps (code >>= next) before after := by
  intro i owned
  obtain ⟨leads, fresh⟩ := first i owned
  have all : ∀ view ∈ middle (code i).1 ++ before, (code i).2.Owns view := by
    intro view present
    rcases List.mem_append.mp present with made | given
    · exact fresh view made
    · exact leads.owns (owned view given)
  obtain ⟨further, kept⟩ := second (code i).1 (code i).2 all
  exact ⟨leads.trans further, kept⟩

theorem Keeps.weaken {code : Interning β} {before more : List View} {after : β → List View}
    (keeps : Keeps code before after) (given : before ⊆ more) : Keeps code more after :=
  fun i owned => keeps i fun view present => owned view (given present)

theorem Keeps.mapM {code : β → Interning γ} {before : β → List View} {after : γ → List View}
    (each : ∀ item, Keeps (code item) (before item) after) (items : List β) :
    Keeps (items.mapM code) (items.flatMap before) (List.flatMap after) := by
  induction items with
  | nil =>
    rw [List.mapM_nil]
    exact Keeps.pure (List.nil_subset _)
  | cons item rest ih =>
    rw [List.mapM_cons]
    intro i owned
    obtain ⟨leads, fresh⟩ := each item i fun view present => owned view (List.mem_append_left _ present)
    obtain ⟨further, later⟩ :=
      ih (code item i).2 fun view present => leads.owns (owned view (List.mem_append_right _ present))
    refine ⟨leads.trans further, fun view present => ?_⟩
    rcases List.mem_append.mp present with made | given
    · exact further.owns (fresh view made)
    · exact later view given

theorem copyString_leads (i : Interner) (s : Bytes) : i.Leads (i.copyString s) :=
  ⟨rfl, grows_append i.memory i.allocated s⟩

/-- The view that `InternString` returns is the batch's own, whatever string it is given. -/
theorem InternString_keeps (s : Bytes) : Keeps (InternString s) [] fun view => [view] := by
  intro i _
  unfold InternString
  split_ifs with empty
  · refine ⟨.refl i, ?_⟩
    rw [List.forall_mem_singleton]
    exact Or.inl rfl
  · cases found : i.intern_cache_.lookup s with
    | some view =>
      refine ⟨.refl i, ?_⟩
      rw [List.forall_mem_singleton]
      exact (i.cached s view found).1
    | none =>
      refine ⟨copyString_leads i s, ?_⟩
      rw [List.forall_mem_singleton]
      exact ownedBy_append i.memory i.allocated s

/-- It shows the string. -/
theorem InternString_shows (s : Bytes) (i : Interner) : (InternString s i).2.memory.read (InternString s i).1 = s := by
  unfold InternString
  split_ifs with empty
  · rw [List.isEmpty_iff.mp empty]
    exact List.take_zero
  · cases found : i.intern_cache_.lookup s with
    | some view => exact (i.cached s view found).2
    | none => exact read_append i.memory i.allocated s

theorem internView_keeps (view : View) : Keeps (internView view) [] fun view => [view] :=
  fun i owned => InternString_keeps (i.memory.read view) i owned

/-- A frame that is copied has its strings interned, wherever they lay. -/
theorem copyFrame_keeps (frame : StackFrame) : Keeps (copyFrame frame) [] StackFrame.views := by
  refine (internView_keeps frame.function_name).bind fun function_name => ?_
  refine ((internView_keeps frame.file_name).weaken (List.nil_subset _)).bind fun file_name => ?_
  refine ((internView_keeps frame.module_name).weaken (List.nil_subset _)).bind fun module_name => ?_
  apply Keeps.pure
  simp only [StackFrame.views, List.cons_subset, List.mem_append, List.mem_singleton, List.nil_subset, true_or, or_true,
    and_self]

private theorem copyFrames_keeps (stack : List StackFrame) :
    Keeps (stack.mapM copyFrame) [] (List.flatMap StackFrame.views) := by
  have copies := Keeps.mapM copyFrame_keeps stack
  rwa [List.flatMap_eq_nil_iff.mpr fun _ _ => rfl] at copies

theorem copySample_keeps (sample : StackSample) : Keeps (copySample sample) [] StackSample.views := by
  refine (internView_keeps sample.comm).bind fun comm => ?_
  refine ((copyFrames_keeps sample.kernel_stack).weaken (List.nil_subset _)).bind fun kernel_stack => ?_
  refine ((copyFrames_keeps sample.user_stack).weaken (List.nil_subset _)).bind fun user_stack => ?_
  apply Keeps.pure
  intro view present
  simp only [StackSample.views, List.mem_cons, List.mem_append] at present ⊢
  tauto

/-- A frame that is named anew keeps the rest of its strings. -/
theorem symbolizeFrame_keeps (name : UInt64 → Bytes) (frame : StackFrame) :
    Keeps (StackSymbolizerProcessor.symbolizeFrame name frame) frame.views StackFrame.views := by
  unfold StackSymbolizerProcessor.symbolizeFrame
  split_ifs with zero
  · exact Keeps.pure (List.Subset.refl _)
  · refine ((InternString_keeps (name frame.address)).weaken (List.nil_subset _)).bind fun function_name => ?_
    apply Keeps.pure
    simp only [StackFrame.views, List.cons_subset, List.mem_append, List.mem_cons, List.not_mem_nil, List.nil_subset,
      true_or, or_true, or_false, and_self]

theorem symbolizeSample_keeps (symbolizer : StackSymbolizerProcessor) (sample : StackSample) :
    Keeps (symbolizer.symbolizeSample sample) sample.views StackSample.views := by
  have kernel := Keeps.mapM (symbolizeFrame_keeps symbolizer.kernelName) sample.kernel_stack
  have user := Keeps.mapM (symbolizeFrame_keeps (symbolizer.userName sample.pid)) sample.user_stack
  refine (kernel.weaken ?_).bind fun kernel_stack => (user.weaken ?_).bind fun user_stack => Keeps.pure ?_
  all_goals
    intro view present
    simp only [StackSample.views, List.mem_cons, List.mem_append] at present ⊢
    tauto

/-! ## The processors -/

/-- The batch owns every view in it. -/
def State.Owned (s : State D) : Prop := ∀ view ∈ s.batch.views, OwnedBy s.memory s.batch.arena view

/-- A record or a sample without a string in it. -/
def Silent (views : List View) : Prop := ∀ view ∈ views, view.length = 0

instance (s : State D) : Decidable s.Owned := inferInstanceAs (Decidable (∀ _ ∈ _, _))

instance (views : List View) : Decidable (Silent views) := inferInstanceAs (Decidable (∀ _ ∈ _, _))

/-- What a processor copies as views holds no string. -/
def Processor.Clean (input : State D) : Processor → Prop
  | .filter stage =>
    stage.exclude_key_ = [] ∨ ((∀ record ∈ input.batch.records, ¬ stage.excluded input.memory record → Silent record.views) ∧
      ∀ sample ∈ input.batch.stack_samples, Silent sample.views)
  | .stack_merger _ _ => input.batch.stack_samples = [] ∨ ∀ record ∈ input.batch.records, Silent record.views
  | .stack_symbolizer _ => True

private theorem owned_of_silent {memory : Memory} {arena : ℕ} {views : List View} (silent : Silent views) :
    ∀ view ∈ views, OwnedBy memory arena view := fun view present => Or.inl (silent view present)

/-- A batch that has been given views of another's is whole if and only if they are all empty. -/
private theorem silent_iff {memory later : Memory} {arena other : ℕ} {views : List View} (different : other ≠ arena)
    (owned : ∀ view ∈ views, OwnedBy memory arena view) : (∀ view ∈ views, OwnedBy later other view) ↔ Silent views :=
  ⟨fun elsewhere view present => (owned view present).empty_of_ne different (elsewhere view present), owned_of_silent⟩

private theorem forall_views {β : Type} {views : β → List View} {items : List β} {holds : View → Prop} :
    (∀ view ∈ items.flatMap views, holds view) ↔ ∀ item ∈ items, ∀ view ∈ views item, holds view := by
  simp only [List.mem_flatMap]
  exact ⟨fun all item inside view present => all view ⟨item, inside, present⟩,
    fun all view ⟨item, inside, present⟩ => all item inside view present⟩

private theorem owned_parts (s : State D) :
    s.Owned ↔ (∀ record ∈ s.batch.records, ∀ view ∈ record.views, OwnedBy s.memory s.batch.arena view) ∧
      ∀ sample ∈ s.batch.stack_samples, ∀ view ∈ sample.views, OwnedBy s.memory s.batch.arena view := by
  rw [State.Owned, DataBatch.views, List.forall_mem_append, forall_views, forall_views]

/-- The records of one batch in a batch with a fresh arena. -/
private theorem copied_iff {β : Type} {views : β → List View} {items : List β} {input : State D} {later : Memory}
    (owned : ∀ item ∈ items, ∀ view ∈ views item, OwnedBy input.memory input.batch.arena view) :
    (∀ item ∈ items, ∀ view ∈ views item, OwnedBy later input.memory.length view) ↔ ∀ item ∈ items, Silent (views item) := by
  have different : input.memory.length ≠ input.batch.arena := Nat.ne_of_gt input.allocated
  exact ⟨fun all item inside => (silent_iff different (owned item inside)).mp (all item inside),
    fun all item inside => owned_of_silent (all item inside)⟩

theorem FilterProcessor.owned_iff (stage : FilterProcessor) {input : State D} (owned : input.Owned) :
    (stage.Process input).Owned ↔ (Processor.filter stage).Clean input := by
  obtain ⟨records, samples⟩ := (owned_parts input).mp owned
  rw [FilterProcessor.Process]
  split_ifs with blank
  · exact iff_of_true owned (Or.inl (List.isEmpty_iff.mp blank))
  · have named : stage.exclude_key_ ≠ [] := fun empty => blank (List.isEmpty_iff.mpr empty)
    refine (owned_parts _).trans ((and_congr ?_ (copied_iff samples)).trans (or_iff_right named).symm)
    apply Iff.trans (copied_iff fun record inside => records record (List.mem_of_mem_filter inside))
    simp only [List.mem_filter, Bool.not_eq_true', Bool.not_eq_true, and_imp]

/-- The samples that the merger writes are its batch's own. -/
private theorem copySamples_keeps (entries : List (Sigma fun _ : Bytes => StackSample)) :
    Keeps (entries.mapM fun entry => copySample entry.2) [] (List.flatMap StackSample.views) := by
  have copies := Keeps.mapM (fun entry : Sigma fun _ : Bytes => StackSample => copySample_keeps entry.2) entries
  rwa [List.flatMap_eq_nil_iff.mpr fun _ _ => rfl] at copies

/-- A batch of a fresh arena's own samples and the records of another. -/
private theorem merged_owned_iff {input : State D} {samples : List StackSample} {i : Interner}
    (same : i.arena = input.memory.length) (merged : ∀ view ∈ samples.flatMap StackSample.views, i.Owns view)
    (records : ∀ record ∈ input.batch.records, ∀ view ∈ record.views, OwnedBy input.memory input.batch.arena view) :
    (i.batch input.batch.type input.batch.records samples).Owned ↔
      ∀ record ∈ input.batch.records, Silent record.views := by
  rw [owned_parts]
  refine (and_iff_left (forall_views.mp merged)).trans ?_
  change (∀ record ∈ input.batch.records, ∀ view ∈ record.views, OwnedBy i.memory i.arena view) ↔ _
  rw [same]
  exact copied_iff records

theorem mergerProcess_owned_iff (merger : StackMergerProcessor) (order : Traversal StackSample) {input : State D}
    (owned : input.Owned) :
    (mergerProcess merger order input).Owned ↔ (Processor.stack_merger merger order).Clean input := by
  obtain ⟨records, _⟩ := (owned_parts input).mp owned
  rw [mergerProcess]
  split_ifs with blank
  · exact iff_of_true owned (Or.inl (List.isEmpty_iff.mp blank))
  · have some : input.batch.stack_samples ≠ [] := fun empty => blank (List.isEmpty_iff.mpr empty)
    obtain ⟨leads, merged⟩ := copySamples_keeps (order.visit ((∅ : AList fun _ : Bytes => StackSample).gather
      (fun sample => merger.StackKey (sample.contents input.memory)) mergeSample input.batch.stack_samples))
      (Interner.fresh input.memory) (fun view never => absurd never List.not_mem_nil)
    exact (merged_owned_iff leads.same merged records).trans (or_iff_right some).symm

theorem StackSymbolizerProcessor.owned (symbolizer : StackSymbolizerProcessor) {input : State D} (owned : input.Owned) :
    (symbolizer.Process input).Owned := by
  obtain ⟨records, samples⟩ := (owned_parts input).mp owned
  obtain ⟨leads, symbolized⟩ := Keeps.mapM (symbolizeSample_keeps symbolizer) input.batch.stack_samples input.interner
    (forall_views.mpr samples)
  refine (owned_parts _).mpr ⟨fun record inside view present => ?_, forall_views.mp symbolized⟩
  exact leads.owns (records record inside view present)

/-- A processor's output is whole if and only if what it copies as views holds no string. -/
theorem Processor.owned_iff (processor : Processor) {input : State D} (owned : input.Owned) :
    (processor.Process input).Owned ↔ processor.Clean input := by
  cases processor with
  | filter stage => exact stage.owned_iff owned
  | stack_merger merger order => exact mergerProcess_owned_iff merger order owned
  | stack_symbolizer symbolizer => exact iff_of_true (symbolizer.owned owned) trivial

/-! ## Chains -/

/-- Every processor of a chain that is run is clean. -/
def CleanRun : List Processor → State D → Prop
  | [], _ => True
  | processor :: rest, input =>
    processor.Clean input ∧ ((processor.Process input).batch.Empty = false → CleanRun rest (processor.Process input))

/-- What a chain puts out, and every chain that it begins with, is whole if and only if every processor of
the chain that is run is clean. -/
theorem views_owned_iff (chain : List Processor) {input : State D} (owned : input.Owned) :
    (∀ shorter, shorter <+: chain → (runProcessors shorter input).Owned) ↔ CleanRun chain input := by
  induction chain generalizing input with
  | nil =>
    refine iff_of_true (fun shorter begins => ?_) trivial
    rw [List.prefix_nil.mp begins]
    exact owned
  | cons processor rest ih =>
    rw [CleanRun, ← processor.owned_iff owned]
    constructor
    · intro whole
      have first : (processor.Process input).Owned := by
        have one := whole [processor] (List.prefix_append [processor] rest)
        rw [runProcessors] at one
        split_ifs at one <;> exact one
      refine ⟨first, fun some => (ih first).mp fun shorter begins => ?_⟩
      have later := whole (processor :: shorter) (List.prefix_cons_inj processor |>.mpr begins)
      rw [runProcessors] at later
      simpa only [some, Bool.false_eq_true, ↓reduceIte] using later
    · rintro ⟨first, later⟩ shorter begins
      cases shorter with
      | nil => exact owned
      | cons head shorter =>
        obtain ⟨rfl, further⟩ := List.cons_prefix_cons.mp begins
        rw [runProcessors]
        split_ifs with none
        · exact first
        · exact (ih first).mpr (later (Bool.eq_false_iff.mpr none)) shorter further

/-- What a batch's own views show outlives every other batch. -/
theorem State.Owned.outlives {s : State D} (owned : s.Owned) {other : ℕ} (different : other ≠ s.batch.arena) :
    ∀ view ∈ s.batch.views, (s.memory.release other).read view = s.memory.read view :=
  fun view present => (owned view present).read_release different

/-- A batch with the field `n`, if it is to have a record, and a sample of `app` with one frame. -/
def profile (recorded : Bool) : State Unit :=
  let (field, i) := InternString [0x6E] (Interner.fresh [])
  let (comm, i) := InternString [0x61, 0x70, 0x70] i
  let (function_name, i) := InternString [0x66] i
  i.batch .kProfile (if recorded then [⟨0, [], [(field, .int64 123)]⟩] else [])
    [{ timestamp := 0, comm, user_stack := [⟨0x1000, function_name, .null, 0, .null⟩] }]

/-- Merging the samples leaves the record's view in the arena of the input, and filtering leaves every view
there. -/
theorem records_dangle : (profile true).Owned ∧
    ¬ (runProcessors [.stack_merger {} (.listed _)] (profile true)).Owned ∧
    ¬ (runProcessors [.filter ⟨[0x68], [0x76]⟩] (profile true)).Owned := by
  refine ⟨?_, ?_, ?_⟩ <;> decide +kernel

/-- A batch of samples that is symbolized and merged. -/
theorem views_owned_iff_samples :
    (∀ shorter, shorter <+: [.stack_symbolizer ⟨true, true, fun _ => [], fun _ _ => [], fun _ => none⟩,
      .stack_merger {} (.listed _)] → (runProcessors shorter (profile false)).Owned) ↔
      CleanRun [.stack_symbolizer ⟨true, true, fun _ => [], fun _ _ => [], fun _ => none⟩,
        .stack_merger {} (.listed _)] (profile false) :=
  views_owned_iff _ (by decide +kernel)

end Views

end Illuminator
