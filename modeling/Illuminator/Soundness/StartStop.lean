import Illuminator.Model.PipelineLifecycle
import Mathlib.Data.List.Nodup
import Mathlib.Tactic.SplitIfs

/-! # What a failed start leaves behind

`Stop` does nothing to a pipeline that is not running, and a pipeline runs only after all of its
components have started. So the components of a pipeline whose `Start` fails after its source has
started are never stopped, neither by `Start` nor by the `StopAll` that follows in `StartAll`. A
start that fails cleans up completely exactly when the failing pipeline has not started anything.
-/

namespace Illuminator

namespace Lifecycle

/-- Every component that was started was stopped once. -/
def Clean (log : List Event) : Prop := ∀ part, .started part ∈ log → log.count (.stopped part) = 1

/-- The calls on one pipeline's components. -/
def eventsOf (index : ℕ) (log : List (ℕ × Event)) : List Event :=
  log.filterMap fun entry => if entry.1 = index then some entry.2 else none

/-- A pipeline with a source and sinks whose components all start. -/
def Plugins.Starts (p : Plugins) : Prop :=
  ∃ source, p.source_ = some source ∧ source.ok = true ∧ p.sinks_ ≠ [] ∧ ∀ entry ∈ p.rest, entry.2.ok = true

/-- A pipeline that fails to start before any of its components has started. -/
def Plugins.StartsNothing (p : Plugins) : Prop :=
  p.source_ = none ∨ p.sinks_ = [] ∨ ∃ source, p.source_ = some source ∧ source.ok = false

/-- All components of a pipeline, in order. -/
def Plugins.parts (p : Plugins) : List Part := .source :: p.rest.map Prod.fst

theorem startEach_all {entries : List (Part × Status)} (all : ∀ entry ∈ entries, entry.2.ok = true) :
    startEach entries = (entries.map fun entry => .started entry.1, none) := by
  induction entries with
  | nil => rfl
  | cons entry rest ih =>
    rw [startEach, if_pos (all entry List.mem_cons_self), ih fun entry member => all entry (List.mem_cons_of_mem _ member)]
    rfl

theorem startEach_fails {entries : List (Part × Status)} (fails : ¬ ∀ entry ∈ entries, entry.2.ok = true) :
    ∃ status, (startEach entries).2 = some status ∧ status.ok = false := by
  induction entries with
  | nil => exact absurd nofun fails
  | cons entry rest ih =>
    rw [startEach]
    split_ifs with ok
    · refine ih fun all => fails fun other member => ?_
      rcases List.mem_cons.mp member with rfl | later
      · exact ok
      · exact all other later
    · exact ⟨entry.2, rfl, Bool.eq_false_iff.mpr ok⟩

theorem startEach_not_stopped (entries : List (Part × Status)) (part : Part) :
    .stopped part ∉ (startEach entries).1 := by
  induction entries with
  | nil => exact List.not_mem_nil
  | cons entry rest ih =>
    rw [startEach]
    split_ifs
    · intro member
      rcases List.mem_cons.mp member with same | later
      · cases same
      · exact ih later
    · intro member
      cases List.mem_singleton.mp member

/-- The ways in which `Start` can go. -/
inductive Outcome (p : Pipeline) : Prop
  | started (starts : p.plugins.Starts)
      (result : p.Start = ({ p with running_ := true, process_thread_ := true }, p.plugins.parts.map .started, .Ok))
  | nothing (starts : p.plugins.StartsNothing) (state : p.Start.1 = p) (failed : p.Start.2.2.ok = false)
      (log : ∀ part, .started part ∉ p.Start.2.1 ∧ .stopped part ∉ p.Start.2.1)
  | halfway (starts : ¬ p.plugins.StartsNothing) (fails : ¬ p.plugins.Starts) (state : p.Start.1 = p)
      (failed : p.Start.2.2.ok = false) (source : .started .source ∈ p.Start.2.1)
      (log : ∀ part, .stopped part ∉ p.Start.2.1)

theorem Start_of_source {p : Pipeline} {source : Status} (configured : p.plugins.source_ = some source)
    (sinks : p.plugins.sinks_ ≠ []) :
    p.Start = match startEach ((.source, source) :: p.plugins.rest) with
      | (log, some status) => (p, log, status)
      | (log, none) => ({ p with running_ := true, process_thread_ := true }, log, .Ok) := by
  have some_ : ¬ p.plugins.sinks_.isEmpty = true := by rwa [List.isEmpty_iff]
  rw [Pipeline.Start, configured]
  exact if_neg some_

theorem status_of_source {p : Pipeline} {source : Status} (configured : p.plugins.source_ = some source)
    (sinks : p.plugins.sinks_ ≠ []) : p.Start.2.2 = (startEach ((.source, source) :: p.plugins.rest)).2.getD .Ok := by
  rw [Start_of_source configured sinks]
  obtain ⟨log, failed⟩ := startEach ((.source, source) :: p.plugins.rest)
  cases failed <;> rfl

private theorem Outcome.refused {p : Pipeline} (starts : p.plugins.StartsNothing) {msg : String}
    (result : p.Start = (p, [], .Error .kInvalidArgument msg)) : Outcome p := by
  refine .nothing starts ?_ ?_ fun part => ?_
  · rw [result]
  · rw [result]
    rfl
  · rw [result]
    exact ⟨List.not_mem_nil, List.not_mem_nil⟩

/-- Every `Start` goes one of these ways. -/
theorem start_outcome (p : Pipeline) : Outcome p := by
  cases configured : p.plugins.source_ with
  | none => exact .refused (Or.inl configured) (by simp only [Pipeline.Start, configured]; rfl)
  | some source =>
    by_cases sinks : p.plugins.sinks_ = []
    · apply Outcome.refused (Or.inr (Or.inl sinks))
      simp only [Pipeline.Start, configured, sinks, List.isEmpty_nil, if_true]
      rfl
    have result := Start_of_source configured sinks
    by_cases ok : source.ok = true
    · by_cases rest : ∀ entry ∈ p.plugins.rest, entry.2.ok = true
      · rw [startEach_all (List.forall_mem_cons.mpr ⟨ok, rest⟩)] at result
        refine .started ⟨source, configured, ok, sinks, rest⟩ (result.trans ?_)
        simp only [Plugins.parts, List.map_cons, List.map_map]
        rfl
      · obtain ⟨status, failed, bad⟩ := startEach_fails rest
        have first : startEach ((.source, source) :: p.plugins.rest) =
            (.started .source :: (startEach p.plugins.rest).1, some status) := by
          rw [startEach, if_pos ok, failed]
        rw [first] at result
        refine .halfway ?_ ?_ ?_ ?_ ?_ fun part => ?_
        · rintro (absent | empty | ⟨other, same, bad⟩)
          · rw [configured] at absent
            cases absent
          · exact sinks empty
          · rw [configured, Option.some.injEq] at same
            rw [← same, ok] at bad
            cases bad
        · rintro ⟨_, _, _, _, all⟩
          exact rest all
        · rw [result]
        · rw [result]
          exact bad
        · rw [result]
          exact List.mem_cons_self
        · rw [result]
          intro member
          rcases List.mem_cons.mp member with same | later
          · cases same
          · exact startEach_not_stopped _ part later
    · have first : startEach ((.source, source) :: p.plugins.rest) = ([.failed .source source], some source) := by
        rw [startEach, if_neg ok]
      rw [first] at result
      refine .nothing (Or.inr (Or.inr ⟨source, configured, Bool.eq_false_iff.mpr ok⟩)) ?_ ?_ fun part => ?_
      · rw [result]
      · rw [result]
        exact Bool.eq_false_iff.mpr ok
      · rw [result]
        constructor
        · intro member
          cases List.mem_singleton.mp member
        · intro member
          cases List.mem_singleton.mp member

private theorem indexed_parts (part : ℕ → Part) (statuses : List Status) :
    (indexed part statuses).map Prod.fst = (List.range statuses.length).map part := by
  rw [indexed, List.map_map, List.range_eq_range', ← List.zipIdx_map_snd 0, List.map_map]
  rfl

/-- No component occurs twice. -/
theorem Plugins.parts_nodup (p : Plugins) : p.parts.Nodup := by
  have processors : ((List.range p.processors_.length).map Part.processor).Nodup :=
    List.nodup_range.map fun _ _ same => Part.processor.inj same
  have sinks : ((List.range p.sinks_.length).map Part.sink).Nodup :=
    List.nodup_range.map fun _ _ same => Part.sink.inj same
  have aggregator : ((p.aggregator_.toList.map (Prod.mk Part.aggregator)).map Prod.fst).Nodup := by
    cases p.aggregator_ <;> simp
  rw [Plugins.parts, Plugins.rest, List.map_append, List.map_append, indexed_parts, indexed_parts, List.nodup_cons,
    List.nodup_append, List.nodup_append]
  refine ⟨by simp, ⟨processors, aggregator, ?_⟩, sinks, ?_⟩
  · simp
  · rintro first member second other rfl
    obtain ⟨index, _, rfl⟩ := List.mem_map.mp other
    simp at member

private theorem count_stopEvents (part : Part) (parts : List Part) :
    (parts.flatMap stopEvents).count (.stopped part) = parts.count part := by
  induction parts with
  | nil => rfl
  | cons head rest ih =>
    rw [List.flatMap_cons, List.count_append, ih, List.count_cons, Nat.add_comm]
    congr 1
    cases head <;> simp [stopEvents, List.count_cons]

private theorem not_started_of_stopEvents (part : Part) (parts : List Part) :
    .started part ∉ parts.flatMap stopEvents := by
  intro member
  obtain ⟨other, _, here⟩ := List.mem_flatMap.mp member
  cases other <;> simp [stopEvents] at here

/-- A pipeline that was started in full and then stopped is clean. -/
theorem clean_of_stopped {p : Pipeline} (running : p.running_ = true) :
    Clean (p.plugins.parts.map .started ++ p.Stop.2) := by
  intro part member
  have stopped : p.Stop.2 = p.plugins.parts.flatMap stopEvents := by
    simp only [Pipeline.Stop, running, if_true, Plugins.parts, List.flatMap_cons, List.flatMap_map]
    rfl
  rw [stopped] at member ⊢
  have present : part ∈ p.plugins.parts := by
    rcases List.mem_append.mp member with start | stop
    · obtain ⟨other, here, same⟩ := List.mem_map.mp start
      cases same
      exact here
    · exact absurd stop (not_started_of_stopEvents part _)
  have none : (p.plugins.parts.map Event.started).count (.stopped part) = 0 :=
    List.count_eq_zero.mpr fun found => by
      obtain ⟨_, _, same⟩ := List.mem_map.mp found
      cases same
  rw [List.count_append, none, count_stopEvents, Nat.zero_add]
  exact List.count_eq_one_of_mem p.plugins.parts_nodup present

/-- With nothing started and nothing stopped there is nothing to clean. -/
private theorem clean_of_silent {log : List Event} (silent : ∀ part, .started part ∉ log) : Clean log :=
  fun part member => absurd member (silent part)

private theorem not_clean_of_halfway {log : List Event} (source : .started .source ∈ log)
    (never : ∀ part, .stopped part ∉ log) : ¬ Clean log := by
  intro clean
  have once := clean .source source
  rw [List.count_eq_zero.mpr (never .source)] at once
  cases once

/-- What a failing `Start` is asked for. -/
def StartClean (plugins : Plugins) : Prop :=
  (Pipeline.built plugins).Start.2.2.ok = false →
    Clean (Pipeline.built plugins).Start.2.1 ∧ (Pipeline.built plugins).Start.1.process_thread_ = false

theorem startClean_iff (plugins : Plugins) : StartClean plugins ↔ plugins.Starts ∨ plugins.StartsNothing := by
  cases start_outcome (.built plugins) with
  | started starts result =>
    refine iff_of_true (fun failed => ?_) (Or.inl starts)
    rw [result] at failed
    cases failed
  | nothing starts state failed log =>
    refine iff_of_true (fun _ => ⟨clean_of_silent fun part => (log part).1, ?_⟩) (Or.inr starts)
    rw [state]
    rfl
  | halfway starts fails state failed source log =>
    refine iff_of_false (fun clean => not_clean_of_halfway source log (clean failed).1) ?_
    rintro (all | nothing)
    · exact fails all
    · exact starts nothing

/-- What a failing `StartAll` is asked for. -/
def StartAllClean (pipelines : List Plugins) : Prop :=
  (PipelineController.built pipelines).StartAll.2.2.ok = false →
    (∀ index, Clean (eventsOf index (PipelineController.built pipelines).StartAll.2.1)) ∧
      ∀ p ∈ (PipelineController.built pipelines).StartAll.1.pipelines_, p.process_thread_ = false

theorem not_starts_of_nothing {p : Plugins} (nothing : p.StartsNothing) : ¬ p.Starts := by
  rintro ⟨source, configured, ok, sinks, _⟩
  rcases nothing with absent | empty | ⟨other, same, bad⟩
  · rw [configured] at absent
    cases absent
  · exact sinks empty
  · rw [configured, Option.some.injEq] at same
    rw [← same, ok] at bad
    cases bad

/-- `Start` returns `Ok` exactly when everything starts. -/
theorem start_ok_iff (p : Pipeline) : p.Start.2.2.ok = true ↔ p.plugins.Starts := by
  cases start_outcome p with
  | started starts result =>
    rw [result]
    exact iff_of_true rfl starts
  | nothing starts _ failed _ =>
    rw [failed]
    exact iff_of_false Bool.false_ne_true (not_starts_of_nothing starts)
  | halfway _ fails _ failed _ _ =>
    rw [failed]
    exact iff_of_false Bool.false_ne_true fails

/-- The calls on each of a list of pipelines, the first of which has this position. -/
def tagged (calls : Pipeline → List Event) (first : ℕ) (pipelines : List Pipeline) : List (ℕ × Event) :=
  (pipelines.zipIdx first).flatMap fun entry => (calls entry.1).map (Prod.mk entry.2)

theorem eventsOf_append (index : ℕ) (left right : List (ℕ × Event)) :
    eventsOf index (left ++ right) = eventsOf index left ++ eventsOf index right := List.filterMap_append ..

private theorem eventsOf_map (index other : ℕ) (log : List Event) :
    eventsOf index (log.map (Prod.mk other)) = if other = index then log else [] := by
  rw [eventsOf, List.filterMap_map]
  split_ifs with same
  · simp [same]
  · simp [same]

private theorem eventsOf_tagged_lt (calls : Pipeline → List Event) {index first : ℕ} (before : index < first)
    (pipelines : List Pipeline) : eventsOf index (tagged calls first pipelines) = [] := by
  induction pipelines generalizing first with
  | nil => rfl
  | cons p rest ih =>
    rw [tagged, List.zipIdx_cons, List.flatMap_cons, eventsOf_append, eventsOf_map, if_neg (by omega)]
    exact ih (by omega)

/-- A pipeline's calls are found at its position. -/
theorem eventsOf_tagged (calls : Pipeline → List Event) (index first : ℕ) (pipelines : List Pipeline) :
    eventsOf (first + index) (tagged calls first pipelines) = (pipelines[index]?.map calls).getD [] := by
  induction pipelines generalizing index first with
  | nil => rfl
  | cons p rest ih =>
    rw [tagged, List.zipIdx_cons, List.flatMap_cons, eventsOf_append, eventsOf_map]
    cases index with
    | zero =>
      have later := eventsOf_tagged_lt calls (Nat.lt_succ_self first) rest
      rw [if_pos (Nat.add_zero first).symm]
      exact (congrArg _ later).trans (List.append_nil _)
    | succ index =>
      have later := ih index (first + 1)
      rw [if_neg (by omega), List.nil_append, List.getElem?_cons_succ, ← later]
      congr 1
      omega

private theorem startPipelines_fails {p : Pipeline} (fails : p.Start.2.2.ok = false) (after : List Pipeline)
    (first : ℕ) (before : List Pipeline) (all : ∀ q ∈ before, q.Start.2.2.ok = true) :
    startPipelines first (before ++ p :: after) =
      (before.map (fun q => q.Start.1) ++ p.Start.1 :: after, tagged (fun q => q.Start.2.1) first (before ++ [p]),
        some p.Start.2.2) := by
  induction before generalizing first with
  | nil =>
    rw [List.nil_append, startPipelines, fails]
    simp [tagged]
  | cons q rest ih =>
    rw [List.cons_append, startPipelines, if_pos (all q List.mem_cons_self),
      ih (first + 1) fun other member => all other (List.mem_cons_of_mem _ member)]
    rfl

private theorem startPipelines_all (first : ℕ) (pipelines : List Pipeline)
    (all : ∀ q ∈ pipelines, q.Start.2.2.ok = true) : (startPipelines first pipelines).2.2 = none := by
  induction pipelines generalizing first with
  | nil => rfl
  | cons q rest ih =>
    rw [startPipelines, if_pos (all q List.mem_cons_self)]
    exact ih (first + 1) fun other member => all other (List.mem_cons_of_mem _ member)

private theorem exists_first_not {α : Type*} (holds : α → Prop) [DecidablePred holds] (entries : List α) :
    (∀ entry ∈ entries, holds entry) ∨
      ∃ before entry after, entries = before ++ entry :: after ∧ (∀ other ∈ before, holds other) ∧ ¬ holds entry := by
  induction entries with
  | nil => exact Or.inl nofun
  | cons head rest ih =>
    by_cases here : holds head
    · rcases ih with all | ⟨before, entry, after, rfl, all, fails⟩
      · exact Or.inl (List.forall_mem_cons.mpr ⟨here, all⟩)
      · exact Or.inr ⟨head :: before, entry, after, rfl, List.forall_mem_cons.mpr ⟨here, all⟩, fails⟩
    · exact Or.inr ⟨[], head, rest, rfl, nofun, here⟩

private theorem state_of_failed {p : Pipeline} (fails : p.Start.2.2.ok = false) : p.Start.1 = p := by
  cases start_outcome p with
  | started _ result =>
    rw [result] at fails
    cases fails
  | nothing _ state => exact state
  | halfway _ _ state => exact state

private theorem stop_of_started (p : Pipeline) : p.Stop.1.process_thread_ = (p.process_thread_ && !p.running_) := by
  unfold Pipeline.Stop
  split_ifs with running
  · rw [running, Bool.not_true, Bool.and_false]
  · rw [Bool.eq_false_iff.mpr running, Bool.not_false, Bool.and_true]

/-- The list of pipelines that `StopAll` finds after a failed `StartAll`. -/
private def left (before after : List Plugins) : List Pipeline :=
  before.map (fun q => (Pipeline.built q).Start.1) ++ after.map .built

private theorem eventsOf_stop (before after : List Plugins) (index : ℕ) :
    eventsOf index (tagged (fun q => q.Stop.2) 0 (left before after)) =
      (before[index]?.map fun q => (Pipeline.built q).Start.1.Stop.2).getD [] := by
  rw [← Nat.zero_add index, eventsOf_tagged, Nat.zero_add, left]
  by_cases early : index < before.length
  · rw [List.getElem?_append_left (by rwa [List.length_map]), List.getElem?_map, Option.map_map]
    rfl
  · have none : before[index]? = none := List.getElem?_eq_none (by omega)
    rw [List.getElem?_append_right (by rw [List.length_map]; omega), none, List.getElem?_map, Option.map_map]
    cases after[index - (before.map fun q => (Pipeline.built q).Start.1).length]? <;> rfl

/-- What `StartAll` leaves behind when the pipelines before the failing one have all started. -/
private theorem startAll_fails {p : Plugins} (fails : (Pipeline.built p).Start.2.2.ok = false) (before after : List Plugins)
    (all : ∀ q ∈ before, (Pipeline.built q).Start.2.2.ok = true) :
    (PipelineController.built (before ++ p :: after)).StartAll =
      (⟨(left before (p :: after)).map fun q => q.Stop.1, false, false⟩,
        tagged (fun q => q.Start.2.1) 0 ((before ++ [p]).map .built) ++
          tagged (fun q => q.Stop.2) 0 (left before (p :: after)),
        (Pipeline.built p).Start.2.2) := by
  have loop := startPipelines_fails fails (after.map .built) 0 (before.map .built) (List.forall_mem_map.mpr all)
  rw [state_of_failed fails, List.map_map] at loop
  simp only [PipelineController.StartAll, PipelineController.built, List.map_append, List.map_cons, List.map_nil, loop]
  rfl

/-- No process thread is left. -/
private theorem no_thread_left (before after : List Plugins)
    (all : ∀ q ∈ before, (Pipeline.built q).Start.2.2.ok = true) :
    ∀ q ∈ (left before after).map fun q => q.Stop.1, q.process_thread_ = false := by
  refine List.forall_mem_map.mpr fun q member => ?_
  rw [stop_of_started]
  rcases List.mem_append.mp member with earlier | later
  · obtain ⟨plugins, present, rfl⟩ := List.mem_map.mp earlier
    cases start_outcome (.built plugins) with
    | started _ result =>
      rw [result]
      rfl
    | nothing _ _ failed =>
      rw [all plugins present] at failed
      cases failed
    | halfway _ _ _ failed =>
      rw [all plugins present] at failed
      cases failed
  · obtain ⟨plugins, _, rfl⟩ := List.mem_map.mp later
    rfl

/-- The pipelines that started before the failing one are clean, so all is clean when that one is. -/
private theorem clean_iff_last {p : Plugins} (fails : (Pipeline.built p).Start.2.2.ok = false)
    (before after : List Plugins) (all : ∀ q ∈ before, (Pipeline.built q).Start.2.2.ok = true) :
    (∀ index, Clean (eventsOf index (PipelineController.built (before ++ p :: after)).StartAll.2.1)) ↔
      Clean (Pipeline.built p).Start.2.1 := by
  have calls (index : ℕ) : eventsOf index (PipelineController.built (before ++ p :: after)).StartAll.2.1 =
      ((before ++ [p])[index]?.map fun q => (Pipeline.built q).Start.2.1).getD [] ++
        (before[index]?.map fun q => (Pipeline.built q).Start.1.Stop.2).getD [] := by
    rw [startAll_fails fails before after all, eventsOf_append, eventsOf_stop]
    refine congrArg (· ++ _) ?_
    rw [← Nat.zero_add index, eventsOf_tagged, Nat.zero_add, List.getElem?_map, Option.map_map]
    rfl
  have own : ((before ++ [p])[before.length]?.map fun q => (Pipeline.built q).Start.2.1).getD [] ++
      (before[before.length]?.map fun q => (Pipeline.built q).Start.1.Stop.2).getD [] =
        (Pipeline.built p).Start.2.1 ++ [] := by
    rw [List.getElem?_append_right (Nat.le_refl _), Nat.sub_self, List.getElem?_eq_none (Nat.le_refl _)]
    rfl
  constructor
  · intro clean
    have here := clean before.length
    rw [calls, own, List.append_nil] at here
    exact here
  · intro clean index
    rw [calls]
    rcases Nat.lt_trichotomy index before.length with earlier | same | later
    · rw [List.getElem?_append_left earlier, List.getElem?_eq_getElem earlier]
      have ok := all _ (List.getElem_mem earlier)
      cases start_outcome (.built before[index]) with
      | started _ result =>
        have stopped := clean_of_stopped (p := (Pipeline.built before[index]).Start.1) (by rw [result])
        rw [Option.map_some, Option.map_some, Option.getD_some, Option.getD_some]
        rw [result] at stopped ⊢
        exact stopped
      | nothing _ _ failed =>
        rw [ok] at failed
        cases failed
      | halfway _ _ _ failed =>
        rw [ok] at failed
        cases failed
    · rw [same, own, List.append_nil]
      exact clean
    · rw [List.getElem?_eq_none (by rw [List.length_append, List.length_singleton]; omega),
        List.getElem?_eq_none (by omega)]
      exact clean_of_silent fun _ => List.not_mem_nil

/-- The first pipeline that does not start has not started any component. -/
def FailsEarly (pipelines : List Plugins) : Prop :=
  ∀ before p after, pipelines = before ++ p :: after → (∀ q ∈ before, q.Starts) → ¬ p.Starts → p.StartsNothing

private theorem first_not_unique {α : Type*} {holds : α → Prop} {before before' after after' : List α} {entry entry' : α}
    (same : before ++ entry :: after = before' ++ entry' :: after') (all : ∀ other ∈ before, holds other)
    (fails : ¬ holds entry) (all' : ∀ other ∈ before', holds other) (fails' : ¬ holds entry') : entry = entry' := by
  induction before generalizing before' with
  | nil =>
    cases before' with
    | nil => exact (List.cons.inj same).1
    | cons head rest =>
      rw [List.nil_append, List.cons_append] at same
      rw [(List.cons.inj same).1] at fails
      exact absurd (all' head List.mem_cons_self) fails
  | cons head rest ih =>
    cases before' with
    | nil =>
      rw [List.nil_append, List.cons_append] at same
      rw [← (List.cons.inj same).1] at fails'
      exact absurd (all head List.mem_cons_self) fails'
    | cons head' rest' =>
      exact ih (List.cons.inj same).2 (fun other member => all other (List.mem_cons_of_mem _ member))
        fun other member => all' other (List.mem_cons_of_mem _ member)

/-- A failing `Start` is clean on its own exactly when nothing was started. -/
private theorem clean_start_iff {p : Plugins} (fails : (Pipeline.built p).Start.2.2.ok = false) :
    Clean (Pipeline.built p).Start.2.1 ↔ p.StartsNothing := by
  cases start_outcome (.built p) with
  | started _ result =>
    rw [result] at fails
    cases fails
  | nothing starts _ _ log => exact iff_of_true (clean_of_silent fun part => (log part).1) starts
  | halfway starts _ _ _ source log => exact iff_of_false (not_clean_of_halfway source log) starts

theorem startAllClean_iff (pipelines : List Plugins) : StartAllClean pipelines ↔ FailsEarly pipelines := by
  rcases exists_first_not (fun q : Plugins => (Pipeline.built q).Start.2.2.ok = true) pipelines with
    all | ⟨before, p, after, rfl, all, fails⟩
  · have started : (PipelineController.built pipelines).StartAll.2.2 = .Ok := by
      have loop := startPipelines_all 0 (pipelines.map .built) (List.forall_mem_map.mpr all)
      unfold PipelineController.StartAll
      split
      · next failing =>
        rw [PipelineController.built] at failing
        rw [failing] at loop
        cases loop
      · rfl
    refine iff_of_true (fun failed => ?_) ?_
    · rw [started] at failed
      cases failed
    · rintro before p after rfl _ fails
      exact absurd ((start_ok_iff _).mp (all p (by simp))) fails
  · have failed := Bool.eq_false_iff.mpr fails
    have result := startAll_fails failed before after all
    have status : (PipelineController.built (before ++ p :: after)).StartAll.2.2.ok = false := by
      rw [result]
      exact failed
    have threads : ∀ q ∈ (PipelineController.built (before ++ p :: after)).StartAll.1.pipelines_,
        q.process_thread_ = false := by
      rw [result]
      exact no_thread_left before (p :: after) all
    have cleaning := (clean_iff_last failed before after all).trans (clean_start_iff failed)
    constructor
    · intro clean before' p' after' same all' fails'
      have first : p = p' := first_not_unique same (fun q member => (start_ok_iff _).mp (all q member))
        (fun starts => fails ((start_ok_iff _).mpr starts)) all' fails'
      rw [← first]
      exact cleaning.mp (clean status).1
    · intro early _
      exact ⟨cleaning.mpr (early before p after rfl (fun q member => (start_ok_iff _).mp (all q member))
        fun starts => fails ((start_ok_iff _).mpr starts)), threads⟩

/-- A failing `Start`, and a failing `StartAll`, cleans up completely if and only if the pipeline that
fails has not started any of its components. -/
theorem start_all_or_nothing (plugins : Plugins) (pipelines : List Plugins) :
    (StartClean plugins ↔ plugins.Starts ∨ plugins.StartsNothing) ∧
      (StartAllClean pipelines ↔ FailsEarly pipelines) :=
  ⟨startClean_iff plugins, startAllClean_iff pipelines⟩

/-- A pipeline whose source starts and whose only sink does not. -/
def sinkFails : Plugins := ⟨"p", some .Ok, [], none, [.Error .kInternal "e"]⟩

/-- The source that was started is not stopped, neither by `Start` nor by `StartAll`. -/
theorem start_leaves_source : ¬ StartClean sinkFails ∧ ¬ StartAllClean [sinkFails] := by
  constructor
  · intro clean
    have once := (clean (by decide)).1 .source (by decide)
    exact absurd once (by decide)
  · intro clean
    have once := (clean (by decide)).1 0 .source (by decide)
    exact absurd once (by decide)

end Lifecycle

end Illuminator
