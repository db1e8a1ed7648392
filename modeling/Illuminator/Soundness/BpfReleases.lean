import Illuminator.Machine.Actions
import Illuminator.Model.BpfResources
import Illuminator.Soundness.FailedStarts
import Mathlib.Algebra.Order.Group.Multiset
import Mathlib.Tactic.Abel

/-! # What the sources release

A source is started and stopped in any order, whatever libbpf and the kernel answer, and in the end it is destroyed.
Everything that was made for it is then released once and not used later, but for the objects that another load under
their name has replaced, and for the perf events of a failed start that no stop followed.
-/

namespace Illuminator

namespace BpfResources

open Descriptors (Owns)
open SourceStart (Bpf Perf Loads)

instance (bpf : Bpf) : Decidable (Loads bpf) := inferInstanceAs (Decidable (_ ∧ _))

/-- What a source holds. -/
def held (s : Source) : Multiset Handle :=
  ↑(s.objects_.map Prod.snd) + ↑s.links_ + ↑s.perf_fds_ + ↑s.ring_buf_.toList + ↑s.poll_thread_.toList +
    ↑s.agg_thread_.toList

/-- Everything that is open is held or an object that was replaced. There is one object less than loads. -/
structure Accounted (name : String) (loads : ℕ) (lost : Multiset Handle) (s : Source) : Prop where
  owns : Owns id s.calls (held s + lost)
  numbered : ∀ a, .opened a ∈ s.calls → a.number < s.made
  objects : ∀ a ∈ lost, a.type = .bpf_object
  loaded : s.objects_ = [] ∧ lost = 0 ∧ loads = 0 ∨
    ∃ obj, s.objects_ = [(name, obj)] ∧ obj.type = .bpf_object ∧ lost.card + 1 = loads

variable {name : String} {loads : ℕ} {lost : Multiset Handle} {s : Source} {bpf : Bpf}

/-- The handle that is made next is new. -/
theorem Accounted.opened (accounted : Accounted name loads lost s) (type : HandleType) :
    Owns id (s.make type).calls (s.fresh type ::ₘ (held s + lost)) := by
  have fresh : .opened (s.fresh type) ∉ s.calls := fun before => absurd (accounted.numbered _ before) (lt_irrefl s.made)
  refine accounted.owns.opened (fun b member same => fresh ?_) fresh
  rw [← show b = s.fresh type from same]
  exact accounted.owns.opened_mem member

theorem numbered_make (numbered : ∀ a, .opened a ∈ s.calls → a.number < s.made) (type : HandleType) :
    ∀ a, .opened a ∈ (s.make type).calls → a.number < (s.make type).made := by
  intro a before
  rcases List.mem_append.mp before with earlier | now
  · exact Nat.lt_succ_of_lt (numbered a earlier)
  · cases List.mem_singleton.mp now
    exact Nat.lt_succ_self s.made

theorem numbered_append {calls : List (Descriptors.Call Handle)} (none_ : ∀ a, .opened a ∉ calls)
    (numbered : ∀ a, .opened a ∈ s.calls → a.number < s.made) :
    ∀ a, .opened a ∈ s.calls ++ calls → a.number < s.made := by
  intro a before
  exact numbered a ((List.mem_append.mp before).resolve_right (none_ a))

theorem Accounted.use (accounted : Accounted name loads lost s) {a : Handle} (here : a ∈ held s) :
    Accounted name loads lost (s.use a) where
  owns := accounted.owns.used (Multiset.mem_add.mpr (Or.inl here))
  numbered := numbered_append (by simp) accounted.numbered
  objects := accounted.objects
  loaded := accounted.loaded

/-- A source without a thread. -/
structure Ready (name : String) (loads : ℕ) (lost : Multiset Handle) (s : Source) : Prop
    extends Accounted name loads lost s where
  ring : s.ring_buf_ = none
  poll : s.poll_thread_ = none
  agg : s.agg_thread_ = none

theorem Ready.use (ready : Ready name loads lost s) {a : Handle} (here : a ∈ held s) : Ready name loads lost (s.use a) :=
  ⟨ready.toAccounted.use here, ready.ring, ready.poll, ready.agg⟩

/-- Something new that is used. -/
theorem Accounted.tries (accounted : Accounted name loads lost s) {type : HandleType}
    {uses : List (Descriptors.Call Handle)} (own : ∀ call ∈ uses, call = .used (s.fresh type)) :
    Owns id ((s.make type).calls ++ uses) (s.fresh type ::ₘ (held s + lost)) ∧
      ∀ a, .opened a ∈ (s.make type).calls ++ uses → a.number < s.made + 1 := by
  constructor
  · induction uses using List.reverseRecOn with
    | nil =>
      rw [List.append_nil]
      exact accounted.opened type
    | append_singleton before call ih =>
      rw [own call (List.mem_append_right _ (List.mem_singleton.mpr rfl)), ← List.append_assoc]
      exact (ih fun call member => own call (List.mem_append_left _ member)).used (Multiset.mem_cons_self _ _)
  · refine numbered_append (s := s.make type) (fun a before => ?_) (numbered_make accounted.numbered type)
    cases own _ before

/-- Something that is made, used and not kept. -/
theorem Ready.tried (ready : Ready name loads lost s) (type : HandleType) (uses : List (Descriptors.Call Handle))
    (own : ∀ call ∈ uses, call = .used (s.fresh type)) : Ready name loads lost
      { s with made := s.made + 1, calls := (s.make type).calls ++ uses ++ [.closed (s.fresh type)] } := by
  obtain ⟨owns, numbered⟩ := ready.tries own
  refine ⟨⟨owns.closed, ?_, ready.objects, ready.loaded⟩, ready.ring, ready.poll, ready.agg⟩
  exact numbered_append (s := { s.make type with calls := (s.make type).calls ++ uses }) (by simp) numbered

/-- An object takes the place of the one before it. -/
theorem Ready.assigned (ready : Ready name loads lost s) {calls : List (Descriptors.Call Handle)} {made : ℕ}
    {obj : Handle} (type : obj.type = .bpf_object) (owns : Owns id calls (obj ::ₘ (held s + lost)))
    (numbered : ∀ a, .opened a ∈ calls → a.number < made) :
    ∃ kept, Ready name (loads + 1) kept { s with
      objects_ := (name, obj) :: s.objects_.filter fun entry => entry.1 ≠ name, made := made, calls := calls } := by
  rcases ready.loaded with ⟨before, first, never⟩ | ⟨old, before, oldType, count⟩
  · have alone : (name, obj) :: s.objects_.filter (fun entry => entry.1 ≠ name) = [(name, obj)] := by
      rw [before, List.filter_nil]
    rw [alone]
    refine ⟨lost, ⟨⟨?_, numbered, ready.objects, Or.inr ⟨obj, rfl, type, ?_⟩⟩, ready.ring, ready.poll, ready.agg⟩⟩
    · convert owns using 1
      simp only [held, before, List.map_nil, List.map_cons, Multiset.coe_nil, Multiset.coe_singleton, zero_add,
        Multiset.singleton_add, Multiset.cons_add]
    · rw [first, never]
      rfl
  · have alone : (name, obj) :: s.objects_.filter (fun entry => entry.1 ≠ name) = [(name, obj)] := by
      rw [before, List.filter_cons_of_neg (by simp), List.filter_nil]
    rw [alone]
    refine ⟨old ::ₘ lost, ⟨⟨?_, numbered, ?_, Or.inr ⟨obj, rfl, type, ?_⟩⟩, ready.ring, ready.poll, ready.agg⟩⟩
    · convert owns using 1
      simp only [held, before, List.map_nil, List.map_cons, Multiset.coe_singleton, Multiset.singleton_add,
        Multiset.cons_add, Multiset.add_cons]
      exact Multiset.cons_swap ..
    · intro a member
      rcases Multiset.mem_cons.mp member with rfl | earlier
      · exact oldType
      · exact ready.objects a earlier
    · rw [Multiset.card_cons, count]

theorem Ready.LoadObject (ready : Ready name loads lost s) (bpf : Bpf) (path : String) :
    (∃ kept, Ready name (loads + if Loads bpf then 1 else 0) kept (LoadObject bpf name path s).2) ∧
      ((LoadObject bpf name path s).1.ok = true ↔ Loads bpf) := by
  unfold BpfResources.LoadObject
  by_cases opens : bpf.bpf_object__open = false
  · have fails : ¬ Loads bpf := fun loads => absurd (opens.symm.trans loads.1) Bool.false_ne_true
    rw [if_pos opens, if_neg fails]
    exact ⟨⟨lost, ready⟩, iff_of_false Bool.false_ne_true fails⟩
  · rw [if_neg opens]
    by_cases fails : bpf.bpf_object__load ≠ 0
    · have not_ : ¬ Loads bpf := fun loads => fails loads.2
      simp only [if_pos fails, if_neg not_]
      refine ⟨⟨lost, ?_⟩, iff_of_false Bool.false_ne_true not_⟩
      exact ready.tried .bpf_object [.used (s.fresh .bpf_object)] fun call member => List.mem_singleton.mp member
    · have succeeds : Loads bpf := ⟨by simpa using opens, not_not.mp fails⟩
      simp only [if_neg fails, if_pos succeeds]
      refine ⟨?_, iff_of_true rfl succeeds⟩
      refine ready.assigned rfl ((ready.opened .bpf_object).used (Multiset.mem_cons_self _ _)) ?_
      exact numbered_append (s := s.make .bpf_object) (by simp) (numbered_make ready.numbered .bpf_object)

theorem Ready.lookIn (ready : Ready name loads lost s) {after : Source} (found : lookIn name s = some after) :
    Ready name loads lost after := by
  obtain ⟨obj, present, rfl⟩ := Option.map_eq_some_iff.mp found
  refine ready.use ?_
  have inside : obj ∈ s.objects_.map Prod.snd := by
    obtain ⟨first, later, split, -⟩ := List.lookup_eq_some_iff.mp present
    rw [split]
    exact List.mem_map_of_mem (List.mem_append_right _ List.mem_cons_self)
  simp only [held, Multiset.mem_add, Multiset.mem_coe, inside, true_or]

theorem Ready.GetMapFd (ready : Ready name loads lost s) (bpf : Bpf) (map_name : String) :
    Ready name loads lost (GetMapFd bpf name map_name s).2 := by
  unfold BpfResources.GetMapFd
  cases found : BpfResources.lookIn name s with
  | none => exact ready
  | some after => exact ready.lookIn found

theorem Ready.GetProgFd (ready : Ready name loads lost s) (bpf : Bpf) (prog_name : String) :
    Ready name loads lost (GetProgFd bpf name prog_name s).2 := by
  unfold BpfResources.GetProgFd
  cases found : BpfResources.lookIn name s with
  | none => exact ready
  | some after => exact ready.lookIn found

/-- Something that is made, used and kept. -/
theorem Ready.kept (ready : Ready name loads lost s) (type : HandleType) (links perf_fds : List Handle)
    (uses : List (Descriptors.Call Handle)) (own : ∀ call ∈ uses, call = .used (s.fresh type))
    (more : (links : Multiset Handle) + perf_fds = s.fresh type ::ₘ (↑s.links_ + ↑s.perf_fds_)) :
    Ready name loads lost { s with
      links_ := links, perf_fds_ := perf_fds, made := s.made + 1, calls := (s.make type).calls ++ uses } := by
  obtain ⟨owns, numbered⟩ := ready.tries own
  refine ⟨⟨?_, numbered, ready.objects, ready.loaded⟩, ready.ring, ready.poll, ready.agg⟩
  convert owns using 1
  simp only [held, add_assoc]
  rw [← add_assoc (links : Multiset Handle), more]
  simp only [Multiset.cons_add, Multiset.add_cons, add_assoc]

theorem Ready.AttachProgram (ready : Ready name loads lost s) (bpf : Bpf) (prog_name : String) :
    Ready name loads lost (AttachProgram bpf name prog_name s).2 := by
  unfold BpfResources.AttachProgram
  cases found : BpfResources.lookIn name s with
  | none => exact ready
  | some after =>
    have next := ready.lookIn found
    dsimp only
    split_ifs
    · exact next
    · exact next
    · have kept := next.kept .bpf_link (after.links_ ++ [after.fresh .bpf_link]) after.perf_fds_ [] (by simp) ?_
      · rwa [List.append_nil] at kept
      · rw [← Multiset.coe_add, Multiset.coe_singleton, add_assoc, Multiset.singleton_add, Multiset.add_cons]

theorem Ready.attachEach (bpf : Bpf) {prog_names : List String} (ready : Ready name loads lost s) :
    Ready name loads lost (attachEach bpf name prog_names s).2 := by
  induction prog_names generalizing s with
  | nil => exact ready
  | cons prog_name rest ih => exact ih (ready.AttachProgram bpf prog_name)

theorem Ready.AttachPrograms (ready : Ready name loads lost s) (bpf : Bpf) (prog_names : List String) :
    Ready name loads lost (AttachPrograms bpf name prog_names s).2 := by
  unfold BpfResources.AttachPrograms
  dsimp only
  split_ifs
  · exact ready.attachEach bpf
  · exact ready.attachEach bpf

theorem Ready.openPerf (ready : Ready name loads lost s) (perf : Perf) (cpu : ℕ) :
    Ready name loads lost (openPerf perf s cpu) := by
  unfold BpfResources.openPerf
  split_ifs
  · exact ready
  · exact ready.tried .perf_event [.used (s.fresh .perf_event)] (by simp)
  · have tried := ready.tried .perf_event [.used (s.fresh .perf_event), .used (s.fresh .perf_event)] (by simp)
    simpa only [Source.use, Source.release, Source.make, List.append_assoc, List.cons_append, List.nil_append] using tried
  · have kept := ready.kept .perf_event s.links_ (s.perf_fds_ ++ [s.fresh .perf_event])
      [.used (s.fresh .perf_event), .used (s.fresh .perf_event)] (by simp) ?_
    · simpa only [Source.use, Source.make, List.append_assoc, List.cons_append, List.nil_append] using kept
    · rw [← Multiset.coe_add, Multiset.coe_singleton, ← add_assoc, ← Multiset.singleton_add, add_comm]

theorem Ready.openEach (ready : Ready name loads lost s) (perf : Perf) (cpus : List ℕ) :
    Ready name loads lost (cpus.foldl (BpfResources.openPerf perf) s) := by
  induction cpus generalizing s with
  | nil => exact ready
  | cons cpu rest ih => exact ih (ready.openPerf perf cpu)

/-- A thread or a ring buffer that comes where there was none. -/
theorem Accounted.begun (accounted : Accounted name loads lost s) (type : HandleType) (ring poll agg : Option Handle)
    (more : (ring.toList : Multiset Handle) + poll.toList + agg.toList =
      s.fresh type ::ₘ (↑s.ring_buf_.toList + ↑s.poll_thread_.toList + ↑s.agg_thread_.toList)) :
    Accounted name loads lost
      { s.make type with ring_buf_ := ring, poll_thread_ := poll, agg_thread_ := agg } := by
  refine ⟨?_, numbered_make accounted.numbered type, accounted.objects, accounted.loaded⟩
  convert accounted.opened type using 1
  simp only [held, Source.make, add_assoc] at more ⊢
  rw [← add_assoc (poll.toList : Multiset Handle), ← add_assoc (ring.toList : Multiset Handle), more]
  simp only [Multiset.cons_add, Multiset.add_cons, add_assoc]

/-- What a start leaves: a thread that polls has its ring buffer, and there is none without it. -/
def Started (name : String) (loads : ℕ) (lost : Multiset Handle) (s : Source) : Prop :=
  Accounted name loads lost s ∧ s.poll_thread_.isSome = s.ring_buf_.isSome

theorem Ready.started (ready : Ready name loads lost s) : Started name loads lost s :=
  ⟨ready.toAccounted, by rw [ready.poll, ready.ring]⟩

theorem Ready.launchPoll (ready : Ready name loads lost s) (bpf : Bpf) (map_fd : ℤ) (message : String) :
    Started name loads lost (launchPoll bpf map_fd message s).2 := by
  unfold BpfResources.launchPoll
  split_ifs
  · have same : { s with ring_buf_ := none } = s := by rw [← ready.ring]
    rw [same]
    exact ready.started
  · have ring := ready.toAccounted.begun .ring_buffer (some (s.fresh .ring_buffer)) s.poll_thread_ s.agg_thread_
      (by simp [ready.ring])
    have thread := ring.begun .thread (some (s.fresh .ring_buffer)) (some ((s.make .ring_buffer).fresh .thread))
      s.agg_thread_ (by simp [ready.poll]; exact List.Perm.swap ..)
    exact ⟨thread, rfl⟩

theorem Ready.launchAggregated (ready : Ready name loads lost s) :
    Started name loads lost { s.make .thread with agg_thread_ := some (s.fresh .thread) } := by
  refine ⟨ready.toAccounted.begun .thread s.ring_buf_ s.poll_thread_ _ ?_, ready.started.2⟩
  simp only [ready.agg, Option.toList_none, Option.toList_some, Multiset.coe_nil, Multiset.coe_singleton, add_zero]
  rw [add_comm, Multiset.singleton_add]

/-! ## Starting -/

theorem started_orReturn {called : Status × Source} {rest : Source → Status × Source}
    (failed : called.1.ok = false → Started name loads lost called.2)
    (passed : called.1.ok = true → Started name loads lost (rest called.2).2) :
    Started name loads lost (orReturn called rest).2 := by
  unfold orReturn
  split_ifs with ok
  · exact passed ok
  · exact failed (Bool.eq_false_of_not_eq_true ok)

/-- An object is loaded first. -/
theorem Ready.started_loaded (ready : Ready name loads lost s) (bpf : Bpf) (path : String)
    {rest : Source → Status × Source}
    (passed : ∀ {kept after}, Ready name (loads + 1) kept after → Started name (loads + 1) kept (rest after).2) :
    ∃ kept, Started name (loads + if Loads bpf then 1 else 0) kept
      (orReturn (BpfResources.LoadObject bpf name path s) rest).2 := by
  obtain ⟨⟨kept, after⟩, ok⟩ := ready.LoadObject bpf path
  refine ⟨kept, started_orReturn (fun _ => after.started) fun succeeds => ?_⟩
  rw [if_pos (ok.mp succeeds)] at after ⊢
  exact passed after

def Kind.object_name : Kind → String
  | .CpuProfilerSource _ => "cpu_profiler"
  | .OffcpuProfilerSource _ => "offcpu_profiler"
  | .SchedAnalyzerSource _ => "sched_analyzer"
  | .EbpfRingBufferSource _ bpf_cfg => bpf_cfg.object_name

def Kind.bpf_obj_path_ : Kind → String
  | .CpuProfilerSource config => config.bpf_obj_path_
  | .OffcpuProfilerSource path => path
  | .SchedAnalyzerSource config => config.bpf_obj_path_
  | .EbpfRingBufferSource path _ => path

/-- The action loads an object. -/
def Kind.isLoad (kind : Kind) : Act → Bool
  | .Start bpf _ => kind.bpf_obj_path_ ≠ "" ∧ Loads bpf
  | .Stop => false
  | .poll => false

theorem EbpfRingBufferSource.started {bpf_cfg : SourceStart.EbpfSourceBpfConfig}
    (ready : Ready bpf_cfg.object_name loads lost s) (bpf : Bpf) {path : String} (given : path ≠ "") :
    ∃ kept, Started bpf_cfg.object_name (loads + if Loads bpf then 1 else 0) kept
      (EbpfRingBufferSource.Start path bpf_cfg bpf s).2 := by
  rw [EbpfRingBufferSource.Start, if_neg given]
  refine ready.started_loaded bpf path fun loaded => ?_
  have attached := loaded.AttachPrograms bpf bpf_cfg.program_names
  refine started_orReturn (fun _ => attached.started) fun _ => ?_
  dsimp only
  split_ifs
  · exact (attached.GetMapFd bpf bpf_cfg.map_name).started
  · exact (attached.GetMapFd bpf bpf_cfg.map_name).launchPoll bpf _ _

theorem OffcpuProfilerSource.started (ready : Ready "offcpu_profiler" loads lost s) (bpf : Bpf) {path : String}
    (given : path ≠ "") : ∃ kept, Started "offcpu_profiler" (loads + if Loads bpf then 1 else 0) kept
      (OffcpuProfilerSource.Start path bpf s).2 := by
  rw [OffcpuProfilerSource.Start, if_neg given]
  refine ready.started_loaded bpf path fun loaded => ?_
  have attached := loaded.AttachProgram bpf "trace_offcpu"
  refine started_orReturn (fun _ => attached.started) fun _ => ?_
  have found := (attached.GetMapFd bpf "offcpu_stacks").GetMapFd bpf "offcpu_events"
  dsimp only
  split_ifs
  · exact found.started
  · exact found.launchPoll bpf _ _

theorem SchedAnalyzerSource.started (ready : Ready "sched_analyzer" loads lost s) (bpf : Bpf)
    {config : SourceStart.SchedConfig} (given : config.bpf_obj_path_ ≠ "") :
    ∃ kept, Started "sched_analyzer" (loads + if Loads bpf then 1 else 0) kept
      (SchedAnalyzerSource.Start config bpf s).2 := by
  rw [SchedAnalyzerSource.Start, if_neg given]
  refine ready.started_loaded bpf _ fun loaded => ?_
  have attached := (loaded.GetMapFd bpf "sched_analyzer_cfg").AttachPrograms bpf config.progs
  refine started_orReturn (fun _ => attached.started) fun _ => ?_
  have counted := attached.GetMapFd bpf "sched_agg"
  have found := counted.GetMapFd bpf "sched_analyzer_events"
  unfold SchedAnalyzerSource.poll
  dsimp only
  split_ifs
  · exact found.started
  · exact found.launchPoll bpf _ _
  · exact counted.started

theorem CpuProfilerSource.started (ready : Ready "cpu_profiler" loads lost s) (bpf : Bpf) (perf : Perf)
    {config : SourceStart.ProfilerConfig} (given : config.bpf_obj_path_ ≠ "") :
    ∃ kept, Started "cpu_profiler" (loads + if Loads bpf then 1 else 0) kept
      (CpuProfilerSource.Start config bpf perf s).2 := by
  rw [CpuProfilerSource.Start, if_neg given]
  refine ready.started_loaded bpf _ fun loaded => ?_
  have maps := (loaded.GetMapFd bpf "stacks").GetMapFd bpf "stack_counts"
  have filtered : Ready "cpu_profiler" _ _ (ApplyFilterMaps bpf _) :=
    ((maps.GetMapFd bpf "cpu_profiler_cfg").GetMapFd bpf "target_pids").GetMapFd bpf "target_comms"
  have program := filtered.GetProgFd bpf "on_cpu_sample"
  have sampling := program.openEach perf perf.sampled
  have found := sampling.GetMapFd bpf "cpu_events"
  dsimp only
  split_ifs
  · exact maps.started
  · exact program.started
  · unfold CpuProfilerSource.sample CpuProfilerSource.launch
    dsimp only
    split_ifs
    · exact sampling.started
    · exact found.started
    · exact found.launchPoll bpf _ _
    · exact sampling.launchAggregated

theorem Kind.started (kind : Kind) (ready : Ready kind.object_name loads lost s) (bpf : Bpf) (perf : Perf) :
    ∃ kept, Started kind.object_name (loads + if kind.isLoad (.Start bpf perf) then 1 else 0) kept
      (kind.Start bpf perf s).2 := by
  by_cases given : kind.bpf_obj_path_ = ""
  · have same : (kind.Start bpf perf s).2 = s := by
      cases kind with
      | CpuProfilerSource config => exact congrArg Prod.snd (if_pos given)
      | OffcpuProfilerSource path => exact congrArg Prod.snd (if_pos given)
      | SchedAnalyzerSource config => exact congrArg Prod.snd (if_pos given)
      | EbpfRingBufferSource path bpf_cfg => exact congrArg Prod.snd (if_pos given)
    have never : kind.isLoad (.Start bpf perf) = false := decide_eq_false fun loads => loads.1 given
    rw [same, never]
    exact ⟨lost, ready.started⟩
  · have counts : (if kind.isLoad (.Start bpf perf) then 1 else 0) = if Loads bpf then 1 else 0 := by
      simp only [Kind.isLoad, ne_eq, given, not_false_eq_true, true_and, decide_eq_true_eq]
    rw [counts]
    cases kind with
    | CpuProfilerSource config => exact CpuProfilerSource.started ready bpf perf given
    | OffcpuProfilerSource path => exact OffcpuProfilerSource.started ready bpf given
    | SchedAnalyzerSource config => exact SchedAnalyzerSource.started ready bpf given
    | EbpfRingBufferSource path bpf_cfg => exact EbpfRingBufferSource.started ready bpf given

/-! ## Stopping -/

/-- Several things that are held are released. -/
theorem Accounted.released (accounted : Accounted name loads lost s) {after : Source} (l : List Handle)
    {calls : List (Descriptors.Call Handle)} (less : held s = ↑l + held after) (objects : after.objects_ = s.objects_)
    (made : after.made = s.made) (log : after.calls = s.calls ++ calls)
    (each : calls = l.map .closed ∨ calls = l.flatMap fun a => [.used a, .closed a]) :
    Accounted name loads lost after := by
  have owns := accounted.owns
  rw [less, add_assoc] at owns
  refine ⟨?_, ?_, accounted.objects, ?_⟩
  · rw [log]
    rcases each with rfl | rfl
    · exact owns.closeAll
    · exact owns.closeEach
  · rw [log, made]
    refine numbered_append ?_ accounted.numbered
    rcases each with rfl | rfl <;> simp
  · rw [objects]
    exact accounted.loaded

theorem Accounted.DetachAll (accounted : Accounted name loads lost s) : Accounted name loads lost (DetachAll s) := by
  refine accounted.released s.links_ ?_ rfl rfl rfl (Or.inl rfl)
  simp only [held, BpfResources.DetachAll, Source.releaseAll, Multiset.coe_nil]
  abel

theorem Accounted.Stop (accounted : Accounted name loads lost s) : Accounted name loads lost (Stop s) := by
  have poll : Accounted name loads lost { s with
      poll_thread_ := none, calls := s.calls ++ s.poll_thread_.toList.map .closed } := by
    refine accounted.released s.poll_thread_.toList ?_ rfl rfl rfl (Or.inl rfl)
    simp only [held, Option.toList_none, Multiset.coe_nil]
    abel
  have agg : Accounted name loads lost { s with
      poll_thread_ := none, agg_thread_ := none
      calls := s.calls ++ s.poll_thread_.toList.map .closed ++ s.agg_thread_.toList.map .closed } := by
    refine poll.released s.agg_thread_.toList ?_ rfl rfl rfl (Or.inl rfl)
    simp only [held, Option.toList_none, Multiset.coe_nil]
    abel
  have ring : Accounted name loads lost { s with
      poll_thread_ := none, agg_thread_ := none, ring_buf_ := none
      calls := s.calls ++ s.poll_thread_.toList.map .closed ++ s.agg_thread_.toList.map .closed ++
        s.ring_buf_.toList.map .closed } := by
    refine agg.released s.ring_buf_.toList ?_ rfl rfl rfl (Or.inl rfl)
    simp only [held, Option.toList_none, Multiset.coe_nil]
    abel
  have perf : Accounted name loads lost { s with
      poll_thread_ := none, agg_thread_ := none, ring_buf_ := none, perf_fds_ := []
      calls := s.calls ++ s.poll_thread_.toList.map .closed ++ s.agg_thread_.toList.map .closed ++
        s.ring_buf_.toList.map .closed ++ s.perf_fds_.flatMap fun fd => [.used fd, .closed fd] } := by
    refine ring.released s.perf_fds_ ?_ rfl rfl rfl (Or.inr rfl)
    simp only [held, Option.toList_none, Multiset.coe_nil]
    abel
  exact perf.DetachAll

/-! ## Runs -/

theorem Started.step {kind : Kind} {history : List Act} {after : Source} {act : Act}
    (started : Started kind.object_name (history.countP kind.isLoad) lost s) (next : kind.step s act = some after) :
    ∃ kept, Started kind.object_name ((history ++ [act]).countP kind.isLoad) kept after := by
  rw [List.countP_append, List.countP_singleton]
  cases act with
  | Start bpf perf =>
    simp only [Kind.step, Option.ite_none_right_eq_some, Option.some.injEq] at next
    obtain ⟨⟨poll, agg⟩, rfl⟩ := next
    have ring : s.ring_buf_ = none := by
      rw [← Option.not_isSome_iff_eq_none, ← started.2, poll]
      exact Bool.false_ne_true
    exact kind.started ⟨started.1, ring, poll, agg⟩ bpf perf
  | Stop =>
    cases next
    exact ⟨lost, started.1.Stop, rfl⟩
  | poll =>
    cases thread : s.poll_thread_ with
    | none => simp only [Kind.step, thread, reduceCtorEq] at next
    | some poller =>
      simp only [Kind.step, thread, Option.some.injEq] at next
      obtain ⟨ring, held_⟩ : ∃ ring, s.ring_buf_ = some ring := by
        rw [← Option.isSome_iff_exists, ← started.2, thread]
        rfl
      have same : after = s.use ring := by
        rw [← next, Source.use, held_, thread]
        rfl
      rw [same]
      refine ⟨lost, started.1.use ?_, started.2⟩
      simp [held, held_]

/-- Whatever happens to a source, everything that was made for it and not released is held by it, or is one of the
objects that later loads have replaced, of which there is one less than loads; a thread that polls has its ring buffer;
after a stop only objects are held. A source without a thread can be destroyed: then everything has been released once,
and not used afterwards, but for the replaced objects and the perf events that no stop has closed. -/
theorem resources_released {kind : Kind} {history : List Act} {s : Source}
    (run : Actions.Run kind.step {} history s) :
    ∃ lost : Multiset Handle, lost.Nodup ∧ lost.card = history.countP kind.isLoad - 1 ∧
      (∀ a ∈ lost, a.type = .bpf_object) ∧ Owns id s.calls (held s + lost) ∧
      s.poll_thread_.isSome = s.ring_buf_.isSome ∧
      (∀ before, history = before ++ [.Stop] → held s = ↑(s.objects_.map Prod.snd)) ∧
      (s.poll_thread_ = none → s.agg_thread_ = none →
        ((destroy s).calls.Pairwise fun earlier later => ∀ a, earlier = .closed a → later ≠ .used a ∧ later ≠ .closed a) ∧
        ∀ a, .opened a ∈ (destroy s).calls →
          (destroy s).calls.count (.closed a) = if a ∈ s.perf_fds_ ∨ a ∈ lost then 0 else 1) := by
  have holds : (∃ lost, Started kind.object_name (history.countP kind.isLoad) lost s) ∧
      ∀ before, history = before ++ [.Stop] → held s = ↑(s.objects_.map Prod.snd) := by
    refine run.invariant (fun history s => (∃ lost, Started kind.object_name (history.countP kind.isLoad) lost s) ∧
      ∀ before, history = before ++ [.Stop] → held s = ↑(s.objects_.map Prod.snd)) ?_ fun before next => ?_
    · refine ⟨⟨0, ⟨⟨[], .nil, rfl⟩, ?_, ?_, Or.inl ⟨rfl, rfl, rfl⟩⟩, rfl⟩, fun before stopped => ?_⟩
      · intro a member
        cases member
      · intro a member
        exact absurd member (Multiset.notMem_zero a)
      · exact absurd stopped.symm (List.append_ne_nil_of_right_ne_nil before (List.cons_ne_nil _ _))
    · obtain ⟨lost, started⟩ := before.1
      refine ⟨started.step next, fun earlier same => ?_⟩
      obtain rfl := (List.cons.inj (List.append_inj' same rfl).2).1
      cases next
      simp only [held, Stop, DetachAll, Source.releaseAll, Option.toList_none, Multiset.coe_nil, add_zero]
  obtain ⟨⟨lost, accounted, polls⟩, stopped⟩ := holds
  refine ⟨lost, (Multiset.nodup_add.mp accounted.owns.nodup).2.1, ?_, accounted.objects, accounted.owns, polls, stopped,
    fun poll agg => ?_⟩
  · rcases accounted.loaded with ⟨-, rfl, never⟩ | ⟨obj, -, -, count⟩
    · rw [never]
      rfl
    · rw [← count]
      rfl
  · have ring : s.ring_buf_ = none := by
      rw [← Option.not_isSome_iff_eq_none, ← polls, poll]
      exact Bool.false_ne_true
    have detached := accounted.DetachAll.owns
    have left : held (DetachAll s) + lost = ↑(s.objects_.map Prod.snd) + (↑s.perf_fds_ + lost) := by
      simp only [held, DetachAll, Source.releaseAll, ring, poll, agg, Option.toList_none, Multiset.coe_nil, add_zero,
        add_assoc]
    rw [left] at detached
    have destroyed : Owns id (destroy s).calls (↑s.perf_fds_ + lost) := detached.closeAll
    refine ⟨destroyed.quiet, fun a before => ?_⟩
    rw [destroyed.count_closed before]
    exact if_congr (by rw [Multiset.mem_add, Multiset.mem_coe]) rfl rfl

/-- Every call succeeds. -/
def willing : Bpf := ⟨true, 0, fun _ => 3, fun _ => 4, fun _ => true, fun _ => true, fun _ => true⟩

def noPerf : Perf := ⟨[], fun _ => -1, fun _ => false, fun _ => false, fun _ => false⟩

def netTracer : Kind :=
  .EbpfRingBufferSource "net.o" ⟨"net_tracer", ["trace_inet_sock_set_state"], "net_events", "net-poll"⟩

def twice : List Act := [.Start willing noPerf, .poll, .Stop, .Start willing noPerf, .Stop]

/-- The source after it was started and stopped twice. -/
def stoppedTwice : Source := (Actions.replay? netTracer.step {} twice).getD {}

theorem resources_released_twice : ∃ lost : Multiset Handle, lost.Nodup ∧ lost.card = 1 ∧
    (∀ a ∈ lost, a.type = .bpf_object) ∧ held stoppedTwice = ↑(stoppedTwice.objects_.map Prod.snd) ∧
    ∀ a, .opened a ∈ (destroy stoppedTwice).calls →
      (destroy stoppedTwice).calls.count (.closed a) = if a ∈ stoppedTwice.perf_fds_ ∨ a ∈ lost then 0 else 1 := by
  have run : Actions.Run netTracer.step {} twice stoppedTwice := Actions.run_of_replay? rfl
  obtain ⟨lost, distinct, count, objects, -, -, stopped, destroyed⟩ := resources_released run
  exact ⟨lost, distinct, count, objects, stopped (twice.take 4) rfl, (destroyed rfl rfl).2⟩

end BpfResources

end Illuminator
