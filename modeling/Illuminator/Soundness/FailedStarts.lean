import Illuminator.Model.SourceStart
import Mathlib.Data.List.Basic

/-! # Failed starts

A `Start` that fails returns at once. What it has acquired by then stays: links once one program is attached,
and for the CPU profiler the perf events and the running flag.
-/

namespace Illuminator

namespace SourceStart

/-- Nothing is acquired. -/
structure NotStarted (s : Source) : Prop where
  links : s.links_ = []
  events : ∀ event ∈ s.open_fds, event.2 = false
  fds : s.perf_fds_ = []
  ring : s.ring_buf_ = false
  thread : s.thread = none
  running : s.running_ = false

variable {bpf : Bpf} {perf : Perf} {s : Source}

/-- What is not acquired and released does not matter. -/
theorem NotStarted.set (fresh : NotStarted s) (objects : List String) (cfg_flags : Option UInt32)
    (agg_fd stacks_fd counts_fd : ℤ) :
    NotStarted
      { s with
        objects_ := objects, cfg_flags := cfg_flags, agg_fd_ := agg_fd, stacks_fd_ := stacks_fd
        counts_fd_ := counts_fd } :=
  ⟨fresh.links, fresh.events, fresh.fds, fresh.ring, fresh.thread, fresh.running⟩

theorem NotStarted.links_iff (fresh : NotStarted s) (links : List String) :
    NotStarted { s with links_ := links } ↔ links = [] :=
  ⟨fun kept => kept.links, fun none => ⟨none, fresh.events, fresh.fds, fresh.ring, fresh.thread, fresh.running⟩⟩

/-! ## Attaching -/

/-- The object is opened and loaded. -/
def Loads (bpf : Bpf) : Prop := bpf.bpf_object__open = true ∧ bpf.bpf_object__load = 0

/-- A program is found and attached. -/
def Attaches (bpf : Bpf) (prog_name : String) : Bool := bpf.find_program prog_name && bpf.bpf_program__attach prog_name

theorem LoadObject_ok {name path : String} (loads : Loads bpf) :
    LoadObject bpf name path s = (.Ok, { s with objects_ := name :: s.objects_ }) := by
  rw [LoadObject, loads.1, loads.2]
  rfl

theorem LoadObject_failed {name path : String} (fails : ¬ Loads bpf) :
    ∃ status, LoadObject bpf name path s = (status, s) ∧ status.ok = false := by
  unfold LoadObject
  split_ifs with closed broken
  · exact ⟨_, rfl, rfl⟩
  · exact ⟨_, rfl, rfl⟩
  · rw [Bool.not_eq_false] at closed
    rw [not_not] at broken
    exact absurd ⟨closed, broken⟩ fails

theorem AttachProgram_eq {obj_name prog_name : String} (loaded : s.objects_.contains obj_name = true) :
    (AttachProgram bpf obj_name prog_name s).1.ok = Attaches bpf prog_name ∧
      (AttachProgram bpf obj_name prog_name s).2 =
        if Attaches bpf prog_name then { s with links_ := s.links_ ++ [prog_name] } else s := by
  cases found : bpf.find_program prog_name <;> cases attached : bpf.bpf_program__attach prog_name <;>
    simp only [AttachProgram, Attaches, loaded, found, attached, Bool.true_eq_false, if_false, if_true] <;>
    exact ⟨rfl, rfl⟩

theorem attachEach_eq {obj_name : String} (prog_names : List String) (loaded : s.objects_.contains obj_name = true) :
    (attachEach bpf obj_name prog_names s).1 = (prog_names.filter fun name => !Attaches bpf name).length ∧
      (attachEach bpf obj_name prog_names s).2 = { s with links_ := s.links_ ++ prog_names.filter (Attaches bpf) } := by
  induction prog_names generalizing s with
  | nil =>
    refine ⟨rfl, ?_⟩
    rw [List.filter_nil, List.append_nil]
    rfl
  | cons name rest ih =>
    obtain ⟨ok, after⟩ := @AttachProgram_eq bpf s obj_name name loaded
    simp only [attachEach, ok, after]
    cases attaches : Attaches bpf name with
    | true =>
      obtain ⟨failures, links⟩ := @ih { s with links_ := s.links_ ++ [name] } loaded
      simp only [if_true, failures, links, attaches, List.filter_cons, Bool.not_true, Bool.false_eq_true, if_false,
        List.append_assoc, List.singleton_append, and_self]
    | false =>
      obtain ⟨failures, links⟩ := ih loaded
      simp only [Bool.false_eq_true, if_false, failures, links, attaches, List.filter_cons, Bool.not_false, if_true,
        List.length_cons, and_self]

/-- The links are those of the programs that can be attached, and an error means that there are none. -/
theorem AttachPrograms_eq {obj_name : String} {prog_names : List String}
    (loaded : s.objects_.contains obj_name = true) :
    (AttachPrograms bpf obj_name prog_names s).2 =
        { s with links_ := s.links_ ++ prog_names.filter (Attaches bpf) } ∧
      ((AttachPrograms bpf obj_name prog_names s).1.ok = false → prog_names.filter (Attaches bpf) = []) := by
  obtain ⟨failures, links⟩ := @attachEach_eq bpf s obj_name prog_names loaded
  simp only [AttachPrograms]
  split_ifs with all
  · refine ⟨links, fun _ => ?_⟩
    rw [failures, List.length_filter_eq_length_iff] at all
    rw [List.filter_eq_nil_iff]
    intro name member attaches
    have fails := all.2 name member
    rw [attaches] at fails
    exact absurd fails Bool.false_ne_true
  · exact ⟨links, fun failed => absurd failed.symm Bool.false_ne_true⟩

/-! ## Perf events -/

/-- The perf event of a CPU is opened, given the program and enabled. -/
def Samples (perf : Perf) (cpu : ℕ) : Prop :=
  0 ≤ perf.perf_event_open cpu ∧ perf.SET_BPF cpu = true ∧ perf.RESET cpu = true ∧ perf.ENABLE cpu = true

theorem openPerf_failed {cpu : ℕ} (fails : ¬ Samples perf cpu) : openPerf perf cpu s = s := by
  simp only [openPerf]
  split_ifs with refused unset stopped
  · rfl
  · simp only [close, List.eraseP_cons, decide_true, cond_true]
  · simp only [close, List.eraseP_cons, decide_true, cond_true]
  · rw [not_or, Bool.not_eq_false, Bool.not_eq_false] at stopped
    rw [Bool.not_eq_false] at unset
    exact absurd ⟨not_lt.mp refused, unset, stopped⟩ fails

/-- An event that samples: it is enabled, and its source remembers it. -/
def Sampling (s : Source) : Prop := s.perf_fds_ ≠ [] ∧ ∃ event ∈ s.open_fds, event.2 = true

theorem openPerf_samples {cpu : ℕ} (samples : Samples perf cpu) : Sampling (openPerf perf cpu s) := by
  obtain ⟨opened, set, reset, enable⟩ := samples
  simp only [openPerf, not_lt.mpr opened, set, reset, enable, Bool.true_eq_false, or_self, if_false]
  refine ⟨List.append_ne_nil_of_right_ne_nil _ (List.cons_ne_nil _ _), (perf.perf_event_open cpu, true), ?_, rfl⟩
  rw [List.map_cons, if_pos rfl]
  exact List.mem_cons_self ..

theorem openPerf_kept {cpu : ℕ} (sampling : Sampling s) : Sampling (openPerf perf cpu s) := by
  by_cases samples : Samples perf cpu
  · exact openPerf_samples samples
  · rw [openPerf_failed samples]
    exact sampling

/-- The loop over the CPUs leaves events exactly when one of them samples. -/
theorem openEach_kept (cpus : List ℕ) (sampling : Sampling s) :
    Sampling (cpus.foldl (fun s cpu => openPerf perf cpu s) s) := by
  induction cpus generalizing s with
  | nil => exact sampling
  | cons cpu rest ih => exact ih (openPerf_kept sampling)

theorem openEach (cpus : List ℕ) :
    (∃ cpu ∈ cpus, Samples perf cpu) ∧ Sampling (cpus.foldl (fun s cpu => openPerf perf cpu s) s) ∨
      (¬ ∃ cpu ∈ cpus, Samples perf cpu) ∧ cpus.foldl (fun s cpu => openPerf perf cpu s) s = s := by
  induction cpus generalizing s with
  | nil => exact Or.inr ⟨fun ⟨_, member, _⟩ => List.not_mem_nil member, rfl⟩
  | cons cpu rest ih =>
    rw [List.exists_mem_cons_iff, List.foldl_cons]
    by_cases samples : Samples perf cpu
    · exact Or.inl ⟨Or.inl samples, openEach_kept rest (openPerf_samples samples)⟩
    · rw [openPerf_failed samples]
      rcases @ih s with ⟨later, sampling⟩ | ⟨none, same⟩
      · exact Or.inl ⟨Or.inr later, sampling⟩
      · exact Or.inr ⟨fun either => either.elim samples none, same⟩

/-! ## The three sources -/

/-- The ring buffer is not had: its map is missing or it cannot be allocated. -/
def NoRing (bpf : Bpf) (map_name : String) : Prop :=
  bpf.map_fd map_name < 0 ∨ bpf.ring_buffer__new (bpf.map_fd map_name) = false

/-- Programs are attached, and then the ring buffer is not had. -/
def EbpfRingBufferSource.Abandons (path : String) (bpf_cfg : EbpfSourceBpfConfig) (bpf : Bpf) : Prop :=
  path ≠ "" ∧ Loads bpf ∧ (∃ prog ∈ bpf_cfg.program_names, Attaches bpf prog = true) ∧ NoRing bpf bpf_cfg.map_name

/-- The same, in detailed mode. -/
def SchedAnalyzerSource.Abandons (config : SchedConfig) (bpf : Bpf) : Prop :=
  config.bpf_obj_path_ ≠ "" ∧ Loads bpf ∧ (∃ prog ∈ config.progs, Attaches bpf prog = true) ∧
    config.detailed_mode_ = true ∧ NoRing bpf "sched_analyzer_events"

/-- Some CPU is sampled, and then, in stream mode, the ring buffer is not had. -/
def CpuProfilerSource.Abandons (config : ProfilerConfig) (bpf : Bpf) (perf : Perf) : Prop :=
  config.bpf_obj_path_ ≠ "" ∧ Loads bpf ∧ (0 ≤ bpf.map_fd "stacks" ∧ 0 ≤ bpf.map_fd "stack_counts") ∧
    0 ≤ bpf.prog_fd "on_cpu_sample" ∧ (∃ cpu ∈ perf.sampled, Samples perf cpu) ∧
    config.stream_mode_ = true ∧ NoRing bpf "cpu_events"

def Kind.Abandons (kind : Kind) (bpf : Bpf) : Prop :=
  match kind with
  | .CpuProfilerSource config perf => CpuProfilerSource.Abandons config bpf perf
  | .SchedAnalyzerSource config => SchedAnalyzerSource.Abandons config bpf
  | .EbpfRingBufferSource path bpf_cfg _ => EbpfRingBufferSource.Abandons path bpf_cfg bpf

/-- A start that failed left nothing behind. -/
def Undone (started : Status × Source) : Prop := started.1.ok = false → NotStarted started.2

theorem orReturn_failed {called : Status × Source} {rest : Source → Status × Source} (failed : called.1.ok = false) :
    orReturn called rest = called := by
  rw [orReturn, failed]
  rfl

theorem orReturn_ok {called : Status × Source} {rest : Source → Status × Source} (ok : called.1.ok = true) :
    orReturn called rest = rest called.2 := by
  rw [orReturn, ok]
  rfl

theorem GetMapFd_loaded {obj_name map_name : String} (loaded : s.objects_.contains obj_name = true) :
    GetMapFd bpf obj_name map_name s = bpf.map_fd map_name := by
  rw [GetMapFd, loaded]
  rfl

theorem GetProgFd_loaded {obj_name prog_name : String} (loaded : s.objects_.contains obj_name = true) :
    GetProgFd bpf obj_name prog_name s = bpf.prog_fd prog_name := by
  rw [GetProgFd, loaded]
  rfl

private theorem contains_loaded (name : String) (objects : List String) : (name :: objects).contains name = true := by
  rw [List.contains_cons, beq_self_eq_true, Bool.true_or]

theorem Undone_ok {started : Status × Source} (ok : started.1.ok = true) : Undone started :=
  fun failed => Bool.noConfusion (ok.symm.trans failed)

/-- Loading is the first call, and when it fails nothing has been acquired. -/
theorem LoadObject_undone_iff {name path : String} {rest : Source → Status × Source} {later : Prop}
    (fresh : NotStarted s)
    (rest_iff : Undone (rest { s with objects_ := name :: s.objects_ }) ↔ ¬ later) :
    Undone (orReturn (LoadObject bpf name path s) rest) ↔ ¬ (Loads bpf ∧ later) := by
  by_cases loads : Loads bpf
  · rw [LoadObject_ok loads, orReturn_ok rfl, rest_iff, and_iff_right loads]
  · obtain ⟨status, loaded, failed⟩ := @LoadObject_failed bpf s name path loads
    rw [loaded, orReturn_failed failed]
    exact ⟨fun _ both => loads both.1, fun _ _ => fresh⟩

/-- When attaching fails no program is attached. -/
theorem AttachPrograms_undone_iff {obj_name : String} {prog_names : List String} {rest : Source → Status × Source}
    {later : Prop} (loaded : s.objects_.contains obj_name = true) (fresh : NotStarted s)
    (rest_iff : Undone (rest { s with links_ := prog_names.filter (Attaches bpf) }) ↔
      ¬ (prog_names.filter (Attaches bpf) ≠ [] ∧ later)) :
    Undone (orReturn (AttachPrograms bpf obj_name prog_names s) rest) ↔
      ¬ ((∃ prog ∈ prog_names, Attaches bpf prog = true) ∧ later) := by
  obtain ⟨after, none⟩ := @AttachPrograms_eq bpf s obj_name prog_names loaded
  rw [fresh.links, List.nil_append] at after
  have some_iff : prog_names.filter (Attaches bpf) ≠ [] ↔ ∃ prog ∈ prog_names, Attaches bpf prog = true := by
    rw [Ne, List.filter_eq_nil_iff]
    push Not
    rfl
  rw [← some_iff]
  cases ok : (AttachPrograms bpf obj_name prog_names s).1.ok with
  | true => rw [orReturn_ok ok, after, rest_iff]
  | false =>
    rw [orReturn_failed ok]
    refine ⟨fun _ both => both.1 (none ok), fun _ _ => ?_⟩
    rw [after, none ok]
    exact (fresh.links_iff []).mpr rfl

/-- The last step is the ring buffer, and without it all that was acquired stays. -/
theorem ring_undone_iff {map_fd : ℤ} {missing broken : Status} {done : Source} (no_map : missing.ok = false)
    (no_ring : broken.ok = false) :
    Undone (if map_fd < 0 then (missing, s) else if bpf.ring_buffer__new map_fd = false then (broken, s)
        else (Status.Ok, done)) ↔
      ¬ (¬ NotStarted s ∧ (map_fd < 0 ∨ bpf.ring_buffer__new map_fd = false)) := by
  split_ifs with negative refused
  · rw [Undone, and_iff_left (Or.inl negative), not_not]
    exact ⟨fun undone => undone no_map, fun kept _ => kept⟩
  · rw [Undone, and_iff_left (Or.inr refused), not_not]
    exact ⟨fun undone => undone no_ring, fun kept _ => kept⟩
  · exact ⟨fun _ both => both.2.elim negative refused, fun _ => Undone_ok rfl⟩

theorem EbpfRingBufferSource.Start_undone_iff (path : String) (bpf_cfg : EbpfSourceBpfConfig) (overridden : Bool)
    (fresh : NotStarted s) :
    Undone (EbpfRingBufferSource.Start path bpf_cfg overridden bpf s) ↔ ¬ Abandons path bpf_cfg bpf := by
  unfold EbpfRingBufferSource.Start Abandons
  by_cases empty : path = ""
  · rw [if_pos empty]
    refine ⟨fun _ abandons => abandons.1 empty, fun _ => Undone_ok ?_⟩
    cases overridden <;> rfl
  · rw [if_neg empty, and_iff_right empty]
    apply LoadObject_undone_iff fresh
    have loaded := contains_loaded bpf_cfg.object_name s.objects_
    have unstarted := fresh.set (bpf_cfg.object_name :: s.objects_) s.cfg_flags s.agg_fd_ s.stacks_fd_ s.counts_fd_
    apply AttachPrograms_undone_iff loaded unstarted
    rw [GetMapFd_loaded loaded, ring_undone_iff rfl rfl, unstarted.links_iff]
    rfl

/-- Outside detailed mode the start succeeds. -/
theorem SchedAnalyzerSource.poll_undone_iff (config : SchedConfig)
    (loaded : s.objects_.contains "sched_analyzer" = true) :
    Undone (poll config bpf s) ↔
      ¬ (¬ NotStarted s ∧ config.detailed_mode_ = true ∧ NoRing bpf "sched_analyzer_events") := by
  simp only [poll, @GetMapFd_loaded bpf s _ _ loaded]
  cases config.detailed_mode_ with
  | false => exact ⟨fun _ both => Bool.noConfusion both.2.1, fun _ => Undone_ok rfl⟩
  | true =>
    rw [if_pos rfl, @GetMapFd_loaded bpf { s with agg_fd_ := bpf.map_fd "sched_agg" } _ _ loaded,
      ring_undone_iff rfl rfl, and_iff_right rfl, NoRing]
    have agg (source : Source) (fd : ℤ) (fresh : NotStarted source) : NotStarted { source with agg_fd_ := fd } :=
      fresh.set source.objects_ source.cfg_flags fd source.stacks_fd_ source.counts_fd_
    have same : NotStarted { s with agg_fd_ := bpf.map_fd "sched_agg" } ↔ NotStarted s :=
      ⟨agg { s with agg_fd_ := bpf.map_fd "sched_agg" } s.agg_fd_, agg s _⟩
    rw [same]

theorem SchedAnalyzerSource.writeFlags_kept (config : SchedConfig) :
    ∃ flags, writeFlags config bpf s = { s with cfg_flags := flags } := by
  rcases lt_or_ge (GetMapFd bpf "sched_analyzer" "sched_analyzer_cfg" s) 0 with missing | found
  · exact ⟨s.cfg_flags, if_neg (not_le.mpr missing)⟩
  · exact ⟨_, if_pos found⟩

theorem SchedAnalyzerSource.Start_undone_iff (config : SchedConfig) (fresh : NotStarted s) :
    Undone (SchedAnalyzerSource.Start config bpf s) ↔ ¬ Abandons config bpf := by
  unfold SchedAnalyzerSource.Start Abandons
  by_cases empty : config.bpf_obj_path_ = ""
  · rw [if_pos empty]
    exact ⟨fun _ abandons => abandons.1 empty, fun _ => Undone_ok rfl⟩
  · rw [if_neg empty, and_iff_right empty]
    apply LoadObject_undone_iff fresh
    obtain ⟨flags, written⟩ :=
      @writeFlags_kept bpf { s with objects_ := "sched_analyzer" :: s.objects_ } config
    have loaded := contains_loaded "sched_analyzer" s.objects_
    have unstarted := fresh.set ("sched_analyzer" :: s.objects_) flags s.agg_fd_ s.stacks_fd_ s.counts_fd_
    rw [written]
    apply AttachPrograms_undone_iff loaded unstarted
    rw [poll_undone_iff config loaded, unstarted.links_iff]

theorem CpuProfilerSource.ApplyFilterMaps_kept (config : ProfilerConfig) :
    ∃ flags, ApplyFilterMaps config bpf s = { s with cfg_flags := flags } := by
  rcases lt_or_ge (GetMapFd bpf "cpu_profiler" "cpu_profiler_cfg" s) 0 with missing | found
  · exact ⟨s.cfg_flags, if_neg (not_le.mpr missing)⟩
  · exact ⟨_, if_pos found⟩

/-- The running flag is set before the ring buffer is asked for. -/
theorem CpuProfilerSource.launch_undone_iff (config : ProfilerConfig)
    (loaded : s.objects_.contains "cpu_profiler" = true) :
    Undone (launch config bpf s) ↔ ¬ (config.stream_mode_ = true ∧ NoRing bpf "cpu_events") := by
  unfold launch
  cases config.stream_mode_ with
  | false => exact ⟨fun _ both => Bool.noConfusion both.1, fun _ => Undone_ok rfl⟩
  | true =>
    have running : ¬ NotStarted { s with running_ := true } := fun fresh => Bool.noConfusion fresh.running
    rw [if_pos rfl, @GetMapFd_loaded bpf { s with running_ := true } _ _ loaded, ring_undone_iff rfl rfl,
      and_iff_right running, and_iff_right rfl, NoRing]

theorem openEach_objects (cpus : List ℕ) :
    (cpus.foldl (fun s cpu => openPerf perf cpu s) s).objects_ = s.objects_ := by
  induction cpus generalizing s with
  | nil => rfl
  | cons cpu rest ih =>
    rw [List.foldl_cons, ih]
    simp only [openPerf, close]
    split_ifs <;> rfl

/-- Some event is opened and the source is set running, or no CPU can be sampled. -/
theorem CpuProfilerSource.sample_undone_iff (config : ProfilerConfig) (fresh : NotStarted s)
    (loaded : s.objects_.contains "cpu_profiler" = true) :
    Undone (sample config bpf perf s) ↔
      ¬ ((∃ cpu ∈ perf.sampled, Samples perf cpu) ∧ config.stream_mode_ = true ∧ NoRing bpf "cpu_events") := by
  rw [sample]
  rcases @openEach perf s perf.sampled with ⟨some, sampling⟩ | ⟨none, same⟩
  · rw [and_iff_right some, if_neg (mt List.isEmpty_iff.mp sampling.1), launch_undone_iff config]
    rw [openEach_objects]
    exact loaded
  · rw [same, fresh.fds, List.isEmpty_nil, if_pos rfl]
    exact ⟨fun _ both => none both.1, fun _ _ => fresh⟩

theorem CpuProfilerSource.Start_undone_iff (config : ProfilerConfig) (perf : Perf) (fresh : NotStarted s) :
    Undone (CpuProfilerSource.Start config bpf perf s) ↔ ¬ Abandons config bpf perf := by
  unfold CpuProfilerSource.Start Abandons
  by_cases empty : config.bpf_obj_path_ = ""
  · rw [if_pos empty]
    exact ⟨fun _ abandons => abandons.1 empty, fun _ => Undone_ok rfl⟩
  · rw [if_neg empty, and_iff_right empty]
    apply LoadObject_undone_iff fresh
    have loaded := contains_loaded "cpu_profiler" s.objects_
    have had (s : Source) (source_loaded : s.objects_.contains "cpu_profiler" = true) (map_name : String) :=
      @GetMapFd_loaded bpf s "cpu_profiler" map_name source_loaded
    simp only [had { s with objects_ := "cpu_profiler" :: s.objects_ } loaded]
    by_cases missing : bpf.map_fd "stacks" < 0 ∨ bpf.map_fd "stack_counts" < 0
    · rw [if_pos missing]
      refine ⟨fun _ both => ?_, fun _ _ => fresh.set _ _ _ _ _⟩
      exact missing.elim (not_lt.mpr both.1.1) (not_lt.mpr both.1.2)
    · rw [if_neg missing]
      rw [not_or, not_lt, not_lt] at missing
      obtain ⟨flags, written⟩ := @ApplyFilterMaps_kept bpf
        { s with
          objects_ := "cpu_profiler" :: s.objects_, stacks_fd_ := bpf.map_fd "stacks"
          counts_fd_ := bpf.map_fd "stack_counts" } config
      have unstarted := fresh.set ("cpu_profiler" :: s.objects_) flags s.agg_fd_ (bpf.map_fd "stacks")
        (bpf.map_fd "stack_counts")
      rw [written, and_iff_right missing, @GetProgFd_loaded bpf _ _ _ ?_]
      by_cases program : bpf.prog_fd "on_cpu_sample" < 0
      · rw [if_pos program]
        exact ⟨fun _ both => absurd both.1 (not_le.mpr program), fun _ _ => unstarted⟩
      · rw [if_neg program, sample_undone_iff config unstarted loaded, and_iff_right (not_lt.mp program)]
      · exact loaded

/-- A start that fails leaves nothing behind, unless programs were attached or the CPU profiler set running. -/
theorem Kind.failed_start_undone_iff (kind : Kind) (bpf : Bpf) (s : Source) (fresh : NotStarted s) :
    ((kind.Start bpf s).1.ok = false → NotStarted (kind.Start bpf s).2) ↔ ¬ kind.Abandons bpf := by
  cases kind with
  | CpuProfilerSource config perf => exact CpuProfilerSource.Start_undone_iff config perf fresh
  | SchedAnalyzerSource config => exact SchedAnalyzerSource.Start_undone_iff config fresh
  | EbpfRingBufferSource path bpf_cfg overridden =>
    exact EbpfRingBufferSource.Start_undone_iff path bpf_cfg overridden fresh

/-- An object whose programs can all be attached, and for which no ring buffer can be allocated. -/
private def ringless (bpf_object__load : ℤ) : Bpf where
  bpf_object__open := true
  bpf_object__load := bpf_object__load
  map_fd _ := 5
  prog_fd _ := 6
  find_program _ := true
  bpf_program__attach _ := true
  ring_buffer__new _ := false

private def detailed : Kind := .SchedAnalyzerSource ⟨"sched_analyzer.bpf.o", true, false⟩

private theorem initial : NotStarted {} :=
  ⟨rfl, fun _ member => absurd member List.not_mem_nil, rfl, rfl, rfl, rfl⟩

/-- The kernel rejects the object. -/
theorem Kind.Start_undone_rejected :
    (detailed.Start (ringless (-22)) {}).1.ok = false ∧ NotStarted (detailed.Start (ringless (-22)) {}).2 := by
  have rejected : (detailed.Start (ringless (-22)) {}).1.ok = false := by decide
  have unloaded : ¬ detailed.Abandons (ringless (-22)) := fun abandons => absurd abandons.2.1.2 (by decide)
  exact ⟨rejected, (Kind.failed_start_undone_iff detailed (ringless (-22)) {} initial).mpr unloaded rejected⟩

/-- The ring buffer cannot be allocated, and both programs stay attached. -/
theorem Kind.Start_attached :
    ¬ ∀ (kind : Kind) (bpf : Bpf) (s : Source), NotStarted s → (kind.Start bpf s).1.ok = false →
      NotStarted (kind.Start bpf s).2 := by
  intro undone
  have kept := undone detailed (ringless 0) {} initial (by decide)
  exact absurd kept.links (by decide)

end SourceStart

end Illuminator
