import Illuminator.Model.Daemon
import Illuminator.Soundness.StartStop

/-! # Which stores are pruned

`StartAll` registers the pruning of the storage backend if there is one, and `RunDaemon` sets it after
`StartAll` has returned. So no run of the daemon ever prunes a store: every store is pruned exactly when
no pipeline has a local storage sink.
-/

namespace Illuminator

open Interleaving

namespace Daemon

variable {registry : Registry} {config : GlobalConfig}

/-! ## Starting as the calls on the plugins -/

/-- What a sink's `Start` returns. -/
def SinkPlugin.status (registry : Registry) : SinkPlugin → Status
  | .local_storage sink =>
    match registry.creators_ sink.backend_name_ with
    | none => .Error .kNotFound ("Storage backend not found: " ++ shown sink.backend_name_)
    | some Init => Init sink.data_dir_
  | .other Start => Start

/-- A pipeline's plugins, each as what its `Start` returns. -/
def Pipeline.plugins (registry : Registry) (p : Pipeline) : Lifecycle.Plugins :=
  ⟨p.name_, some p.source_.Start, p.processors_, p.aggregator_.map AggregatorPlugin.Start,
    p.sinks_.map (SinkPlugin.status registry)⟩

def SinkPlugin.isLocal : SinkPlugin → Bool
  | .local_storage _ => true
  | .other _ => false

theorem SinkPlugin.Start_spec (registry : Registry) (backends : List Bytes) (sink : SinkPlugin) :
    (sink.Start registry backends).2.2 = sink.status registry ∧
      (sink.Start registry backends).1.isLocal = sink.isLocal := by
  cases sink with
  | local_storage sink =>
    simp only [SinkPlugin.Start, LocalStorageSink.Start, SinkPlugin.status]
    cases registry.creators_ sink.backend_name_ <;> exact ⟨rfl, rfl⟩
  | other Start => exact ⟨rfl, rfl⟩

/-- Starting the sinks keeps their kinds, and fails with the first status that is not `Ok`. -/
theorem startSinks_spec (registry : Registry) (backends : List Bytes) (sinks : List SinkPlugin) :
    (startSinks registry backends sinks).1.map SinkPlugin.isLocal = sinks.map SinkPlugin.isLocal ∧
      (startSinks registry backends sinks).2.2 = (sinks.map (SinkPlugin.status registry)).find? fun status => !status.ok := by
  induction sinks generalizing backends with
  | nil => exact ⟨rfl, rfl⟩
  | cons sink rest ih =>
    obtain ⟨status, kind⟩ := sink.Start_spec registry backends
    rw [startSinks]
    split
    next started created returned result =>
    rw [result] at status kind
    obtain rfl : returned = sink.status registry := status
    split_ifs with ok
    · obtain ⟨kinds, failed⟩ := ih created
      refine ⟨?_, ?_⟩
      · exact congrArg₂ List.cons kind kinds
      · rw [List.map_cons, List.find?_cons_of_neg (by simp [ok])]
        exact failed
    · refine ⟨congrArg₂ List.cons kind rfl, ?_⟩
      rw [List.map_cons, List.find?_cons_of_pos (by simp [ok])]

/-- `Lifecycle` fails with the first status that is not `Ok` as well. -/
private theorem startEach_find (entries : List (Lifecycle.Part × Status)) :
    (Lifecycle.startEach entries).2 = (entries.map Prod.snd).find? fun status => !status.ok := by
  induction entries with
  | nil => rfl
  | cons entry rest ih =>
    rw [Lifecycle.startEach, List.map_cons]
    split_ifs with ok
    · rw [List.find?_cons_of_neg (by simp [ok])]
      exact ih
    · rw [List.find?_cons_of_pos (by simp [ok])]

private theorem indexed_statuses (part : ℕ → Lifecycle.Part) (statuses : List Status) :
    (Lifecycle.indexed part statuses).map Prod.snd = statuses := by
  rw [Lifecycle.indexed, List.map_map]
  exact List.zipIdx_map_fst 0 statuses

private theorem plugins_statuses (registry : Registry) (p : Pipeline) :
    p.source_.Start :: (p.plugins registry).rest.map Prod.snd =
      p.before ++ p.sinks_.map (SinkPlugin.status registry) := by
  simp only [Lifecycle.Plugins.rest, List.map_append, indexed_statuses, Pipeline.before, Pipeline.plugins, List.map_map,
    List.cons_append, List.append_assoc]
  rw [show Prod.snd ∘ Prod.mk Lifecycle.Part.aggregator = (id : Status → Status) from rfl, List.map_id]

theorem Pipeline.Start_kinds (registry : Registry) (backends : List Bytes) (p : Pipeline) :
    (p.Start registry backends).1.sinks_.map SinkPlugin.isLocal = p.sinks_.map SinkPlugin.isLocal := by
  obtain ⟨kinds, _⟩ := startSinks_spec registry backends p.sinks_
  unfold Pipeline.Start
  split_ifs
  · rfl
  · split
    · rfl
    · split
      · next result => rwa [result] at kinds
      · next result => rwa [result] at kinds

/-- A pipeline starts as its plugins do. -/
theorem Pipeline.Start_status (registry : Registry) (backends : List Bytes) (p : Pipeline) :
    (p.Start registry backends).2.2 = (Lifecycle.Pipeline.built (p.plugins registry)).Start.2.2 := by
  obtain ⟨_, failed⟩ := startSinks_spec registry backends p.sinks_
  have whole := startEach_find ((.source, p.source_.Start) :: (p.plugins registry).rest)
  rw [List.map_cons, plugins_statuses, List.find?_append, ← failed] at whole
  by_cases empty : p.sinks_ = []
  · rw [Pipeline.Start, if_pos (List.isEmpty_iff.mpr empty)]
    simp only [Lifecycle.Pipeline.Start, Lifecycle.Pipeline.built, Pipeline.plugins, empty, List.map_nil,
      List.isEmpty_nil, if_true]
  · have nonempty : (p.plugins registry).sinks_ ≠ [] := fun none_ => empty (List.map_eq_nil_iff.mp none_)
    rw [Lifecycle.status_of_source (p := .built (p.plugins registry)) rfl nonempty, Pipeline.Start,
      if_neg (by rwa [List.isEmpty_iff])]
    change _ = (Lifecycle.startEach ((.source, p.source_.Start) :: (p.plugins registry).rest)).2.getD Status.Ok
    rw [whole]
    cases p.before.find? fun status => !status.ok with
    | some status => rfl
    | none =>
      rcases startSinks registry backends p.sinks_ with ⟨sinks_, created, status⟩
      cases status <;> rfl

/-! ## The sinks that are built -/

/-- Which sinks of each pipeline are local storage sinks. -/
def kinds (pipelines_ : List Pipeline) : List (List Bool) :=
  pipelines_.map fun p => p.sinks_.map SinkPlugin.isLocal

/-- Which sinks of each pipeline are configured to be. -/
def configured (config : GlobalConfig) : List (List Bool) :=
  config.pipelines.map fun pc => pc.sinks.map fun stage => decide (stage.type = "local_storage")

private theorem map_of_mapM {α β γ ε : Type} {f : α → Except ε β} {g : β → γ} {h : α → γ}
    (each : ∀ a b, f a = .ok b → g b = h a) {l : List α} {made : List β} (all : l.mapM f = .ok made) :
    made.map g = l.map h := by
  induction l generalizing made with
  | nil =>
    cases all
    rfl
  | cons a rest ih =>
    rw [List.mapM_cons] at all
    cases first : f a with
    | error _ =>
      rw [first] at all
      cases all
    | ok b =>
      cases later : rest.mapM f with
      | error _ =>
        rw [first, later] at all
        cases all
      | ok more =>
        rw [first, later] at all
        cases all
        rw [List.map_cons, List.map_cons, each a b first, ih later]

private theorem create_sink {pipeline : String} {stage : StageConfig} {sink : SinkPlugin}
    (made : create "Sink" pipeline registry.CreateSink stage = .ok sink) :
    sink.isLocal = decide (stage.type = "local_storage") := by
  unfold create Registry.CreateSink at made
  split_ifs at made with same
  · cases made
    rw [decide_eq_true same]
    rfl
  · rw [decide_eq_false same]
    cases found : registry.sinks_ stage.type with
    | none =>
      rw [found] at made
      cases made
    | some Init =>
      rw [found] at made
      change (Init stage.config).map SinkPlugin.other = .ok sink at made
      cases result : Init stage.config with
      | error _ =>
        rw [result] at made
        cases made
      | ok Start =>
        rw [result] at made
        cases made
        rfl

private theorem buildPipeline_sinks {pc : PipelineConfig} {p : Pipeline} (built : buildPipeline registry pc = .ok p) :
    pc.sinks.mapM (create "Sink" pc.name registry.CreateSink) = .ok p.sinks_ := by
  unfold buildPipeline at built
  cases source : create "Source" pc.name registry.CreateSource pc.source with
  | error _ =>
    rw [source] at built
    cases built
  | ok source_ =>
    cases processors : pc.processors.mapM (create "Processor" pc.name registry.CreateProcessor) with
    | error _ =>
      rw [source, processors] at built
      cases built
    | ok processors_ =>
      cases aggregator : pc.aggregator.mapM (create "Aggregator" pc.name registry.CreateAggregator) with
      | error _ =>
        rw [source, processors, aggregator] at built
        cases built
      | ok aggregator_ =>
        cases sinks : pc.sinks.mapM (create "Sink" pc.name registry.CreateSink) with
        | error _ =>
          rw [source, processors, aggregator, sinks] at built
          cases built
        | ok sinks_ =>
          rw [source, processors, aggregator, sinks] at built
          cases built
          rfl

theorem BuildFromConfig_kinds {pipelines_ : List Pipeline} (built : BuildFromConfig registry config = .ok pipelines_) :
    kinds pipelines_ = configured config := by
  refine map_of_mapM (fun pc p made => ?_) built
  exact map_of_mapM (fun stage sink created => create_sink created) (buildPipeline_sinks made)

theorem kinds_set {pipelines_ : List Pipeline} {index : ℕ} {p started : Pipeline} (there : pipelines_[index]? = some p)
    (same : started.sinks_.map SinkPlugin.isLocal = p.sinks_.map SinkPlugin.isLocal) :
    kinds (pipelines_.set index started) = kinds pipelines_ := by
  obtain ⟨inside, rfl⟩ := List.getElem?_eq_some_iff.mp there
  have put : (kinds pipelines_).set index (pipelines_[index].sinks_.map SinkPlugin.isLocal) =
      kinds (pipelines_.set index pipelines_[index]) := List.map_set.symm
  calc kinds (pipelines_.set index started)
      = (kinds pipelines_).set index (started.sinks_.map SinkPlugin.isLocal) := List.map_set
    _ = kinds pipelines_ := by rw [same, put, List.set_getElem_self]

/-! ## Nothing is pruned -/

/-- No pruning is registered or waits in the sink pool. -/
structure Unpruned (d : State) : Prop where
  timers : ∀ entry ∈ d.timers_, entry.callback ≠ .prune
  pool : d.prunings = 0

/-- Before the timers are registered there is no backend to prune. -/
def Stage.Unset : Stage → Prop
  | .build | .start _ | .register => True
  | _ => False

/-- The pipelines are those of the configuration. -/
def Stage.Built : Stage → Prop
  | .start _ | .register | .expose | .serving => True
  | _ => False

structure Inv (config : GlobalConfig) (stage : Stage) (d : State) : Prop where
  unpruned : Unpruned d
  unset : stage.Unset → d.storage_backend_ = none
  built : stage.Built → kinds d.pipelines_ = configured config

theorem registered_of_unset {d : State} (unset : d.storage_backend_ = none) :
    ∀ entry ∈ registered d, entry.callback ≠ .prune := by
  intro entry member
  simp only [registered, unset, Option.isSome_none, Bool.false_eq_true, if_false, List.append_nil, List.mem_append,
    List.mem_map, List.mem_filterMap, List.mem_singleton] at member
  rcases member with (⟨_, _, rfl⟩ | ⟨_, _, made⟩) | rfl
  · nofun
  · obtain ⟨_, _, rfl⟩ := Option.map_eq_some_iff.mp made
    nofun
  · nofun

theorem fired_callback {timers_ : List TimerEntry} {index : ℕ} {entry : TimerEntry}
    (member : entry ∈ fired timers_ index) : ∃ before ∈ timers_, before.callback = entry.callback := by
  obtain ⟨i, found⟩ := List.mem_iff_getElem?.mp member
  rw [fired, List.getElem?_modify] at found
  obtain ⟨before, there, same⟩ := Option.map_eq_some_iff.mp found
  refine ⟨before, List.mem_of_getElem? there, ?_⟩
  rw [← same]
  split_ifs <;> rfl

theorem Inv.main {stage after : Stage} {d next : State} {choice : Choice} (inv : Inv config stage d)
    (acts : mainAct registry config d stage choice = some (next, after)) : Inv config after next := by
  unfold mainAct at acts
  split at acts
  · split at acts
    · cases acts
      exact ⟨inv.unpruned, nofun, nofun⟩
    · next pipelines_ built =>
      cases acts
      exact ⟨⟨inv.unpruned.timers, inv.unpruned.pool⟩, fun _ => inv.unset trivial, fun _ => BuildFromConfig_kinds built⟩
  · next index =>
    split at acts
    · cases acts
      exact ⟨inv.unpruned, fun _ => inv.unset trivial, fun _ => inv.built trivial⟩
    · next p there =>
      have kept := p.Start_kinds registry d.backends
      split at acts
      next started created status result =>
      rw [result] at kept
      split_ifs at acts
      · cases acts
        refine ⟨⟨inv.unpruned.timers, inv.unpruned.pool⟩, fun _ => inv.unset trivial, fun _ => ?_⟩
        exact (kinds_set there kept).trans (inv.built trivial)
      · cases acts
        exact ⟨⟨inv.unpruned.timers, inv.unpruned.pool⟩, nofun, nofun⟩
  · cases acts
    exact ⟨⟨registered_of_unset (inv.unset trivial), inv.unpruned.pool⟩, nofun, fun _ => inv.built trivial⟩
  · split at acts
    · cases acts
      exact ⟨inv.unpruned, nofun, fun _ => inv.built trivial⟩
    · cases acts
      exact ⟨⟨inv.unpruned.timers, inv.unpruned.pool⟩, nofun, fun _ => inv.built trivial⟩
  · cases acts
    exact ⟨⟨inv.unpruned.timers, inv.unpruned.pool⟩, nofun, nofun⟩
  · contradiction

/-- An action of any other thread, which deletes no row. -/
theorem Inv.beside {stage : Stage} {d next : State} {pc after : Pc} {choice : Choice} {event : Event}
    (inv : Inv config stage d) (acts : act registry config d pc choice = some (next, after, event))
    (other : ∀ stage, pc ≠ .main stage) :
    Inv config stage next ∧ after = pc ∧ d.rows ⊆ next.rows ∧
      ∀ dir timestamp, event = .wrote dir timestamp → (dir, timestamp) ∈ next.rows := by
  cases pc with
  | main stage => exact absurd rfl (other stage)
  | timer =>
    obtain ⟨_, fires, same⟩ := Option.map_eq_some_iff.mp acts
    cases same
    unfold timerAct at fires
    split at fires
    · split at fires
      · contradiction
      · next index entry there =>
        split_ifs at fires with _ prunes
        · exact absurd prunes (inv.unpruned.timers entry (List.mem_of_getElem? there))
        · cases fires
          refine ⟨⟨⟨?_, inv.unpruned.pool⟩, inv.unset, inv.built⟩, rfl, List.Subset.refl _, nofun⟩
          intro later member
          obtain ⟨before, there, same⟩ := fired_callback member
          rw [← same]
          exact inv.unpruned.timers before there
    · contradiction
  | worker =>
    obtain ⟨_, runs, same⟩ := Option.map_eq_some_iff.mp acts
    cases same
    unfold workerAct at runs
    split at runs
    · rw [if_pos inv.unpruned.pool] at runs
      contradiction
    · contradiction
  | writer =>
    obtain ⟨_, writes, same⟩ := Option.map_eq_some_iff.mp acts
    cases same
    unfold writerAct at writes
    split at writes
    · split_ifs at writes
      obtain ⟨dir, _, same⟩ := Option.bind_eq_some_iff.mp writes
      cases same
      refine ⟨⟨⟨inv.unpruned.timers, inv.unpruned.pool⟩, inv.unset, inv.built⟩, rfl, List.subset_append_left .., ?_⟩
      rintro _ _ ⟨⟩
      exact List.mem_append_right _ List.mem_cons_self
    · contradiction
  | clock =>
    cases choice <;> cases acts
    exact ⟨⟨⟨inv.unpruned.timers, inv.unpruned.pool⟩, inv.unset, inv.built⟩, rfl, List.Subset.refl _, nofun⟩

theorem mainAct_rows {stage after : Stage} {d next : State} {choice : Choice}
    (acts : mainAct registry config d stage choice = some (next, after)) : next.rows = d.rows := by
  unfold mainAct at acts
  split at acts
  · split at acts <;> cases acts <;> rfl
  · split at acts
    · cases acts
      rfl
    · split at acts
      split_ifs at acts <;> cases acts <;> rfl
  · cases acts
    rfl
  · split at acts <;> cases acts <;> rfl
  · cases acts
    rfl
  · contradiction

/-- What holds of a run so far. -/
structure Kept (config : GlobalConfig) (rows : List (Bytes × ℕ)) (history : List (Party × Event))
    (s : Interleaving.State State Pc Party) : Prop where
  main : ∃ stage, s.pc .main = .main stage ∧ Inv config stage s.shared
  others : ∀ t, t ≠ .main → ∀ stage, s.pc t ≠ .main stage
  old : rows ⊆ s.shared.rows
  written : ∀ t dir timestamp, (t, .wrote dir timestamp) ∈ history → (dir, timestamp) ∈ s.shared.rows

variable {rows : List (Bytes × ℕ)} {now : ℕ} {history : List (Party × Event)}
  {target : Interleaving.State State Pc Party}

theorem kept_of_run (run : (program registry config).Run (source rows now) history target) :
    Kept config rows history target := by
  refine run.invariant (fun history s => Kept config rows history s) ⟨⟨.build, rfl, ?_⟩, ?_, List.Subset.refl _, nofun⟩ ?_
  · exact ⟨⟨nofun, rfl⟩, fun _ => rfl, nofun⟩
  · intro t other stage
    cases t with
    | main => exact absurd rfl other
    | _ => nofun
  intro history s thread choice shared pc event kept enabled
  obtain ⟨stage, here, inv⟩ := kept.main
  by_cases same : thread = .main
  · subst same
    rw [here] at enabled
    obtain ⟨moved, acts, same⟩ := Option.map_eq_some_iff.mp enabled
    cases same
    have rows_ := mainAct_rows acts
    refine ⟨⟨moved.2, State.move_pc_self .., inv.main acts⟩, ?_, ?_, ?_⟩
    · intro t other
      rw [State.move_pc_of_ne _ _ _ other]
      exact kept.others t other
    · rw [State.move_shared, rows_]
      exact kept.old
    · intro t dir timestamp member
      rw [State.move_shared, rows_]
      rcases List.mem_append.mp member with before | last
      · exact kept.written t dir timestamp before
      · cases List.mem_singleton.mp last
  · obtain ⟨inv, stays, subset, wrote⟩ := inv.beside enabled (kept.others thread same)
    refine ⟨⟨stage, ?_, inv⟩, ?_, fun row member => subset (kept.old member), ?_⟩
    · rw [State.move_pc_of_ne _ _ _ (Ne.symm same)]
      exact here
    · intro t other
      rw [State.move_pc]
      split_ifs with moved
      · rw [stays]
        exact kept.others thread same
      · exact kept.others t other
    · intro t dir timestamp member
      rcases List.mem_append.mp member with before | last
      · exact subset (kept.written t dir timestamp before)
      · obtain ⟨_, same⟩ := Prod.mk.inj (List.mem_singleton.mp last)
        exact wrote dir timestamp same.symm

/-- No run deletes a row, whether it was there before or is written in the run. -/
theorem rows_kept (run : (program registry config).Run (source rows now) history target) {dir : Bytes} {timestamp : ℕ}
    (stored : (dir, timestamp) ∈ rows ∨ ∃ t, (t, .wrote dir timestamp) ∈ history) :
    (dir, timestamp) ∈ target.shared.rows := by
  rcases stored with before | ⟨t, written⟩
  · exact (kept_of_run run).old before
  · exact (kept_of_run run).written t dir timestamp written

/-! ## Retention -/

/-- A registered timer prunes a backend. -/
def State.Prunes (d : State) (backend : ℕ) : Prop :=
  d.storage_backend_ = some backend ∧ ∃ entry ∈ d.timers_, entry.callback = .prune

/-- Every local storage sink's backend is pruned, and no row of its store is older than the retention, one
pruning interval and the delay of the task. -/
structure Retained (delay : ℕ) (d : State) : Prop where
  pruned : ∀ p ∈ d.pipelines_, ∀ sink, .local_storage sink ∈ p.sinks_ →
    ∃ backend, sink.backend_ = some backend ∧ d.Prunes backend
  young : ∀ p ∈ d.pipelines_, ∀ sink, .local_storage sink ∈ p.sinks_ → ∀ row ∈ d.rows, row.1 = sink.data_dir_ →
    d.now ≤ row.2 + kRetentionNs + pruneInterval * 1000000 + delay

theorem exists_local_iff {pipelines_ : List Pipeline} (same : kinds pipelines_ = configured config) :
    (∃ p ∈ pipelines_, ∃ sink, .local_storage sink ∈ p.sinks_) ↔
      ∃ pc ∈ config.pipelines, ∃ stage ∈ pc.sinks, stage.type = "local_storage" := by
  have built : (∃ l ∈ kinds pipelines_, true ∈ l) ↔ ∃ p ∈ pipelines_, ∃ sink, .local_storage sink ∈ p.sinks_ := by
    simp only [kinds, List.mem_map, exists_exists_and_eq_and]
    refine exists_congr fun p => and_congr_right fun _ => ⟨?_, ?_⟩
    · rintro ⟨sink, member, kind⟩
      cases sink with
      | local_storage sink => exact ⟨sink, member⟩
      | other _ => cases kind
    · rintro ⟨sink, member⟩
      exact ⟨_, member, rfl⟩
  rw [← built, same]
  simp only [configured, List.mem_map, exists_exists_and_eq_and, decide_eq_true_eq]

/-- Without a pruning no store is retained. -/
theorem not_retained {d : State} {delay : ℕ} (unpruned : Unpruned d)
    (stores : ∃ p ∈ d.pipelines_, ∃ sink, .local_storage sink ∈ p.sinks_) : ¬ Retained delay d := by
  intro retained
  obtain ⟨p, member, sink, inside⟩ := stores
  obtain ⟨_, _, _, entry, there, prunes⟩ := retained.pruned p member sink inside
  exact unpruned.timers entry there prunes

/-- Once `StartAll` has succeeded, and until the daemon is stopped, the stores are retained exactly when no
pipeline is configured with a local storage sink. -/
theorem retained_iff (registry : Registry) (config : GlobalConfig) (rows : List (Bytes × ℕ)) (now delay : ℕ)
    (run : (program registry config).Run (source rows now) history target)
    (started : target.pc .main = .main .expose ∨ target.pc .main = .main .serving) :
    Retained delay target.shared ↔ ∀ pc ∈ config.pipelines, ∀ stage ∈ pc.sinks, stage.type ≠ "local_storage" := by
  obtain ⟨stage, here, inv⟩ := (kept_of_run run).main
  have built : kinds target.shared.pipelines_ = configured config := by
    apply inv.built
    rw [here] at started
    rcases started with same | same <;> cases same <;> trivial
  have stores := exists_local_iff built
  constructor
  · intro retained pc member stage inside same
    exact not_retained inv.unpruned (stores.mpr ⟨pc, member, stage, inside, same⟩) retained
  · intro none_
    have absent : ∀ p ∈ target.shared.pipelines_, ∀ sink, .local_storage sink ∉ p.sinks_ := by
      intro p member sink inside
      obtain ⟨pc, configured_, stage, listed, same⟩ := stores.mp ⟨p, member, sink, inside⟩
      exact none_ pc configured_ stage listed same
    exact ⟨fun p member sink inside => absurd inside (absent p member sink),
      fun p member sink inside => absurd inside (absent p member sink)⟩

/-- A pull source and a store. -/
def demoRegistry : Registry where
  CreateSource type := if type = "cpu_utilization" then some fun _ => .ok ⟨false, 1000, .Ok⟩ else none
  CreateProcessor _ := none
  CreateAggregator _ := none
  sinks_ _ := none
  creators_ name := if name = ascii "sqlite" then some fun _ => .Ok else none

def demoConfig : GlobalConfig where
  pipelines := [⟨"cpu_utilization", ⟨"cpu_utilization", .empty⟩, [], none, [⟨"local_storage", .empty⟩]⟩]

/-- The daemon starts, a row is written, and two hours pass. -/
def twoHours : List (Party × Choice) :=
  List.replicate 5 (.main, .proceed) ++ [(.writer 0, .write 0 1000), (.clock, .tick (2 * 60 * 60 * 1000000000))]

private theorem twoHours_run : ∃ history target, (program demoRegistry demoConfig).Run (source [] 1000) history target ∧
    target.pc .main = .main .serving ∧ target.shared.now = 1000 + 2 * 60 * 60 * 1000000000 ∧
      target.shared.rows = [(ascii "/var/lib/illuminator", 1000)] :=
  Program.exists_run_of_check (program demoRegistry demoConfig) (source [] 1000)
    (fun s _ => s.pc .main = .main .serving ∧ s.shared.now = 1000 + 2 * 60 * 60 * 1000000000 ∧
      s.shared.rows = [(ascii "/var/lib/illuminator", 1000)]) twoHours (by decide +kernel)

/-- The row is still in the store after two hours, and nothing is registered that would prune it. -/
theorem row_outlives : ∃ history target, (program demoRegistry demoConfig).Run (source [] 1000) history target ∧
    target.pc .main = .main .serving ∧ (ascii "/var/lib/illuminator", 1000) ∈ target.shared.rows ∧
    1000 + 2 * 60 * 60 * 1000000000 ≤ target.shared.now ∧ ∀ delay, ¬ Retained delay target.shared := by
  obtain ⟨history, target, run, serving, later, rows⟩ := twoHours_run
  refine ⟨history, target, run, serving, rows ▸ List.mem_cons_self, later.ge, fun delay => ?_⟩
  obtain ⟨stage, here, inv⟩ := (kept_of_run run).main
  have built : kinds target.shared.pipelines_ = configured demoConfig := by
    apply inv.built
    cases here.symm.trans serving
    trivial
  exact not_retained inv.unpruned ((exists_local_iff built).mpr ⟨_, List.mem_cons_self, _, List.mem_cons_self, rfl⟩)

theorem retained_iff_demo : ∃ history target, (program demoRegistry demoConfig).Run (source [] 1000) history target ∧
    (Retained 0 target.shared ↔
      ∀ pc ∈ demoConfig.pipelines, ∀ stage ∈ pc.sinks, stage.type ≠ "local_storage") := by
  obtain ⟨history, target, run, serving, _⟩ := twoHours_run
  exact ⟨history, target, run, retained_iff demoRegistry demoConfig [] 1000 0 run (Or.inr serving)⟩

end Daemon

end Illuminator
