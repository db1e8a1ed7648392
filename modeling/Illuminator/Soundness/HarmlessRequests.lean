import Illuminator.Soundness.InsertedRequests

/-! # Requests that find nothing

What a request's `Collect` has to find in each stateful source so that it takes nothing from the pipeline:
no cached sample of the off-CPU profiler, no entry of the scheduler analyzer's map under a listed key, and
counters of the CPU that are those of the Collect before. A request that finds a cached sample takes it away
from the sinks.
-/

namespace Illuminator

namespace CollectRequests

open Interleaving Processors

variable {D : Type}

/-! ## Off-CPU profiles -/

/-- An empty batch is cached where none is. -/
def settled (s : OffcpuProfiler.Shared) : OffcpuProfiler.Shared :=
  { s with cached_batch_ := some (s.cached_batch_.getD []) }

/-- A request finds no cached sample. -/
def NothingCached (D : Type) (config : OffcpuProfiler.Config) (s : (offcpu_profiler D config).Shared)
    (_ : (offcpu_profiler D config).Pc) (_ : (offcpu_profiler D config).Choice) : Prop :=
  OffcpuProfiler.Shared.cached_batch_ s = none ∨ OffcpuProfiler.Shared.cached_batch_ s = some []

instance (D : Type) (config : OffcpuProfiler.Config) (s : (offcpu_profiler D config).Shared)
    (pc : (offcpu_profiler D config).Pc) (choice : (offcpu_profiler D config).Choice) :
    Decidable (NothingCached D config s pc choice) :=
  inferInstanceAs (Decidable
    (OffcpuProfiler.Shared.cached_batch_ s = none ∨ OffcpuProfiler.Shared.cached_batch_ s = some []))

/-- Whether there is an empty batch or none makes no difference. -/
theorem act_settled (config : OffcpuProfiler.Config) (s : OffcpuProfiler.Shared) (pc : OffcpuProfiler.Pc)
    (choice : OffcpuProfiler.Choice) :
    (OffcpuProfiler.act config (settled s) pc choice).map (fun moved => (settled moved.1, moved.2)) =
      (OffcpuProfiler.act config s pc choice).map fun moved => (settled moved.1, moved.2) := by
  cases pc with
  | cpu id current =>
    cases choice with
    | switch next_pid ts prev_comm kernel_stack_id user_stack_id =>
      simp only [OffcpuProfiler.act]
      change (if current ≠ next_pid ∧ s.clock ≤ ts then _ else _ : Option _).map _ = _
      split_ifs <;> rfl
    | _ => rfl
  | poll =>
    cases choice with
    | poll =>
      simp only [OffcpuProfiler.act, settled]
      cases s.handling <;> cases s.offcpu_events <;> rfl
    | handle now =>
      simp only [OffcpuProfiler.act, settled]
      cases s.handling with
      | none => rfl
      | some ev =>
        simp only [OffcpuProfiler.HandleEvent]
        split_ifs <;> rfl
    | _ => rfl
  | caller =>
    cases choice <;> rfl

/-- The same step is taken where an empty batch is cached and where none is. -/
theorem act_follows {config : OffcpuProfiler.Config} {s mirror next : OffcpuProfiler.Shared}
    {pc after : OffcpuProfiler.Pc} {choice : OffcpuProfiler.Choice} {event : OffcpuProfiler.Event}
    (related : settled s = settled mirror) (acted : OffcpuProfiler.act config s pc choice = some (next, after, event)) :
    ∃ next', OffcpuProfiler.act config mirror pc choice = some (next', after, event) ∧ settled next = settled next' := by
  have both := act_settled config mirror pc choice
  rw [← related, act_settled, acted, Option.map_some] at both
  obtain ⟨⟨next', after', event'⟩, acted', same⟩ := Option.map_eq_some_iff.mp both.symm
  obtain ⟨settledSame, rest⟩ := Prod.mk.inj same
  cases rest
  exact ⟨next', acted', settledSame.symm⟩

theorem offcpu_unwinds (config : OffcpuProfiler.Config) :
    (offcpu_profiler D config).Unwinding (fun s mirror => settled s = settled mirror) (fun pc => pc = .caller)
      (NothingCached D config) := by
  constructor
  · exact fun _ => rfl
  · rfl
  · intro s mirror next pc after choice result related returned
    obtain ⟨⟨moved, there, event⟩, acted, same⟩ := Option.map_eq_some_iff.mp returned
    cases same
    obtain ⟨next', acted', related'⟩ := act_follows related acted
    refine ⟨next', ?_, related'⟩
    change (OffcpuProfiler.act config mirror pc choice).map _ = _
    rw [acted']
    rfl
  · intro s mirror next pc after choice result related quiet nothing returned
    subst quiet
    replace nothing : s.cached_batch_.getD [] = [] := by
      rcases nothing with absent | empty
      · rw [absent]
        rfl
      · rw [empty]
        rfl
    cases choice with
    | collect =>
      cases returned
      refine ⟨rfl, ?_, ?_⟩
      · dsimp only
        rw [← related]
        change { s with cached_batch_ := some [] } = { s with cached_batch_ := some (s.cached_batch_.getD []) }
        rw [nothing]
      · intro batch same
        cases same
        exact nothing
    | _ => cases returned

/-! ## Scheduler statistics -/

/-- A caller of `Collect` that is not about to delete. -/
def Looks : SchedAnalyzer.Pc → Prop
  | .idle => True
  | .listing _ => True
  | .looking _ _ => True
  | _ => False

/-- A request that looks a key up finds no entry. -/
def Missing (D : Type) (config : SchedAnalyzer.Config) (m : (sched_analyzer D config).Shared)
    (pc : (sched_analyzer D config).Pc) (_ : (sched_analyzer D config).Choice) : Prop :=
  ∀ pid pids batch, pc = .looking (pid :: pids) batch → SchedAnalyzer.Maps.sched_agg m pid = none

/-- A caller that looks up keys without entries changes nothing. -/
theorem act_looks {config : SchedAnalyzer.Config} {m next : SchedAnalyzer.Maps} {pc after : SchedAnalyzer.Pc}
    {choice : SchedAnalyzer.Choice} {event : SchedAnalyzer.Event} (looks : Looks pc)
    (missing : ∀ pid pids batch, pc = .looking (pid :: pids) batch → m.sched_agg pid = none)
    (acted : (SchedAnalyzer.program config).act m pc choice = some (next, after, event)) : Looks after ∧ next = m := by
  have listed_looks (pids : List SchedAnalyzer.Pid) (key : Option SchedAnalyzer.Pid) :
      Looks (SchedAnalyzer.listed pids key) := by
    cases key <;> trivial
  cases pc with
  | cpu => exact absurd looks id
  | deleting pid stats pids batch => exact absurd looks id
  | idle =>
    cases choice with
    | next key =>
      simp only [SchedAnalyzer.program, SchedAnalyzer.collect] at acted
      split_ifs at acted
      cases acted
      exact ⟨listed_looks [] key, rfl⟩
    | _ => cases acted
  | listing pids =>
    cases choice with
    | next key =>
      simp only [SchedAnalyzer.program, SchedAnalyzer.collect] at acted
      split_ifs at acted
      cases acted
      exact ⟨listed_looks pids key, rfl⟩
    | _ => cases acted
  | looking pids batch =>
    cases choice with
    | go =>
      cases pids with
      | nil =>
        cases acted
        exact ⟨trivial, rfl⟩
      | cons pid pids =>
        have absent : m.sched_agg pid = none := missing pid pids batch rfl
        simp only [SchedAnalyzer.program, SchedAnalyzer.collect, absent] at acted
        cases acted
        exact ⟨trivial, rfl⟩
    | _ => cases pids <;> cases acted

theorem sched_unwinds (config : SchedAnalyzer.Config) :
    (sched_analyzer D config).Unwinding Eq Looks (Missing D config) := by
  constructor
  · exact fun _ => rfl
  · trivial
  · intro m mirror next pc after choice result same acted
    subst same
    exact ⟨next, acted, rfl⟩
  · intro m mirror next pc after choice result same looks missing returned
    subst same
    obtain ⟨⟨moved, there, event⟩, acted, ends⟩ := Option.map_eq_some_iff.mp returned
    cases ends
    obtain ⟨choice, now⟩ := choice
    have samples : ∀ batch, schedBatch (D := D) now event = some batch → batch.stack_samples = [] := by
      intro batch same
      cases event <;> cases same
      rfl
    obtain ⟨quiet, unchanged⟩ := act_looks looks missing acted
    exact ⟨quiet, unchanged, samples⟩

/-! ## CPU utilization -/

section

open CpuUtilization

variable [Add D] [Sub D] [Mul D] [Div D] [NatCast D] [LT D] [DecidableLT D] {config : CpuUtilization.Config D}

/-- The states that a Collect cannot tell apart. The averages count only when there is smoothing. -/
structure CpuLike (config : CpuUtilization.Config D) (s mirror : CpuUtilization.Shared D) : Prop where
  has_prev_ : s.has_prev_ = mirror.has_prev_
  cores : s.prev_.cores = mirror.prev_.cores
  ctxt : s.prev_.ctxt = mirror.prev_.ctxt
  intr : s.prev_.intr = mirror.prev_.intr
  ema_states_ : ((0 : ℕ) : D) < config.ema_alpha_ → s.ema_states_ = mirror.ema_states_

/-- A request reads the counters that a Collect has read last, and there is no smoothing. -/
structure Unmoved (config : CpuUtilization.Config D) (s : (cpu_utilization config).Shared)
    (_ : (cpu_utilization config).Pc) (read : (cpu_utilization config).Choice) : Prop where
  has_prev_ : s.has_prev_ = true
  cores : read.cur.cores = s.prev_.cores
  ctxt : read.cur.ctxt = s.prev_.ctxt
  intr : read.cur.intr = s.prev_.intr
  ema_alpha_ : ¬ ((0 : ℕ) : D) < config.ema_alpha_

/-- Without smoothing the records do not depend on the averages. -/
theorem emitCores_plain (plain : ¬ ((0 : ℕ) : D) < config.ema_alpha_) (cur prev : List CoreJiffies)
    {ema other : List (EmaState D)} (enough : cur.length ≤ ema.length) (enough' : cur.length ≤ other.length) :
    (emitCores config cur prev ema).1 = (emitCores config cur prev other).1 := by
  induction cur generalizing prev ema other with
  | nil => rfl
  | cons c cur ih =>
    cases prev with
    | nil => rfl
    | cons p prev =>
      cases ema with
      | nil => exact absurd enough (Nat.not_succ_le_zero _)
      | cons e ema =>
        cases other with
        | nil => exact absurd enough' (Nat.not_succ_le_zero _)
        | cons e' other =>
          have later := ih prev (Nat.le_of_succ_le_succ enough) (Nat.le_of_succ_le_succ enough')
          have record : coreRecord config c p (emaAfter config c p e) = coreRecord config c p (emaAfter config c p e') := by
            simp only [coreRecord, if_neg plain]
          simp only [emitCores]
          split_ifs
          · rw [later, record]
          · exact later

omit [Add D] [Sub D] [Mul D] [Div D] [LT D] [DecidableLT D] in
theorem resized_length (ema : List (EmaState D)) (n : ℕ) : n ≤ (resized ema n).length := by
  rw [resized, List.length_append, List.length_replicate]
  omega

theorem emitted_like {s mirror : CpuUtilization.Shared D} (related : CpuLike config s mirror) (cur : CpuSnapshot) :
    (emitted config s cur).1 = (emitted config mirror cur).1 ∧
      (((0 : ℕ) : D) < config.ema_alpha_ → (emitted config s cur).2 = (emitted config mirror cur).2) := by
  have counters : EmitSystemCounters config s cur = EmitSystemCounters config mirror cur := by
    simp only [EmitSystemCounters, related.ctxt, related.intr]
  unfold emitted EmitCpuUtilization
  rw [related.has_prev_, related.cores, counters]
  by_cases smoothing : ((0 : ℕ) : D) < config.ema_alpha_
  · rw [related.ema_states_ smoothing]
    exact ⟨rfl, fun _ => rfl⟩
  · refine ⟨?_, fun smooths => absurd smooths smoothing⟩
    split_ifs
    · dsimp only
      rw [emitCores_plain smoothing _ _ (resized_length _ _) (resized_length mirror.ema_states_ _)]
    · rfl

theorem cpu_unwinds (config : CpuUtilization.Config D) :
    (cpu_utilization config).Unwinding (CpuLike config) (fun _ => True) (Unmoved config) := by
  constructor
  · exact fun s => ⟨rfl, rfl, rfl, rfl, fun _ => rfl⟩
  · trivial
  · intro s mirror next pc after read result related collected
    cases collected
    obtain ⟨records, averages⟩ := emitted_like related read.cur
    refine ⟨(Collect config mirror read).1, ?_, rfl, rfl, rfl, rfl, averages⟩
    have batch : (Collect config mirror read).2 = (Collect config s read).2 := by
      unfold Collect
      rw [records]
    change some ((Collect config mirror read).1, (), some (Collect config mirror read).2) =
      some ((Collect config mirror read).1, (), some (Collect config s read).2)
    rw [batch]
  · intro s mirror next pc after read result related _ unmoved collected
    cases collected
    refine ⟨trivial, ?_, ?_⟩
    · refine ⟨unmoved.has_prev_.symm.trans related.has_prev_, unmoved.cores.trans related.cores,
        unmoved.ctxt.trans related.ctxt, unmoved.intr.trans related.intr, fun smoothing => ?_⟩
      exact absurd smoothing unmoved.ema_alpha_
    · intro batch same
      cases same
      rfl

end

/-! ## Any of these sources -/

/-- A step of a request leaves the source as it is, and ends no `Collect` with samples. -/
def Keeps (source : Source D) (s : source.Shared) (pc : source.Pc) (choice : source.Choice) : Prop :=
  ∀ next after result, source.act s pc choice = some (next, after, result) →
    next = s ∧ ∀ batch, result = some batch → batch.stack_samples = []

theorem kept_unwinds (source : Source D) : source.Unwinding Eq (fun _ => True) (Keeps source) := by
  constructor
  · exact fun _ => rfl
  · trivial
  · intro s mirror next pc after choice result same acted
    subst same
    exact ⟨next, acted, rfl⟩
  · intro s mirror next pc after choice result same _ keeps acted
    subst same
    exact ⟨trivial, keeps next after result acted⟩

/-- A source with what a request's `Collect` has to find in it. -/
inductive Guarded [Add D] [Sub D] [Mul D] [Div D] [NatCast D] [LT D] [DecidableLT D] :
    (source : Source D) → (source.Shared → source.Pc → source.Choice → Prop) → Prop
  | offcpu_profiler (config : OffcpuProfiler.Config) :
      Guarded (offcpu_profiler D config) (NothingCached D config)
  | sched_analyzer (config : SchedAnalyzer.Config) : Guarded (sched_analyzer D config) (Missing D config)
  | cpu_utilization (config : CpuUtilization.Config D) : Guarded (cpu_utilization config) (Unmoved config)
  | other (source : Source D) : Guarded source (Keeps source)

variable [Add D] [Sub D] [Mul D] [Div D] [NatCast D] [LT D] [DecidableLT D] {S Q A τ Handler : Type}
  [DecidableEq τ] [DecidableEq Handler]

/-- In a run whose requests find nothing that they would take away, the sinks receive what they receive
without the requests. -/
theorem sinks_undisturbed {source : Source D} {harmless : source.Shared → source.Pc → source.Choice → Prop}
    (guarded : Guarded source harmless) (plumbing : Plumbing D Q A) (p : Shared source S Q A) (role : τ → Role source)
    (schedule : List ((τ ⊕ Handler) × Choice source S))
    (spared : (program plumbing).Spared (finds harmless) (start Handler p role) schedule)
    {target : State (Shared source S Q A) (Pc source) (τ ⊕ Handler)} {history : List ((τ ⊕ Handler) × Unit)}
    (replayed : (program plumbing).replay? (start Handler p role) schedule = some (target, history)) :
    ∃ base steps, (program plumbing).replay? (start Handler p role) (without schedule) = some (base, steps) ∧
      base.shared.sinks_ = target.shared.sinks_ := by
  cases guarded with
  | offcpu_profiler config => exact sinks_without (offcpu_unwinds config) spared replayed
  | sched_analyzer config => exact sinks_without (sched_unwinds config) spared replayed
  | cpu_utilization config => exact sinks_without (cpu_unwinds config) spared replayed
  | other => exact sinks_without (kept_unwinds source) spared replayed

/-- A queue without bound, and no aggregator. -/
def direct : Plumbing D (List (ChannelItem (DataBatch D))) Unit where
  TryEnqueue queue batch := queue ++ [.batch batch]
  InjectFlush queue := queue ++ [.flush]
  Dequeue
    | [] => none
    | item :: rest => some (item, rest)
  Add aggregator batch := (aggregator, [batch])
  Flush aggregator := (aggregator, [])

inductive Party where
  | cpu
  | poll
  | collector
  | process
  deriving DecidableEq

/-- The off-CPU profiler on one CPU, which runs task 7, with its poll thread, a caller in the collect pool
and the process thread. -/
def Party.role : Party → Role (offcpu_profiler ℤ {})
  | .cpu => .acts (.cpu 0 7)
  | .poll => .acts .poll
  | .collector => .collects
  | .process => .processes

def offcpuStarted : Shared (offcpu_profiler ℤ {}) Unit (List (ChannelItem (DataBatch ℤ))) Unit :=
  ⟨OffcpuProfiler.Shared.started, [], [], (), [], 0⟩

/-- Task 7 leaves the CPU and comes back, and the sample is cached. -/
def interval (left back : UInt64) : List ((Party ⊕ Unit) × Choice (offcpu_profiler ℤ {}) Unit) :=
  [(.inl .cpu, .act (.switch 0 left [] (-1) (-1))), (.inl .cpu, .act (.switch 7 back [] (-1) (-1))),
    (.inl .poll, .act .poll), (.inl .poll, .act (.handle 0))]

def request : List ((Party ⊕ Unit) × Choice (offcpu_profiler ℤ {}) Unit) :=
  [(.inr (), .act .collect), (.inr (), .respond)]

/-- A Collect of the timer, whose batch goes to the sinks. -/
def delivery : List ((Party ⊕ Unit) × Choice (offcpu_profiler ℤ {}) Unit) :=
  [(.inl .collector, .act .collect), (.inl .process, .dequeue), (.inl .process, .respond),
    (.inl .process, .submit false), (.inl .process, .respond)]

/-- How many samples the sinks have received with each batch. -/
def received (schedule : List ((Party ⊕ Unit) × Choice (offcpu_profiler ℤ {}) Unit)) : Option (List ℕ) :=
  ((program direct).replay? (start Unit offcpuStarted Party.role) schedule).map fun result =>
    result.1.shared.sinks_.map fun batch => batch.stack_samples.length

/-- A request between two intervals off the CPU takes the sample of the first away. -/
theorem request_takes_sample : ¬ ∀ schedule target history base steps,
    (program direct).replay? (start Unit offcpuStarted Party.role) schedule = some (target, history) →
    (program direct).replay? (start Unit offcpuStarted Party.role) (without schedule) = some (base, steps) →
    base.shared.sinks_ = target.shared.sinks_ := by
  intro undisturbed
  have disturbed : received (interval 0 1000000 ++ request ++ interval 2000000 3000000 ++ delivery) = some [1] := by
    decide
  have alone : received (without (interval 0 1000000 ++ request ++ interval 2000000 3000000 ++ delivery)) = some [2] := by
    decide
  obtain ⟨⟨target, history⟩, replayed, one⟩ := Option.map_eq_some_iff.mp disturbed
  obtain ⟨⟨base, steps⟩, based, two⟩ := Option.map_eq_some_iff.mp alone
  rw [undisturbed _ target history base steps replayed based, one] at two
  cases two

/-- A request before the first interval finds nothing. -/
theorem early_request_spares : ∃ target history base steps,
    (program direct).replay? (start Unit offcpuStarted Party.role) (request ++ interval 0 1000000 ++ delivery) =
      some (target, history) ∧
    (program direct).replay? (start Unit offcpuStarted Party.role)
      (without (request ++ interval 0 1000000 ++ delivery)) = some (base, steps) ∧
    base.shared.sinks_ = target.shared.sinks_ ∧ base.shared.sinks_.length = 1 := by
  have runs : received (request ++ interval 0 1000000 ++ delivery) = some [1] := by decide
  obtain ⟨⟨target, history⟩, replayed, one⟩ := Option.map_eq_some_iff.mp runs
  have spared : (program direct).Spared (finds (NothingCached ℤ {})) (start Unit offcpuStarted Party.role)
      (request ++ interval 0 1000000 ++ delivery) := by
    decide
  obtain ⟨base, steps, based, same⟩ :=
    sinks_undisturbed (.offcpu_profiler {}) direct offcpuStarted Party.role _ spared replayed
  refine ⟨target, history, base, steps, replayed, based, same, ?_⟩
  rw [same]
  exact (List.length_map _).symm.trans (congrArg List.length one)

end CollectRequests

end Illuminator
