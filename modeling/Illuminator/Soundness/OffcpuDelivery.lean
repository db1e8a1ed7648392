import Illuminator.Soundness.OffcpuIntervals

/-! # Delivery of off-CPU intervals

Over a run of the probe and the source, what has been returned, what is cached and what is still to be
handled is one sample for each interval that the probe and the source let through, in order. Once the
ring buffer has been polled empty this leaves the returned batches and the cached one.
-/

namespace Illuminator

namespace OffcpuProfiler

open Interleaving

variable {τ : Type*} {config : Config} {history : List (τ × Event)} {s t : Shared}

def Event.switch? : Event → Option Switch
  | .switched ctx => some ctx
  | _ => none

def Event.batch : Event → List StackSample
  | .returned batch => batch
  | _ => []

def switchesOf (history : List (τ × Event)) : List Switch := history.filterMap fun entry => entry.2.switch?

/-- The samples of all returned batches, then those of the cached one. -/
def delivered (history : List (τ × Event)) (s : Shared) : List StackSample :=
  (history.flatMap fun entry => entry.2.batch) ++ s.cached_batch_.getD []

/-- The events that the poll thread has not finished with. -/
def Shared.pending (s : Shared) : List IlOffcpuEvent := s.handling.toList ++ s.offcpu_events

/-- A sample without the time at which it was cached. -/
def untimed (sample : StackSample) : StackSample := { sample with timestamp := 0 }

/-- What is to be delivered for an interval: the task, the switch-out's comm and stacks, and the length. -/
def Interval.sample (config : Config) (i : Interval) : StackSample where
  timestamp := 0
  pid := i.back.next_pid
  tid := i.back.next_pid
  comm := i.out.prev_comm
  kernel_stack := config.LookupBpfStackTrace i.out.kernel_stack_id
  user_stack := config.LookupBpfStackTrace i.out.user_stack_id
  count := 1
  cpu := i.back.cpu
  sample_type := .kOffCpu
  duration_ns := UInt64.ofNat i.length
  kernel_stack_id := i.out.kernel_stack_id
  user_stack_id := i.out.user_stack_id

/-- The probe and the source let an interval through. -/
def Config.Keeps (config : Config) (i : Interval) : Bool :=
  config.min_duration_ns.toNat ≤ i.length && config.AllowPid i.back.next_pid

def due (config : Config) (switches : List Switch) : List StackSample :=
  ((intervals switches).filter config.Keeps).map (·.sample config)

/-- The samples for the events that the source has not finished with. -/
def Shared.toCome (config : Config) (s : Shared) : List StackSample :=
  (s.pending.filter fun ev => config.AllowPid ev.pid).map fun ev => offcpuSample config ev 0

/-- What holds between the history of a run and the state. -/
structure Books (config : Config) (history : List (τ × Event)) (s : Shared) : Prop where
  past : ∀ ctx ∈ switchesOf history, ctx.ts ≤ s.clock
  starts : Follows s.offcpu_start (switchesOf history)
  samples : (delivered history s).map untimed ++ s.toCome config = due config (switchesOf history)

theorem Books.started : Books config ([] : List (τ × Event)) .started where
  past _ present := absurd present List.not_mem_nil
  starts _ := (ite_self _).symm
  samples := rfl

theorem Interval.sample_eq {i : Interval} (ordered : i.out.ts ≤ i.back.ts) :
    offcpuSample config i.event 0 = i.sample config := by
  have lasted : i.back.ts - i.out.ts = UInt64.ofNat i.length := by
    rw [← i.duration ordered, UInt64.ofNat_toNat]
  change StackSample.mk _ _ _ _ _ _ _ _ _ (i.back.ts - i.out.ts) _ _ = _
  rw [lasted]
  rfl

theorem switchesOf_snoc (history : List (τ × Event)) (thread : τ) (event : Event) :
    switchesOf (history ++ [(thread, event)]) = switchesOf history ++ event.switch?.toList := by
  rw [switchesOf, List.filterMap_append, List.filterMap_cons, List.filterMap_nil]
  cases event.switch? <;> rfl

theorem flatMap_batch_snoc (history : List (τ × Event)) (thread : τ) (event : Event) :
    (history ++ [(thread, event)]).flatMap (fun entry => entry.2.batch) =
      (history.flatMap fun entry => entry.2.batch) ++ event.batch := by
  rw [List.flatMap_append, List.flatMap_singleton]

/-- The event that a switch sends is the sample that its interval is due. -/
theorem toCome_ended {switches : List Switch} {ctx : Switch} (past : ∀ earlier ∈ switches, earlier.ts ≤ ctx.ts) :
    ((((ended switches ctx).filter fun i => config.min_duration_ns.toNat ≤ i.length).map Interval.event).toList.filter
      fun ev => config.AllowPid ev.pid).map (fun ev => offcpuSample config ev 0) =
      ((ended switches ctx).toList.filter config.Keeps).map (·.sample config) := by
  cases ends : ended switches ctx with
  | none => rfl
  | some i =>
    obtain ⟨before, rfl⟩ := ended_eq_some ends
    have same : offcpuSample config i.event 0 = i.sample config := i.sample_eq (past i.out before)
    by_cases long : config.min_duration_ns.toNat ≤ i.length
    · have keeps : config.Keeps i = config.AllowPid i.event.pid := by
        rw [Config.Keeps, decide_eq_true long, Bool.true_and]
        rfl
      rw [Option.filter_some_pos (by simpa using long), Option.map_some, Option.toList_some, Option.toList_some,
        List.filter_cons, List.filter_cons, keeps]
      split_ifs
      · exact congrArg (List.cons · []) same
      · rfl
    · have keeps : config.Keeps i = false := by rw [Config.Keeps, decide_eq_false long, Bool.false_and]
      rw [Option.filter_some_neg (by simpa using long), Option.toList_some, List.filter_cons, keeps]
      rfl

theorem pending_switch (s : Shared) (ctx : Switch) : (trace_offcpu config s ctx).pending =
    s.pending ++ (switchIn config.min_duration_ns (switchOut s.offcpu_start ctx) ctx).2.toList :=
  (List.append_assoc ..).symm

theorem delivered_quiet (history : List (τ × Event)) (s : Shared) (thread : τ) {event : Event} (same : event.batch = []) :
    delivered (history ++ [(thread, event)]) s = delivered history s := by
  rw [delivered, flatMap_batch_snoc, same, List.append_nil]
  rfl

theorem Books.switch (books : Books config history s) (thread : τ) {ctx : Switch} (moves : ctx.prev_pid ≠ ctx.next_pid)
    (later : s.clock ≤ ctx.ts) : Books config (history ++ [(thread, .switched ctx)]) (trace_offcpu config s ctx) := by
  have past : ∀ earlier ∈ switchesOf history, earlier.ts ≤ ctx.ts :=
    fun earlier present => UInt64.le_trans (books.past earlier present) later
  obtain ⟨starts, sent⟩ := switchIn_follows config.min_duration_ns books.starts moves past
  have switches : switchesOf (history ++ [(thread, .switched ctx)]) = switchesOf history ++ [ctx] :=
    switchesOf_snoc history thread _
  constructor
  · intro earlier present
    rw [switches, List.mem_append, List.mem_singleton] at present
    rcases present with before | rfl
    · exact past earlier before
    · exact UInt64.le_refl _
  · rw [switches]
    exact starts
  · have pending : (trace_offcpu config s ctx).toCome config = s.toCome config ++
        ((ended (switchesOf history) ctx).toList.filter config.Keeps).map (·.sample config) := by
      rw [Shared.toCome, pending_switch, List.filter_append, List.map_append, sent, toCome_ended past]
      rfl
    rw [switches, due, intervals_snoc, List.filter_append, List.map_append, pending, ← List.append_assoc,
      delivered_quiet history _ thread rfl]
    exact congrArg (· ++ _) books.samples

theorem Books.poll (books : Books config history s) (thread : τ) {ev : IlOffcpuEvent} {rest : List IlOffcpuEvent}
    (free : s.handling = none) (first : s.offcpu_events = ev :: rest) :
    Books config (history ++ [(thread, .quiet)]) { s with handling := some ev, offcpu_events := rest } := by
  have switches : switchesOf (history ++ [(thread, Event.quiet)]) = switchesOf history :=
    (switchesOf_snoc history thread _).trans (List.append_nil _)
  have samples := books.samples
  rw [Shared.toCome, Shared.pending, free, first] at samples
  constructor
  · rw [switches]
    exact books.past
  · rw [switches]
    exact books.starts
  · rw [switches, delivered_quiet history _ thread rfl]
    exact samples

theorem Books.handle (books : Books config history s) (thread : τ) {ev : IlOffcpuEvent} (now : Timestamp)
    (taken : s.handling = some ev) : Books config (history ++ [(thread, .quiet)]) (HandleEvent config s ev now) := by
  have switches : switchesOf (history ++ [(thread, Event.quiet)]) = switchesOf history :=
    (switchesOf_snoc history thread _).trans (List.append_nil _)
  have samples := books.samples
  rw [Shared.toCome, Shared.pending, taken, Option.toList_some, List.singleton_append, List.filter_cons] at samples
  unfold HandleEvent
  split_ifs at samples ⊢ with allowed
  · constructor
    · rw [switches]
      exact books.past
    · rw [switches]
      exact books.starts
    · rw [switches, delivered_quiet history _ thread rfl, ← samples, delivered, Option.getD_some, ← List.append_assoc,
        List.map_append, List.append_assoc]
      rfl
  · constructor
    · rw [switches]
      exact books.past
    · rw [switches]
      exact books.starts
    · rw [switches, delivered_quiet history _ thread rfl]
      exact samples

theorem Books.collect (books : Books config history s) (thread : τ) :
    Books config (history ++ [(thread, .returned (Collect s).2)]) (Collect s).1 := by
  have switches : switchesOf (history ++ [(thread, Event.returned (Collect s).2)]) = switchesOf history :=
    (switchesOf_snoc history thread _).trans (List.append_nil _)
  constructor
  · rw [switches]
    exact books.past
  · rw [switches]
    exact books.starts
  · rw [switches, delivered, flatMap_batch_snoc, ← books.samples]
    exact congrArg (fun l => l.map untimed ++ _) (List.append_nil _)

theorem Books.act (books : Books config history s) (thread : τ) {pc after : Pc} {choice : Choice} {event : Event}
    (acts : OffcpuProfiler.act config s pc choice = some (t, after, event)) :
    Books config (history ++ [(thread, event)]) t := by
  unfold OffcpuProfiler.act at acts
  split at acts
  · split_ifs at acts with enabled
    cases acts
    exact books.switch thread enabled.1 enabled.2
  · split at acts
    · next ev rest free first =>
      cases acts
      exact books.poll thread free first
    · cases acts
  · split at acts
    · next ev taken =>
      cases acts
      exact books.handle thread _ taken
    · cases acts
  · cases acts
    exact books.collect thread
  · cases acts

variable {Caller : Type*} [DecidableEq Caller] {running : UInt32 → Tid}
  {history : List ((UInt32 ⊕ Option Caller) × Event)} {target : State Shared Pc (UInt32 ⊕ Option Caller)}

theorem books_of_run (run : (program config).Run (start Caller running) history target) :
    Books config history target.shared :=
  run.invariant (fun history s => Books config history s.shared) .started
    fun {_ _ thread _ _ _ _} books enabled => books.act thread enabled

/-- The ring buffer has been polled empty, and the last callback has ended. -/
def Shared.Polled (s : Shared) : Prop := s.handling = none ∧ s.offcpu_events = []

/-- Once the ring buffer has been polled empty, what is due has been delivered. -/
theorem delivered_of_polled (run : (program config).Run (start Caller running) history target)
    (polled : target.shared.Polled) :
    (delivered history target.shared).map untimed = due config (switchesOf history) := by
  have samples := (books_of_run run).samples
  rw [Shared.toCome, Shared.pending, polled.1, polled.2] at samples
  rw [← samples]
  exact (List.append_nil _).symm

/-- A task that has left its CPU and has not come back. -/
def SwitchedOut (switches : List Switch) (tid : Tid) : Prop :=
  ∃ earlier out later, switches = earlier ++ out :: later ∧ out.prev_pid = tid ∧ ∀ ctx ∈ later, ¬ ctx.Concerns tid

/-- Without a filter every interval that is long enough is delivered exactly once, in order, and the map
holds the tasks that are switched out. -/
theorem intervals_delivered_once (unfiltered : config.target_pid_allow_ = [])
    (run : (program config).Run (start Caller running) history target) :
    (∀ key, (target.shared.offcpu_start key).isSome = true ↔
      key.pid = key.tid ∧ key.tid ≠ 0 ∧ SwitchedOut (switchesOf history) key.tid) ∧
    (target.shared.Polled → (delivered history target.shared).map untimed =
      ((intervals (switchesOf history)).filter fun i => config.min_duration_ns.toNat ≤ i.length).map (·.sample config)) := by
  constructor
  · intro key
    rw [(books_of_run run).starts key]
    split_ifs with own
    · rw [Option.isSome_map, Option.isSome_iff_exists]
      constructor
      · rintro ⟨out, waits⟩
        obtain ⟨left, earlier, later, split, apart⟩ := waiting_eq_some_iff.mp waits
        exact ⟨own.1, own.2, earlier, out, later, split, left, apart⟩
      · rintro ⟨-, -, earlier, out, later, split, left, apart⟩
        exact ⟨out, waiting_eq_some_iff.mpr ⟨left, earlier, later, split, apart⟩⟩
    · constructor
      · intro never
        exact absurd never Bool.false_ne_true
      · rintro ⟨same, task, -⟩
        exact absurd ⟨same, task⟩ own
  · intro polled
    have allowed : ∀ pid, config.AllowPid pid = true := by
      intro pid
      rw [Config.AllowPid, unfiltered]
      rfl
    have keeps : config.Keeps = fun i => decide (config.min_duration_ns.toNat ≤ i.length) := by
      funext i
      rw [Config.Keeps, allowed, Bool.and_true]
    rw [delivered_of_polled run polled, due, keeps]

/-- Task 7 is off its CPU for a millisecond. -/
theorem intervals_delivered_once_millisecond : ∃ history target,
    (program {}).Run (start Unit fun _ => 0) history target ∧ target.shared.Polled ∧
      (delivered history target.shared).map untimed = ((intervals (switchesOf history)).filter fun i =>
        100000 ≤ i.length).map (·.sample {}) ∧ (delivered history target.shared).length = 1 := by
  obtain ⟨history, target, run, polled, one⟩ := Program.exists_run_of_check (program {}) (start Unit fun _ => 0)
    (fun s history => (s.shared.handling = none ∧ s.shared.offcpu_events = []) ∧
      (delivered history s.shared).length = 1)
    [(.inl 0, .switch 7 1000000 [] (-1) (-1)), (.inl 0, .switch 0 2000000 [] 3 4),
      (.inl 1, .switch 7 3000000 [] (-1) (-1)), (.inr none, .poll), (.inr none, .handle 5),
      (.inr (some ()), .collect)] (by decide)
  exact ⟨history, target, run, polled, (intervals_delivered_once rfl run).2 polled, one⟩

end OffcpuProfiler

end Illuminator
