import Illuminator.Model.SchedAnalyzer
import Mathlib.Algebra.BigOperators.Group.List.Basic
import Mathlib.Algebra.Order.Monoid.Unbundled.Basic

/-! # Accounts of the scheduler's statistics

The history of a run says what is due to a process: its run-queue latencies, its migrations, and the
latencies since its entry was last deleted. As long as no Collect deletes an entry that has changed
since it was looked up, the records made so far and the entry that is left add up to what is due.
-/

namespace Illuminator

namespace SchedAnalyzer

open Interleaving

variable {τ : Type*} {history : List (τ × Event)} {m : Maps} {pid : Pid}

/-- What is due to one process: when it was last woken, its latencies, its migrations, and the latencies
since its entry was last deleted. -/
structure Account where
  pending : Option ℕ := none
  latencies : List ℕ := []
  migrations : ℕ := 0
  since : List ℕ := []

def Account.see (pid : Pid) (a : Account) : Event → Account
  | .woken p ts => if p = pid then { a with pending := some ts } else a
  | .switched p ts =>
    if p = pid then
      { a with
        pending := none
        latencies := a.latencies ++ [runqueue_latency a.pending ts]
        since := a.since ++ [runqueue_latency a.pending ts] }
    else a
  | .migrated p => if p = pid then { a with migrations := a.migrations + 1 } else a
  | .recorded record => if record.pid = pid then { a with since := [] } else a
  | .dropped p => if p = pid then { a with since := [] } else a
  | .returned _ => a
  | .quiet => a

def account (pid : Pid) (history : List (τ × Event)) : Account :=
  (history.map Prod.snd).foldl (Account.see pid) {}

def Event.record? (pid : Pid) : Event → Option SchedRecord
  | .recorded record => if record.pid = pid then some record else none
  | _ => none

/-- The records of a process, in the order in which they were made. -/
def recorded (pid : Pid) (history : List (τ × Event)) : List SchedRecord :=
  history.filterMap fun entry => entry.2.record? pid

def largest (latencies : List ℕ) : ℕ := latencies.foldl max 0

/-- The entry of a process, with every counter zero when it has none. -/
def Maps.entry (m : Maps) (pid : Pid) : IlSchedStats := (m.sched_agg pid).getD {}

/-- Nothing of a process is lost or counted twice, and every maximum is the largest latency added since
the entry was created. -/
structure Accounted (pid : Pid) (history : List (τ × Event)) (m : Maps) : Prop where
  switches : ((recorded pid history).map (·.switch_count)).sum + (m.entry pid).switch_count =
    (account pid history).latencies.length
  latencies : ((recorded pid history).map (·.total_runqueue_latency_ns)).sum +
    (m.entry pid).total_runqueue_latency_ns = (account pid history).latencies.sum
  migrations : ((recorded pid history).map (·.migrate_count)).sum + (m.entry pid).migrate_count =
    (account pid history).migrations
  entry : ∀ stats, m.sched_agg pid = some stats →
    stats.max_runqueue_latency_ns ≤ stats.total_runqueue_latency_ns ∧
      stats.max_runqueue_latency_ns = largest (account pid history).since
  records : ∀ {before after thread record}, history = before ++ (thread, .recorded record) :: after →
    record.pid = pid → record.max_runqueue_latency_ns ≤ record.total_runqueue_latency_ns ∧
      record.max_runqueue_latency_ns = largest (account pid before).since

def IlSchedStats.counts (stats : IlSchedStats) : ℕ × ℕ × ℕ × ℕ :=
  (stats.switch_count, stats.total_runqueue_latency_ns, stats.max_runqueue_latency_ns, stats.migrate_count)

/-- A Collect that is about to delete the entry of a process has seen all that the entry counts. -/
def Undisturbed (pid : Pid) (m : Maps) : Pc → Prop
  | .deleting p stats _ _ => p = pid → (m.sched_agg pid).map IlSchedStats.counts = some stats.counts
  | _ => True

instance (pid : Pid) (m : Maps) (pc : Pc) : Decidable (Undisturbed pid m pc) := by
  cases pc <;> unfold Undisturbed <;> infer_instance

theorem account_snoc (thread : τ) (event : Event) :
    account pid (history ++ [(thread, event)]) = (account pid history).see pid event := by
  rw [account, List.map_append, List.foldl_append]
  rfl

theorem recorded_snoc (thread : τ) (event : Event) :
    recorded pid (history ++ [(thread, event)]) = recorded pid history ++ (event.record? pid).toList := by
  rw [recorded, List.filterMap_append, List.filterMap_cons, List.filterMap_nil]
  cases event.record? pid <;> rfl

theorem largest_snoc (latencies : List ℕ) (latency : ℕ) :
    largest (latencies ++ [latency]) = max (largest latencies) latency := by
  rw [largest, List.foldl_append]
  rfl

theorem largest_le_sum (latencies : List ℕ) : largest latencies ≤ latencies.sum := by
  induction latencies using List.reverseRecOn with
  | nil => exact Nat.le_refl 0
  | append_singleton rest last ih =>
    rw [largest_snoc, List.sum_append, List.sum_singleton]
    omega

/-- What holds between the history of a run and the maps. -/
structure Books (pid : Pid) (history : List (τ × Event)) (m : Maps) : Prop where
  pending : m.wakeup_ts pid = (account pid history).pending
  switches : ((recorded pid history).map (·.switch_count)).sum + (m.entry pid).switch_count =
    (account pid history).latencies.length
  latencies : ((recorded pid history).map (·.total_runqueue_latency_ns)).sum +
    (m.entry pid).total_runqueue_latency_ns = (account pid history).latencies.sum
  migrations : ((recorded pid history).map (·.migrate_count)).sum + (m.entry pid).migrate_count =
    (account pid history).migrations
  total : (m.entry pid).total_runqueue_latency_ns = (account pid history).since.sum
  largest : (m.entry pid).max_runqueue_latency_ns = largest (account pid history).since
  records : ∀ {before after thread record}, history = before ++ (thread, .recorded record) :: after →
    record.pid = pid → record.max_runqueue_latency_ns ≤ record.total_runqueue_latency_ns ∧
      record.max_runqueue_latency_ns = SchedAnalyzer.largest (account pid before).since

theorem Books.accounted (books : Books pid history m) : Accounted pid history m where
  switches := books.switches
  latencies := books.latencies
  migrations := books.migrations
  entry := by
    intro stats present
    have total := books.total
    have most := books.largest
    rw [Maps.entry, present] at total most
    exact ⟨total ▸ most ▸ largest_le_sum _, most⟩
  records := books.records

theorem Books.fresh : Books pid ([] : List (τ × Event)) .fresh where
  pending := rfl
  switches := rfl
  latencies := rfl
  migrations := rfl
  total := rfl
  largest := rfl
  records same := absurd same (List.append_ne_nil_of_right_ne_nil _ (List.cons_ne_nil _ _)).symm

/-- The earlier records stay as they were, and the last one is judged when it is made. -/
theorem Books.records_snoc (books : Books pid history m) {thread : τ} {event : Event}
    (last : ∀ record, event.record? pid = some record →
      record.max_runqueue_latency_ns ≤ record.total_runqueue_latency_ns ∧
        record.max_runqueue_latency_ns = SchedAnalyzer.largest (account pid history).since)
    {before after : List (τ × Event)} {actor : τ} {record : SchedRecord}
    (same : history ++ [(thread, event)] = before ++ (actor, .recorded record) :: after) (mine : record.pid = pid) :
    record.max_runqueue_latency_ns ≤ record.total_runqueue_latency_ns ∧
      record.max_runqueue_latency_ns = SchedAnalyzer.largest (account pid before).since := by
  rcases snoc_split same with ⟨here, rfl⟩ | ⟨rest, rfl, earlier⟩
  · obtain ⟨rfl, rfl⟩ := Prod.mk.inj here
    have front := (List.append_inj' same rfl).1
    subst front
    exact last record (if_pos mine)
  · exact books.records earlier mine

/-- A step that does not concern a process leaves its books alone. -/
theorem Books.frame (books : Books pid history m) {next : Maps} {thread : τ} {event : Event}
    (unseen : ∀ a : Account, a.see pid event = a) (unrecorded : event.record? pid = none)
    (kept : next.sched_agg pid = m.sched_agg pid) (waits : next.wakeup_ts pid = m.wakeup_ts pid) :
    Books pid (history ++ [(thread, event)]) next := by
  have entry : next.entry pid = m.entry pid := by rw [Maps.entry, kept, Maps.entry]
  have sees : account pid (history ++ [(thread, event)]) = account pid history := by
    rw [account_snoc, unseen]
  have records : recorded pid (history ++ [(thread, event)]) = recorded pid history := by
    rw [recorded_snoc, unrecorded, Option.toList_none, List.append_nil]
  constructor
  · rw [waits, sees, books.pending]
  · rw [entry, sees, records, books.switches]
  · rw [entry, sees, records, books.latencies]
  · rw [entry, sees, records, books.migrations]
  · rw [entry, sees, books.total]
  · rw [entry, sees, books.largest]
  · exact books.records_snoc fun record shown => absurd (unrecorded.symm.trans shown) (Option.some_ne_none record).symm

/-! ## The probes -/

/-- What a probe adds to an entry: latencies, each with its switch-in, and migrations. -/
def IlSchedStats.plus (stats : IlSchedStats) (added : List ℕ) (moves : ℕ) : ℕ × ℕ × ℕ × ℕ :=
  (stats.switch_count + added.length, stats.total_runqueue_latency_ns + added.sum,
    added.foldl max stats.max_runqueue_latency_ns, stats.migrate_count + moves)

theorem counts_add_latency (st : Option IlSchedStats) (latency_ns : ℕ) (comm : Bytes) :
    (sched_agg_add_latency st latency_ns comm).counts = (st.getD {}).plus [latency_ns] 0 := by
  cases st with
  | none =>
    simp only [IlSchedStats.counts, sched_agg_add_latency, Option.getD_none, IlSchedStats.plus, List.length_singleton,
      List.sum_singleton, List.foldl_cons, List.foldl_nil, Nat.zero_add, Nat.zero_max]
  | some st =>
    simp only [IlSchedStats.counts, sched_agg_add_latency, Option.getD_some, IlSchedStats.plus, List.length_singleton,
      List.sum_singleton, List.foldl_cons, List.foldl_nil, Nat.add_zero, Prod.mk.injEq, true_and, and_true]
    split_ifs <;> omega

theorem counts_migrated (st : Option IlSchedStats) : (migrated st).counts = (st.getD {}).plus [] 1 := by
  cases st <;> rfl

/-- A step that adds to the entry of a process what it adds to the account keeps the books. -/
theorem Books.add (books : Books pid history m) {next : Maps} {thread : τ} {event : Event} (added : List ℕ)
    (moves : ℕ) (sees : (account pid history).see pid event =
      ⟨next.wakeup_ts pid, (account pid history).latencies ++ added, (account pid history).migrations + moves,
        (account pid history).since ++ added⟩)
    (unrecorded : event.record? pid = none) (counts : (next.entry pid).counts = (m.entry pid).plus added moves) :
    Books pid (history ++ [(thread, event)]) next := by
  have records : recorded pid (history ++ [(thread, event)]) = recorded pid history := by
    rw [recorded_snoc, unrecorded, Option.toList_none, List.append_nil]
  obtain ⟨switches, rest⟩ := Prod.mk.inj counts
  obtain ⟨total, rest⟩ := Prod.mk.inj rest
  obtain ⟨most, migrates⟩ := Prod.mk.inj rest
  constructor
  · rw [account_snoc, sees]
  · rw [account_snoc, sees, records, switches, ← Nat.add_assoc, books.switches, List.length_append]
  · rw [account_snoc, sees, records, total, ← Nat.add_assoc, books.latencies, List.sum_append]
  · rw [account_snoc, sees, records, migrates, ← Nat.add_assoc, books.migrations]
  · rw [account_snoc, sees, total, books.total, List.sum_append]
  · rw [account_snoc, sees, most, books.largest, SchedAnalyzer.largest, SchedAnalyzer.largest, List.foldl_append]
  · exact books.records_snoc fun record shown => absurd (unrecorded.symm.trans shown) (Option.some_ne_none record).symm

theorem Books.wakeup (books : Books pid history m) (thread : τ) (woken : Pid) (ts : ℕ) :
    Books pid (history ++ [(thread, .woken woken ts)]) (sched_analyzer_wakeup m woken ts) := by
  by_cases same : woken = pid
  · subst same
    refine books.add [] 0 ?_ rfl rfl
    rw [List.append_nil, List.append_nil, woken_wakeup]
    exact if_pos rfl
  · exact books.frame (fun a => if_neg same) rfl rfl (Function.update_of_ne (Ne.symm same) ..)

theorem Books.switch (books : Books pid history m) (task : pid ≠ 0) (thread : τ) (next_pid : Pid) (ts : ℕ)
    (next_comm : Bytes) :
    Books pid (history ++ [(thread, .switched next_pid ts)]) (sched_analyzer_switch m next_pid ts next_comm) := by
  by_cases same : next_pid = pid
  · subst same
    refine books.add [runqueue_latency (m.wakeup_ts next_pid) ts] 0 ?_ rfl ?_
    · rw [books.pending, woken_switch]
      exact if_pos rfl
    · rw [Maps.entry, agg_switch _ _ task, Option.getD_some, counts_add_latency]
      rfl
  · refine books.frame (fun a => if_neg same) rfl ?_ (Function.update_of_ne (Ne.symm same) ..)
    rw [sched_analyzer_switch]
    split_ifs
    · rfl
    · exact Function.update_of_ne (Ne.symm same) ..

theorem Books.migrate (books : Books pid history m) (thread : τ) (moved : Pid) :
    Books pid (history ++ [(thread, .migrated moved)]) (sched_analyzer_migrate m moved) := by
  by_cases same : moved = pid
  · subst same
    refine books.add [] 1 ?_ rfl ?_
    · rw [List.append_nil, List.append_nil]
      exact (if_pos rfl).trans (books.pending ▸ rfl)
    · rw [Maps.entry, agg_migrate, Option.getD_some, counts_migrated]
      rfl
  · exact books.frame (fun a => if_neg same) rfl (Function.update_of_ne (Ne.symm same) ..) rfl

theorem Books.probe (books : Books pid history m) (task : pid ≠ 0) (thread : τ) {config : Config} {choice : Choice}
    {next : Maps} {event : Event} (fires : SchedAnalyzer.probe config m choice = some (next, event)) :
    Books pid (history ++ [(thread, event)]) next := by
  cases choice with
  | wakeup woken ts =>
    obtain ⟨_, same⟩ := Option.ite_none_right_eq_some.mp fires
    cases same
    exact books.wakeup thread woken ts
  | switch next_pid ts next_comm =>
    obtain ⟨_, same⟩ := Option.ite_none_right_eq_some.mp fires
    cases same
    exact books.switch task thread next_pid ts next_comm
  | migrate moved =>
    obtain ⟨_, same⟩ := Option.ite_none_right_eq_some.mp fires
    cases same
    exact books.migrate thread moved
  | next key => cases fires
  | go => cases fires

/-! ## Collect -/

/-- A Collect that deletes what it has looked up moves it from the map to its records. -/
theorem Books.record (books : Books pid history m) (thread : τ) {stats : IlSchedStats}
    (seen : (m.sched_agg pid).map IlSchedStats.counts = some stats.counts) :
    Books pid (history ++ [(thread, .recorded (schedRecord pid stats))]) (m.delete pid) := by
  have sees : account pid (history ++ [(thread, .recorded (schedRecord pid stats))]) =
      { account pid history with since := [] } := by
    rw [account_snoc]
    exact if_pos rfl
  have record : (Event.recorded (schedRecord pid stats)).record? pid = some (schedRecord pid stats) := if_pos rfl
  have records : recorded pid (history ++ [(thread, .recorded (schedRecord pid stats))]) =
      recorded pid history ++ [schedRecord pid stats] := by
    rw [recorded_snoc, record, Option.toList_some]
  have gone : (m.delete pid).entry pid = {} := by
    rw [Maps.entry, agg_delete, Option.getD_none]
  obtain ⟨now, present, same⟩ := Option.map_eq_some_iff.mp seen
  have entry : m.entry pid = now := by rw [Maps.entry, present, Option.getD_some]
  obtain ⟨switches, rest⟩ := Prod.mk.inj same
  obtain ⟨total, rest⟩ := Prod.mk.inj rest
  obtain ⟨most, migrates⟩ := Prod.mk.inj rest
  constructor
  · rw [sees]
    exact books.pending
  · rw [gone, sees, records, List.map_append, List.sum_append, ← books.switches, entry, switches]
    rfl
  · rw [gone, sees, records, List.map_append, List.sum_append, ← books.latencies, entry, total]
    rfl
  · rw [gone, sees, records, List.map_append, List.sum_append, ← books.migrations, entry, migrates]
    rfl
  · rw [gone, sees]
    rfl
  · rw [gone, sees]
    rfl
  · refine books.records_snoc fun made shown => ?_
    obtain rfl := Option.some.inj (record.symm.trans shown)
    change stats.max_runqueue_latency_ns ≤ stats.total_runqueue_latency_ns ∧ stats.max_runqueue_latency_ns = _
    rw [← total, ← most, ← entry, books.total, books.largest]
    exact ⟨largest_le_sum _, rfl⟩

theorem Books.collect (books : Books pid history m) (thread : τ) {config : Config}
    (unfiltered : config.target_pid_allow_ = []) {pc after : Pc} {choice : Choice} {next : Maps} {event : Event}
    (undisturbed : Undisturbed pid m pc)
    (acts : SchedAnalyzer.collect config m pc choice = some (next, after, event)) :
    Books pid (history ++ [(thread, event)]) next := by
  unfold SchedAnalyzer.collect at acts
  split at acts
  · obtain ⟨_, same⟩ := Option.ite_none_right_eq_some.mp acts
    cases same
    exact books.frame (fun _ => rfl) rfl rfl rfl
  · obtain ⟨_, same⟩ := Option.ite_none_right_eq_some.mp acts
    cases same
    exact books.frame (fun _ => rfl) rfl rfl rfl
  · cases acts
    exact books.frame (fun _ => rfl) rfl rfl rfl
  · split at acts <;> cases acts <;> exact books.frame (fun _ => rfl) rfl rfl rfl
  · next p stats pids batch =>
    have allowed : config.AllowPid p = true := by rw [Config.AllowPid, unfiltered]; rfl
    rw [if_pos allowed] at acts
    cases acts
    by_cases same : p = pid
    · subst same
      exact books.record thread (undisturbed rfl)
    · exact books.frame (fun a => if_neg same) (if_neg same) (Function.update_of_ne (Ne.symm same) ..) rfl
  · cases acts

variable {Cpu Caller : Type*} [DecidableEq Cpu] [DecidableEq Caller]

/-- In a run in which every Collect that is about to delete the entry of a process has seen all that the
entry counts, nothing of that process is lost or counted twice. -/
theorem accounted_of_undisturbed {pid : Pid} (task : pid ≠ 0) {config : Config}
    (unfiltered : config.target_pid_allow_ = []) {history : List ((Cpu ⊕ Caller) × Event)}
    {target : State Maps Pc (Cpu ⊕ Caller)}
    (conditional : (program config).RunWhere (fun s thread => Undisturbed pid s.shared (s.pc thread))
      (start Cpu Caller) history target) : Accounted pid history target.shared := by
  refine Books.accounted (conditional.invariant (fun history s => Books pid history s.shared) Books.fresh ?_)
  intro history s thread choice shared pc event _ books undisturbed enabled
  unfold program at enabled
  dsimp only at enabled
  split at enabled
  · obtain ⟨⟨next, shown⟩, fires, same⟩ := Option.map_eq_some_iff.mp enabled
    cases same
    exact books.probe task thread fires
  · exact books.collect thread unfiltered undisturbed enabled

/-- A task that was woken, ran and was migrated before a Collect deletes its entry. -/
theorem accounted_of_undisturbed_task : ∃ history target,
    (program {}).RunWhere (fun s thread => Undisturbed 7 s.shared (s.pc thread)) (start Unit Unit) history target ∧
      (recorded 7 history).length = 1 ∧ Accounted 7 history target.shared := by
  obtain ⟨history, target, conditional, one⟩ := Program.exists_runWhere_of_check (program {})
    (fun s thread => Undisturbed 7 s.shared (s.pc thread)) (start Unit Unit)
    (fun _ history => (recorded 7 history).length = 1)
    [(.inl (), .wakeup 7 10), (.inl (), .switch 7 25 []), (.inl (), .migrate 7), (.inr (), .next (some 7)),
      (.inr (), .next none), (.inr (), .go), (.inr (), .go), (.inl (), .switch 7 40 [])] (by decide)
  exact ⟨history, target, conditional, one, accounted_of_undisturbed (by decide) rfl conditional⟩

/-- A switch-in between the look-up and the deletion is lost. -/
theorem switch_in_lost : ¬ ∀ history target, (program {}).Run (start Unit Unit) history target →
    Accounted 7 history target.shared := by
  intro always
  obtain ⟨history, target, run, differ⟩ := Program.exists_run_of_check (program {}) (start Unit Unit)
    (fun s history => ((recorded 7 history).map (·.switch_count)).sum + (s.shared.entry 7).switch_count ≠
      (account 7 history).latencies.length)
    [(.inl (), .switch 7 10 []), (.inr (), .next (some 7)), (.inr (), .next none), (.inr (), .go),
      (.inl (), .switch 7 20 []), (.inr (), .go)] (by decide)
  exact differ (always history target run).switches

/-! ## Batches and clocks -/

def Event.made : Event → List SchedRecord
  | .recorded record => [record]
  | _ => []

def Event.batch : Event → List SchedRecord
  | .returned batch => batch
  | _ => []

def Pc.batch : Pc → List SchedRecord
  | .looking _ batch => batch
  | .deleting _ _ _ batch => batch
  | _ => []

theorem collect_batch {config : Config} {pc after : Pc} {choice : Choice} {next : Maps} {event : Event}
    (acts : SchedAnalyzer.collect config m pc choice = some (next, after, event)) :
    pc.batch ++ event.made = event.batch ++ after.batch := by
  unfold SchedAnalyzer.collect at acts
  split at acts
  · next key =>
    obtain ⟨_, same⟩ := Option.ite_none_right_eq_some.mp acts
    cases same
    cases key <;> rfl
  · next pids key =>
    obtain ⟨_, same⟩ := Option.ite_none_right_eq_some.mp acts
    cases same
    cases key <;> rfl
  · cases acts
    rfl
  · split at acts <;> cases acts <;> exact List.append_nil _
  · split_ifs at acts <;> cases acts
    · rfl
    · exact List.append_nil _
  · cases acts

theorem probe_batch {config : Config} {choice : Choice} {next : Maps} {event : Event}
    (fires : SchedAnalyzer.probe config m choice = some (next, event)) : event.made = event.batch := by
  unfold SchedAnalyzer.probe at fires
  split at fires
  · split_ifs at fires
    cases fires
    rfl
  · split_ifs at fires
    cases fires
    rfl
  · split_ifs at fires
    cases fires
    rfl
  · cases fires

/-- The records that a caller has made are those of the batches it has returned, then those of the Collect
it is in. -/
theorem records_returned {config : Config} {history : List ((Cpu ⊕ Caller) × Event)}
    {target : State Maps Pc (Cpu ⊕ Caller)} (run : (program config).Run (start Cpu Caller) history target)
    (caller : Caller) : (own (.inr caller) history).flatMap Event.made =
      (own (.inr caller) history).flatMap Event.batch ++ (target.pc (.inr caller)).batch := by
  refine run.own_ledger Pc.batch Event.made Event.batch (.inr caller) rfl ?_
  intro shared next pc after choice event enabled
  unfold program at enabled
  dsimp only at enabled
  split at enabled
  · obtain ⟨⟨shown, told⟩, fires, same⟩ := Option.map_eq_some_iff.mp enabled
    cases same
    exact (probe_batch fires).trans (List.append_nil _).symm
  · exact collect_batch enabled

/-- The latencies of a process lie one after another in time. -/
structure Timely (pid : Pid) (history : List (τ × Event)) (m : Maps) : Prop where
  pending : m.wakeup_ts pid = (account pid history).pending
  spent : (account pid history).latencies.sum ≤ (m.wakeup_ts pid).getD m.clock
  past : (m.wakeup_ts pid).getD m.clock ≤ m.clock

/-- A step that does not concern a process leaves its latencies behind it. -/
theorem Timely.frame (timely : Timely pid history m) {next : Maps} {thread : τ} {event : Event}
    (latencies : ((account pid history).see pid event).latencies = (account pid history).latencies)
    (pending : ((account pid history).see pid event).pending = (account pid history).pending)
    (waits : next.wakeup_ts pid = m.wakeup_ts pid) (later : m.clock ≤ next.clock) :
    Timely pid (history ++ [(thread, event)]) next := by
  obtain ⟨same, spent, past⟩ := timely
  constructor
  · rw [account_snoc, waits, same, pending]
  · rw [account_snoc, latencies, waits]
    cases woken : m.wakeup_ts pid with
    | none =>
      rw [woken] at spent
      exact spent.trans later
    | some ts =>
      rw [woken] at spent
      exact spent
  · rw [waits]
    cases woken : m.wakeup_ts pid with
    | none => exact Nat.le_refl _
    | some ts =>
      rw [woken] at past
      exact past.trans later

theorem Timely.probe (timely : Timely pid history m) (thread : τ) {config : Config} {choice : Choice}
    {next : Maps} {event : Event} (fires : SchedAnalyzer.probe config m choice = some (next, event)) :
    Timely pid (history ++ [(thread, event)]) next := by
  cases choice with
  | wakeup woken ts =>
    obtain ⟨later, same⟩ := Option.ite_none_right_eq_some.mp fires
    cases same
    by_cases here : woken = pid
    · subst here
      have sees : (account woken history).see woken (.woken woken ts) = { account woken history with pending := some ts } :=
        if_pos rfl
      constructor
      · rw [account_snoc, sees, woken_wakeup]
      · rw [account_snoc, sees, woken_wakeup]
        exact (timely.spent.trans timely.past).trans later
      · rw [woken_wakeup]
        exact Nat.le_refl ts
    · have sees : (account pid history).see pid (.woken woken ts) = account pid history := if_neg here
      exact timely.frame (by rw [sees]) (by rw [sees]) (Function.update_of_ne (Ne.symm here) ..) later
  | switch next_pid ts next_comm =>
    obtain ⟨later, same⟩ := Option.ite_none_right_eq_some.mp fires
    cases same
    by_cases here : next_pid = pid
    · subst here
      have sees : (account next_pid history).see next_pid (.switched next_pid ts) =
          ⟨none, (account next_pid history).latencies ++ [runqueue_latency (account next_pid history).pending ts],
            (account next_pid history).migrations,
            (account next_pid history).since ++ [runqueue_latency (account next_pid history).pending ts]⟩ := if_pos rfl
      obtain ⟨pending, spent, past⟩ := timely
      constructor
      · rw [account_snoc, sees, woken_switch]
      · rw [account_snoc, sees, woken_switch, List.sum_append, List.sum_singleton, ← pending]
        change _ ≤ ts
        cases woken : m.wakeup_ts next_pid with
        | none =>
          rw [woken] at spent
          exact spent.trans later
        | some enqueued =>
          rw [woken] at spent past
          change _ + (ts - enqueued) ≤ ts
          change _ ≤ enqueued at spent
          change enqueued ≤ _ at past
          omega
      · rw [woken_switch]
        exact Nat.le_refl ts
    · have sees : (account pid history).see pid (.switched next_pid ts) = account pid history := if_neg here
      exact timely.frame (by rw [sees]) (by rw [sees]) (Function.update_of_ne (Ne.symm here) ..) later
  | migrate moved =>
    obtain ⟨_, same⟩ := Option.ite_none_right_eq_some.mp fires
    cases same
    refine timely.frame ?_ ?_ rfl (Nat.le_refl _) <;> exact apply_ite _ _ _ _ |>.trans (ite_self _)
  | next key => cases fires
  | go => cases fires

/-- What a Collect does is nothing to a process's waiting. -/
theorem Timely.collect (timely : Timely pid history m) (thread : τ) {config : Config} {pc after : Pc}
    {choice : Choice} {next : Maps} {event : Event}
    (acts : SchedAnalyzer.collect config m pc choice = some (next, after, event)) :
    Timely pid (history ++ [(thread, event)]) next := by
  unfold SchedAnalyzer.collect at acts
  split at acts
  · split_ifs at acts
    cases acts
    exact timely.frame rfl rfl rfl (Nat.le_refl _)
  · split_ifs at acts
    cases acts
    exact timely.frame rfl rfl rfl (Nat.le_refl _)
  · cases acts
    exact timely.frame rfl rfl rfl (Nat.le_refl _)
  · split at acts <;> cases acts <;> exact timely.frame rfl rfl rfl (Nat.le_refl _)
  · split_ifs at acts <;> cases acts
    all_goals
      refine timely.frame ?_ ?_ rfl (Nat.le_refl _) <;> exact apply_ite _ _ _ _ |>.trans (ite_self _)
  · cases acts

/-- The latencies of a process add up to no more than the time that has passed, so the counter that adds
them up does not overflow while the clock does not. -/
theorem latencies_le_clock {config : Config} {history : List ((Cpu ⊕ Caller) × Event)}
    {target : State Maps Pc (Cpu ⊕ Caller)} (run : (program config).Run (start Cpu Caller) history target)
    (pid : Pid) : (account pid history).latencies.sum ≤ target.shared.clock := by
  have timely := run.invariant (fun history s => Timely pid history s.shared) ⟨rfl, Nat.zero_le _, Nat.zero_le _⟩ ?_
  · exact timely.spent.trans timely.past
  intro history s thread choice shared pc event timely enabled
  unfold program at enabled
  dsimp only at enabled
  split at enabled
  · obtain ⟨⟨next, shown⟩, fires, same⟩ := Option.map_eq_some_iff.mp enabled
    cases same
    exact timely.probe thread fires
  · exact timely.collect thread enabled

end SchedAnalyzer

end Illuminator
