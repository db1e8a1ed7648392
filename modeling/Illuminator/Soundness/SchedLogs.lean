import Illuminator.Model.SchedEvents
import Illuminator.Standards.JsonText
import Mathlib.Data.List.DropRight

/-! # Queries about scheduler events

Each log is the end of what has been put into it, so a query is answered by the last entries that were put in before
it. The events that were put in are those of the probes, in order, without the ones of other processes and without
those still in the ring buffer; a wakeup is put into its own log after that, and at most the last one is missing there.
-/

namespace Illuminator

namespace SchedAnalyzer

open Interleaving JsonValue

variable {D : Type}

/-! ## Names -/

private theorem strnlen_le (s : Comm) : s.strnlen ≤ TASK_COMM_LEN :=
  (List.takeWhile_prefix _).length_le.trans s.length_toList.le

theorem toList_copied (s : Comm) :
    s.copied.toList = s.toList.take s.strnlen ++ List.replicate (TASK_COMM_LEN - s.strnlen) 0 := by
  have short := strnlen_le s
  have size := s.length_toList
  refine List.ext_getElem ?_ fun i left right => ?_
  · rw [Vector.length_toList, List.length_append, List.length_take, List.length_replicate]
    omega
  · rw [List.getElem_append]
    have within : i < TASK_COMM_LEN := by
      rw [Vector.length_toList] at left
      exact left
    simp only [Comm.copied, Comm.memcpy, Vector.getElem_toList, Vector.getElem_ofFn, List.length_take,
      List.getElem_take, List.getElem_replicate, Fin.getElem_fin]
    by_cases copied : i < s.strnlen
    · rw [if_pos copied, dif_pos (by omega)]
    · rw [if_neg copied, dif_neg (by omega)]
      exact Vector.getElem_replicate ..

/-- A copied name is the name. -/
theorem string_copied (s : Comm) : s.copied.string = s.string := by
  have same : s.copied.strnlen = s.strnlen := by
    have front : s.toList.take s.strnlen = s.toList.takeWhile (· ≠ 0) :=
      (List.prefix_iff_eq_take.mp (List.takeWhile_prefix _)).symm
    have named : ∀ c ∈ s.toList.take s.strnlen, decide (c ≠ 0) = true := by
      rw [front]
      exact fun c member => List.mem_takeWhile_imp (p := fun c => decide (c ≠ 0)) member
    rw [Comm.strnlen, toList_copied, List.takeWhile_append_of_pos named, List.length_append, front, Comm.strnlen]
    cases TASK_COMM_LEN - (List.takeWhile (· ≠ 0) s.toList).length <;> simp [List.replicate_succ]
  have long : s.strnlen ≤ s.toList.length := (strnlen_le s).trans s.length_toList.ge
  rw [Comm.string, same, toList_copied, List.take_append_of_le_length (by rw [List.length_take]; omega),
    List.take_take, Nat.min_self]
  rfl

/-! ## Logs -/

theorem recentLoop_eq (filter_pid : UInt32) (max_n : ℕ) (events out : List SchedEventRecord) :
    recentLoop filter_pid max_n events out =
      out ++ (events.filter (·.passes filter_pid)).take (max_n - out.length) := by
  induction events generalizing out with
  | nil => rw [recentLoop, List.filter_nil, List.take_nil, List.append_nil]
  | cons e rest ih =>
    rw [recentLoop]
    split_ifs with room passing
    · rw [ih, List.filter_cons_of_pos passing, List.length_append, List.length_singleton, List.append_assoc,
        List.singleton_append, ← Nat.sub_sub, ← List.take_succ_cons]
      congr 2
      omega
    · rw [ih, List.filter_cons_of_neg passing]
    · rw [Nat.sub_eq_zero_of_le (by omega), List.take_zero, List.append_nil]

/-- The last events that pass. -/
theorem GetRecentEvents_eq (logs : Logs D) (filter_pid : UInt32) (max_n : ℕ) :
    GetRecentEvents logs filter_pid max_n = (logs.recent_events_.filter (·.passes filter_pid)).rtake max_n := by
  rw [GetRecentEvents, recentLoop_eq, List.nil_append, List.length_nil, Nat.sub_zero, List.filter_reverse,
    List.rtake_eq_reverse_take_reverse]

theorem GetRecentWakeups_eq (logs : Logs D) (max_n : ℕ) : GetRecentWakeups logs max_n = logs.wakeups_.rtake max_n := by
  rw [GetRecentWakeups, List.rtake]
  congr 1
  split_ifs <;> omega

/-- The sums over the records of a Collect, and the longest latency. -/
def totalsOf (batch : List SchedRecord) : Totals where
  total_sw := UInt64.ofNat (batch.map (·.switch_count)).sum
  total_lat := UInt64.ofNat (batch.map (·.total_runqueue_latency_ns)).sum
  max_lat := (batch.map fun stats => UInt64.ofNat stats.max_runqueue_latency_ns).foldl max 0
  total_mig := UInt64.ofNat (batch.map (·.migrate_count)).sum
  proc_count := UInt32.ofNat batch.length

theorem totalsOf_snoc (batch : List SchedRecord) (stats : SchedRecord) :
    totalsOf (batch ++ [stats]) = (totalsOf batch).add stats := by
  have longest (a b : UInt64) : max a b = if b > a then b else a := by
    change (if a ≤ b then b else a) = _
    split_ifs with le less less
    · rfl
    · exact UInt64.le_antisymm (UInt64.not_lt.mp less) le
    · exact absurd (UInt64.le_of_lt less) le
    · rfl
  simp only [totalsOf, Totals.add, List.map_append, List.map_singleton, List.sum_append, List.sum_singleton,
    UInt64.ofNat_add, List.foldl_append, List.foldl_cons, List.foldl_nil, List.length_append, List.length_singleton,
    UInt32.ofNat_add, longest]
  rfl

/-- A Collect adds up the sums over its records. -/
theorem foldl_totals (batch : List SchedRecord) : batch.foldl Totals.add {} = totalsOf batch := by
  induction batch using List.reverseRecOn with
  | nil => rfl
  | append_singleton batch stats ih => rw [List.foldl_append, ih, totalsOf_snoc, List.foldl_cons, List.foldl_nil]

/-! ## What a history has put into the logs -/

section

variable {Cpu Caller : Type} (config : DetailConfig) (doubles : Doubles D)
  (history : List (DetailThread Cpu Caller × DetailEvent D))

/-- The events that the probes have put into the ring buffer. -/
def submitted : List IlSchedEvent :=
  history.filterMap fun entry => match entry.2 with
    | .submitted event => some event
    | _ => none

/-- The events that the poll thread has taken out, each with the time it was taken. -/
def taken : List (IlSchedEvent × UInt64) :=
  history.filterMap fun entry => match entry.2 with
    | .took event now_ms => some (event, now_ms)
    | _ => none

/-- The events of target processes among them. -/
def accepted : List (IlSchedEvent × UInt64) := (taken history).filter fun event => config.Allows event.1

/-- The wakeups that have reached their own log. -/
def woken : List (IlSchedEvent × UInt64) :=
  history.filterMap fun entry => match entry.2 with
    | .woke event now_ms => some (event, now_ms)
    | _ => none

/-- The history's points, one for each Collect that has ended. -/
def points : List (SchedHistoryPoint D) :=
  history.filterMap fun entry => match entry.2 with
    | .collected batch now_ms => some ((totalsOf batch).point doubles now_ms)
    | _ => none

end

/-! ## Steps -/

/-- What one step does, by where its thread stands. -/
inductive Effect (doubles : Doubles D) (json : Library D) (config : DetailConfig) (s : DetailShared D) :
    DetailPc → DetailEvent D → DetailShared D → DetailPc → Prop
  | submitted (maps : Maps) (event : IlSchedEvent) : Effect doubles json config s .cpu (.submitted event)
      { s with maps := maps, sched_analyzer_events := s.sched_analyzer_events ++ [event] } .cpu
  | unseen (maps : Maps) : Effect doubles json config s .cpu .quiet { s with maps := maps } .cpu
  | within (maps : Maps) (pc after : Pc) (event : Event) :
      Effect doubles json config s (.agg pc) (.agg event) { s with maps := maps } (.agg after)
  | gathered (maps : Maps) (pc : Pc) (batch : List SchedRecord) :
      Effect doubles json config s (.agg pc) .quiet { s with maps := maps } (.closing batch)
  | collected (batch : List SchedRecord) (ms : UInt64) : Effect doubles json config s (.closing batch)
      (.collected batch ms) { s with logs := s.logs.addHistory doubles batch ms } (.agg .idle)
  | took (event : IlSchedEvent) (later : List IlSchedEvent) (ms : UInt64)
      (next : s.sched_analyzer_events = event :: later) : Effect doubles json config s .polling (.took event ms)
      (takeEvent config { s with sched_analyzer_events := later } event ms).1
      (takeEvent config { s with sched_analyzer_events := later } event ms).2
  | woke (event : IlSchedEvent) (ms : UInt64) : Effect doubles json config s (.waking event ms) (.woke event ms)
      { s with logs := s.logs.addWakeup event ms } (.calling event)
  | called (event : IlSchedEvent) (record : Record D) :
      Effect doubles json config s (.calling event) (.pushed record) s .polling
  | uncalled (event : IlSchedEvent) : Effect doubles json config s (.calling event) .quiet s .polling
  | answered (query : Bytes) (params : QueryParams) : Effect doubles json config s .asking
      (.answered query params (QueryExtra json s.logs query params)) s .asking

variable {doubles : Doubles D} {json : Library D} {config : DetailConfig}

theorem effect_submit (s : DetailShared D) (maps : Maps) (event : IlSchedEvent) (reserved : Bool) :
    Effect doubles json config s .cpu (submit config s maps event reserved).2 (submit config s maps event reserved).1
      .cpu := by
  unfold submit
  split_ifs
  · exact .submitted maps event
  · exact .unseen maps

theorem effect_of_act {s next : DetailShared D} {pc after : DetailPc} {choice : DetailChoice} {event : DetailEvent D}
    (acts : (detailProgram doubles json config).act s pc choice = some (next, after, event)) :
    Effect doubles json config s pc event next after := by
  change detail doubles json config s pc choice = _ at acts
  cases pc with
  | cpu =>
    obtain ⟨result, probed, same⟩ := Option.map_eq_some_iff.mp acts
    cases same
    cases choice <;> simp only [detailProbe, reduceCtorEq, Option.map_eq_some_iff] at probed
    all_goals
      obtain ⟨_, _, rfl⟩ := probed
      exact effect_submit ..
  | agg pc =>
    cases choice <;> simp only [detail, reduceCtorEq] at acts
    unfold detailCollect at acts
    split at acts
    · cases acts
    · cases acts
      exact .gathered ..
    · cases acts
      exact .within ..
  | closing batch =>
    cases choice <;> simp only [detail, reduceCtorEq] at acts
    cases acts
    exact .collected ..
  | polling =>
    cases choice <;> simp only [detail, reduceCtorEq] at acts
    split at acts
    · cases acts
    · next event later next =>
      cases acts
      exact .took event later _ next
  | waking event ms =>
    cases choice <;> simp only [detail, reduceCtorEq] at acts
    cases acts
    exact .woke ..
  | calling event =>
    cases choice <;> simp only [detail, reduceCtorEq] at acts
    cases acts
    split_ifs
    · exact .called ..
    · exact .uncalled ..
  | asking =>
    cases choice <;> simp only [detail, reduceCtorEq] at acts
    cases acts
    exact .answered ..

/-! ## Runs -/

section

variable {Cpu Caller : Type}

/-- Where each thread can stand. -/
def Stands : DetailThread Cpu Caller → DetailPc → Prop
  | .cpu _, pc => pc = .cpu
  | .collector _, pc => (∃ inside, pc = .agg inside) ∨ ∃ batch, pc = .closing batch
  | .poller, pc => pc = .polling ∨ (∃ event ms, pc = .waking event ms) ∨ ∃ event, pc = .calling event
  | .asker _, pc => pc = .asking

/-- The wakeup that is in the first log and not yet in the second. -/
def unseen : DetailPc → List (IlSchedEvent × UInt64)
  | .waking event ms => [(event, ms)]
  | _ => []

theorem takeEvent_pc (config : DetailConfig) (s : DetailShared D) (event : IlSchedEvent) (ms : UInt64) :
    unseen (takeEvent config s event ms).2 =
      ([(event, ms)].filter fun event => config.Allows event.1).filter fun event => event.1.event_type = 1 := by
  unfold takeEvent
  split_ifs with allowed woke
  · simp [unseen, allowed, woke]
  · simp [unseen, allowed, woke]
  · simp [unseen, allowed]

theorem takeEvent_logs (config : DetailConfig) (s : DetailShared D) (event : IlSchedEvent) (ms : UInt64) :
    (takeEvent config s event ms).1.logs = if config.Allows event then s.logs.addEvent event ms else s.logs := by
  unfold takeEvent
  split_ifs <;> rfl

theorem takeEvent_ring (config : DetailConfig) (s : DetailShared D) (event : IlSchedEvent) (ms : UInt64) :
    (takeEvent config s event ms).1.sched_analyzer_events = s.sched_analyzer_events := by
  unfold takeEvent
  split_ifs <;> rfl

/-- What the state holds after a history. -/
structure Kept (doubles : Doubles D) (config : DetailConfig) (history : List (DetailThread Cpu Caller × DetailEvent D))
    (s : State (DetailShared D) DetailPc (DetailThread Cpu Caller)) : Prop where
  stands : ∀ thread, Stands thread (s.pc thread)
  ring : submitted history = (taken history).map Prod.fst ++ s.shared.sched_analyzer_events
  points : s.shared.logs.history_ = (points doubles history).rtake kMaxHistory
  events : s.shared.logs.recent_events_ =
    ((accepted config history).map fun event => eventRecord event.1 event.2).rtake kMaxEvents
  wakeups : s.shared.logs.wakeups_ = ((woken history).map fun event => wakeupRecord event.1 event.2).rtake kMaxWakeups
  late : (accepted config history).filter (fun event => event.1.event_type = 1) =
    woken history ++ unseen (s.pc .poller)

theorem stands_effect {s next : DetailShared D} {pc after : DetailPc} {event : DetailEvent D}
    (effect : Effect doubles json config s pc event next after) {thread : DetailThread Cpu Caller}
    (stands : Stands thread pc) : Stands thread after := by
  cases effect with
  | submitted _ _ | unseen _ | answered _ _ => exact stands
  | within _ _ _ _ =>
    cases thread <;> simp_all [Stands]
  | gathered _ _ _ | collected _ _ =>
    cases thread <;> simp_all [Stands]
  | woke _ _ | called _ _ | uncalled _ =>
    cases thread <;> simp_all [Stands]
  | took event later ms _ =>
    cases thread with
    | poller =>
      unfold takeEvent
      split_ifs
      · exact Or.inr (Or.inl ⟨event, ms, rfl⟩)
      · exact Or.inr (Or.inr ⟨event, rfl⟩)
      · exact Or.inl rfl
    | cpu _ | collector _ | asker _ => simp_all [Stands]

/-- What the poll thread holds back, what it takes and what it has logged balance. -/
theorem unseen_effect {s next : DetailShared D} {pc after : DetailPc} {event : DetailEvent D}
    (effect : Effect doubles json config s pc event next after) (thread : DetailThread Cpu Caller) :
    unseen pc ++ (accepted config [(thread, event)]).filter (fun event => event.1.event_type = 1) =
      woken [(thread, event)] ++ unseen after := by
  cases effect with
  | took event later ms _ =>
    rw [takeEvent_pc]
    rfl
  | woke event ms => rfl
  | _ => rfl

theorem taken_append (first second : List (DetailThread Cpu Caller × DetailEvent D)) :
    taken (first ++ second) = taken first ++ taken second := List.filterMap_append

theorem accepted_append (config : DetailConfig) (first second : List (DetailThread Cpu Caller × DetailEvent D)) :
    accepted config (first ++ second) = accepted config first ++ accepted config second := by
  rw [accepted, taken_append, List.filter_append]
  rfl

theorem woken_append (first second : List (DetailThread Cpu Caller × DetailEvent D)) :
    woken (first ++ second) = woken first ++ woken second := List.filterMap_append

theorem points_append (doubles : Doubles D) (first second : List (DetailThread Cpu Caller × DetailEvent D)) :
    points doubles (first ++ second) = points doubles first ++ points doubles second := List.filterMap_append

/-- Only the poll thread takes events out. -/
theorem taken_effect {s next : DetailShared D} {pc after : DetailPc} {event : DetailEvent D}
    (effect : Effect doubles json config s pc event next after) {thread : DetailThread Cpu Caller}
    (stands : Stands thread pc) (other : thread ≠ .poller) :
    accepted config [(thread, event)] = [] ∧ woken [(thread, event)] = [] := by
  cases effect with
  | took _ _ _ _ | woke _ _ => cases thread <;> simp_all [Stands]
  | _ => exact ⟨rfl, rfl⟩

/-- A log that is given some entries keeps the last ones. -/
def Added {α : Type*} (n : ℕ) (log entries next : List α) : Prop :=
  next = (log ++ entries).rtake n ∨ (entries = [] ∧ next = log)

theorem Added.rtake {α : Type*} {n : ℕ} {log entries next all : List α} (added : Added n log entries next)
    (kept : log = all.rtake n) : next = (all ++ entries).rtake n := by
  rcases added with grown | ⟨none, same⟩
  · rw [grown, kept, List.rtake_append_rtake]
  · rw [same, none, kept, List.append_nil]

/-- What one step puts into the logs. -/
structure Logged (doubles : Doubles D) (config : DetailConfig) (logs : Logs D)
    (entry : DetailThread Cpu Caller × DetailEvent D) (next : Logs D) : Prop where
  points : Added kMaxHistory logs.history_ (points doubles [entry]) next.history_
  events : Added kMaxEvents logs.recent_events_ ((accepted config [entry]).map fun event => eventRecord event.1 event.2)
    next.recent_events_
  wakeups : Added kMaxWakeups logs.wakeups_ ((woken [entry]).map fun event => wakeupRecord event.1 event.2) next.wakeups_

theorem logged_effect {s next : DetailShared D} {pc after : DetailPc} {event : DetailEvent D}
    (effect : Effect doubles json config s pc event next after) (thread : DetailThread Cpu Caller) :
    Logged doubles config s.logs (thread, event) next.logs := by
  cases effect with
  | collected batch ms =>
    refine ⟨Or.inl ?_, Or.inr ⟨rfl, rfl⟩, Or.inr ⟨rfl, rfl⟩⟩
    rw [Logs.addHistory, List.shed_eq, foldl_totals, points, List.filterMap_cons, List.filterMap_nil]
  | took event later ms next =>
    rw [takeEvent_logs]
    refine ⟨Or.inr ⟨rfl, by split_ifs <;> rfl⟩, ?_, Or.inr ⟨rfl, by split_ifs <;> rfl⟩⟩
    have added : accepted config [(thread, DetailEvent.took (D := D) event ms)] =
        if config.Allows event then [(event, ms)] else [] := (List.filter_singleton ..).trans (cond_eq_ite ..)
    rw [added]
    split_ifs
    · left
      rw [Logs.addEvent, List.shed_eq, List.map_singleton]
    · exact Or.inr ⟨rfl, rfl⟩
  | woke event ms =>
    refine ⟨Or.inr ⟨rfl, rfl⟩, Or.inr ⟨rfl, rfl⟩, Or.inl ?_⟩
    rw [Logs.addWakeup, List.shed_eq, woken, List.filterMap_cons, List.filterMap_nil, List.map_singleton]
  | _ => exact ⟨Or.inr ⟨rfl, rfl⟩, Or.inr ⟨rfl, rfl⟩, Or.inr ⟨rfl, rfl⟩⟩

theorem kept_act {history : List (DetailThread Cpu Caller × DetailEvent D)}
    {s : State (DetailShared D) DetailPc (DetailThread Cpu Caller)} {thread : DetailThread Cpu Caller}
    {next : DetailShared D} {after : DetailPc} {event : DetailEvent D} (kept : Kept doubles config history s)
    (effect : Effect doubles json config s.shared (s.pc thread) event next after) [DecidableEq Cpu] [DecidableEq Caller] :
    Kept doubles config (history ++ [(thread, event)]) (s.move thread next after) where
  stands := State.forall_move Stands (fun t _ => kept.stands t) (stands_effect effect (kept.stands thread))
  ring := by
    have ring := kept.ring
    generalize s.pc thread = pc at effect
    rw [submitted, taken, List.filterMap_append, List.filterMap_append, ← submitted, ← taken, ring]
    cases effect with
    | submitted _ event => simp
    | took event later ms next => simp [takeEvent_ring, next]
    | _ => simp
  points := by
    rw [points_append]
    exact (logged_effect effect thread).points.rtake kept.points
  events := by
    rw [accepted_append, List.map_append]
    exact (logged_effect effect thread).events.rtake kept.events
  wakeups := by
    rw [woken_append, List.map_append]
    exact (logged_effect effect thread).wakeups.rtake kept.wakeups
  late := by
    rw [accepted_append, woken_append, List.filter_append, kept.late, List.append_assoc, List.append_assoc]
    by_cases poller : thread = .poller
    · subst poller
      rw [State.move_pc_self, unseen_effect effect]
    · obtain ⟨none, same⟩ := taken_effect effect (kept.stands thread) poller
      rw [none, same, State.move_pc_of_ne _ _ _ (Ne.symm poller), List.filter_nil, List.append_nil, List.nil_append]

variable [DecidableEq Cpu] [DecidableEq Caller] {history : List (DetailThread Cpu Caller × DetailEvent D)}
  {target : State (DetailShared D) DetailPc (DetailThread Cpu Caller)}

theorem kept_of_run (run : (detailProgram doubles json config).Run (detailStart D Cpu Caller) history target) :
    Kept doubles config history target := by
  refine run.invariant (Kept doubles config) ⟨?_, rfl, (List.rtake_nil _).symm, (List.rtake_nil _).symm,
    (List.rtake_nil _).symm, rfl⟩ ?_
  · intro thread
    cases thread with
    | cpu _ | asker _ => rfl
    | collector _ => exact Or.inl ⟨.idle, rfl⟩
    | poller => exact Or.inl rfl
  · exact fun kept enabled => kept_act kept (effect_of_act enabled)

end

/-! ## Answers -/

@[simp] theorem utf8_float (d : D) : (JsonValue.number_float d : JsonValue D).Utf8 := List.forall_mem_nil _

/-- A query is answered by a document when the document's names are UTF-8, and the library throws when one is not. -/
structure Tells (json : Library D) (isfinite : D → Bool) (document : JsonValue D) (names : List Bytes)
    (answer : Answer) : Prop where
  text : (∀ s ∈ names, ValidUtf8 s) →
    ∃ text, answer = some (.ok text) ∧ json.parse text = some (document.reparsed isfinite)
  throws : (∃ s ∈ names, ¬ ValidUtf8 s) → answer = none

theorem tells_dump {isfinite : D → Bool} (documented : json.Documented isfinite) {document : JsonValue D}
    (ordered : document.Ordered) {names : List Bytes} (utf8 : document.Utf8 ↔ ∀ s ∈ names, ValidUtf8 s) :
    Tells json isfinite document names ((json.dump document).map .ok) where
  text valid := by
    obtain ⟨text, dumped⟩ := documented.dump_some.mpr (utf8.mpr valid)
    exact ⟨text, by rw [dumped]; rfl, documented.reads document text ordered dumped⟩
  throws invalid := by
    have none : json.dump document = none := by
      refine Option.eq_none_iff_forall_ne_some.mpr fun text dumped => ?_
      obtain ⟨s, member, not⟩ := invalid
      exact not (utf8.mp (documented.dump_some.mp ⟨text, dumped⟩) s member)
    rw [none]
    rfl

theorem listing_ordered {name : Bytes} {elements : List (JsonValue D)} (each : ∀ v ∈ elements, v.Ordered) :
    (listing name elements).Ordered :=
  ⟨List.pairwise_singleton .., orderedOf_iff.mpr each, trivial⟩

theorem listing_utf8 {name : Bytes} (valid : ValidUtf8 name) {α : Type*} (shown : List α) (json : α → JsonValue D)
    (names : α → List Bytes) (each : ∀ a, (json a).Utf8 ↔ ∀ s ∈ names a, ValidUtf8 s) :
    (listing name (shown.map json)).Utf8 ↔ ∀ s ∈ shown.flatMap names, ValidUtf8 s := by
  rw [listing, utf8_object]
  simp only [List.forall_mem_singleton, utf8_array, List.forall_mem_map, List.mem_flatMap, each, valid, true_and]
  constructor
  · rintro all s ⟨a, member, inside⟩
    exact all a member s inside
  · exact fun all a member s inside => all s ⟨a, member, inside⟩

/-- The names that an event shows. -/
def IlSchedEvent.names (event : IlSchedEvent) : List Bytes := [event.prev_comm.string, event.next_comm.string]

/-- What is told of an event that was taken out at some time. -/
def eventTold (event : IlSchedEvent × UInt64) : JsonValue D :=
  jsonObject [(ascii "timestamp_ms", .number_unsigned event.2),
    (ascii "event_type", .string (eventType event.1.event_type.toUInt32)),
    (ascii "prev_pid", .number_unsigned event.1.prev_pid.toUInt64),
    (ascii "next_pid", .number_unsigned event.1.next_pid.toUInt64),
    (ascii "cpu", .number_unsigned event.1.cpu.toUInt64), (ascii "latency_ns", .number_unsigned event.1.latency_ns),
    (ascii "prev_comm", .string event.1.prev_comm.string), (ascii "next_comm", .string event.1.next_comm.string)]

def wakeupTold (event : IlSchedEvent × UInt64) : JsonValue D :=
  jsonObject [(ascii "timestamp_ms", .number_unsigned event.2),
    (ascii "waker_pid", .number_unsigned event.1.prev_pid.toUInt64),
    (ascii "wakee_pid", .number_unsigned event.1.next_pid.toUInt64),
    (ascii "waker_comm", .string event.1.prev_comm.string), (ascii "wakee_comm", .string event.1.next_comm.string)]

theorem eventJson_record (event : IlSchedEvent × UInt64) :
    (eventJson (eventRecord event.1 event.2) : JsonValue D) = eventTold event := by
  simp only [eventJson, eventRecord, string_copied]
  rfl

theorem wakeupJson_record (event : IlSchedEvent × UInt64) :
    (wakeupJson (wakeupRecord event.1 event.2) : JsonValue D) = wakeupTold event := by
  simp only [wakeupJson, wakeupRecord, string_copied]
  rfl

theorem eventType_utf8 (event_type : UInt32) : ValidUtf8 (eventType event_type) := by
  unfold eventType
  split_ifs <;> decide

theorem eventTold_utf8 (event : IlSchedEvent × UInt64) :
    (eventTold event : JsonValue D).Utf8 ↔ ∀ s ∈ event.1.names, ValidUtf8 s := by
  rw [eventTold, jsonObject, utf8_setAll_of_nodup (by simp only [List.map_cons, List.map_nil]; decide)]
  have keys : ValidUtf8 (ascii "timestamp_ms") ∧ ValidUtf8 (ascii "event_type") ∧ ValidUtf8 (ascii "prev_pid") ∧
      ValidUtf8 (ascii "next_pid") ∧ ValidUtf8 (ascii "cpu") ∧ ValidUtf8 (ascii "latency_ns") ∧
      ValidUtf8 (ascii "prev_comm") ∧ ValidUtf8 (ascii "next_comm") := by decide
  simp [keys, IlSchedEvent.names, eventType_utf8]

theorem wakeupTold_utf8 (event : IlSchedEvent × UInt64) :
    (wakeupTold event : JsonValue D).Utf8 ↔ ∀ s ∈ event.1.names, ValidUtf8 s := by
  rw [wakeupTold, jsonObject, utf8_setAll_of_nodup (by simp only [List.map_cons, List.map_nil]; decide)]
  have keys : ValidUtf8 (ascii "timestamp_ms") ∧ ValidUtf8 (ascii "waker_pid") ∧ ValidUtf8 (ascii "wakee_pid") ∧
      ValidUtf8 (ascii "waker_comm") ∧ ValidUtf8 (ascii "wakee_comm") := by decide
  simp [keys, IlSchedEvent.names]

theorem pointJson_utf8 (p : SchedHistoryPoint D) : (pointJson p).Utf8 ↔ ∀ s ∈ ([] : List Bytes), ValidUtf8 s := by
  rw [pointJson, jsonObject, utf8_setAll_of_nodup (by simp only [List.map_cons, List.map_nil]; decide)]
  have keys : ValidUtf8 (ascii "timestamp_ms") ∧ ValidUtf8 (ascii "total_switches") ∧
      ValidUtf8 (ascii "avg_latency_us") ∧ ValidUtf8 (ascii "max_latency_ns") ∧
      ValidUtf8 (ascii "total_migrations") ∧ ValidUtf8 (ascii "process_count") := by decide
  simp [keys]

theorem pointJson_ordered (p : SchedHistoryPoint D) : (pointJson p).Ordered := by
  refine ordered_setAll ?_
  simp only [List.forall_mem_cons, Ordered, List.not_mem_nil, false_imp_iff, implies_true, and_self]

theorem eventTold_ordered (event : IlSchedEvent × UInt64) : (eventTold event : JsonValue D).Ordered := by
  refine ordered_setAll ?_
  simp only [List.forall_mem_cons, Ordered, List.not_mem_nil, false_imp_iff, implies_true, and_self]

theorem wakeupTold_ordered (event : IlSchedEvent × UInt64) : (wakeupTold event : JsonValue D).Ordered := by
  refine ordered_setAll ?_
  simp only [List.forall_mem_cons, Ordered, List.not_mem_nil, false_imp_iff, implies_true, and_self]

section

variable {Cpu Caller : Type}

/-- Whether a query for a process shows an event. Every query for the process 0 does. -/
def concerns (filter_pid : UInt32) (event : IlSchedEvent × UInt64) : Bool :=
  filter_pid == 0 || event.1.prev_pid == filter_pid || event.1.next_pid == filter_pid

/-- The last of the accepted events that concern a process, of those that are still kept. -/
def lastEvents (config : DetailConfig) (filter_pid : UInt32) (limit : ℕ)
    (before : List (DetailThread Cpu Caller × DetailEvent D)) : List (IlSchedEvent × UInt64) :=
  (((accepted config before).rtake kMaxEvents).filter (concerns filter_pid)).rtake limit

def lastWakeups (limit : ℕ) (before : List (DetailThread Cpu Caller × DetailEvent D)) : List (IlSchedEvent × UInt64) :=
  ((woken before).rtake kMaxWakeups).rtake limit

theorem GetRecentEvents_kept {before : List (DetailThread Cpu Caller × DetailEvent D)}
    {s : State (DetailShared D) DetailPc (DetailThread Cpu Caller)} (kept : Kept doubles config before s)
    (filter_pid : UInt32) (max_n : ℕ) :
    (GetRecentEvents s.shared.logs filter_pid max_n).map eventJson =
      (lastEvents config filter_pid max_n before).map (eventTold (D := D)) := by
  have same : ((SchedEventRecord.passes filter_pid) ∘ fun event : IlSchedEvent × UInt64 =>
      eventRecord event.1 event.2) = concerns filter_pid := rfl
  rw [GetRecentEvents_eq, kept.events, List.rtake_map, List.filter_map, same, List.rtake_map, List.map_map]
  exact List.map_congr_left fun event _ => eventJson_record event

theorem GetRecentWakeups_kept {before : List (DetailThread Cpu Caller × DetailEvent D)}
    {s : State (DetailShared D) DetailPc (DetailThread Cpu Caller)} (kept : Kept doubles config before s) (max_n : ℕ) :
    (GetRecentWakeups s.shared.logs max_n).map wakeupJson = (lastWakeups max_n before).map (wakeupTold (D := D)) := by
  rw [GetRecentWakeups_eq, kept.wakeups, List.rtake_map, List.rtake_map, List.map_map]
  exact List.map_congr_left fun event _ => wakeupJson_record event

/-- A query is answered by what has happened before it. -/
structure Answered (doubles : Doubles D) (json : Library D) (isfinite : D → Bool) (config : DetailConfig)
    (before : List (DetailThread Cpu Caller × DetailEvent D)) (query : Bytes) (params : QueryParams)
    (answer : Answer) : Prop where
  history : query = ascii "history" → Tells json isfinite
    (listing (ascii "history") (((points doubles before).rtake kMaxHistory).map pointJson)) [] answer
  events : query = ascii "events" → ∀ shown, shown = lastEvents config (pidParam params) (limitParam params 200) before →
    Tells json isfinite (listing (ascii "events") (shown.map eventTold)) (shown.flatMap (·.1.names)) answer
  wakeups : query = ascii "wakeups" → ∀ shown, shown = lastWakeups (limitParam params 500) before →
    Tells json isfinite (listing (ascii "wakeups") (shown.map wakeupTold)) (shown.flatMap (·.1.names)) answer
  unknown : query ∉ [ascii "history", ascii "events", ascii "wakeups"] →
    answer = some (.error (.kNotFound, ascii "unknown query: " ++ query))

theorem answered_of_kept {isfinite : D → Bool} (documented : json.Documented isfinite)
    {before : List (DetailThread Cpu Caller × DetailEvent D)}
    {s : State (DetailShared D) DetailPc (DetailThread Cpu Caller)} (kept : Kept doubles config before s) (query : Bytes)
    (params : QueryParams) :
    Answered doubles json isfinite config before query params (QueryExtra json s.shared.logs query params) where
  history := by
    rintro rfl
    rw [QueryExtra, if_pos rfl, GetHistory, if_pos (Or.inl rfl), kept.points]
    refine tells_dump documented (listing_ordered ?_) ?_
    · exact List.forall_mem_map.mpr fun p _ => pointJson_ordered p
    · rw [listing_utf8 (by decide) _ _ (fun _ => []) pointJson_utf8]
      simp
  events := by
    rintro rfl shown rfl
    rw [QueryExtra, if_neg (by decide), if_pos rfl, GetRecentEvents_kept kept]
    refine tells_dump documented (listing_ordered ?_) ?_
    · exact List.forall_mem_map.mpr fun event _ => eventTold_ordered event
    · exact listing_utf8 (by decide) _ _ _ eventTold_utf8
  wakeups := by
    rintro rfl shown rfl
    rw [QueryExtra, if_neg (by decide), if_neg (by decide), if_pos rfl, GetRecentWakeups_kept kept]
    refine tells_dump documented (listing_ordered ?_) ?_
    · exact List.forall_mem_map.mpr fun event _ => wakeupTold_ordered event
    · exact listing_utf8 (by decide) _ _ _ wakeupTold_utf8
  unknown := by
    intro other
    simp only [List.mem_cons, List.not_mem_nil, or_false, not_or] at other
    rw [QueryExtra, if_neg other.1, if_neg other.2.1, if_neg other.2.2]

variable [DecidableEq Cpu] [DecidableEq Caller] {history : List (DetailThread Cpu Caller × DetailEvent D)}
  {target : State (DetailShared D) DetailPc (DetailThread Cpu Caller)}

/-- What holds of a run: every query is answered by what has happened before it, the accepted events are those that the
probes have put into the ring buffer, but for the ones still there, and the log of wakeups is behind by one at most. -/
structure Served (doubles : Doubles D) (json : Library D) (isfinite : D → Bool) (config : DetailConfig)
    (history : List (DetailThread Cpu Caller × DetailEvent D)) : Prop where
  queries : ∀ before after thread query params answer,
    history = before ++ (thread, .answered query params answer) :: after →
    Answered doubles json isfinite config before query params answer
  order : (taken history).map Prod.fst <+: submitted history
  late : ∃ unseen, unseen.length ≤ 1 ∧
    (accepted config history).filter (fun event => event.1.event_type = 1) = woken history ++ unseen

theorem unseen_length (pc : DetailPc) : (unseen pc).length ≤ 1 := by
  cases pc <;> simp [unseen]

/-- Whatever threads are interleaved, queries are answered by the last events, wakeups and points. -/
theorem queries_served {isfinite : D → Bool} (documented : json.Documented isfinite)
    (run : (detailProgram doubles json config).Run (detailStart D Cpu Caller) history target) :
    Served doubles json isfinite config history where
  queries before after thread query params answer whole := by
    subst whole
    obtain ⟨earlier, _, prior, step, _⟩ := run.taken
    cases step with
    | act enabled =>
      have effect := effect_of_act enabled
      generalize earlier.pc thread = pc at effect
      cases effect with
      | answered => exact answered_of_kept documented (kept_of_run prior) query params
  order := ⟨_, (kept_of_run run).ring.symm⟩
  late := ⟨unseen (target.pc .poller), unseen_length _, (kept_of_run run).late⟩

end

/-! ## A run -/

/-- `int`s for the averages. -/
def wholeDoubles : Doubles (Option ℤ) where
  ofUInt64 n := some n.toNat
  div a b := do some ((← a) / (← b))

def woken42 : Wakeup := ⟨42, Vector.ofFn fun i => if i.val < 2 then 0x61 else 0, 0x700000007, Comm.empty, 3⟩

/-- A wakeup that is taken out, logged and asked for before it reaches its own log. -/
def askedEarly : List (DetailThread Unit Unit × DetailChoice) :=
  [(.cpu (), .wakeup woken42 5 true), (.poller, .now 1000), (.asker (), .query (ascii "events") ∅),
    (.asker (), .query (ascii "wakeups") ∅)]

theorem queries_served_early : ∃ history target, (detailProgram wholeDoubles (JsonText.library JsonText.wholes) {}).Run
    (detailStart (Option ℤ) Unit Unit) history target ∧ history.length = 4 ∧ (accepted {} history).length = 1 ∧
    Served wholeDoubles (JsonText.library JsonText.wholes) JsonText.wholes.isfinite {} history := by
  obtain ⟨history, target, run, long, some_⟩ := Program.exists_run_of_check
    (detailProgram wholeDoubles (JsonText.library JsonText.wholes) {}) (detailStart (Option ℤ) Unit Unit)
    (fun _ history => history.length = 4 ∧ (accepted {} history).length = 1) askedEarly (by decide)
  exact ⟨history, target, run, long, some_, queries_served (JsonText.library_documented JsonText.wholes_faithful) run⟩

end SchedAnalyzer

end Illuminator
