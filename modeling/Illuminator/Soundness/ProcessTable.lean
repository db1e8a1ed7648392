import Illuminator.Model.Pages
import Illuminator.Soundness.MergedFlames
import Illuminator.Soundness.ProcessShares

/-! # Processes on the page

A Collect of the process source emits the ranked processes, each followed by its threads. The page takes the records
apart again into one entry for each process with its threads, and shows what was collected: names, states and numbers
come through the text, and a number that is no number for JSON is shown as zero.
-/

namespace Illuminator

namespace CpuMetrics

open JsonValue JsonSerializer ProcessCpu
open FlameGraph (Browser JsString literal property asString)

variable {D : Type} {isfinite : D → Bool} {browser : Browser D} {numbers : Numbers D} {shows : Shows D}

/-! ## What a record is on the page -/

def Ascii (s : Bytes) : Prop := ∀ c ∈ s, c < 0x80

instance (s : Bytes) : Decidable (Ascii s) := inferInstanceAs (Decidable (∀ c ∈ s, _))

/-- The documented decoding of UTF-8, on ASCII. -/
def Decodes (browser : Browser D) : Prop := ∀ s, Ascii s → browser.decode s = s.map UInt8.toUInt16

theorem decode_inj (decodes : Decodes browser) {s t : Bytes} (left : Ascii s) (right : Ascii t)
    (same : browser.decode s = browser.decode t) : s = t := by
  rw [decodes s left, decodes t right] at same
  exact List.map_injective_iff.mpr (fun a b equal => by
    have values := congrArg UInt16.toNat equal
    rwa [UInt8.toNat_toUInt16, UInt8.toNat_toUInt16, UInt8.toNat_inj] at values) same

private theorem lookup_decoded (decodes : Decodes browser) {members : Members D} {key : Bytes} (clean : Ascii key)
    (keys : ∀ entry ∈ members, Ascii entry.1) :
    (members.map fun entry => (browser.decode entry.1, stringOr browser shows (some entry.2))).lookup
      (browser.decode key) = (members.lookup key).map fun v => stringOr browser shows (some v) := by
  induction members with
  | nil => rfl
  | cons entry rest ih =>
    obtain ⟨first, others⟩ := List.forall_mem_cons.mp keys
    rw [List.map_cons, List.lookup_cons, List.lookup_cons]
    by_cases same : key = entry.1
    · rw [same, beq_self_eq_true, beq_self_eq_true]
      rfl
    · have apart : browser.decode key ≠ browser.decode entry.1 := fun equal => same (decode_inj decodes clean first equal)
      rw [beq_eq_false_iff_ne.mpr same, beq_eq_false_iff_ne.mpr apart]
      exact ih others

private theorem foldl_assign {α β : Type*} (f : α → β) (items : List α) (out : List β) :
    items.foldl (fun out item => f item :: out) out = (items.map f).reverse ++ out := by
  induction items generalizing out with
  | nil => rfl
  | cons item rest ih =>
    rw [List.foldl_cons, ih, List.map_cons, List.reverse_cons, List.append_assoc, List.singleton_append]

/-- With distinct ASCII keys a label is found under its key. -/
theorem label_record (isfinite : D → Bool) (shows : Shows D) (decodes : Decodes browser) {rec : Record D}
    {names : List Bytes} (same : rec.labels.map Label.key = names) (distinct : names.Nodup)
    (keys : ∀ name ∈ names, Ascii name) {name : String} (clean : Ascii (ascii name)) (narrow : literal name = (ascii name).map UInt8.toUInt16) :
    (normalizeLabels browser shows (property (ascii "labels") ((RecordToJson rec).reparsed isfinite))).lookup
      (literal name) = ((rec.labels.map fun l => (l.key, l.value)).lookup (ascii name)).map browser.decode := by
  rw [narrow, ← decodes _ clean]
  generalize ascii name = key at clean
  have found : property (ascii "labels") ((RecordToJson rec).reparsed isfinite) =
      some (.object (reparsedIn isfinite (labelsToJson rec.labels))) := by
    rw [RecordToJson, FlameGraph.property_setAll (by simp only [List.map_cons, List.map_nil]; decide)]
    rfl
  have nodup : ((rec.labels.map fun l => (l.key, (JsonValue.string l.value : JsonValue D))).map Prod.fst).Nodup := by
    rw [List.map_map]
    exact same ▸ distinct
  have shown : ∀ labels : List Label, ((labels.map fun l => (l.key, (JsonValue.string l.value : JsonValue D))).lookup
      key).map (fun v => stringOr browser shows (some (v.reparsed isfinite))) =
        ((labels.map fun l => (l.key, l.value)).lookup key).map browser.decode := by
    intro labels
    induction labels with
    | nil => rfl
    | cons l rest ih =>
      rw [List.map_cons, List.map_cons, List.lookup_cons, List.lookup_cons]
      cases key == l.key with
      | true => rfl
      | false => exact ih
  have ascending : ((reparsedIn isfinite (labelsToJson rec.labels)).map Prod.fst).Nodup := by
    rw [keys_reparsedIn]
    exact Members.setAll_nodup _
  have among : ∀ entry ∈ reparsedIn isfinite (labelsToJson rec.labels), Ascii entry.1 := by
    intro entry member
    have key : entry.1 ∈ (reparsedIn isfinite (labelsToJson rec.labels)).map Prod.fst := List.mem_map_of_mem member
    rw [keys_reparsedIn] at key
    obtain ⟨⟨k, v⟩, inside, equal⟩ := List.mem_map.mp key
    obtain ⟨l, listed, shape⟩ := List.mem_map.mp ((Members.mem_setAll_of_nodup nodup).mp inside)
    obtain ⟨rfl, -⟩ := Prod.mk.inj shape
    rw [← equal]
    exact keys l.key (same ▸ List.mem_map_of_mem listed)
  have reversed : (reparsedIn isfinite (labelsToJson rec.labels)).reverse.lookup key =
      (reparsedIn isfinite (labelsToJson rec.labels)).lookup key := by
    refine Option.ext fun value => ?_
    rw [← Members.mem_iff_lookup ascending, ← Members.mem_iff_lookup (by rwa [List.map_reverse, List.nodup_reverse]),
      List.mem_reverse]
  rw [found, normalizeLabels, foldl_assign, List.append_nil, ← List.map_reverse,
    lookup_decoded decodes clean (fun entry member => among entry (List.mem_reverse.mp member)), reversed,
    lookup_reparsedIn, labelsToJson, Members.lookup_setAll_of_nodup nodup, Option.map_map]
  exact shown rec.labels

private theorem property_eq (key : Bytes) (v : JsonValue D) : property key v = member key v := by
  cases v <;> rfl

theorem readRecord_record (rec : Record D) : readRecord browser shows ((RecordToJson rec).reparsed isfinite) =
    some (normalizeLabels browser shows (property (ascii "labels") ((RecordToJson rec).reparsed isfinite)),
      fun key => (rec.GetField key).map (fieldShown isfinite)) := by
  obtain ⟨members, found, fields⟩ := @recordRecovered D isfinite rec
  rw [← property_eq] at found
  have shape : ∃ whole, (RecordToJson rec).reparsed isfinite = .object whole := ⟨_, by rw [RecordToJson, reparsed]⟩
  obtain ⟨whole, same⟩ := shape
  have each : (fun key => (property (ascii "fields") ((RecordToJson rec).reparsed isfinite)).bind (property key)) =
      fun key => (rec.GetField key).map (fieldShown isfinite) := by
    funext key
    rw [found, Option.bind_some]
    exact fields key
  rw [← each, same]
  rfl

/-! ## Processes and threads -/

/-- A `double` on the page. -/
def shownNumber (isfinite : D → Bool) (numbers : Numbers D) (d : D) : D :=
  if isfinite d && numbers.truthy d then d else numbers.zero

def shownWhole (numbers : Numbers D) (u : UInt64) : D :=
  if numbers.truthy (numbers.unsigned u) then numbers.unsigned u else numbers.zero

theorem numberOr0_double (d : D) :
    numberOr0 numbers (some (fieldShown isfinite (.double d))) = shownNumber isfinite numbers d := by
  change numberOr0 numbers (some (if isfinite d then .number_float d else .null)) = _
  unfold shownNumber
  cases isfinite d with
  | true => rfl
  | false => exact ite_self _

/-- A process on the page, before its threads are added. -/
def shownProcess (isfinite : D → Bool) (browser : Browser D) (numbers : Numbers D) (rp : RankedProcess D) :
    ProcessInfo D where
  pid := browser.decode (to_string rp.snap.pid.toNat)
  comm := browser.decode rp.snap.comm
  cpu_user_pct := shownNumber isfinite numbers rp.cpu_user_pct
  cpu_sys_pct := shownNumber isfinite numbers rp.cpu_sys_pct
  cpu_total_pct := shownNumber isfinite numbers rp.cpu_total_pct
  state := browser.decode [rp.snap.state]
  num_threads := shownWhole numbers rp.snap.num_threads.toUInt64
  rss_kb := shownWhole numbers (rp.snap.rss_pages * 4).toUInt64
  vsize_kb := shownWhole numbers (rp.snap.vsize / 1024)
  voluntary_ctxt_switches := shownWhole numbers rp.snap.voluntary_ctxt_switches
  nonvoluntary_ctxt_switches := shownWhole numbers rp.snap.nonvoluntary_ctxt_switches
  threads := []

/-- The key of a process in the page's map. -/
def pidText (browser : Browser D) (rp : RankedProcess D) : JsString := browser.decode (to_string rp.snap.pid.toNat)

theorem takeRecord_process (decodes : Decodes browser) (found : ProcessMap D × List (ThreadInfo D))
    (rp : RankedProcess D) :
    takeRecord browser numbers shows found ((RecordToJson (processRecord rp)).reparsed isfinite) =
      some (found.1.set (some (pidText browser rp)) (shownProcess isfinite browser numbers rp), found.2) := by
  have labels : (processRecord rp).labels = [⟨ascii "source", ascii "process_cpu"⟩, ⟨ascii "type", ascii "process"⟩,
      ⟨ascii "pid", to_string rp.snap.pid.toNat⟩, ⟨ascii "comm", rp.snap.comm⟩] := CpuUtilization.record_labels _ _
  have keys : (processRecord rp).labels.map Label.key =
      [ascii "source", ascii "type", ascii "pid", ascii "comm"] := by
    rw [labels]
    rfl
  have named {name : String} (clean : Ascii (ascii name)) (narrow : literal name = (ascii name).map UInt8.toUInt16) :=
    label_record isfinite shows decodes keys (by decide) (by decide) clean narrow
  have type := @named "type" (by decide) (by decide)
  have pid := @named "pid" (by decide) (by decide)
  have comm := @named "comm" (by decide) (by decide)
  rw [labels] at type pid comm
  have fields : ∀ entry ∈ [(ascii "cpu_user_pct", FieldValue.double rp.cpu_user_pct),
      (ascii "cpu_sys_pct", .double rp.cpu_sys_pct), (ascii "cpu_total_pct", .double rp.cpu_total_pct),
      (ascii "state", .string [rp.snap.state]), (ascii "num_threads", .uint64 rp.snap.num_threads.toUInt64),
      (ascii "rss_kb", .uint64 (rp.snap.rss_pages * 4).toUInt64), (ascii "vsize_kb", .uint64 (rp.snap.vsize / 1024)),
      (ascii "voluntary_ctxt_switches", .uint64 rp.snap.voluntary_ctxt_switches),
      (ascii "nonvoluntary_ctxt_switches", .uint64 rp.snap.nonvoluntary_ctxt_switches)],
      (processRecord rp).GetField entry.1 = some entry.2 := by
    rintro ⟨key, value⟩ member
    have distinct : [ascii "cpu_user_pct", ascii "cpu_sys_pct", ascii "cpu_total_pct", ascii "state",
        ascii "num_threads", ascii "rss_kb", ascii "vsize_kb", ascii "voluntary_ctxt_switches",
        ascii "nonvoluntary_ctxt_switches"].Nodup := by decide
    exact CpuUtilization.record_field distinct rfl member
  simp only [List.forall_mem_cons] at fields
  obtain ⟨user, sys, total, state, threads, rss, vsize, voluntary, nonvoluntary, -⟩ := fields
  have process : label (normalizeLabels browser shows (property (ascii "labels")
      ((RecordToJson (processRecord rp)).reparsed isfinite))) "type" = literal "process" := by
    rw [label, type]
    exact decodes _ (by decide)
  rw [takeRecord, readRecord_record]
  change (if _ then _ else _) = _
  rw [if_pos process, pid]
  unfold processInfo label
  simp only [pid, comm, user, sys, total, state, threads, rss, vsize, voluntary, nonvoluntary, Option.map_some,
    numberOr0_double]
  rfl

section

variable [Add D] [Mul D] [Div D] [NatCast D]

def shownThread (isfinite : D → Bool) (browser : Browser D) (numbers : Numbers D) (config : Config D)
    (delta_total : UInt64) (rp : RankedProcess D) (t : ProcessStat × ThreadSnapshot) : ThreadInfo D where
  pid := browser.decode (to_string rp.snap.pid.toNat)
  tid := browser.decode (to_string t.1.pid.toNat)
  comm := browser.decode t.1.comm
  parent_comm := browser.decode rp.snap.comm
  cpu_user_pct := shownNumber isfinite numbers (pct config delta_total t.1.utime t.2.utime)
  cpu_sys_pct := shownNumber isfinite numbers (pct config delta_total t.1.stime t.2.stime)
  cpu_total_pct := shownNumber isfinite numbers
    (pct config delta_total t.1.utime t.2.utime + pct config delta_total t.1.stime t.2.stime)
  state := browser.decode [t.1.state]

theorem takeRecord_thread (decodes : Decodes browser) (found : ProcessMap D × List (ThreadInfo D)) (config : Config D)
    (delta_total : UInt64) (rp : RankedProcess D) (t : ProcessStat × ThreadSnapshot) :
    takeRecord browser numbers shows found
        ((RecordToJson (threadRecord config rp.snap.pid rp.snap.comm delta_total t.1 t.2)).reparsed isfinite) =
      some (found.1, found.2 ++ [shownThread isfinite browser numbers config delta_total rp t]) := by
  have labels : (threadRecord config rp.snap.pid rp.snap.comm delta_total t.1 t.2).labels =
      [⟨ascii "source", ascii "process_cpu"⟩, ⟨ascii "type", ascii "thread"⟩,
        ⟨ascii "pid", to_string rp.snap.pid.toNat⟩, ⟨ascii "tid", to_string t.1.pid.toNat⟩,
        ⟨ascii "comm", t.1.comm⟩, ⟨ascii "parent_comm", rp.snap.comm⟩] := CpuUtilization.record_labels _ _
  have keys : (threadRecord config rp.snap.pid rp.snap.comm delta_total t.1 t.2).labels.map Label.key =
      [ascii "source", ascii "type", ascii "pid", ascii "tid", ascii "comm", ascii "parent_comm"] := by
    rw [labels]
    rfl
  have named {name : String} (clean : Ascii (ascii name)) (narrow : literal name = (ascii name).map UInt8.toUInt16) :=
    label_record isfinite shows decodes keys (by decide) (by decide) clean narrow
  have type := @named "type" (by decide) (by decide)
  have pid := @named "pid" (by decide) (by decide)
  have tid := @named "tid" (by decide) (by decide)
  have comm := @named "comm" (by decide) (by decide)
  have parent_comm := @named "parent_comm" (by decide) (by decide)
  rw [labels] at type pid tid comm parent_comm
  have fields : ∀ entry ∈ [(ascii "cpu_user_pct", FieldValue.double (pct config delta_total t.1.utime t.2.utime)),
      (ascii "cpu_sys_pct", .double (pct config delta_total t.1.stime t.2.stime)),
      (ascii "cpu_total_pct", .double (pct config delta_total t.1.utime t.2.utime +
        pct config delta_total t.1.stime t.2.stime)), (ascii "state", .string [t.1.state])],
      (threadRecord config rp.snap.pid rp.snap.comm delta_total t.1 t.2).GetField entry.1 = some entry.2 := by
    rintro ⟨key, value⟩ member
    have distinct : [ascii "cpu_user_pct", ascii "cpu_sys_pct", ascii "cpu_total_pct", ascii "state"].Nodup := by decide
    exact CpuUtilization.record_field distinct rfl member
  simp only [List.forall_mem_cons] at fields
  obtain ⟨user, sys, total, state, -⟩ := fields
  have thread : label (normalizeLabels browser shows (property (ascii "labels")
      ((RecordToJson (threadRecord config rp.snap.pid rp.snap.comm delta_total t.1 t.2)).reparsed isfinite))) "type" =
        literal "thread" := by
    rw [label, type]
    exact decodes _ (by decide)
  have other : literal "thread" ≠ literal "process" := by decide
  rw [takeRecord, readRecord_record]
  change (if _ then _ else if _ then _ else _) = _
  rw [thread, if_neg other, if_pos rfl]
  unfold threadInfo label
  simp only [pid, tid, comm, parent_comm, user, sys, total, state, Option.map_some, numberOr0_double]
  rfl

/-! ## The records of a Collect -/

/-- A process with the threads that are listed with it. -/
abbrev Group (D : Type) := RankedProcess D × List (ProcessStat × ThreadSnapshot)

def groupRecords (config : Config D) (delta_total : UInt64) (g : Group D) : List (Record D) :=
  processRecord g.1 :: g.2.map fun t => threadRecord config g.1.snap.pid g.1.snap.comm delta_total t.1 t.2

theorem CollectThreads_records (config : Config D) (pid : UInt32) (parent_comm : Bytes) (delta_total : UInt64)
    (threads : List ProcessStat) (prev : UInt64 → Option ThreadSnapshot) :
    ∃ listed : List (ProcessStat × ThreadSnapshot),
      (CollectThreads config pid parent_comm delta_total threads prev).1.map Prod.snd =
        listed.map fun t => threadRecord config pid parent_comm delta_total t.1 t.2 := by
  induction threads generalizing prev with
  | nil => exact ⟨[], rfl⟩
  | cons ts rest ih =>
    obtain ⟨listed, same⟩ := ih (Function.update prev (MakeThreadKey pid ts.pid)
      (some ⟨ts.pid, ts.comm, ts.utime, ts.stime, ts.state⟩))
    cases before : prev (MakeThreadKey pid ts.pid) with
    | none =>
      refine ⟨listed, ?_⟩
      simp only [CollectThreads, before]
      exact same
    | some held =>
      refine ⟨(ts, held) :: listed, ?_⟩
      simp only [CollectThreads, before, List.map_cons]
      rw [same]

variable [LT D]

theorem processes_distinct (config : Config D) (sorting : Sorting D) (s : Shared) (read : Readings) :
    ((ranked config sorting s read).map fun rp => rp.snap.pid).Nodup := by
  have snap (ps : ProcessStat) : (rank config s read ps).snap = ps := by
    unfold rank
    split <;> rfl
  have listed : (((read.raw_processes.entries.filter fun ps => selected config ps).map (rank config s read)).map
      fun rp => rp.snap.pid).Nodup := by
    rw [List.map_map]
    have same : (fun rp : RankedProcess D => rp.snap.pid) ∘ rank config s read = ProcessStat.pid := by
      funext ps
      exact congrArg ProcessStat.pid (snap ps)
    rw [same]
    exact read.raw_processes.distinct.sublist (List.filter_sublist.map _)
  refine List.Nodup.sublist ((List.take_sublist _ _).map _) ?_
  exact (((sorting.perm _).map _).nodup_iff).mpr listed

variable [DecidableLT D]

theorem emit_groups (config : Config D) (delta_total : UInt64) (tasks : UInt32 → Option ProcessCpu.Table)
    (processes : List (RankedProcess D)) (prev : UInt64 → Option ThreadSnapshot) :
    ∃ groups : List (Group D), groups.map Prod.fst = processes.filter RankedProcess.has_prev ∧
      (emit config delta_total tasks processes prev).1.map Prod.snd =
        groups.flatMap (groupRecords config delta_total) := by
  induction processes generalizing prev with
  | nil => exact ⟨[], rfl, rfl⟩
  | cons rp rest ih =>
    cases has_prev : rp.has_prev with
    | false =>
      obtain ⟨groups, kept, same⟩ := ih prev
      refine ⟨groups, ?_, ?_⟩
      · rw [List.filter_cons_of_neg (by simp [has_prev])]
        exact kept
      · simp only [emit, has_prev, Bool.false_eq_true, if_false]
        exact same
    | true =>
      obtain ⟨groups, kept, same⟩ := ih (expanded config delta_total tasks rp prev).2
      have threads : ∃ listed : List (ProcessStat × ThreadSnapshot),
          (expanded config delta_total tasks rp prev).1.map Prod.snd =
            listed.map fun t => threadRecord config rp.snap.pid rp.snap.comm delta_total t.1 t.2 := by
        unfold expanded
        cases tasks rp.snap.pid with
        | none => exact ⟨[], rfl⟩
        | some table =>
          simp only
          split_ifs
          · exact CollectThreads_records config rp.snap.pid rp.snap.comm delta_total table.entries prev
          · exact ⟨[], rfl⟩
      obtain ⟨listed, below⟩ := threads
      refine ⟨(rp, listed) :: groups, ?_, ?_⟩
      · rw [List.filter_cons_of_pos has_prev, List.map_cons, kept]
      · simp only [emit, has_prev, if_true, List.map_cons, List.map_append, List.cons_append]
        rw [below, same]
        rfl

end

/-! ## The table -/

theorem pidText_inj (decodes : Decodes browser) {first second : RankedProcess D}
    (same : pidText browser first = pidText browser second) : first.snap.pid = second.snap.pid := by
  have clean (n : ℕ) : Ascii (to_string n) := by
    intro c member
    have range := to_string_range member
    rw [UInt8.lt_iff_toNat_lt]
    exact Nat.lt_of_le_of_lt range.2 (by decide)
  exact UInt32.toNat_inj.mp (to_string_injective (decode_inj decodes (clean _) (clean _) same))

theorem set_new {map : ProcessMap D} {key : Option JsString} (new : key ∉ map.map Prod.fst) (info : ProcessInfo D) :
    map.set key info = map ++ [(key, info)] := by
  unfold ProcessMap.set
  rw [if_neg (by simpa using new)]

/-- A thread goes to the entry with its key. -/
theorem attach_each (map : ProcessMap D) (threads : List (ThreadInfo D)) :
    threads.foldl attach map = map.map fun entry =>
      (entry.1, { entry.2 with threads := entry.2.threads ++ threads.filter fun t => some t.pid = entry.1 }) := by
  induction threads generalizing map with
  | nil => simp
  | cons t rest ih =>
    rw [List.foldl_cons, ih, attach, List.map_map]
    refine List.map_congr_left fun entry _ => ?_
    by_cases own : entry.1 = some t.pid
    · simp only [Function.comp_apply, own, List.filter_cons, decide_true, if_true, List.append_assoc,
        List.singleton_append]
    · have other : ¬ some t.pid = entry.1 := fun same => own same.symm
      simp only [Function.comp_apply, if_neg own, List.filter_cons, decide_eq_true_eq, other, if_false]

section

variable [Add D] [Mul D] [Div D] [NatCast D] (isfinite : D → Bool) (browser : Browser D) (numbers : Numbers D)
  (config : Config D) (delta : UInt64)

def shownThreads (g : Group D) : List (ThreadInfo D) :=
  g.2.map (shownThread isfinite browser numbers config delta g.1)

/-- A process with its threads on the page. -/
def shownGroup (g : Group D) : ProcessInfo D :=
  { shownProcess isfinite browser numbers g.1 with threads := shownThreads isfinite browser numbers config delta g }

variable {isfinite browser} {numbers config delta}

theorem takeRecord_threads (decodes : Decodes browser) (rp : RankedProcess D)
    (threads : List (ProcessStat × ThreadSnapshot)) (found : ProcessMap D × List (ThreadInfo D)) :
    ((threads.map fun t => threadRecord config rp.snap.pid rp.snap.comm delta t.1 t.2).map
        fun rec => (RecordToJson rec).reparsed isfinite).foldlM (takeRecord browser numbers shows) found =
      some (found.1, found.2 ++ threads.map (shownThread isfinite browser numbers config delta rp)) := by
  induction threads generalizing found with
  | nil => simp
  | cons t rest ih =>
    rw [List.map_cons, List.map_cons, List.foldlM_cons, takeRecord_thread decodes]
    change List.foldlM _ _ _ = _
    rw [ih, List.map_cons, List.append_assoc, List.singleton_append]

/-- The loop of the page over the records of a Collect. -/
theorem takeRecord_groups (decodes : Decodes browser) {groups : List (Group D)}
    (distinct : (groups.map fun g => g.1.snap.pid).Nodup) {found : ProcessMap D × List (ThreadInfo D)}
    (new : ∀ g ∈ groups, some (pidText browser g.1) ∉ found.1.map Prod.fst) :
    ((groups.flatMap (groupRecords config delta)).map fun rec => (RecordToJson rec).reparsed isfinite).foldlM
        (takeRecord browser numbers shows) found =
      some (found.1 ++ groups.map (fun g => (some (pidText browser g.1), shownProcess isfinite browser numbers g.1)),
        found.2 ++ groups.flatMap (shownThreads isfinite browser numbers config delta)) := by
  induction groups generalizing found with
  | nil => simp
  | cons g rest ih =>
    obtain ⟨fresh, distinct⟩ := List.nodup_cons.mp distinct
    obtain ⟨first, others⟩ := List.forall_mem_cons.mp new
    rw [List.flatMap_cons, groupRecords, List.cons_append, List.map_cons, List.map_append, List.foldlM_cons,
      takeRecord_process decodes, set_new first]
    change List.foldlM _ _ _ = _
    rw [List.foldlM_append, takeRecord_threads decodes]
    change List.foldlM _ _ _ = _
    rw [ih distinct]
    · rw [List.map_cons, List.flatMap_cons, List.append_assoc, List.append_assoc, List.singleton_append]
      rfl
    · intro other later inside
      rw [List.map_append, List.mem_append, List.map_singleton, List.mem_singleton] at inside
      rcases inside with before | same
      · exact others other later before
      · exact fresh (List.mem_map.mpr ⟨other, later, pidText_inj decodes (Option.some.inj same)⟩)

/-- Of all threads a process has those that were listed with it. -/
theorem threads_of_group (decodes : Decodes browser) {groups : List (Group D)}
    (distinct : (groups.map fun g => g.1.snap.pid).Nodup) {g : Group D} (member : g ∈ groups) :
    ((groups.flatMap (shownThreads isfinite browser numbers config delta)).filter
      fun t => some t.pid = some (pidText browser g.1)) = shownThreads isfinite browser numbers config delta g := by
  have own : ((shownThreads isfinite browser numbers config delta g).filter
      fun t => some t.pid = some (pidText browser g.1)) = shownThreads isfinite browser numbers config delta g := by
    rw [List.filter_eq_self]
    intro t inside
    obtain ⟨thread, -, rfl⟩ := List.mem_map.mp inside
    exact decide_eq_true rfl
  have others {h : Group D} (apart : h.1.snap.pid ≠ g.1.snap.pid) :
      ((shownThreads isfinite browser numbers config delta h).filter
        fun t => some t.pid = some (pidText browser g.1)) = [] := by
    rw [List.filter_eq_nil_iff]
    intro t inside
    obtain ⟨thread, -, rfl⟩ := List.mem_map.mp inside
    rw [decide_eq_true_eq]
    exact fun same => apart (pidText_inj decodes (Option.some.inj same))
  induction groups with
  | nil => exact absurd member List.not_mem_nil
  | cons h rest ih =>
    obtain ⟨fresh, distinct⟩ := List.nodup_cons.mp distinct
    rw [List.flatMap_cons, List.filter_append]
    rcases List.mem_cons.mp member with rfl | later
    · have none_ : ((rest.flatMap (shownThreads isfinite browser numbers config delta)).filter
          fun t => some t.pid = some (pidText browser g.1)) = [] := by
        rw [List.filter_flatMap, List.flatMap_eq_nil_iff]
        intro h inside
        exact others fun same => fresh (List.mem_map.mpr ⟨h, inside, same⟩)
      rw [own, none_, List.append_nil]
    · rw [others fun same => fresh (List.mem_map.mpr ⟨g, later, same.symm⟩), List.nil_append]
      exact ih distinct later

theorem parse_groups (decodes : Decodes browser) {groups : List (Group D)}
    (distinct : (groups.map fun g => g.1.snap.pid).Nodup) {data : JsonValue D}
    (records : property (ascii "records") data =
      some (.array ((groups.flatMap (groupRecords config delta)).map fun rec => (RecordToJson rec).reparsed isfinite))) :
    parseProcessResponse browser numbers shows data =
      some (groups.map (shownGroup isfinite browser numbers config delta)) := by
  have looped : ((groups.flatMap (groupRecords config delta)).map fun rec => (RecordToJson rec).reparsed isfinite).foldlM
      (takeRecord browser numbers shows) ([], []) =
        some (groups.map (fun g => (some (pidText browser g.1), shownProcess isfinite browser numbers g.1)),
          groups.flatMap (shownThreads isfinite browser numbers config delta)) :=
    takeRecord_groups decodes distinct fun _ _ => List.not_mem_nil
  have list : recordsOf numbers data = some ((groups.flatMap (groupRecords config delta)).map
      fun rec => (RecordToJson rec).reparsed isfinite) := by
    rw [recordsOf, records]
  rw [parseProcessResponse, list]
  change (List.foldlM (takeRecord browser numbers shows) ([], []) _).bind _ = _
  rw [looped, Option.bind_some]
  change some (List.map Prod.snd (List.foldl attach _ _)) = _
  rw [attach_each, List.map_map, List.map_map]
  refine congrArg some (List.map_congr_left fun g member => ?_)
  simp only [Function.comp_apply]
  rw [threads_of_group decodes distinct member]
  rfl

omit [Add D] [Mul D] [Div D] [NatCast D] in
/-- The records of a batch in the document that the page reads. -/
theorem records_batch (batch : DataBatch D) (pipeline : Bytes) :
    property (ascii "records") ((batchDocument batch pipeline).reparsed isfinite) =
      some (.array (batch.records.map fun rec => (RecordToJson rec).reparsed isfinite)) := by
  have found : (reparsed isfinite (.array (batch.records.map RecordToJson))) =
      .array (batch.records.map fun rec => (RecordToJson rec).reparsed isfinite) := by
    rw [reparsed, reparsedOf_eq, List.map_map]
    rfl
  rw [batchDocument, reparsed, property, lookup_reparsedIn, Members.lookup_setAll, List.append_nil, ← found]
  split_ifs <;> rfl

variable [LT D] [DecidableLT D]

/-- The clock does not show in the document. -/
theorem records_collect (config : Config D) (sorting : Sorting D) (s : Shared) (read : Readings) :
    ((Collect config sorting s read).2.records.map fun rec => (RecordToJson rec).reparsed isfinite) =
      ((emitted config sorting s read).1.map Prod.snd).map fun rec => (RecordToJson rec).reparsed isfinite := by
  refine List.ext_getElem? fun i => ?_
  rw [Collect, List.getElem?_map, List.getElem?_mapIdx, List.getElem?_map, List.getElem?_map, Option.map_map,
    Option.map_map]
  rfl

/-- **The table of processes.** A Collect of the process source lists the ranked processes that were there before, each
with some of its threads, and the page shows them: one entry for each process, in their order, with the threads listed
with it. When a name is not UTF-8 the request fails, and the page keeps what it shows. -/
theorem processes_shown {json : Library D} (documented : json.Documented isfinite) (reads : browser.Reads json isfinite)
    (decodes : Decodes browser) (numbers : Numbers D) (shows : Shows D) (config : Config D) (sorting : Sorting D)
    (s : Shared) (read : Readings) (pipeline_name : Bytes) (page : ProcessState D) :
    ∃ groups : List (Group D),
      groups.map Prod.fst = (ranked config sorting s read).filter RankedProcess.has_prev ∧
      (emitted config sorting s read).1.map Prod.snd = groups.flatMap (groupRecords config (delta_total s read)) ∧
      (Readable (Collect config sorting s read).2 pipeline_name →
        page.fetchData browser numbers shows (pipeline_collect json (Collect config sorting s read).2 pipeline_name) =
          ⟨groups.map (shownGroup isfinite browser numbers config (delta_total s read)), none⟩) ∧
      (¬ Readable (Collect config sorting s read).2 pipeline_name →
        page.fetchData browser numbers shows (pipeline_collect json (Collect config sorting s read).2 pipeline_name) =
          { page with error := some (.http 500) }) := by
  obtain ⟨groups, kept, records⟩ := emit_groups config (delta_total s read) read.tasks (ranked config sorting s read)
    s.prev_thread_snapshots_
  refine ⟨groups, kept, records, ?_, ?_⟩
  · intro readable
    obtain ⟨text, dumped⟩ := documented.dump_some.mpr (utf8_document.mpr readable)
    have parsed := reads _ text (ordered_document _ pipeline_name) dumped
    have distinct : (groups.map fun g => g.1.snap.pid).Nodup := by
      have all := (processes_distinct config sorting s read).sublist
        ((@List.filter_sublist _ RankedProcess.has_prev _).map fun rp => rp.snap.pid)
      rw [← kept, List.map_map] at all
      exact all
    have shown : parseProcessResponse browser numbers shows
        ((batchDocument (Collect config sorting s read).2 pipeline_name).reparsed isfinite) =
          some (groups.map (shownGroup isfinite browser numbers config (delta_total s read))) := by
      refine parse_groups decodes distinct ?_
      rw [records_batch, records_collect, ← records]
      rfl
    have served : pipeline_collect json (Collect config sorting s read).2 pipeline_name =
        .response 200 (text ++ [0x0A]) := by
      rw [pipeline_collect, BatchToJson, dumped]
    have read_ : CpuMetrics.json browser (.response 200 (text ++ [0x0A])) =
        .ok ((batchDocument (Collect config sorting s read).2 pipeline_name).reparsed isfinite) := by
      rw [CpuMetrics.json, if_pos (by decide), parsed]
    rw [served, ProcessState.fetchData, read_]
    simp only [shown]
  · intro unreadable
    have thrown : json.dump (batchDocument (Collect config sorting s read).2 pipeline_name) = none := by
      rw [← Option.not_isSome_iff_eq_none, Option.isSome_iff_exists]
      exact fun dumped => unreadable (utf8_document.mp (documented.dump_some.mp dumped))
    have served : pipeline_collect json (Collect config sorting s read).2 pipeline_name = .response 500 [] := by
      rw [pipeline_collect, BatchToJson, thrown]
    rw [served]
    rfl

end

/-! ## One busy process -/

/-- Whole numbers and one that is no number. -/
def Amount : Type := Option ℤ

def Amount.lift (f : ℤ → ℤ → ℤ) : Amount → Amount → Amount
  | some a, some b => some (f a b)
  | _, _ => none

def Amount.value : Amount → ℤ
  | some a => a
  | none => 0

instance : Add Amount := ⟨Amount.lift (· + ·)⟩
instance : Mul Amount := ⟨Amount.lift (· * ·)⟩
instance : Div Amount := ⟨Amount.lift (· / ·)⟩
instance : NatCast Amount := ⟨fun n => some n⟩
instance : LT Amount := ⟨fun a b => a.value < b.value⟩
instance : DecidableLT Amount := fun a b => inferInstanceAs (Decidable (a.value < b.value))

def byAmount : Sorting Amount where
  sort := List.insertionSort fun a b => b.cpu_total_pct.value ≤ a.cpu_total_pct.value
  perm := List.perm_insertionSort _
  sorted ranked := by
    have total : Std.Total fun a b : RankedProcess Amount => b.cpu_total_pct.value ≤ a.cpu_total_pct.value :=
      ⟨fun a b => le_total b.cpu_total_pct.value a.cpu_total_pct.value⟩
    have trans : IsTrans (RankedProcess Amount) fun a b => b.cpu_total_pct.value ≤ a.cpu_total_pct.value :=
      ⟨fun a b c first second => le_trans second first⟩
    exact (List.pairwise_insertionSort _ ranked).imp fun less => Int.not_lt.mpr less

def oneCpu : Config Amount := { thread_detail_threshold_pct_ := ((3 : ℕ) : Amount), num_cpus_ := 1, positive := by decide }

/-- A shell with one thread. -/
def busy (total utime : UInt64) : Readings where
  cur_total_jiffies := total
  raw_processes := ⟨[{ pid := 7, comm := ascii "sh", utime }], List.nodup_singleton _⟩
  tasks := fun _ => some ⟨[{ pid := 7, comm := ascii "sh", utime }], List.nodup_singleton _⟩
  now := fun _ => 0

/-- Two Collects, of which the first finds the process and the second its thread. -/
def settled : Shared :=
  (Collect oneCpu byAmount (Collect oneCpu byAmount (Init 900) (busy 1000 100)).1 (busy 1100 160)).1

def amountNumbers : Numbers Amount where
  zero := ((0 : ℕ) : Amount)
  truthy d := d.value != 0
  unsigned u := (u.toNat : Amount)
  integer _ := ((0 : ℕ) : Amount)
  other _ := ((0 : ℕ) : Amount)

def amountBrowser : Browser Amount := FlameGraph.asciiBrowser

def amountFloats : JsonText.Floats Amount := JsonText.wholes

def amountJson : Library Amount := JsonText.library amountFloats

theorem processes_shown_busy : ∃ groups : List (Group Amount),
    groups.map Prod.fst = (ranked oneCpu byAmount settled (busy 1200 200)).filter RankedProcess.has_prev ∧
      (emitted oneCpu byAmount settled (busy 1200 200)).1.map Prod.snd = groups.flatMap (groupRecords oneCpu 100) ∧
      ProcessState.fetchData amountBrowser amountNumbers (fun _ => []) {}
          (pipeline_collect amountJson (Collect oneCpu byAmount settled (busy 1200 200)).2 (ascii "cpu_processes")) =
        ⟨groups.map (shownGroup amountFloats.isfinite amountBrowser amountNumbers oneCpu 100), none⟩ ∧
      (emitted oneCpu byAmount settled (busy 1200 200)).1.length = 2 := by
  have documented : amountJson.Documented amountFloats.isfinite := JsonText.library_documented JsonText.wholes_faithful
  obtain ⟨text, served⟩ := Option.isSome_iff_exists.mp (show (BatchToJson amountJson
    (Collect oneCpu byAmount settled (busy 1200 200)).2 (ascii "cpu_processes")).isSome = true by decide)
  have reads : amountBrowser.Reads amountJson amountFloats.isfinite := FlameGraph.asciiBrowser_reads
  obtain ⟨groups, kept, records, shown, -⟩ := processes_shown documented reads (fun _ _ => rfl) amountNumbers
    (fun _ => []) oneCpu byAmount settled (busy 1200 200) (ascii "cpu_processes") {}
  exact ⟨groups, kept, records, shown (utf8_document.mp (documented.dump_some.mp ⟨text, served⟩)), by decide⟩

end CpuMetrics

end Illuminator
