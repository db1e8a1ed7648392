import Illuminator.Soundness.ProcessTable

/-! # Utilization on the page

The page polls the utilization of the CPUs. What it shows is the last Collect that was answered with its records, core
by core, and its history has one entry for each such Collect with a total, of which the last ones are kept; a poll that
fails changes neither.
-/

namespace Illuminator

namespace CpuMetrics

open JsonValue JsonSerializer
open FlameGraph (Browser JsString literal property)
open CpuUtilization (CoreJiffies EmaState coreRecord emaAfter emitCores EmitSystemCounters EmitLoadAvg EmitRunQueue
  EmitCpuFrequency elapsed_sec resized deltaTotal)

variable {D : Type} {isfinite : D → Bool} {browser : Browser D} {numbers : Numbers D} {shows : Shows D}

/-! ## Values -/

/-- A `double` on the page. -/
def shownDouble (isfinite : D → Bool) (numbers : Numbers D) (d : D) : Value D :=
  .number (if isfinite d then d else numbers.zero)

/-- A `double` that is taken as it comes. -/
def shownAsIs (isfinite : D → Bool) (d : D) : Value D := if isfinite d then .number d else .other .null

theorem or0_double (d : D) : or0 numbers (some (fieldShown isfinite (.double d))) = shownDouble isfinite numbers d := by
  change or0 numbers (some (if isfinite d then .number_float d else .null)) = _
  unfold shownDouble
  cases isfinite d <;> rfl

theorem value_double (d : D) : value numbers (some (fieldShown isfinite (.double d))) = shownAsIs isfinite d := by
  change value numbers (some (if isfinite d then .number_float d else .null)) = _
  unfold shownAsIs
  cases isfinite d <;> rfl

/-- A record that is made with different fields shows them. -/
theorem record_lookup {fields : List (Bytes × FieldValue D)} (names : List Bytes) (labels : List Label)
    (same : fields.map Prod.fst = names) (distinct : names.Nodup) (key : Bytes) :
    (CpuUtilization.record labels fields).GetField key = fields.lookup key := by
  subst same
  cases found : fields.lookup key with
  | some value =>
    obtain ⟨first, later, rfl, -⟩ := List.lookup_eq_some_iff.mp found
    exact CpuUtilization.fields_of_mem distinct (List.mem_append_right _ List.mem_cons_self) _
  | none =>
    refine (CpuUtilization.fields_of_notMem (fun inside => ?_) _).trans rfl
    obtain ⟨entry, member, equal⟩ := List.mem_map.mp inside
    have differs := List.lookup_eq_none_iff.mp found entry member
    rw [equal, bne_self_eq_false] at differs
    cases differs

/-! ## Records of the system -/

/-- The type of a record of the source is read back. -/
theorem label_type (decodes : Decodes browser) {rec : Record D} {type : Bytes} {more : List Label}
    (labels : rec.labels = CpuUtilization.labelled type ++ more)
    (keys : more.map Label.key = [] ∨ more.map Label.key = [ascii "cpu"]) (clean : Ascii type) :
    label (normalizeLabels browser shows (property (ascii "labels") ((RecordToJson rec).reparsed isfinite))) "type" =
      type.map UInt8.toUInt16 := by
  have both : rec.labels.map Label.key = [ascii "source", ascii "type"] ∨
      rec.labels.map Label.key = [ascii "source", ascii "type", ascii "cpu"] := by
    rw [labels, List.map_append]
    rcases keys with none_ | cpu
    · rw [none_]
      exact Or.inl rfl
    · rw [cpu]
      exact Or.inr rfl
  have found : (normalizeLabels browser shows (property (ascii "labels") ((RecordToJson rec).reparsed isfinite))).lookup
      (literal "type") = ((rec.labels.map fun l => (l.key, l.value)).lookup (ascii "type")).map browser.decode := by
    rcases both with two | three
    · exact label_record isfinite shows decodes two (by decide) (by decide) (by decide) (by decide)
    · exact label_record isfinite shows decodes three (by decide) (by decide) (by decide) (by decide)
  rw [label, found, labels]
  exact decodes type clean

def shownLoadAvg (isfinite : D → Bool) (numbers : Numbers D) (la : CpuUtilization.LoadAvg D) : LoadAvg D where
  load_1m := shownDouble isfinite numbers la.load1
  load_5m := shownDouble isfinite numbers la.load5
  load_15m := shownDouble isfinite numbers la.load15

theorem takeUtilization_loadavg (decodes : Decodes browser) (result : CpuUtilizationData D)
    (la : CpuUtilization.LoadAvg D) :
    takeUtilization browser numbers shows result ((RecordToJson (EmitLoadAvg la)).reparsed isfinite) =
      some { result with loadavg := some (shownLoadAvg isfinite numbers la) } := by
  have type : label (normalizeLabels browser shows (property (ascii "labels")
      ((RecordToJson (EmitLoadAvg la)).reparsed isfinite))) "type" = literal "loadavg" :=
    (label_type decodes (CpuUtilization.record_labels _ _) (Or.inl rfl) (by decide)).trans (by decide)
  have fields (key : Bytes) : (EmitLoadAvg la).GetField key = List.lookup key _ :=
    record_lookup [ascii "load_1m", ascii "load_5m", ascii "load_15m"] _ rfl (by decide) key
  have averages : loadAvg numbers (fun key => ((EmitLoadAvg la).GetField key).map (fieldShown isfinite)) =
      shownLoadAvg isfinite numbers la := by
    simp only [loadAvg, fields]
    rw [shownLoadAvg, LoadAvg.mk.injEq]
    exact ⟨or0_double _, or0_double _, or0_double _⟩
  rw [takeUtilization, readRecord_record]
  change (if _ then _ else if _ then _ else if _ then _ else if _ then _ else _) = _
  rw [type, if_neg (by decide), if_neg (by decide), if_neg (by decide), if_pos rfl, averages]
  rfl

def shownRunQueue (numbers : Numbers D) (cur : CpuUtilization.CpuSnapshot) : RunQueue D where
  procs_running := .number (numbers.unsigned cur.procs_running.toUInt64)
  procs_blocked := .number (numbers.unsigned cur.procs_blocked.toUInt64)

theorem takeUtilization_runqueue (decodes : Decodes browser) (result : CpuUtilizationData D)
    (cur : CpuUtilization.CpuSnapshot) :
    takeUtilization browser numbers shows result ((RecordToJson (EmitRunQueue cur)).reparsed isfinite) =
      some { result with runqueue := some (shownRunQueue numbers cur) } := by
  have type : label (normalizeLabels browser shows (property (ascii "labels")
      ((RecordToJson (EmitRunQueue cur : Record D)).reparsed isfinite))) "type" = literal "runqueue" :=
    (label_type decodes (CpuUtilization.record_labels _ _) (Or.inl rfl) (by decide)).trans (by decide)
  have fields (key : Bytes) : (EmitRunQueue cur : Record D).GetField key = List.lookup key _ :=
    record_lookup [ascii "procs_running", ascii "procs_blocked"] _ rfl (by decide) key
  have queue : runQueue numbers (fun key => ((EmitRunQueue cur : Record D).GetField key).map (fieldShown isfinite)) =
      shownRunQueue numbers cur := by
    simp only [runQueue, fields]
    rfl
  rw [takeUtilization, readRecord_record]
  change (if _ then _ else if _ then _ else if _ then _ else if _ then _ else if _ then _ else _) = _
  rw [type, if_neg (by decide), if_neg (by decide), if_neg (by decide), if_neg (by decide), if_pos rfl, queue]
  rfl

/-- The page has no use for frequencies. -/
theorem takeUtilization_frequency (decodes : Decodes browser) (result : CpuUtilizationData D) {freqs : List D}
    {rec : Record D} (member : rec ∈ EmitCpuFrequency freqs) :
    takeUtilization browser numbers shows result ((RecordToJson rec).reparsed isfinite) = some result := by
  obtain ⟨i, inside, rfl⟩ := List.mem_mapIdx.mp member
  have type : label (normalizeLabels browser shows (property (ascii "labels") ((RecordToJson (CpuUtilization.record
      (CpuUtilization.labelled (ascii "cpu_freq") ++ [⟨ascii "cpu", ascii "cpu" ++ to_string i⟩])
      [(ascii "freq_mhz", .double freqs[i])])).reparsed isfinite))) "type" = literal "cpu_freq" :=
    (label_type decodes (CpuUtilization.record_labels _ _) (Or.inr rfl) (by decide)).trans (by decide)
  rw [takeUtilization, readRecord_record]
  change (if _ then _ else if _ then _ else if _ then _ else if _ then _ else if _ then _ else _) = _
  rw [type, if_neg (by decide), if_neg (by decide), if_neg (by decide), if_neg (by decide), if_neg (by decide)]
  rfl

theorem takeUtilization_frequencies (decodes : Decodes browser) (result : CpuUtilizationData D) {freqs : List D}
    {records : List (Record D)} (among : ∀ rec ∈ records, rec ∈ EmitCpuFrequency freqs) :
    (records.map fun rec => (RecordToJson rec).reparsed isfinite).foldlM (takeUtilization browser numbers shows) result =
      some result := by
  induction records with
  | nil => rfl
  | cons rec rest ih =>
    obtain ⟨first, others⟩ := List.forall_mem_cons.mp among
    rw [List.map_cons, List.foldlM_cons, takeUtilization_frequency decodes result first]
    exact ih others

/-! ## The page after a poll -/

/-- The page after a poll. -/
def after [Add D] (mixed : Value D → Value D → Value D) (page : UtilizationState D) (now : ℕ) :
    Except Failure (CpuUtilizationData D) → UtilizationState D
  | .ok data =>
    ⟨data, match data.total with
      | none => page.history
      | some total => addEntry page.history (historyEntry mixed now total), none⟩
  | .error failure => { page with error := some failure }

theorem addEntry_eq (prev : List (HistoryEntry D)) (entry : HistoryEntry D) :
    addEntry prev entry = (prev ++ [entry]).rtake MAX_HISTORY := by
  unfold addEntry
  dsimp only
  split_ifs with long
  · rfl
  · rw [List.rtake, Nat.sub_eq_zero_of_le (Nat.not_lt.mp long), List.drop_zero]

/-- The entry that a poll makes for the history. -/
def entry? [Add D] (mixed : Value D → Value D → Value D) (now : ℕ) :
    Except Failure (CpuUtilizationData D) → Option (HistoryEntry D)
  | .ok data => data.total.map (historyEntry mixed now)
  | .error _ => none

def failure? : Except Failure (CpuUtilizationData D) → Option Failure
  | .ok _ => none
  | .error failure => some failure

section

variable [Add D] [Sub D] [Mul D] [Div D] [NatCast D] [LT D] [DecidableLT D]

/-! ## Cores -/

/-- A core that a Collect emits, with what stood at its place before and its average. -/
structure Core (D : Type) where
  cur : CoreJiffies
  prev : CoreJiffies
  ema : EmaState D

/-- The share of a counter. -/
def Core.pct (core : Core D) (counter : CoreJiffies → UInt64) : D :=
  CpuUtilization.pct (deltaTotal core.cur core.prev) (counter core.cur) (counter core.prev)

/-- The cores that a Collect emits. -/
def emittedCores (config : CpuUtilization.Config D) : List CoreJiffies → List CoreJiffies → List (EmaState D) →
    List (Core D)
  | c :: cur, p :: prev, ema :: rest =>
    if CpuUtilization.shown config c p then ⟨c, p, emaAfter config c p ema⟩ :: emittedCores config cur prev rest
    else emittedCores config cur prev rest
  | _, _, _ => []

theorem emitCores_records (config : CpuUtilization.Config D) (cur prev : List CoreJiffies) (ema : List (EmaState D)) :
    (emitCores config cur prev ema).1 =
      (emittedCores config cur prev ema).map fun core => coreRecord config core.cur core.prev core.ema := by
  fun_induction emittedCores config cur prev ema with
  | case1 c cur p prev ema rest shown ih =>
    rw [emitCores, if_pos shown, List.map_cons, ← ih]
  | case2 c cur p prev ema rest hidden ih =>
    rw [emitCores, if_neg hidden, ← ih]
  | case3 cur prev ema none_ =>
    rw [emitCores, List.map_nil]
    exact none_

/-- Every core that is shown is emitted. -/
theorem emittedCores_pairs (config : CpuUtilization.Config D) (cur prev : List CoreJiffies) {ema : List (EmaState D)}
    (enough : cur.length ≤ ema.length) : (emittedCores config cur prev ema).map (fun core => (core.cur, core.prev)) =
      (cur.zip prev).filter fun pair => CpuUtilization.shown config pair.1 pair.2 := by
  fun_induction emittedCores config cur prev ema with
  | case1 c cur p prev ema rest shown ih =>
    rw [List.map_cons, List.zip_cons_cons, List.filter_cons_of_pos (by exact shown), ih (Nat.le_of_succ_le_succ enough)]
  | case2 c cur p prev ema rest hidden ih =>
    rw [List.zip_cons_cons, List.filter_cons_of_neg (by exact hidden), ih (Nat.le_of_succ_le_succ enough)]
  | case3 cur prev ema none_ =>
    cases cur with
    | nil => rfl
    | cons c cur =>
      cases prev with
      | nil => rfl
      | cons p prev =>
        cases ema with
        | nil => exact absurd enough (Nat.not_succ_le_zero _)
        | cons ema rest => exact absurd rfl (none_ c cur p prev ema rest rfl rfl)

/-- A core on the page. -/
def shownCore (isfinite : D → Bool) (browser : Browser D) (numbers : Numbers D) (config : CpuUtilization.Config D)
    (core : Core D) : CpuCoreMetrics D where
  cpu := browser.decode core.cur.name
  type := if core.cur.name = ascii "cpu" then literal "cpu_total" else literal "cpu_core"
  user_pct := shownDouble isfinite numbers (core.pct CoreJiffies.user)
  system_pct := shownDouble isfinite numbers (core.pct CoreJiffies.system)
  nice_pct := shownDouble isfinite numbers (core.pct CoreJiffies.nice)
  idle_pct := shownDouble isfinite numbers (core.pct CoreJiffies.idle)
  iowait_pct := shownDouble isfinite numbers (core.pct CoreJiffies.iowait)
  irq_pct := shownDouble isfinite numbers (core.pct CoreJiffies.irq)
  softirq_pct := shownDouble isfinite numbers (core.pct CoreJiffies.softirq)
  steal_pct := shownDouble isfinite numbers (core.pct CoreJiffies.steal)
  busy_pct := shownDouble isfinite numbers (core.pct CoreJiffies.Busy)
  user_pct_ema := if ((0 : ℕ) : D) < config.ema_alpha_ then shownAsIs isfinite core.ema.user else .undefined
  system_pct_ema := if ((0 : ℕ) : D) < config.ema_alpha_ then shownAsIs isfinite core.ema.system else .undefined
  busy_pct_ema := if ((0 : ℕ) : D) < config.ema_alpha_ then shownAsIs isfinite core.ema.busy else .undefined

/-- The result with a core more. -/
def withCore (result : CpuUtilizationData D) (core : CpuCoreMetrics D) (total : Prop) [Decidable total] :
    CpuUtilizationData D :=
  if total then { result with total := some core } else { result with cores := result.cores ++ [core] }

/-- The shares of a core, and its averages where there are any. -/
def coreFields (config : CpuUtilization.Config D) (core : Core D) : List (Bytes × FieldValue D) :=
  [(ascii "user_pct", .double (core.pct CoreJiffies.user)), (ascii "nice_pct", .double (core.pct CoreJiffies.nice)),
    (ascii "system_pct", .double (core.pct CoreJiffies.system)), (ascii "idle_pct", .double (core.pct CoreJiffies.idle)),
    (ascii "iowait_pct", .double (core.pct CoreJiffies.iowait)), (ascii "irq_pct", .double (core.pct CoreJiffies.irq)),
    (ascii "softirq_pct", .double (core.pct CoreJiffies.softirq)),
    (ascii "steal_pct", .double (core.pct CoreJiffies.steal)), (ascii "busy_pct", .double (core.pct CoreJiffies.Busy))] ++
  if ((0 : ℕ) : D) < config.ema_alpha_ then
    [(ascii "user_pct_ema", .double core.ema.user), (ascii "system_pct_ema", .double core.ema.system),
      (ascii "busy_pct_ema", .double core.ema.busy)]
  else []

omit [Add D] [Sub D] in
theorem coreRecord_fields (config : CpuUtilization.Config D) (core : Core D) (key : Bytes) :
    (coreRecord config core.cur core.prev core.ema).GetField key = (coreFields config core).lookup key := by
  by_cases smooth : ((0 : ℕ) : D) < config.ema_alpha_
  · refine record_lookup (CpuUtilization.pctFields ++ CpuUtilization.averages.map Prod.fst) _ ?_ (by decide) key
    rw [if_pos smooth]
    rfl
  · refine record_lookup CpuUtilization.pctFields _ ?_ (by decide) key
    rw [if_neg smooth]
    rfl

omit [Add D] [Sub D] in
theorem takeUtilization_core (decodes : Decodes browser) (result : CpuUtilizationData D)
    (config : CpuUtilization.Config D) (core : Core D) :
    takeUtilization browser numbers shows result
        ((RecordToJson (coreRecord config core.cur core.prev core.ema)).reparsed isfinite) =
      some (withCore result (shownCore isfinite browser numbers config core) (core.cur.name = ascii "cpu")) := by
  have labels : (coreRecord config core.cur core.prev core.ema).labels = [⟨ascii "source", ascii "cpu_utilization"⟩,
      ⟨ascii "type", if core.cur.name = ascii "cpu" then ascii "cpu_total" else ascii "cpu_core"⟩,
      ⟨ascii "cpu", core.cur.name⟩] := CpuUtilization.record_labels _ _
  have keys : (coreRecord config core.cur core.prev core.ema).labels.map Label.key =
      [ascii "source", ascii "type", ascii "cpu"] := by
    rw [labels]
    rfl
  have named {name : String} (clean : Ascii (ascii name)) (narrow : literal name = (ascii name).map UInt8.toUInt16) :=
    label_record isfinite shows decodes keys (by decide) (by decide) clean narrow
  have type := @named "type" (by decide) (by decide)
  have cpu := @named "cpu" (by decide) (by decide)
  rw [labels] at type cpu
  have kind : label (normalizeLabels browser shows (property (ascii "labels")
      ((RecordToJson (coreRecord config core.cur core.prev core.ema)).reparsed isfinite))) "type" =
        if core.cur.name = ascii "cpu" then literal "cpu_total" else literal "cpu_core" := by
    rw [label, type]
    split_ifs
    · exact decodes _ (by decide)
    · exact decodes _ (by decide)
  have metrics : coreMetrics numbers (normalizeLabels browser shows (property (ascii "labels")
      ((RecordToJson (coreRecord config core.cur core.prev core.ema)).reparsed isfinite)))
      (fun key => ((coreRecord config core.cur core.prev core.ema).GetField key).map (fieldShown isfinite)) =
        shownCore isfinite browser numbers config core := by
    have found {key : Bytes} {d : D} (here : (coreFields config core).lookup key = some (.double d)) :
        or0 numbers (((coreRecord config core.cur core.prev core.ema).GetField key).map (fieldShown isfinite)) =
          shownDouble isfinite numbers d := by
      rw [coreRecord_fields, here, Option.map_some, or0_double]
    have smoothed {key : Bytes} {d : D}
        (here : (coreFields config core).lookup key =
          if ((0 : ℕ) : D) < config.ema_alpha_ then some (.double d) else none) :
        value numbers (((coreRecord config core.cur core.prev core.ema).GetField key).map (fieldShown isfinite)) =
          if ((0 : ℕ) : D) < config.ema_alpha_ then shownAsIs isfinite d else .undefined := by
      rw [coreRecord_fields, here]
      split_ifs
      · rw [Option.map_some, value_double]
      · rfl
    have average {key : Bytes} {d : D} (past : key ∉ CpuUtilization.pctFields)
        (here : ([(ascii "user_pct_ema", FieldValue.double core.ema.user),
          (ascii "system_pct_ema", .double core.ema.system), (ascii "busy_pct_ema", .double core.ema.busy)] : List (Bytes × FieldValue D)).lookup key = some (.double d)) :
        (coreFields config core).lookup key = if ((0 : ℕ) : D) < config.ema_alpha_ then some (.double d) else none := by
      rw [coreFields, List.lookup_append, List.lookup_eq_none_iff.mpr, Option.none_or]
      · split_ifs
        · exact here
        · rfl
      · intro entry member
        refine bne_iff_ne.mpr fun same => past ?_
        rw [same]
        exact List.mem_map_of_mem (f := Prod.fst) member
    rw [coreMetrics, shownCore, CpuCoreMetrics.mk.injEq]
    refine ⟨?_, kind, found rfl, found rfl, found rfl, found rfl, found rfl, found rfl, found rfl, found rfl, found rfl,
      smoothed (average (by decide) rfl), smoothed (average (by decide) rfl), smoothed (average (by decide) rfl)⟩
    rw [label, cpu]
    rfl
  rw [takeUtilization, readRecord_record]
  change (if _ then _ else if _ then _ else _) = _
  rw [metrics, kind]
  unfold withCore
  by_cases total : core.cur.name = ascii "cpu"
  · rw [if_pos total, if_pos rfl, if_pos total]
    rfl
  · have other : literal "cpu_core" ≠ literal "cpu_total" := by decide
    rw [if_neg total, if_neg other, if_pos rfl, if_neg total]
    rfl

def shownCounters (isfinite : D → Bool) (numbers : Numbers D) (config : CpuUtilization.Config D)
    (s : CpuUtilization.Shared D) (cur : CpuUtilization.CpuSnapshot) : SystemCounters D where
  context_switches_per_sec :=
    shownDouble isfinite numbers (((cur.ctxt - s.prev_.ctxt).toNat : D) / elapsed_sec config)
  interrupts_per_sec := shownDouble isfinite numbers (((cur.intr - s.prev_.intr).toNat : D) / elapsed_sec config)

omit [Add D] [Sub D] [Mul D] in
theorem takeUtilization_counters (decodes : Decodes browser) (result : CpuUtilizationData D)
    (config : CpuUtilization.Config D) (s : CpuUtilization.Shared D) (cur : CpuUtilization.CpuSnapshot) :
    takeUtilization browser numbers shows result ((RecordToJson (EmitSystemCounters config s cur)).reparsed isfinite) =
      some { result with counters := some (shownCounters isfinite numbers config s cur) } := by
  have type : label (normalizeLabels browser shows (property (ascii "labels")
      ((RecordToJson (EmitSystemCounters config s cur)).reparsed isfinite))) "type" = literal "system_counters" :=
    (label_type decodes (CpuUtilization.record_labels _ _) (Or.inl rfl) (by decide)).trans (by decide)
  have fields (key : Bytes) : (EmitSystemCounters config s cur).GetField key = List.lookup key _ :=
    record_lookup [ascii "context_switches_per_sec", ascii "interrupts_per_sec"] _ rfl (by decide) key
  have counters : systemCounters numbers
      (fun key => ((EmitSystemCounters config s cur).GetField key).map (fieldShown isfinite)) =
        shownCounters isfinite numbers config s cur := by
    simp only [systemCounters, fields]
    exact congrArg₂ SystemCounters.mk (or0_double _) (or0_double _)
  rw [takeUtilization, readRecord_record]
  change (if _ then _ else if _ then _ else if _ then _ else _) = _
  rw [type, if_neg (by decide), if_neg (by decide), if_pos rfl, counters]
  rfl

/-! ## A Collect -/

omit [Add D] [Sub D] in
theorem takeUtilization_cores (decodes : Decodes browser) (config : CpuUtilization.Config D) (cores : List (Core D))
    (result : CpuUtilizationData D) :
    ((cores.map fun core => coreRecord config core.cur core.prev core.ema).map
        fun rec => (RecordToJson rec).reparsed isfinite).foldlM (takeUtilization browser numbers shows) result =
      some { result with
        cores := result.cores ++
          (cores.filter fun core => core.cur.name ≠ ascii "cpu").map (shownCore isfinite browser numbers config)
        total := (((cores.filter fun core => core.cur.name = ascii "cpu").map
          (shownCore isfinite browser numbers config)).getLast?).or result.total } := by
  induction cores generalizing result with
  | nil => simp
  | cons core rest ih =>
    rw [List.map_cons, List.map_cons, List.foldlM_cons, takeUtilization_core decodes]
    change List.foldlM _ _ _ = _
    rw [ih]
    unfold withCore
    by_cases total : core.cur.name = ascii "cpu"
    · rw [if_pos total, List.filter_cons_of_neg (by simpa using total), List.filter_cons_of_pos (by simpa using total),
        List.map_cons, List.getLast?_cons]
      generalize ((rest.filter fun core => core.cur.name = ascii "cpu").map
        (shownCore isfinite browser numbers config)).getLast? = last
      cases last <;> rfl
    · rw [if_neg total, List.filter_cons_of_pos (by simpa using total), List.filter_cons_of_neg (by simpa using total),
        List.map_cons, List.append_assoc, List.singleton_append]

/-- The cores that a Collect emits: none at the first. -/
def coresOf (config : CpuUtilization.Config D) (s : CpuUtilization.Shared D) (read : CpuUtilization.Readings D) :
    List (Core D) :=
  if s.has_prev_ then
    emittedCores config read.cur.cores s.prev_.cores (resized s.ema_states_ read.cur.cores.length)
  else []

theorem coresOf_pairs (config : CpuUtilization.Config D) {s : CpuUtilization.Shared D}
    (read : CpuUtilization.Readings D) (has_prev_ : s.has_prev_ = true) :
    (coresOf config s read).map (fun core => (core.cur, core.prev)) =
      (read.cur.cores.zip s.prev_.cores).filter fun pair => CpuUtilization.shown config pair.1 pair.2 := by
  rw [coresOf, if_pos has_prev_]
  refine emittedCores_pairs config _ _ ?_
  rw [resized, List.length_append, List.length_replicate]
  omega

/-- What the page shows of a Collect. -/
def shownData (isfinite : D → Bool) (browser : Browser D) (numbers : Numbers D) (config : CpuUtilization.Config D)
    (s : CpuUtilization.Shared D) (read : CpuUtilization.Readings D) : CpuUtilizationData D where
  cores := ((coresOf config s read).filter fun core => core.cur.name ≠ ascii "cpu").map
    (shownCore isfinite browser numbers config)
  total := (((coresOf config s read).filter fun core => core.cur.name = ascii "cpu").map
    (shownCore isfinite browser numbers config)).getLast?
  counters := if s.has_prev_ then some (shownCounters isfinite numbers config s read.cur) else none
  loadavg := some (shownLoadAvg isfinite numbers read.la)
  runqueue := some (shownRunQueue numbers read.cur)

/-- The clock does not show in the document. -/
theorem records_utilization (config : CpuUtilization.Config D) (s : CpuUtilization.Shared D)
    (read : CpuUtilization.Readings D) :
    ((CpuUtilization.Collect config s read).2.records.map fun rec => (RecordToJson rec).reparsed isfinite) =
      ((CpuUtilization.emitted config s read.cur).1 ++ [EmitLoadAvg read.la, EmitRunQueue read.cur] ++
        if config.collect_freq_ then EmitCpuFrequency read.freqs else []).map
          fun rec => (RecordToJson rec).reparsed isfinite := by
  refine List.ext_getElem? fun i => ?_
  rw [CpuUtilization.Collect, List.getElem?_map, List.getElem?_mapIdx, List.getElem?_map, Option.map_map]
  rfl

theorem takeUtilization_collect (decodes : Decodes browser) (config : CpuUtilization.Config D)
    (s : CpuUtilization.Shared D) (read : CpuUtilization.Readings D) :
    ((CpuUtilization.Collect config s read).2.records.map fun rec => (RecordToJson rec).reparsed isfinite).foldlM
      (takeUtilization browser numbers shows) {} = some (shownData isfinite browser numbers config s read) := by
  have counted : ((CpuUtilization.emitted config s read.cur).1.map fun rec => (RecordToJson rec).reparsed isfinite).foldlM
      (takeUtilization browser numbers shows) {} =
        some { shownData isfinite browser numbers config s read with loadavg := none, runqueue := none } := by
    unfold CpuUtilization.emitted shownData coresOf
    cases s.has_prev_ with
    | false => rfl
    | true =>
      rw [if_pos rfl, if_pos rfl, if_pos rfl, CpuUtilization.EmitCpuUtilization, List.map_append, List.foldlM_append,
        emitCores_records, takeUtilization_cores decodes]
      change List.foldlM (takeUtilization browser numbers shows) _ [_] = _
      rw [List.foldlM_cons, takeUtilization_counters decodes]
      change some _ = some _
      rw [Option.or_none, List.nil_append]
  have frequencies (result : CpuUtilizationData D) :
      ((if config.collect_freq_ then EmitCpuFrequency read.freqs else []).map fun rec => (RecordToJson rec).reparsed isfinite).foldlM (takeUtilization browser numbers shows) result =
        some result := by
    split_ifs
    · exact takeUtilization_frequencies decodes result fun rec member => member
    · rfl
  rw [records_utilization, List.map_append, List.map_append, List.foldlM_append, List.foldlM_append, counted]
  change Option.bind (List.foldlM (takeUtilization browser numbers shows) _ [_, _]) _ = _
  rw [List.foldlM_cons, takeUtilization_loadavg decodes]
  change Option.bind (List.foldlM (takeUtilization browser numbers shows) _ [_]) _ = _
  rw [List.foldlM_cons, takeUtilization_runqueue decodes]
  exact frequencies _

/-! ## Polls -/

/-- What a poll meets: a Collect of the source, whatever came before it, a status that is no success, or no answer. -/
inductive Poll (D : Type) where
  | collect (config : CpuUtilization.Config D) (s : CpuUtilization.Shared D) (read : CpuUtilization.Readings D)
  | refused (status : ℕ) (body : Bytes) (failed : ¬ (200 ≤ status ∧ status ≤ 299))
  | lost

def Poll.answer (json : Library D) (pipeline_name : Bytes) : Poll D → Answer
  | .collect config s read => pipeline_collect json (CpuUtilization.Collect config s read).2 pipeline_name
  | .refused status body _ => .response status body
  | .lost => .none

open Classical in
/-- What a poll brings to the page, or why it fails: the names of a Collect may not be UTF-8. -/
noncomputable def Poll.outcome (isfinite : D → Bool) (browser : Browser D) (numbers : Numbers D) (pipeline_name : Bytes) :
    Poll D → Except Failure (CpuUtilizationData D)
  | .collect config s read =>
    if Readable (CpuUtilization.Collect config s read).2 pipeline_name then
      .ok (shownData isfinite browser numbers config s read)
    else .error (.http 500)
  | .refused status _ _ => .error (.http status)
  | .lost => .error .network

theorem fetchData_poll {json : Library D} (documented : json.Documented isfinite) (reads : browser.Reads json isfinite)
    (decodes : Decodes browser) (numbers : Numbers D) (shows : Shows D) (mixed : Value D → Value D → Value D)
    (pipeline_name : Bytes) (page : UtilizationState D) (now : ℕ) (poll : Poll D) :
    page.fetchData browser numbers shows mixed now (poll.answer json pipeline_name) =
      after mixed page now (poll.outcome isfinite browser numbers pipeline_name) := by
  cases poll with
  | collect config s read =>
    by_cases readable : Readable (CpuUtilization.Collect config s read).2 pipeline_name
    · obtain ⟨text, dumped⟩ := documented.dump_some.mpr (utf8_document.mpr readable)
      have parsed := reads _ text (ordered_document _ pipeline_name) dumped
      have served : Poll.answer json pipeline_name (.collect config s read) = .response 200 (text ++ [0x0A]) := by
        rw [Poll.answer, pipeline_collect, BatchToJson, dumped]
      have body : CpuMetrics.json browser (.response 200 (text ++ [0x0A])) =
          .ok ((batchDocument (CpuUtilization.Collect config s read).2 pipeline_name).reparsed isfinite) := by
        rw [CpuMetrics.json, if_pos (by decide), parsed]
      have shown : parseUtilizationResponse browser numbers shows
          ((batchDocument (CpuUtilization.Collect config s read).2 pipeline_name).reparsed isfinite) =
            some (shownData isfinite browser numbers config s read) := by
        rw [parseUtilizationResponse, recordsOf, records_batch]
        exact takeUtilization_collect decodes config s read
      rw [served, UtilizationState.fetchData, body, Poll.outcome, if_pos readable]
      simp only [shown]
      rfl
    · have thrown : json.dump (batchDocument (CpuUtilization.Collect config s read).2 pipeline_name) = none := by
        rw [← Option.not_isSome_iff_eq_none, Option.isSome_iff_exists]
        exact fun dumped => readable (utf8_document.mp (documented.dump_some.mp dumped))
      have served : Poll.answer json pipeline_name (.collect config s read) = .response 500 [] := by
        rw [Poll.answer, pipeline_collect, BatchToJson, thrown]
      rw [served, Poll.outcome, if_neg readable]
      rfl
  | refused status body failed =>
    have error : CpuMetrics.json browser (.response status body) = .error (.http status) := by
      rw [CpuMetrics.json, if_neg failed]
    rw [Poll.answer, UtilizationState.fetchData, error]
    rfl
  | lost => rfl

/-- **The utilization page.** After any polls, of which each is answered with a Collect or fails: the page shows the
last Collect that came through, its history the last 900 of those with a total, and the error is that of the last
poll. The cores of a Collect after the first are those that stand at their places in both readings. -/
theorem utilization_shown {json : Library D} (documented : json.Documented isfinite) (reads : browser.Reads json isfinite)
    (decodes : Decodes browser) (numbers : Numbers D) (shows : Shows D) (mixed : Value D → Value D → Value D)
    (pipeline_name : Bytes) (polls : List (ℕ × Poll D)) :
    let outcome := Poll.outcome isfinite browser numbers pipeline_name
    let page := polls.foldl (fun page poll =>
      UtilizationState.fetchData browser numbers shows mixed page poll.1 (poll.2.answer json pipeline_name)) {}
    page.data = ((polls.filterMap fun poll => (outcome poll.2).toOption).getLast?).getD {} ∧
      page.history = (polls.filterMap fun poll => entry? mixed poll.1 (outcome poll.2)).rtake MAX_HISTORY ∧
      page.error = (polls.getLast?.bind fun poll => failure? (outcome poll.2)) ∧
      ∀ (config : CpuUtilization.Config D) (s : CpuUtilization.Shared D) (read : CpuUtilization.Readings D),
        s.has_prev_ = true → (coresOf config s read).map (fun core => (core.cur, core.prev)) =
          (read.cur.cores.zip s.prev_.cores).filter fun pair => CpuUtilization.shown config pair.1 pair.2 := by
  intro outcome page
  suffices holds : page.data = ((polls.filterMap fun poll => (outcome poll.2).toOption).getLast?).getD {} ∧
      page.history = (polls.filterMap fun poll => entry? mixed poll.1 (outcome poll.2)).rtake MAX_HISTORY ∧
      page.error = polls.getLast?.bind fun poll => failure? (outcome poll.2) from
    ⟨holds.1, holds.2.1, holds.2.2, fun config s read has_prev_ => coresOf_pairs config read has_prev_⟩
  induction polls using List.reverseRecOn with
  | nil => exact ⟨rfl, (List.rtake_nil _).symm, rfl⟩
  | append_singleton before poll ih =>
    obtain ⟨data, history, error⟩ := ih
    have next : page = after mixed (before.foldl (fun page poll =>
        UtilizationState.fetchData browser numbers shows mixed page poll.1 (poll.2.answer json pipeline_name)) {}) poll.1
          (outcome poll.2) := by
      rw [← fetchData_poll documented reads decodes numbers shows mixed pipeline_name]
      exact List.foldl_concat ..
    rw [next, List.filterMap_append, List.filterMap_append, List.getLast?_append, List.getLast?_append]
    cases came : outcome poll.2 with
    | ok shown =>
      refine ⟨?_, ?_, ?_⟩
      · simp only [List.filterMap_cons, came, Except.toOption, List.filterMap_nil, List.getLast?_singleton, Option.some_or,
          Option.getD_some, after]
      · cases total : shown.total with
        | none =>
          simp only [List.filterMap_cons, came, entry?, total, Option.map_none, List.filterMap_nil, List.append_nil,
            after]
          exact history
        | some core =>
          have own : entry? mixed poll.1 (outcome poll.2) = some (historyEntry mixed poll.1 core) := by
            rw [came, entry?, total, Option.map_some]
          simp only [List.filterMap_cons, own, List.filterMap_nil, after, total]
          rw [addEntry_eq, history, List.rtake_append_rtake]
      · simp only [List.getLast?_singleton, Option.some_or, Option.bind_some, came, failure?, after]
    | error failure =>
      refine ⟨?_, ?_, ?_⟩
      · simp only [List.filterMap_cons, came, Except.toOption, List.filterMap_nil, List.getLast?_nil, Option.none_or,
          after]
        exact data
      · simp only [List.filterMap_cons, came, entry?, List.filterMap_nil, List.append_nil, after]
        exact history
      · simp only [List.getLast?_singleton, Option.some_or, Option.bind_some, came, failure?, after]

end

/-! ## A poll that comes through and one that is lost -/

instance : Sub Amount := ⟨Amount.lift (· - ·)⟩

def unsmoothed : CpuUtilization.Config Amount := { ema_alpha_ := ((0 : ℕ) : Amount) }

def ticks (user idle : UInt64) : CpuUtilization.Readings Amount where
  cur := { cores := [{ name := ascii "cpu", user, idle }] }
  la := ⟨((0 : ℕ) : Amount), ((0 : ℕ) : Amount), ((0 : ℕ) : Amount)⟩
  freqs := []
  now := fun _ => 0

def ticked : CpuUtilization.Shared Amount :=
  (CpuUtilization.Collect unsmoothed (CpuUtilization.Init (ticks 0 0).cur) (ticks 100 100)).1

def onePoll : List (ℕ × Poll Amount) := [(1000, .collect unsmoothed ticked (ticks 130 170)), (2000, .lost)]

theorem utilization_shown_ticks :
    let page := onePoll.foldl (fun page poll => UtilizationState.fetchData amountBrowser amountNumbers (fun _ => [])
      (fun a _ => a) page poll.1 (poll.2.answer amountJson (ascii "cpu_utilization"))) {}
    page.history.length = 1 ∧ page.error = some .network := by
  intro page
  have documented : amountJson.Documented amountFloats.isfinite := JsonText.library_documented JsonText.wholes_faithful
  have reads : amountBrowser.Reads amountJson amountFloats.isfinite := FlameGraph.asciiBrowser_reads
  obtain ⟨text, served⟩ := Option.isSome_iff_exists.mp (show (BatchToJson amountJson
    (CpuUtilization.Collect unsmoothed ticked (ticks 130 170)).2 (ascii "cpu_utilization")).isSome = true by decide)
  have readable := utf8_document.mp (documented.dump_some.mp ⟨text, served⟩)
  obtain ⟨-, history, error, -⟩ := utilization_shown documented reads (fun _ _ => rfl) amountNumbers (fun _ => [])
    (fun a _ => a) (ascii "cpu_utilization") onePoll
  refine ⟨?_, error⟩
  have first : Poll.outcome amountFloats.isfinite amountBrowser amountNumbers (ascii "cpu_utilization")
      (.collect unsmoothed ticked (ticks 130 170)) =
        .ok (shownData amountFloats.isfinite amountBrowser amountNumbers unsmoothed ticked (ticks 130 170)) :=
    if_pos readable
  rw [history, onePoll, List.filterMap_cons, first]
  rfl

end CpuMetrics

end Illuminator
