import Illuminator.Soundness.CpuShares

/-! # CPU averages

A position in `/proc/stat` has one average, which every share emitted there goes into. While a position shows
one core only, the average of the core is a mean of the shares emitted for it.
-/

namespace Illuminator

namespace CpuUtilization

variable {config : Config ℚ}

/-! ## The loop over the cores -/

/-- The loop emits a record for the core at a position, whose average was `ema`. -/
structure Emits (config : Config ℚ) (cur prev : List CoreJiffies) (emas : List (EmaState ℚ)) (i : ℕ)
    (c p : CoreJiffies) (ema : EmaState ℚ) : Prop where
  now : cur[i]? = some c
  before : prev[i]? = some p
  average : emas[i]? = some ema
  shown : shown config c p = true

variable {cur prev : List CoreJiffies} {emas : List (EmaState ℚ)} {i : ℕ} {c p : CoreJiffies} {ema : EmaState ℚ}

theorem emitCores_record {rec : Record ℚ} (member : rec ∈ (emitCores config cur prev emas).1) :
    ∃ i c p ema, Emits config cur prev emas i c p ema ∧ rec = coreRecord config c p (emaAfter config c p ema) := by
  fun_induction emitCores config cur prev emas with
  | case1 c cur p prev ema rest later shown ih =>
    rcases List.mem_cons.mp member with rfl | below
    · exact ⟨0, c, p, ema, ⟨rfl, rfl, rfl, shown⟩, rfl⟩
    · obtain ⟨i, c, p, ema, emits, same⟩ := ih below
      exact ⟨i + 1, c, p, ema, ⟨emits.now, emits.before, emits.average, emits.shown⟩, same⟩
  | case2 c cur p prev ema rest later hidden ih =>
    obtain ⟨i, c, p, ema, emits, same⟩ := ih member
    exact ⟨i + 1, c, p, ema, ⟨emits.now, emits.before, emits.average, emits.shown⟩, same⟩
  | case3 => exact absurd member List.not_mem_nil

theorem emitCores_emits (emits : Emits config cur prev emas i c p ema) :
    coreRecord config c p (emaAfter config c p ema) ∈ (emitCores config cur prev emas).1 ∧
      (emitCores config cur prev emas).2[i]? = some (emaAfter config c p ema) := by
  revert i
  fun_induction emitCores config cur prev emas with
  | case1 c' cur p' prev ema' rest later shown =>
    rename_i ih
    intro i emits
    cases i with
    | zero =>
      obtain ⟨now, before, average, -⟩ := emits
      cases now
      cases before
      cases average
      exact ⟨List.mem_cons_self .., rfl⟩
    | succ i =>
      obtain ⟨listed, kept⟩ := ih ⟨emits.now, emits.before, emits.average, emits.shown⟩
      exact ⟨List.mem_cons_of_mem _ listed, kept⟩
  | case2 c' cur p' prev ema' rest later hidden =>
    rename_i ih
    intro i emits
    cases i with
    | zero =>
      obtain ⟨now, before, average, shown⟩ := emits
      cases now
      cases before
      exact absurd shown hidden
    | succ i => exact ih ⟨emits.now, emits.before, emits.average, emits.shown⟩
  | case3 cur prev emas short =>
    intro i emits
    obtain ⟨now, before, average, -⟩ := emits
    cases cur with
    | nil => exact absurd now.symm (Option.some_ne_none _)
    | cons first cur =>
      cases prev with
      | nil => exact absurd before.symm (Option.some_ne_none _)
      | cons second prev =>
        cases emas with
        | nil => exact absurd average.symm (Option.some_ne_none _)
        | cons third emas => exact absurd rfl (short first cur second prev third emas rfl rfl)

theorem emitCores_average {later : EmaState ℚ} (kept : (emitCores config cur prev emas).2[i]? = some later) :
    emas[i]? = some later ∨
      ∃ c p ema, Emits config cur prev emas i c p ema ∧ later = emaAfter config c p ema := by
  revert i
  fun_induction emitCores config cur prev emas with
  | case1 c cur p prev ema rest _ shown =>
    rename_i ih
    intro i kept
    cases i with
    | zero =>
      cases kept
      exact Or.inr ⟨c, p, ema, ⟨rfl, rfl, rfl, shown⟩, rfl⟩
    | succ i =>
      rcases ih kept with same | ⟨c, p, ema, emits, same⟩
      · exact Or.inl same
      · exact Or.inr ⟨c, p, ema, ⟨emits.now, emits.before, emits.average, emits.shown⟩, same⟩
  | case2 c cur p prev ema rest _ hidden =>
    rename_i ih
    intro i kept
    cases i with
    | zero => exact Or.inl kept
    | succ i =>
      rcases ih kept with same | ⟨c, p, ema, emits, same⟩
      · exact Or.inl same
      · exact Or.inr ⟨c, p, ema, ⟨emits.now, emits.before, emits.average, emits.shown⟩, same⟩
  | case3 => exact fun kept => Or.inl kept

/-- The records are those of the shown cores, in their order. -/
theorem emitCores_pairs {pair : CoreJiffies × CoreJiffies} (enough : cur.length ≤ emas.length)
    (found : ((cur.zip prev).filter fun pair => shown config pair.1 pair.2)[i]? = some pair) :
    ∃ ema, (emitCores config cur prev emas).1[i]? = some (coreRecord config pair.1 pair.2 ema) := by
  revert i
  fun_induction emitCores config cur prev emas with
  | case1 c cur p prev ema rest _ shown ih =>
    intro i found
    rw [List.zip_cons_cons, List.filter_cons, if_pos shown] at found
    cases i with
    | zero =>
      cases found
      exact ⟨_, rfl⟩
    | succ i => exact ih (Nat.le_of_succ_le_succ enough) found
  | case2 c cur p prev ema rest _ hidden ih =>
    intro i found
    rw [List.zip_cons_cons, List.filter_cons, if_neg hidden] at found
    exact ih (Nat.le_of_succ_le_succ enough) found
  | case3 cur prev emas short =>
    intro i found
    cases cur with
    | nil => exact absurd found.symm (Option.some_ne_none _)
    | cons first cur =>
      cases prev with
      | nil => exact absurd found.symm (Option.some_ne_none _)
      | cons second prev =>
        cases emas with
        | nil => exact absurd enough (Nat.not_succ_le_zero _)
        | cons third emas => exact absurd rfl (short first cur second prev third emas rfl rfl)

/-! ## One Collect -/

variable {s : Shared ℚ} {read : Readings ℚ}

/-- The cores that a Collect shows, each with its line in the snapshot before. -/
def cores (config : Config ℚ) (s : Shared ℚ) (read : Readings ℚ) : List (CoreJiffies × CoreJiffies) :=
  if s.has_prev_ then (read.cur.cores.zip s.prev_.cores).filter fun pair => shown config pair.1 pair.2 else []

/-- The shares of every core whose total has increased are percentages. -/
def SharesHold (config : Config ℚ) (s : Shared ℚ) (read : Readings ℚ) : Prop :=
  ∀ entry ∈ (cores config s read).zip (Collect config s read).2.records,
    entry.1.2.Total < entry.1.1.Total → Percentages entry.2

/-- Every counter in a snapshot is below 2^60. -/
def CpuSnapshot.Bounded (snapshot : CpuSnapshot) : Prop := ∀ c ∈ snapshot.cores, c.Bounded

/-- A record with the time at which it was added. -/
def stamped (timestamp : Timestamp) (rec : Record ℚ) : Record ℚ := { rec with timestamp }

theorem Percentages.stamp {rec : Record ℚ} {timestamp : Timestamp} :
    Percentages (stamped timestamp rec) ↔ Percentages rec :=
  ⟨fun stamped => ⟨stamped.within, stamped.sum⟩, fun bare => ⟨bare.within, bare.sum⟩⟩

theorem resized_length (ema_states_ : List (EmaState ℚ)) (n : ℕ) : n ≤ (resized ema_states_ n).length := by
  rw [resized, List.length_append, List.length_replicate]
  omega

/-- The records of a batch start with those of the loop. -/
theorem Collect_record {rec : Record ℚ} (prev : s.has_prev_ = true)
    (found : (EmitCpuUtilization config s read.cur).1[i]? = some rec) :
    (Collect config s read).2.records[i]? = some (stamped (read.now i) rec) := by
  simp only [Collect, emitted, if_pos prev, List.append_assoc, List.getElem?_mapIdx]
  rw [List.getElem?_append_left (List.getElem?_eq_some_iff.mp found).1, found]
  rfl

theorem Collect_cores {pair : CoreJiffies × CoreJiffies} (found : (cores config s read)[i]? = some pair) :
    ∃ ema, (Collect config s read).2.records[i]? = some (stamped (read.now i) (coreRecord config pair.1 pair.2 ema)) := by
  unfold cores at found
  split_ifs at found with prev
  · obtain ⟨ema, listed⟩ := emitCores_pairs (resized_length s.ema_states_ _) found
    exact ⟨ema, Collect_record prev listed⟩
  · exact absurd found.symm (Option.some_ne_none _)

theorem mem_cores {pair : CoreJiffies × CoreJiffies} (member : pair ∈ cores config s read) :
    pair.1 ∈ read.cur.cores ∧ pair.2 ∈ s.prev_.cores := by
  unfold cores at member
  split_ifs at member
  · exact List.of_mem_zip (List.mem_of_mem_filter member)
  · exact absurd member List.not_mem_nil

/-- A Collect emits percentages exactly when no counter of a core whose total has increased moves backwards. -/
theorem sharesHold_iff (now : read.cur.Bounded) (before : s.prev_.Bounded) : SharesHold config s read ↔
    ∀ pair ∈ cores config s read, pair.2.Total < pair.1.Total → NoneDecreases pair.1 pair.2 := by
  constructor
  · intro holds pair member more
    obtain ⟨first, second⟩ := mem_cores member
    obtain ⟨i, found⟩ := List.mem_iff_getElem?.mp member
    obtain ⟨ema, listed⟩ := Collect_cores found
    have zipped : ((cores config s read).zip (Collect config s read).2.records)[i]? =
        some (pair, stamped (read.now i) (coreRecord config pair.1 pair.2 ema)) :=
      List.getElem?_zip_eq_some.mpr ⟨found, listed⟩
    have percentages := holds _ (List.mem_of_getElem? zipped) more
    exact (coreRecord_percentages (now _ first) (before _ second) more).mp (Percentages.stamp.mp percentages)
  · rintro none ⟨pair, rec⟩ member more
    obtain ⟨i, zipped⟩ := List.mem_iff_getElem?.mp member
    obtain ⟨found, listed⟩ := List.getElem?_zip_eq_some.mp zipped
    have shown := List.mem_of_getElem? found
    obtain ⟨first, second⟩ := mem_cores shown
    obtain ⟨ema, emitted⟩ := Collect_cores found
    rw [Option.some.inj (listed.symm.trans emitted)]
    exact Percentages.stamp.mpr ((coreRecord_percentages (now _ first) (before _ second) more).mpr (none _ shown more))

/-! ## What has been emitted so far -/

/-- A Collect: the state before it, and what it reads. -/
abbrev Moment := Shared ℚ × Readings ℚ

/-- The records of the Collects so far. -/
def recordsOf (config : Config ℚ) (past : List Moment) : List (Record ℚ) :=
  past.flatMap fun m => (Collect config m.1 m.2).2.records

/-- A share that a record with these labels has shown. -/
def Share (config : Config ℚ) (past : List Moment) (labels : List Label) (field : Bytes) (x : ℚ) : Prop :=
  ∃ rec ∈ recordsOf config past, rec.labels = labels ∧ rec.GetField field = some (.double x)

/-- A value is between two of the shares so far. -/
def Mean (config : Config ℚ) (past : List Moment) (labels : List Label) (field : Bytes) (x : ℚ) : Prop :=
  ∃ low high, Share config past labels field low ∧ Share config past labels field high ∧ low ≤ x ∧ x ≤ high

/-- Every average that a Collect emits is between two shares emitted so far for the same core. -/
def AveragesHold (config : Config ℚ) (past : List Moment) (m : Moment) : Prop :=
  ∀ rec ∈ (Collect config m.1 m.2).2.records, ∀ average ∈ averages, ∀ x,
    rec.GetField average.1 = some (.double x) → Mean config (past ++ [m]) rec.labels average.2 x

/-- The core that a Collect shows at a position. -/
def shownAt (config : Config ℚ) (m : Moment) (i : ℕ) : Option Bytes :=
  if m.1.has_prev_ then
    ((m.2.cur.cores.zip m.1.prev_.cores)[i]?.filter fun pair => shown config pair.1 pair.2).map fun pair => pair.1.name
  else none

/-- Every position shows one core only. -/
def Stable (config : Config ℚ) (past : List Moment) : Prop :=
  ∀ m ∈ past, ∀ n ∈ past, ∀ i name other, shownAt config m i = some name → shownAt config n i = some other →
    name = other

variable {past : List Moment} {m : Moment} {labels : List Label} {field : Bytes} {x : ℚ}

theorem Share.later (share : Share config past labels field x) : Share config (past ++ [m]) labels field x := by
  obtain ⟨rec, listed, same, found⟩ := share
  refine ⟨rec, ?_, same, found⟩
  rw [recordsOf, List.flatMap_append]
  exact List.mem_append_left _ listed

theorem Mean.later (mean : Mean config past labels field x) : Mean config (past ++ [m]) labels field x := by
  obtain ⟨low, high, first, second, between⟩ := mean
  exact ⟨low, high, first.later, second.later, between⟩

theorem Share.mean (share : Share config past labels field x) : Mean config past labels field x :=
  ⟨x, x, share, share, le_rfl, le_rfl⟩

/-- A step of the average stays between the shares. -/
theorem Mean.smoothed {a ema : ℚ} (positive : 0 < a) (small : a ≤ 1) (share : Share config past labels field x)
    (mean : Mean config past labels field ema) : Mean config past labels field (smoothed a x ema) := by
  obtain ⟨low, high, first, second, above, below⟩ := mean
  have rest : 0 ≤ 1 - a := sub_nonneg.mpr small
  have value : CpuUtilization.smoothed a x ema = a * x + (1 - a) * ema := by
    rw [CpuUtilization.smoothed]
    norm_num
  have lower : ∃ bound, Share config past labels field bound ∧ bound ≤ a * x + (1 - a) * ema := by
    rcases le_total low x with less | less
    · exact ⟨low, first, by nlinarith⟩
    · exact ⟨x, share, by nlinarith⟩
  have upper : ∃ bound, Share config past labels field bound ∧ a * x + (1 - a) * ema ≤ bound := by
    rcases le_total x high with less | less
    · exact ⟨high, second, by nlinarith⟩
    · exact ⟨x, share, by nlinarith⟩
  obtain ⟨least, shownLeast, aboveLeast⟩ := lower
  obtain ⟨most, shownMost, belowMost⟩ := upper
  rw [value]
  exact ⟨least, most, shownLeast, shownMost, aboveLeast, belowMost⟩

/-! ## The averages of the positions -/

/-- The labels of a core's records. -/
def coreLabels (name : Bytes) : List Label :=
  labelled (if name = ascii "cpu" then ascii "cpu_total" else ascii "cpu_core") ++ [⟨ascii "cpu", name⟩]

/-- The three averages that are shown are means. -/
structure Averaged (config : Config ℚ) (past : List Moment) (name : Bytes) (ema : EmaState ℚ) : Prop where
  user : Mean config past (coreLabels name) (ascii "user_pct") ema.user
  system : Mean config past (coreLabels name) (ascii "system_pct") ema.system
  busy : Mean config past (coreLabels name) (ascii "busy_pct") ema.busy

theorem Averaged.later {name : Bytes} (averaged : Averaged config past name ema) :
    Averaged config (past ++ [m]) name ema :=
  ⟨averaged.user.later, averaged.system.later, averaged.busy.later⟩

/-- An average is one of the core that its position has shown. -/
def Positions (config : Config ℚ) (past : List Moment) (emas : List (EmaState ℚ)) : Prop :=
  ∀ i ema, emas[i]? = some ema → ema.initialized = true →
    ∃ name, (∃ m ∈ past, shownAt config m i = some name) ∧ Averaged config past name ema

theorem coreRecord_labels (ema : EmaState ℚ) : (coreRecord config c p ema).labels = coreLabels c.name :=
  record_labels ..

theorem Emits.shownAt (prev_ : m.1.has_prev_ = true)
    (emits : Emits config m.2.cur.cores m.1.prev_.cores emas i c p ema) : shownAt config m i = some c.name := by
  have zipped : (m.2.cur.cores.zip m.1.prev_.cores)[i]? = some (c, p) :=
    List.getElem?_zip_eq_some.mpr ⟨emits.now, emits.before⟩
  rw [CpuUtilization.shownAt, if_pos prev_, zipped, Option.filter_some, if_pos emits.shown]
  rfl

/-- A share of a core at a Collect is a share so far. -/
theorem Emits.share (prev_ : m.1.has_prev_ = true)
    (emits : Emits config m.2.cur.cores m.1.prev_.cores (resized m.1.ema_states_ m.2.cur.cores.length) i c p ema)
    (member : (field, .double x) ∈ coreFields config c p (emaAfter config c p ema)) :
    Share config (past ++ [m]) (coreLabels c.name) field x := by
  obtain ⟨listed, -⟩ := emitCores_emits emits
  obtain ⟨place, found⟩ := List.mem_iff_getElem?.mp listed
  refine ⟨stamped (m.2.now place) _, ?_, coreRecord_labels _, coreRecord_field member⟩
  rw [recordsOf, List.flatMap_append, List.flatMap_singleton]
  exact List.mem_append_right _ (List.mem_of_getElem? (Collect_record prev_ found))

theorem resized_initialized {n : ℕ} (found : (resized emas n)[i]? = some ema) (initialized : ema.initialized = true) :
    emas[i]? = some ema := by
  rw [resized, List.getElem?_append] at found
  split_ifs at found with inside
  · exact found
  · rw [List.eq_of_mem_replicate (List.mem_of_getElem? found)] at initialized
    exact absurd initialized Bool.false_ne_true

/-- The average that a Collect leaves at a position that it shows. -/
theorem Emits.averaged (prev_ : m.1.has_prev_ = true) (positive : 0 < config.ema_alpha_) (small : config.ema_alpha_ ≤ 1)
    (emits : Emits config m.2.cur.cores m.1.prev_.cores (resized m.1.ema_states_ m.2.cur.cores.length) i c p ema)
    (before : ema.initialized = true → Averaged config past c.name ema) :
    Averaged config (past ++ [m]) c.name (emaAfter config c p ema) := by
  have user : Share config (past ++ [m]) (coreLabels c.name) (ascii "user_pct") (pct (deltaTotal c p) c.user p.user) :=
    emits.share prev_ (List.mem_append_left _ (by simp))
  have system : Share config (past ++ [m]) (coreLabels c.name) (ascii "system_pct")
      (pct (deltaTotal c p) c.system p.system) :=
    emits.share prev_ (List.mem_append_left _ (by simp))
  have busy : Share config (past ++ [m]) (coreLabels c.name) (ascii "busy_pct") (pct (deltaTotal c p) c.Busy p.Busy) :=
    emits.share prev_ (List.mem_append_left _ (by simp))
  have smoothes : ((0 : ℕ) : ℚ) < config.ema_alpha_ := by rwa [Nat.cast_zero]
  simp only [emaAfter, if_pos smoothes, emaNext]
  cases first : ema.initialized with
  | false => exact ⟨user.mean, system.mean, busy.mean⟩
  | true =>
    have averaged := before first
    exact ⟨averaged.user.later.smoothed positive small user, averaged.system.later.smoothed positive small system,
      averaged.busy.later.smoothed positive small busy⟩

/-- Where positions are stable a Collect keeps their averages. -/
theorem Positions.step (small : config.ema_alpha_ ≤ 1) (positions : Positions config past m.1.ema_states_)
    (stable : Stable config (past ++ [m])) :
    Positions config (past ++ [m]) (Collect config m.1 m.2).1.ema_states_ := by
  intro i later kept initialized
  have old : m.1.ema_states_[i]? = some later →
      ∃ name, (∃ n ∈ past ++ [m], shownAt config n i = some name) ∧ Averaged config (past ++ [m]) name later := by
    intro same
    obtain ⟨name, ⟨n, earlier, shown⟩, averaged⟩ := positions i later same initialized
    exact ⟨name, ⟨n, List.mem_append_left _ earlier, shown⟩, averaged.later⟩
  simp only [Collect, emitted] at kept
  split_ifs at kept with prev_
  · rcases emitCores_average kept with same | ⟨c, p, ema, emits, rfl⟩
    · exact old (resized_initialized same initialized)
    · by_cases positive : 0 < config.ema_alpha_
      · have current := emits.shownAt prev_
        refine ⟨c.name, ⟨m, List.mem_append_right _ (List.mem_singleton_self m), current⟩, ?_⟩
        refine emits.averaged prev_ positive small fun first => ?_
        obtain ⟨name, ⟨n, earlier, shown⟩, averaged⟩ := positions i ema (resized_initialized emits.average first) first
        have same := stable n (List.mem_append_left _ earlier) m (List.mem_append_right _ (List.mem_singleton_self m)) i
          name c.name shown current
        rw [← same]
        exact averaged
      · have unchanged : emaAfter config c p ema = ema := if_neg (by rwa [Nat.cast_zero])
        rw [unchanged] at initialized old ⊢
        exact old (resized_initialized emits.average initialized)
  · exact old kept

theorem emaAfter_initialized (positive : 0 < config.ema_alpha_) : (emaAfter config c p ema).initialized = true := by
  have smoothes : ((0 : ℕ) : ℚ) < config.ema_alpha_ := by rwa [Nat.cast_zero]
  simp only [emaAfter, if_pos smoothes, emaNext]
  split_ifs <;> rfl

/-- The fields that are no averages. -/
def plainFields : List Bytes :=
  pctFields ++ [ascii "context_switches_per_sec", ascii "interrupts_per_sec", ascii "load_1m", ascii "load_5m",
    ascii "load_15m", ascii "procs_running", ascii "procs_blocked", ascii "freq_mhz"]

theorem record_absent (labels : List Label) (fields : List (Bytes × FieldValue ℚ)) (names : List Bytes)
    (plain : names ⊆ plainFields) (same : fields.map Prod.fst = names) :
    ∀ average ∈ averages, (record labels fields).GetField average.1 = none := by
  have apart : ∀ average ∈ averages, average.1 ∉ plainFields := by decide
  intro average listed
  refine fields_of_notMem ?_ _
  rw [same]
  exact fun member => apart average listed (plain member)

/-- Without `ema_alpha_` the record of a core has no average. -/
theorem coreRecord_absent (unset : ¬ 0 < config.ema_alpha_) {average : Bytes × Bytes} (listed : average ∈ averages) :
    (coreRecord config c p ema).GetField average.1 = none := by
  refine record_absent _ (coreFields config c p ema) pctFields (List.subset_append_left ..) ?_ average listed
  rw [coreFields, if_neg (by rwa [Nat.cast_zero])]
  rfl

/-- The averages in the record of a core are those of its position. -/
theorem Averaged.mean {name : Bytes} (averaged : Averaged config past name ema) (positive : 0 < config.ema_alpha_)
    {average : Bytes × Bytes} (listed : average ∈ averages)
    (found : (coreRecord config c p ema).GetField average.1 = some (.double x)) :
    Mean config past (coreLabels name) average.2 x := by
  have field {key : Bytes} {value : ℚ} (member : (key, .double value) ∈
      [(ascii "user_pct_ema", FieldValue.double ema.user), (ascii "system_pct_ema", .double ema.system),
        (ascii "busy_pct_ema", .double ema.busy)]) :
      (coreRecord config c p ema).GetField key = some (.double value) := by
    refine coreRecord_field ?_
    rw [coreFields, if_pos (by rwa [Nat.cast_zero])]
    exact List.mem_append_right _ member
  simp only [averages, List.mem_cons, List.not_mem_nil, or_false] at listed
  rcases listed with rfl | rfl | rfl
  · cases found.symm.trans (field (List.mem_cons_self ..))
    exact averaged.user
  · cases found.symm.trans (field (List.mem_cons_of_mem _ (List.mem_cons_self ..)))
    exact averaged.system
  · cases found.symm.trans (field (List.mem_cons_of_mem _ (List.mem_cons_of_mem _ (List.mem_cons_self ..))))
    exact averaged.busy

theorem Collect_bare {rec : Record ℚ} (listed : rec ∈ (Collect config s read).2.records) :
    ∃ timestamp bare, rec = stamped timestamp bare ∧
      bare ∈ (emitted config s read.cur).1 ++ [EmitLoadAvg read.la, EmitRunQueue read.cur] ++
        if config.collect_freq_ then EmitCpuFrequency read.freqs else [] := by
  obtain ⟨i, inside, same⟩ := List.mem_mapIdx.mp listed
  exact ⟨_, _, same.symm, List.getElem_mem inside⟩

/-- A record of a batch is one of the loop over the cores, or it has no average. -/
theorem Collect_records {rec : Record ℚ} (listed : rec ∈ (Collect config s read).2.records) :
    ∃ timestamp bare, rec = stamped timestamp bare ∧
      (s.has_prev_ = true ∧ bare ∈ (EmitCpuUtilization config s read.cur).1 ∨
        ∀ average ∈ averages, bare.GetField average.1 = none) := by
  obtain ⟨timestamp, bare, same, member⟩ := Collect_bare listed
  refine ⟨timestamp, bare, same, ?_⟩
  rcases List.mem_append.mp member with early | frequency
  · rcases List.mem_append.mp early with shares | counted
    · unfold emitted at shares
      split_ifs at shares with prev_
      · rcases List.mem_append.mp shares with loop | system
        · exact Or.inl ⟨prev_, loop⟩
        · obtain rfl := List.mem_singleton.mp system
          exact Or.inr (record_absent _ _ [ascii "context_switches_per_sec", ascii "interrupts_per_sec"] (by decide) rfl)
      · exact absurd shares List.not_mem_nil
    · simp only [List.mem_cons, List.not_mem_nil, or_false] at counted
      rcases counted with rfl | rfl
      · exact Or.inr (record_absent _ _ [ascii "load_1m", ascii "load_5m", ascii "load_15m"] (by decide) rfl)
      · exact Or.inr (record_absent _ _ [ascii "procs_running", ascii "procs_blocked"] (by decide) rfl)
  · split_ifs at frequency
    · obtain ⟨i, inside, rfl⟩ := List.mem_mapIdx.mp frequency
      exact Or.inr (record_absent _ _ [ascii "freq_mhz"] (by decide) rfl)
    · exact absurd frequency List.not_mem_nil

/-- The averages that a Collect emits are those of its positions. -/
theorem averagesHold (small : config.ema_alpha_ ≤ 1) (positions : Positions config past m.1.ema_states_)
    (stable : Stable config (past ++ [m])) : AveragesHold config past m := by
  intro rec listed average member x found
  have here := List.mem_append_right past (List.mem_singleton_self m)
  obtain ⟨timestamp, bare, rfl, ⟨prev_, loop⟩ | absent⟩ := Collect_records listed
  · obtain ⟨i, c, p, ema, emits, rfl⟩ := emitCores_record loop
    by_cases positive : 0 < config.ema_alpha_
    · have kept : (Collect config m.1 m.2).1.ema_states_[i]? = some (emaAfter config c p ema) := by
        simp only [Collect, emitted, if_pos prev_]
        exact (emitCores_emits emits).2
      obtain ⟨name, ⟨n, earlier, shown⟩, averaged⟩ :=
        positions.step small stable i _ kept (emaAfter_initialized positive)
      have same := stable n earlier m here i name c.name shown (emits.shownAt prev_)
      have labels : (stamped timestamp (coreRecord config c p (emaAfter config c p ema))).labels = coreLabels name := by
        rw [same]
        exact coreRecord_labels _
      rw [labels]
      exact averaged.mean positive member found
    · exact absurd (found.symm.trans (coreRecord_absent positive member)) (Option.some_ne_none _)
  · exact absurd (found.symm.trans (absent average member)) (Option.some_ne_none _)

/-! ## Runs -/

/-- The Collects of a run. -/
def history (config : Config ℚ) (s : Shared ℚ) : List (Readings ℚ) → List Moment
  | [] => []
  | read :: rest => (s, read) :: history config (Collect config s read).1 rest

theorem history_bounded {reads : List (Readings ℚ)} (before : s.prev_.Bounded)
    (bounded : ∀ read ∈ reads, read.cur.Bounded) :
    ∀ m ∈ history config s reads, m.2.cur.Bounded ∧ m.1.prev_.Bounded := by
  induction reads generalizing s with
  | nil => exact nofun
  | cons read rest ih =>
    obtain ⟨now, later⟩ := List.forall_mem_cons.mp bounded
    exact List.forall_mem_cons.mpr ⟨⟨now, before⟩, ih now later⟩

theorem Stable.subset {whole : List Moment} (stable : Stable config whole) (part : past ⊆ whole) : Stable config past :=
  fun m first n second => stable m (part first) n (part second)

theorem history_positions {reads : List (Readings ℚ)} {before later : List Moment} (small : config.ema_alpha_ ≤ 1)
    (positions : Positions config past s.ema_states_) (stable : Stable config (past ++ history config s reads))
    (split : history config s reads = before ++ m :: later) :
    Positions config (past ++ before) m.1.ema_states_ := by
  induction before generalizing s reads past with
  | nil =>
    cases reads with
    | nil => exact absurd split.symm (List.cons_ne_nil _ _)
    | cons read rest =>
      cases split
      rw [List.append_nil]
      exact positions
  | cons first before ih =>
    cases reads with
    | nil => exact absurd split.symm (List.cons_ne_nil _ _)
    | cons read rest =>
      obtain ⟨same, remaining⟩ := List.cons.inj split
      subst same
      have listed : past ++ history config s (read :: rest) =
          past ++ [(s, read)] ++ history config (Collect config s read).1 rest := by
        rw [List.append_assoc]
        rfl
      rw [listed] at stable
      have stepped := positions.step small (m := (s, read)) (stable.subset (List.subset_append_left ..))
      rw [List.append_cons]
      exact ih stepped stable remaining

/-- The shares of a run are percentages exactly when no counter of a core whose total increases moves backwards.
Where every position shows one core only, the averages are between shares emitted before. -/
theorem Collects_shares (config : Config ℚ) (snapshot : CpuSnapshot) (reads : List (Readings ℚ))
    (first : snapshot.Bounded) (bounded : ∀ read ∈ reads, read.cur.Bounded) :
    ((∀ m ∈ history config (Init snapshot) reads, SharesHold config m.1 m.2) ↔
      ∀ m ∈ history config (Init snapshot) reads, ∀ pair ∈ cores config m.1 m.2,
        pair.2.Total < pair.1.Total → NoneDecreases pair.1 pair.2) ∧
      (config.ema_alpha_ ≤ 1 → Stable config (history config (Init snapshot) reads) →
        ∀ past m later, history config (Init snapshot) reads = past ++ m :: later → AveragesHold config past m) := by
  have inside := @history_bounded config (Init snapshot) reads first bounded
  constructor
  · refine forall₂_congr fun m listed => ?_
    exact sharesHold_iff (inside m listed).1 (inside m listed).2
  · intro small stable past m later split
    have none : Positions config [] (Init snapshot : Shared ℚ).ema_states_ :=
      fun i ema found => absurd found.symm (Option.some_ne_none _)
    refine averagesHold small (history_positions small none stable split) (stable.subset ?_)
    rw [split]
    exact List.append_subset.mpr ⟨List.subset_append_left .., fun n here =>
      List.mem_append_right _ (List.mem_singleton.mp here ▸ List.mem_cons_self ..)⟩

/-- A snapshot with one line, and what a Collect reads with it. -/
def jiffies (user idle : UInt64) : CpuSnapshot := { cores := [{ name := ascii "cpu", user, idle }] }

def reading (user idle : UInt64) : Readings ℚ := ⟨jiffies user idle, ⟨0, 0, 0⟩, [], fun _ => 0⟩

theorem jiffies_bounded {user idle : UInt64} (busy : user.toNat < 2 ^ 60) (rest : idle.toNat < 2 ^ 60) :
    (jiffies user idle).Bounded := by
  have zero : (0 : UInt64).toNat < 2 ^ 60 := by decide
  simp only [CpuSnapshot.Bounded, jiffies, List.forall_mem_cons, CoreJiffies.Bounded, CoreJiffies.counters]
  exact ⟨⟨busy, zero, zero, rest, zero, zero, zero, zero, fun _ member => absurd member List.not_mem_nil⟩,
    fun _ member => absurd member List.not_mem_nil⟩

/-- Ten jiffies of work in which `idle` goes back by one. -/
theorem shares_wrapped : ¬ ∀ (config : Config ℚ) (snapshot : CpuSnapshot) (reads : List (Readings ℚ)),
    snapshot.Bounded → (∀ read ∈ reads, read.cur.Bounded) →
    (∀ read ∈ reads, read.cur.cores.map CoreJiffies.name = snapshot.cores.map CoreJiffies.name) →
    0 < config.ema_alpha_ → config.ema_alpha_ ≤ 1 →
    ∀ m ∈ history config (Init snapshot) reads, SharesHold config m.1 m.2 := by
  intro claim
  have start : (jiffies 100 100).Bounded := jiffies_bounded (by decide) (by decide)
  have back : (jiffies 110 99).Bounded := jiffies_bounded (by decide) (by decide)
  have bounded : ∀ read ∈ [reading 100 100, reading 110 99], read.cur.Bounded :=
    List.forall_mem_cons.mpr ⟨start, List.forall_mem_singleton.mpr back⟩
  have lines : ∀ read ∈ [reading 100 100, reading 110 99],
      read.cur.cores.map CoreJiffies.name = (jiffies 100 100).cores.map CoreJiffies.name :=
    List.forall_mem_cons.mpr ⟨rfl, List.forall_mem_singleton.mpr rfl⟩
  have holds := claim { ema_alpha_ := 1 } (jiffies 100 100) _ start bounded lines one_pos le_rfl
  have second := holds _ (List.mem_cons_of_mem _ (List.mem_cons_self ..))
  have none := (sharesHold_iff back start).mp second _ (List.mem_cons_self ..) (by decide)
  simp only [NoneDecreases, CoreJiffies.counters, List.forall₂_cons] at none
  exact absurd none.2.2.2.1 (by decide)

/-- Ten jiffies of work and five idle. -/
theorem Collects_shares_steady :
    ∃ m, (history { ema_alpha_ := 1 / 2 } (Init (jiffies 100 100)) [reading 100 100, reading 110 105])[1]? = some m ∧
      SharesHold { ema_alpha_ := 1 / 2 } m.1 m.2 := by
  have start : (jiffies 100 100).Bounded := jiffies_bounded (by decide) (by decide)
  have next : (jiffies 110 105).Bounded := jiffies_bounded (by decide) (by decide)
  refine ⟨_, rfl, (Collects_shares { ema_alpha_ := 1 / 2 } (jiffies 100 100) _ start
    (List.forall_mem_cons.mpr ⟨start, List.forall_mem_singleton.mpr next⟩)).1.mpr ?_ _
      (List.mem_cons_of_mem _ (List.mem_cons_self ..))⟩
  refine List.forall_mem_cons.mpr ⟨nofun, List.forall_mem_singleton.mpr ?_⟩
  refine List.forall_mem_singleton.mpr fun _ => ?_
  simp only [NoneDecreases, CoreJiffies.counters, List.forall₂_cons]
  decide

end CpuUtilization

end Illuminator
