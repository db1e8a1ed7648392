import Illuminator.Model.ProcessCpu
import Illuminator.Soundness.CpuShares
import Mathlib.Data.List.Nodup
import Mathlib.Data.Nat.Bitwise

/-! # Shares of processes and threads

A share is what the claim of its name says exactly when the entry that it is compared with shows what the same
process or thread had used at the Collect before. The entry of a process is of that Collect, though it may be
of another process with its pid. The entry of a thread is of the last Collect that expanded its process.
-/

namespace Illuminator

namespace ProcessCpu

variable {config : Config ℚ} {sorting : Sorting ℚ} {s : Shared} {read previous : Readings}

/-! ## Keys -/

theorem MakeThreadKey_toNat (pid tid : UInt32) : (MakeThreadKey pid tid).toNat = pid.toNat * 2 ^ 32 + tid.toNat := by
  have high := UInt32.toNat_lt pid
  have low := UInt32.toNat_lt tid
  have shift : (pid.toUInt64 <<< 32).toNat = pid.toNat <<< 32 := by
    rw [UInt64.toNat_shiftLeft, UInt32.toNat_toUInt64]
    change pid.toNat <<< 32 % 2 ^ 64 = _
    rw [Nat.shiftLeft_eq]
    omega
  rw [MakeThreadKey, UInt64.toNat_or, shift, UInt32.toNat_toUInt64, ← Nat.shiftLeft_add_eq_or_of_lt low,
    Nat.shiftLeft_eq]

theorem MakeThreadKey_inj {pid tid other task : UInt32} (same : MakeThreadKey pid tid = MakeThreadKey other task) :
    pid = other ∧ tid = task := by
  have keys := congrArg UInt64.toNat same
  rw [MakeThreadKey_toNat, MakeThreadKey_toNat] at keys
  have := UInt32.toNat_lt tid
  have := UInt32.toNat_lt task
  exact ⟨UInt32.toNat_inj.mp (by omega), UInt32.toNat_inj.mp (by omega)⟩

/-! ## What is emitted -/

section

variable {D : Type} [Add D] [Mul D] [Div D] [NatCast D] {config : Config D} {pid : UInt32} {comm : Bytes}
  {delta : UInt64} {threads : List ProcessStat} {prev : UInt64 → Option ThreadSnapshot}

/-- Only the keys of the listed threads change. -/
theorem CollectThreads_kept {key : UInt64} (other : ∀ ts ∈ threads, key ≠ MakeThreadKey pid ts.pid) :
    (CollectThreads config pid comm delta threads prev).2 key = prev key := by
  induction threads generalizing prev with
  | nil => rfl
  | cons ts rest ih =>
    obtain ⟨here, later⟩ := List.forall_mem_cons.mp other
    simp only [CollectThreads]
    split
    · rw [ih later, Function.update_of_ne here]
    · rw [ih later, Function.update_of_ne here]

theorem CollectThreads_mem {e : Subject × Record D} (distinct : (threads.map ProcessStat.pid).Nodup)
    (member : e ∈ (CollectThreads config pid comm delta threads prev).1) :
    ∃ ts ∈ threads, ∃ held, prev (MakeThreadKey pid ts.pid) = some held ∧
      e = (.thread pid ts, threadRecord config pid comm delta ts held) := by
  induction threads generalizing prev with
  | nil => exact absurd member List.not_mem_nil
  | cons ts rest ih =>
    obtain ⟨fresh, distinct⟩ := List.nodup_cons.mp distinct
    have below : e ∈ (CollectThreads config pid comm delta rest (Function.update prev (MakeThreadKey pid ts.pid)
        (some ⟨ts.pid, ts.comm, ts.utime, ts.stime, ts.state⟩))).1 →
        ∃ task ∈ ts :: rest, ∃ held, prev (MakeThreadKey pid task.pid) = some held ∧
          e = (.thread pid task, threadRecord config pid comm delta task held) := by
      intro later
      obtain ⟨task, listed, held, found, same⟩ := ih distinct later
      have apart : MakeThreadKey pid task.pid ≠ MakeThreadKey pid ts.pid := fun keys =>
        fresh (List.mem_map.mpr ⟨task, listed, (MakeThreadKey_inj keys).2⟩)
      rw [Function.update_of_ne apart] at found
      exact ⟨task, List.mem_cons_of_mem _ listed, held, found, same⟩
    simp only [CollectThreads] at member
    split at member
    next it found =>
      rcases List.mem_cons.mp member with same | later
      · exact ⟨ts, List.mem_cons_self .., it, found, same⟩
      · exact below later
    next => exact below member

variable [LT D] [DecidableLT D] {tasks : UInt32 → Option Table} {processes : List (RankedProcess D)}

theorem expanded_kept {rp : RankedProcess D} {key : UInt64} (other : ∀ tid, key ≠ MakeThreadKey rp.snap.pid tid) :
    (expanded config delta tasks rp prev).2 key = prev key := by
  unfold expanded
  split
  · split_ifs
    · exact CollectThreads_kept fun ts _ => other ts.pid
    · rfl
  · rfl

theorem expanded_mem {rp : RankedProcess D} {e : Subject × Record D}
    (member : e ∈ (expanded config delta tasks rp prev).1) :
    ∃ table, tasks rp.snap.pid = some table ∧ ∃ ts ∈ table.entries, ∃ held,
      prev (MakeThreadKey rp.snap.pid ts.pid) = some held ∧
        e = (.thread rp.snap.pid ts, threadRecord config rp.snap.pid rp.snap.comm delta ts held) := by
  unfold expanded at member
  split at member
  next table opened =>
    split_ifs at member
    · exact ⟨table, opened, CollectThreads_mem table.distinct member⟩
    · exact absurd member List.not_mem_nil
  next => exact absurd member List.not_mem_nil

/-- What an emitted record is about: a ranked process that was there before, or a listed thread of one whose
key held an entry before the Collect. -/
theorem emit_mem {e : Subject × Record D} (distinct : (processes.map fun rp => rp.snap.pid).Nodup)
    (member : e ∈ (emit config delta tasks processes prev).1) :
    (∃ rp ∈ processes, rp.has_prev = true ∧ e = (.process rp.snap, processRecord rp)) ∨
      ∃ rp ∈ processes, rp.has_prev = true ∧ ∃ table, tasks rp.snap.pid = some table ∧ ∃ ts ∈ table.entries, ∃ held,
        prev (MakeThreadKey rp.snap.pid ts.pid) = some held ∧
          e = (.thread rp.snap.pid ts, threadRecord config rp.snap.pid rp.snap.comm delta ts held) := by
  induction processes generalizing prev with
  | nil => exact absurd member List.not_mem_nil
  | cons rp rest ih =>
    obtain ⟨fresh, distinct⟩ := List.nodup_cons.mp distinct
    simp only [emit] at member
    split_ifs at member with has_prev
    · rcases List.mem_append.mp member with here | later
      · rcases List.mem_cons.mp here with same | threads
        · exact Or.inl ⟨rp, List.mem_cons_self .., has_prev, same⟩
        · exact Or.inr ⟨rp, List.mem_cons_self .., has_prev, expanded_mem threads⟩
      · rcases ih distinct later with
          ⟨other, listed, before⟩ | ⟨other, listed, before, table, opened, ts, task, held, found, same⟩
        · exact Or.inl ⟨other, List.mem_cons_of_mem _ listed, before⟩
        · have apart (tid : UInt32) : MakeThreadKey other.snap.pid ts.pid ≠ MakeThreadKey rp.snap.pid tid := fun keys =>
            fresh (List.mem_map.mpr ⟨other, listed, (MakeThreadKey_inj keys).1⟩)
          rw [expanded_kept apart] at found
          exact Or.inr ⟨other, List.mem_cons_of_mem _ listed, before, table, opened, ts, task, held, found, same⟩
    · rcases ih distinct member with ⟨other, listed, before⟩ | ⟨other, listed, before⟩
      · exact Or.inl ⟨other, List.mem_cons_of_mem _ listed, before⟩
      · exact Or.inr ⟨other, List.mem_cons_of_mem _ listed, before⟩

end

/-! ## What a share should be -/

/-- What a counter showed for the same process or thread in an earlier table, and 0 where it was not there. -/
def before (earlier : List ProcessStat) (counter : ProcessStat → UInt64) (ps : ProcessStat) : ℕ :=
  ((earlier.find? fun entry => entry.pid = ps.pid ∧ entry.starttime = ps.starttime).map
    fun entry => (counter entry).toNat).getD 0

namespace Subject

def stat : Subject → ProcessStat
  | .process ps => ps
  | .thread _ ts => ts

/-- The table at an earlier Collect in which the process or thread would be. -/
def earlier (previous : Readings) : Subject → List ProcessStat
  | .process _ => previous.raw_processes.entries
  | .thread pid _ => ((previous.tasks pid).map Table.entries).getD []

/-- The time on a counter since the Collect before. -/
def used (subject : Subject) (previous : Readings) (counter : ProcessStat → UInt64) : ℕ :=
  (counter subject.stat).toNat - before (subject.earlier previous) counter subject.stat

/-- The entry with which a Collect compares. -/
def held (s : Shared) : Subject → Option (UInt64 × UInt64)
  | .process ps => (s.prev_snapshots_ ps.pid).map fun prev => (prev.utime, prev.stime)
  | .thread pid ts => (s.prev_thread_snapshots_ (MakeThreadKey pid ts.pid)).map fun prev => (prev.utime, prev.stime)

end Subject

/-- An entry shows what the counter showed, or the counter has grown from neither. -/
def Agrees (cv held : UInt64) (before : ℕ) : Prop := held.toNat = before ∨ cv.toNat ≤ held.toNat ∧ cv.toNat ≤ before

/-- The entry shows what the same process or thread had used at the Collect before. -/
def Subject.Compared (subject : Subject) (s : Shared) (previous : Readings) : Prop :=
  ∀ held, subject.held s = some held →
    Agrees subject.stat.utime held.1 (before (subject.earlier previous) ProcessStat.utime subject.stat) ∧
      Agrees subject.stat.stime held.2 (before (subject.earlier previous) ProcessStat.stime subject.stat)

/-- The jiffies between two Collects. -/
def elapsed (previous read : Readings) : ℕ := read.cur_total_jiffies.toNat - previous.cur_total_jiffies.toNat

/-- A share of the time that has elapsed, in percent of one CPU. -/
def share (config : Config ℚ) (previous read : Readings) (used : ℕ) : ℚ :=
  100 * config.num_cpus_ * used / elapsed previous read

/-- Time has elapsed, and the percentages are the shares of it that the process or thread has used. -/
structure Right (config : Config ℚ) (previous read : Readings) (e : Subject × Record ℚ) : Prop where
  elapsed : 0 < elapsed previous read
  user : e.2.GetField (ascii "cpu_user_pct") =
    some (.double (share config previous read (e.1.used previous ProcessStat.utime)))
  sys : e.2.GetField (ascii "cpu_sys_pct") =
    some (.double (share config previous read (e.1.used previous ProcessStat.stime)))
  total : e.2.GetField (ascii "cpu_total_pct") = some (.double (share config previous read
    (e.1.used previous ProcessStat.utime + e.1.used previous ProcessStat.stime)))

/-- The percentages of a record are computed from the entry that is held. -/
structure Computed (config : Config ℚ) (s : Shared) (read : Readings) (e : Subject × Record ℚ) (held : UInt64 × UInt64) :
    Prop where
  entry : e.1.held s = some held
  user : e.2.GetField (ascii "cpu_user_pct") = some (.double (pct config (delta_total s read) e.1.stat.utime held.1))
  sys : e.2.GetField (ascii "cpu_sys_pct") = some (.double (pct config (delta_total s read) e.1.stat.stime held.2))
  total : e.2.GetField (ascii "cpu_total_pct") = some (.double (pct config (delta_total s read) e.1.stat.utime held.1 +
    pct config (delta_total s read) e.1.stat.stime held.2))

theorem grown_toNat (cv pv : UInt64) : (grown cv pv).toNat = cv.toNat - pv.toNat := by
  unfold grown
  split_ifs with more
  · exact UInt64.toNat_sub_of_le _ _ (UInt64.le_of_lt more)
  · have less := UInt64.not_lt.mp more
    rw [UInt64.le_iff_toNat_le] at less
    rw [UInt64.toNat_zero]
    omega

theorem delta_total_toNat (same : s.prev_total_jiffies_ = previous.cur_total_jiffies)
    (more : 0 < elapsed previous read) : (delta_total s read).toNat = elapsed previous read := by
  unfold elapsed at more ⊢
  have less : previous.cur_total_jiffies ≤ read.cur_total_jiffies := by
    rw [UInt64.le_iff_toNat_le]
    omega
  have step := UInt64.toNat_sub_of_le _ _ less
  have nonzero : read.cur_total_jiffies - previous.cur_total_jiffies ≠ 0 := by
    intro none
    rw [none, UInt64.toNat_zero] at step
    omega
  rw [delta_total, same, if_neg nonzero, step]

theorem agrees_iff {cv held : UInt64} {before : ℕ} :
    Agrees cv held before ↔ cv.toNat - held.toNat = cv.toNat - before := by
  unfold Agrees
  omega

theorem share_add (first second : ℕ) :
    share config previous read first + share config previous read second =
      share config previous read (first + second) := by
  simp only [share]
  push_cast
  ring

/-- A percentage is the share of a time exactly when it is computed from that time. -/
theorem pct_eq_share (same : s.prev_total_jiffies_ = previous.cur_total_jiffies) (more : 0 < elapsed previous read)
    {cv pv : UInt64} {used : ℕ} :
    pct config (delta_total s read) cv pv = share config previous read used ↔ cv.toNat - pv.toNat = used := by
  have time : (elapsed previous read : ℚ) ≠ 0 := by exact_mod_cast more.ne'
  have cpus : (config.num_cpus_ : ℚ) ≠ 0 := by exact_mod_cast config.positive.ne'
  rw [pct, share, grown_toNat, delta_total_toNat same more]
  constructor
  · intro equal
    field_simp at equal
    norm_num at equal
    exact_mod_cast equal
  · intro equal
    rw [equal]
    push_cast
    ring

/-- The percentages of a record are right exactly when time has elapsed and the entry shows what it should. -/
theorem Computed.right_iff {e : Subject × Record ℚ} {held : UInt64 × UInt64} (computed : Computed config s read e held)
    (same : s.prev_total_jiffies_ = previous.cur_total_jiffies) :
    Right config previous read e ↔ 0 < elapsed previous read ∧ e.1.Compared s previous := by
  constructor
  · intro right
    refine ⟨right.elapsed, fun entry found => ?_⟩
    obtain rfl := Option.some.inj (computed.entry.symm.trans found)
    have user := Option.some.inj (computed.user.symm.trans right.user)
    have sys := Option.some.inj (computed.sys.symm.trans right.sys)
    injection user with user
    injection sys with sys
    rw [agrees_iff, agrees_iff]
    exact ⟨(pct_eq_share same right.elapsed).mp user, (pct_eq_share same right.elapsed).mp sys⟩
  · rintro ⟨more, compared⟩
    obtain ⟨user, sys⟩ := compared held computed.entry
    rw [agrees_iff] at user sys
    have first : pct config _ _ _ = share config previous read (e.1.used previous ProcessStat.utime) :=
      (pct_eq_share same more).mpr user
    have second : pct config _ _ _ = share config previous read (e.1.used previous ProcessStat.stime) :=
      (pct_eq_share same more).mpr sys
    refine ⟨more, computed.user.trans ?_, computed.sys.trans ?_, computed.total.trans ?_⟩
    · rw [first]
    · rw [second]
    · rw [first, second, share_add]

/-! ## A Collect -/

theorem ranked_mem {rp : RankedProcess ℚ} (member : rp ∈ ranked config sorting s read) :
    ∃ ps ∈ read.raw_processes.entries, rp = rank config s read ps := by
  have sorted := (sorting.perm _).mem_iff.mp (List.mem_of_mem_take member)
  obtain ⟨ps, listed, same⟩ := List.mem_map.mp sorted
  exact ⟨ps, List.mem_of_mem_filter listed, same.symm⟩

theorem rank_snap (ps : ProcessStat) : (rank config s read ps).snap = ps := by
  unfold rank
  split <;> rfl

theorem ranked_distinct : ((ranked config sorting s read).map fun rp => rp.snap.pid).Nodup := by
  have listed : (((read.raw_processes.entries.filter fun ps => selected config ps).map (rank config s read)).map
      fun rp => rp.snap.pid).Nodup := by
    rw [List.map_map]
    have same : (fun rp : RankedProcess ℚ => rp.snap.pid) ∘ rank config s read = ProcessStat.pid := by
      funext ps
      exact congrArg ProcessStat.pid (rank_snap ps)
    rw [same]
    exact read.raw_processes.distinct.sublist (List.filter_sublist.map _)
  refine List.Nodup.sublist ((List.take_sublist _ _).map _) ?_
  exact (((sorting.perm _).map _).nodup_iff).mpr listed

theorem processRecord_fields (rp : RankedProcess ℚ) :
    (processRecord rp).GetField (ascii "cpu_user_pct") = some (.double rp.cpu_user_pct) ∧
      (processRecord rp).GetField (ascii "cpu_sys_pct") = some (.double rp.cpu_sys_pct) ∧
      (processRecord rp).GetField (ascii "cpu_total_pct") = some (.double rp.cpu_total_pct) := by
  have distinct : [ascii "cpu_user_pct", ascii "cpu_sys_pct", ascii "cpu_total_pct", ascii "state", ascii "num_threads",
      ascii "rss_kb", ascii "vsize_kb", ascii "voluntary_ctxt_switches", ascii "nonvoluntary_ctxt_switches"].Nodup := by
    decide
  refine ⟨CpuUtilization.record_field distinct rfl ?_, CpuUtilization.record_field distinct rfl ?_,
    CpuUtilization.record_field distinct rfl ?_⟩ <;> simp

theorem threadRecord_fields (pid : UInt32) (comm : Bytes) (delta : UInt64) (ts : ProcessStat) (held : ThreadSnapshot) :
    (threadRecord config pid comm delta ts held).GetField (ascii "cpu_user_pct") =
        some (.double (pct config delta ts.utime held.utime)) ∧
      (threadRecord config pid comm delta ts held).GetField (ascii "cpu_sys_pct") =
        some (.double (pct config delta ts.stime held.stime)) ∧
      (threadRecord config pid comm delta ts held).GetField (ascii "cpu_total_pct") =
        some (.double (pct config delta ts.utime held.utime + pct config delta ts.stime held.stime)) := by
  have distinct : [ascii "cpu_user_pct", ascii "cpu_sys_pct", ascii "cpu_total_pct", ascii "state"].Nodup := by decide
  refine ⟨CpuUtilization.record_field distinct rfl ?_, CpuUtilization.record_field distinct rfl ?_,
    CpuUtilization.record_field distinct rfl ?_⟩ <;> simp

/-- The percentages of every record come from the entry that is held for it. -/
theorem emitted_computed {e : Subject × Record ℚ} (member : e ∈ (emitted config sorting s read).1) :
    ∃ held, Computed config s read e held := by
  rcases emit_mem ranked_distinct member with
    ⟨rp, listed, has_prev, rfl⟩ | ⟨rp, listed, has_prev, table, opened, ts, task, held, found, rfl⟩
  · obtain ⟨ps, -, rfl⟩ := ranked_mem listed
    cases found : s.prev_snapshots_ ps.pid with
    | none =>
      simp only [rank, found] at has_prev
      exact absurd has_prev Bool.false_ne_true
    | some prev =>
      have ranks : rank config s read ps = ⟨ps, pct config (delta_total s read) ps.utime prev.utime,
          pct config (delta_total s read) ps.stime prev.stime,
          pct config (delta_total s read) ps.utime prev.utime + pct config (delta_total s read) ps.stime prev.stime,
          true⟩ := by
        simp only [rank, found]
      rw [ranks]
      obtain ⟨user, sys, total⟩ := processRecord_fields ⟨ps, _, _, _, true⟩
      exact ⟨(prev.utime, prev.stime), Option.map_eq_some_iff.mpr ⟨prev, found, rfl⟩, user, sys, total⟩
  · obtain ⟨user, sys, total⟩ := threadRecord_fields rp.snap.pid rp.snap.comm (delta_total s read) ts held
    exact ⟨(held.utime, held.stime), Option.map_eq_some_iff.mpr ⟨held, found, rfl⟩, user, sys, total⟩

/-! ## The tables of a run -/

theorem snapshots_mem {processes : List ProcessStat} {pid : UInt32} {ps : ProcessStat}
    (found : snapshots processes pid = some ps) : ps ∈ processes ∧ ps.pid = pid := by
  induction processes using List.reverseRecOn with
  | nil => exact absurd found.symm (Option.some_ne_none _)
  | append_singleton processes last ih =>
    rw [snapshots, List.foldl_append] at found
    change Function.update (snapshots processes) last.pid (some last) pid = some ps at found
    rw [Function.update_apply] at found
    split_ifs at found with same
    · cases found
      exact ⟨List.mem_append_right _ (List.mem_singleton_self _), same.symm⟩
    · exact ⟨List.mem_append_left _ (ih found).1, (ih found).2⟩

/-- A table has one entry for a pid, of the same process or of another. -/
theorem before_eq (table : Table) {prev ps : ProcessStat} (listed : prev ∈ table.entries) (pid : prev.pid = ps.pid)
    (counter : ProcessStat → UInt64) :
    before table.entries counter ps = if prev.starttime = ps.starttime then (counter prev).toNat else 0 := by
  have unique {q : ProcessStat} (member : q ∈ table.entries) (same : q.pid = ps.pid) : q = prev :=
    List.inj_on_of_nodup_map table.distinct member listed (same.trans pid.symm)
  rw [before]
  split_ifs with start
  · cases found : table.entries.find? fun entry => entry.pid = ps.pid ∧ entry.starttime = ps.starttime with
    | none => exact absurd (decide_eq_true ⟨pid, start⟩) (List.find?_eq_none.mp found prev listed)
    | some q =>
      have same : q.pid = ps.pid ∧ q.starttime = ps.starttime := by simpa using List.find?_some found
      rw [unique (List.mem_of_find?_eq_some found) same.1]
      rfl
  · rw [List.find?_eq_none.mpr]
    · rfl
    · intro q member same
      obtain ⟨pid, started⟩ := of_decide_eq_true same
      rw [unique member pid] at started
      exact start started

/-- The entry of a process is right where its pid still is the same process, or where nothing was counted. -/
theorem compared_process {ps : ProcessStat} (same : s.prev_snapshots_ = snapshots previous.raw_processes.entries) :
    (Subject.process ps).Compared s previous ↔ ∀ prev, s.prev_snapshots_ ps.pid = some prev →
      prev.starttime = ps.starttime ∨
        (prev.utime = 0 ∨ ps.utime = 0) ∧ (prev.stime = 0 ∨ ps.stime = 0) := by
  have agrees {prev : ProcessStat} (found : s.prev_snapshots_ ps.pid = some prev) (counter : ProcessStat → UInt64) :
      Agrees (counter ps) (counter prev) (before previous.raw_processes.entries counter ps) ↔
        prev.starttime = ps.starttime ∨ counter prev = 0 ∨ counter ps = 0 := by
    rw [same] at found
    obtain ⟨listed, pid⟩ := snapshots_mem found
    rw [before_eq previous.raw_processes listed pid, Agrees, ← @UInt64.toNat_inj (counter prev) 0,
      ← @UInt64.toNat_inj (counter ps) 0, UInt64.toNat_zero]
    split_ifs with start
    · exact iff_of_true (Or.inl rfl) (Or.inl start)
    · rw [or_iff_right start]
      omega
  constructor
  · intro compared prev found
    obtain ⟨user, sys⟩ := compared (prev.utime, prev.stime) (Option.map_eq_some_iff.mpr ⟨prev, found, rfl⟩)
    have user := (agrees found ProcessStat.utime).mp user
    have sys := (agrees found ProcessStat.stime).mp sys
    by_cases start : prev.starttime = ps.starttime
    · exact Or.inl start
    · exact Or.inr ⟨user.resolve_left start, sys.resolve_left start⟩
  · intro entries held entry
    obtain ⟨prev, found, rfl⟩ := Option.map_eq_some_iff.mp entry
    rcases entries prev found with start | ⟨user, sys⟩
    · exact ⟨(agrees found ProcessStat.utime).mpr (Or.inl start), (agrees found ProcessStat.stime).mpr (Or.inl start)⟩
    · exact ⟨(agrees found ProcessStat.utime).mpr (Or.inr user), (agrees found ProcessStat.stime).mpr (Or.inr sys)⟩

/-- A run: for each Collect the one before it, the state in which it starts and what it reads. -/
def history (config : Config ℚ) (sorting : Sorting ℚ) (previous : Option Readings) (s : Shared) :
    List Readings → List (Option Readings × Shared × Readings)
  | [] => []
  | read :: rest => (previous, s, read) :: history config sorting (some read) (Collect config sorting s read).1 rest

/-- The state after a Collect, or after `Init`. -/
structure After (previous : Option Readings) (s : Shared) : Prop where
  none : previous = none → s.prev_snapshots_ = fun _ => none
  total : ∀ q, previous = some q → s.prev_total_jiffies_ = q.cur_total_jiffies
  snapshots : ∀ q, previous = some q → s.prev_snapshots_ = ProcessCpu.snapshots q.raw_processes.entries

theorem history_after {reads : List Readings} {previous : Option Readings} (after : After previous s) :
    ∀ m ∈ history config sorting previous s reads, After m.1 m.2.1 := by
  induction reads generalizing s previous with
  | nil => exact nofun
  | cons read rest ih =>
    refine List.forall_mem_cons.mpr ⟨after, ih ⟨nofun, ?_, ?_⟩⟩
    · rintro q ⟨⟩
      rfl
    · rintro q ⟨⟩
      rfl

/-- The first Collect emits nothing. -/
theorem emitted_first {e : Subject × Record ℚ} (none : s.prev_snapshots_ = fun _ => none) :
    e ∉ (emitted config sorting s read).1 := by
  intro member
  have absent {rp : RankedProcess ℚ} (listed : rp ∈ ranked config sorting s read) : rp.has_prev = false := by
    obtain ⟨ps, -, rfl⟩ := ranked_mem listed
    simp only [rank, none]
  rcases emit_mem ranked_distinct member with ⟨rp, listed, has_prev, -⟩ | ⟨rp, listed, has_prev, -⟩
  · exact absurd ((absent listed).symm.trans has_prev) Bool.false_ne_true
  · exact absurd ((absent listed).symm.trans has_prev) Bool.false_ne_true

/-- In every run, the percentages that a record shows are the shares of the time since the Collect before exactly
when time has elapsed and the entry with which it was compared shows what the process or thread had used then. -/
theorem Collects_right_iff (config : Config ℚ) (sorting : Sorting ℚ) (total_jiffies : UInt64) (reads : List Readings) :
    ∀ m ∈ history config sorting none (Init total_jiffies) reads, ∀ e ∈ (emitted config sorting m.2.1 m.2.2).1,
      ∃ previous, m.1 = some previous ∧
        (Right config previous m.2.2 e ↔ 0 < elapsed previous m.2.2 ∧ e.1.Compared m.2.1 previous) := by
  intro m listed e member
  have start : After none (Init total_jiffies) := ⟨fun _ => rfl, nofun, nofun⟩
  have after := history_after start m listed
  cases before : m.1 with
  | none => exact absurd member (emitted_first (after.none before))
  | some previous =>
    obtain ⟨held, computed⟩ := emitted_computed member
    exact ⟨previous, rfl, computed.right_iff (after.total previous before)⟩

/-! ## A pid that is reused -/

/-- A sort by insertion. -/
def insertion : Sorting ℚ where
  sort := List.insertionSort fun a b => b.cpu_total_pct ≤ a.cpu_total_pct
  perm := List.perm_insertionSort _
  sorted ranked := by
    have total : Std.Total fun a b : RankedProcess ℚ => b.cpu_total_pct ≤ a.cpu_total_pct :=
      ⟨fun a b => le_total b.cpu_total_pct a.cpu_total_pct⟩
    have trans : IsTrans (RankedProcess ℚ) fun a b => b.cpu_total_pct ≤ a.cpu_total_pct :=
      ⟨fun a b c first second => le_trans second first⟩
    exact (List.pairwise_insertionSort _ ranked).imp fun less => not_lt.mpr less

def twoCpus : Config ℚ := { thread_detail_threshold_pct_ := 3, num_cpus_ := 2, positive := by decide }

/-- One process, and what a Collect reads with it. -/
def single (total starttime utime : UInt64) : Readings where
  cur_total_jiffies := total
  raw_processes := ⟨[{ pid := 7, starttime, utime }], List.nodup_singleton _⟩
  tasks := fun _ => none
  now := fun _ => 0

/-- Pid 7 is another process at the second Collect. -/
theorem Collects_reused : ¬ ∀ (config : Config ℚ) (sorting : Sorting ℚ) (total_jiffies : UInt64) (reads : List Readings),
    ∀ m ∈ history config sorting none (Init total_jiffies) reads, ∀ e ∈ (emitted config sorting m.2.1 m.2.2).1,
      ∃ previous, m.1 = some previous ∧ Right config previous m.2.2 e := by
  intro claim
  have records := claim twoCpus insertion 900 [single 1000 100 500, single 1200 900 600] _
    (List.mem_cons_of_mem _ (List.mem_cons_self ..))
  obtain ⟨e, member, about⟩ : ∃ e ∈ (emitted twoCpus insertion
      (Collect twoCpus insertion (Init 900) (single 1000 100 500)).1 (single 1200 900 600)).1,
      e.1 = .process { pid := 7, starttime := 900, utime := 600 } := ⟨_, List.mem_cons_self .., rfl⟩
  obtain ⟨previous, same, right⟩ := records e member
  cases same
  obtain ⟨held, computed⟩ := emitted_computed member
  have compared := ((computed.right_iff rfl).mp right).2
  rw [about] at compared
  exact absurd ((compared_process rfl).mp compared { pid := 7, starttime := 100, utime := 500 } rfl) (by decide)

/-- Pid 7 is the same process at the second Collect. -/
theorem Collects_right_steady : ∃ e ∈ (emitted twoCpus insertion (Collect twoCpus insertion (Init 900) (single 1000 100 500)).1
      (single 1200 100 600)).1, Right twoCpus (single 1000 100 500) (single 1200 100 600) e := by
  obtain ⟨previous, same, iff⟩ := Collects_right_iff twoCpus insertion 900 [single 1000 100 500, single 1200 100 600] _
    (List.mem_cons_of_mem _ (List.mem_cons_self ..)) _ (List.mem_cons_self ..)
  cases same
  refine ⟨_, List.mem_cons_self .., iff.mpr ⟨by decide, ?_⟩⟩
  refine (compared_process rfl).mpr ?_
  rintro prev ⟨⟩
  exact Or.inl rfl

end ProcessCpu

end Illuminator
