import Illuminator.Model.OffcpuProfiler

/-! # Off-CPU intervals

An off-CPU interval lasts from a switch-out of a task to its next switch-in. The intervals of a history
are read off its switches alone. What the source has handed out, caches and has still to handle is one
sample for each interval that is long enough and whose task is allowed, in the order in which the
intervals end.
-/

namespace Illuminator

namespace OffcpuProfiler

open Interleaving

variable {config : Config} {before switches : List Switch} {tid : Tid}

/-! ## Intervals -/

def Switch.Concerns (tid : Tid) (ctx : Switch) : Prop := ctx.prev_pid = tid ∨ ctx.next_pid = tid

instance (tid : Tid) (ctx : Switch) : Decidable (ctx.Concerns tid) := inferInstanceAs (Decidable (_ ∨ _))

/-- The switch with which a task left its CPU, when it has not come back since. -/
def waiting (switches : List Switch) (tid : Tid) : Option Switch :=
  (switches.reverse.find? fun ctx => ctx.Concerns tid).filter fun ctx => ctx.prev_pid = tid

structure Interval where
  out : Switch
  back : Switch
  deriving DecidableEq

/-- The length of an interval in nanoseconds. -/
def Interval.length (i : Interval) : ℕ := i.back.ts.toNat - i.out.ts.toNat

/-- The interval that a switch ends. -/
def ended (before : List Switch) (back : Switch) : Option Interval :=
  if back.next_pid = 0 then none else (waiting before back.next_pid).map fun out => ⟨out, back⟩

def intervalsFrom (before : List Switch) : List Switch → List Interval
  | [] => []
  | back :: rest => (ended before back).toList ++ intervalsFrom (before ++ [back]) rest

/-- The intervals of a sequence of switches, in the order in which they end. -/
def intervals (switches : List Switch) : List Interval := intervalsFrom [] switches

theorem waiting_snoc (switches : List Switch) (ctx : Switch) (tid : Tid) :
    waiting (switches ++ [ctx]) tid =
      if ctx.prev_pid = tid then some ctx else if ctx.next_pid = tid then none else waiting switches tid := by
  rw [waiting, List.reverse_append, List.reverse_singleton, List.singleton_append, List.find?_cons]
  by_cases out : ctx.prev_pid = tid
  · have concerned : ctx.Concerns tid := Or.inl out
    rw [if_pos out, decide_eq_true concerned]
    exact Option.filter_some_pos (decide_eq_true out)
  · rw [if_neg out]
    by_cases back : ctx.next_pid = tid
    · have concerned : ctx.Concerns tid := Or.inr back
      rw [if_pos back, decide_eq_true concerned]
      exact Option.filter_some_neg (by simpa using out)
    · have apart : ¬ ctx.Concerns tid := by
        rintro (same | same)
        · exact out same
        · exact back same
      rw [if_neg back, decide_eq_false apart]
      rfl

/-- A task is waiting since a switch-out that no switch of the task has followed. -/
theorem waiting_eq_some_iff {switches : List Switch} {out : Switch} : waiting switches tid = some out ↔
    out.prev_pid = tid ∧ ∃ earlier later, switches = earlier ++ out :: later ∧ ∀ ctx ∈ later, ¬ ctx.Concerns tid := by
  rw [waiting, Option.filter_eq_some_iff, List.find?_eq_some_iff_append]
  constructor
  · rintro ⟨⟨_, later, earlier, split, apart⟩, left⟩
    refine ⟨of_decide_eq_true left, earlier.reverse, later.reverse, ?_, ?_⟩
    · rw [← List.reverse_reverse switches, split, List.reverse_append, List.reverse_cons, List.append_assoc]
      rfl
    · intro ctx present
      simpa using apart ctx (List.mem_reverse.mp present)
  · rintro ⟨left, earlier, later, rfl, apart⟩
    refine ⟨⟨decide_eq_true (Or.inl left), later.reverse, earlier.reverse, ?_, ?_⟩, decide_eq_true left⟩
    · rw [List.reverse_append, List.reverse_cons, List.append_assoc]
      rfl
    · intro ctx present
      simpa using apart ctx (List.mem_reverse.mp present)

theorem intervalsFrom_append (before first second : List Switch) :
    intervalsFrom before (first ++ second) = intervalsFrom before first ++ intervalsFrom (before ++ first) second := by
  induction first generalizing before with
  | nil => rw [List.append_nil]; rfl
  | cons back rest ih =>
    rw [List.cons_append, intervalsFrom, intervalsFrom, ih, List.append_assoc, List.append_assoc]
    rfl

theorem intervals_snoc (switches : List Switch) (ctx : Switch) :
    intervals (switches ++ [ctx]) = intervals switches ++ (ended switches ctx).toList := by
  rw [intervals, intervalsFrom_append, List.nil_append, intervalsFrom, intervalsFrom, List.append_nil]
  rfl

theorem mem_intervalsFrom {i : Interval} : i ∈ intervalsFrom before switches ↔
    ∃ first second, switches = first ++ i.back :: second ∧ ended (before ++ first) i.back = some i := by
  induction switches generalizing before with
  | nil =>
    constructor
    · intro present
      exact absurd present List.not_mem_nil
    · rintro ⟨first, second, split, _⟩
      exact absurd split.symm (List.append_ne_nil_of_right_ne_nil _ (List.cons_ne_nil _ _))
  | cons ctx rest ih =>
    rw [intervalsFrom, List.mem_append, Option.mem_toList, ih]
    constructor
    · rintro (here | ⟨first, second, rfl, ends⟩)
      · have same : ctx = i.back := by
          unfold ended at here
          split_ifs at here
          obtain ⟨out, _, rfl⟩ := Option.map_eq_some_iff.mp here
          rfl
        subst same
        exact ⟨[], rest, rfl, by rwa [List.append_nil]⟩
      · exact ⟨ctx :: first, second, rfl, by rwa [List.append_assoc] at ends⟩
    · rintro ⟨first, second, split, ends⟩
      cases first with
      | nil =>
        obtain ⟨rfl, rfl⟩ := List.cons.inj split
        rw [List.append_nil] at ends
        exact Or.inl ends
      | cons head tail =>
        obtain ⟨rfl, rfl⟩ := List.cons.inj split
        exact Or.inr ⟨tail, second, rfl, by rwa [List.append_assoc]⟩

/-- The intervals are those from a switch-out of a task to its next switch-in. -/
theorem mem_intervals {i : Interval} : i ∈ intervals switches ↔ i.back.next_pid ≠ 0 ∧
    i.out.prev_pid = i.back.next_pid ∧ ∃ earlier between later,
      switches = earlier ++ i.out :: (between ++ i.back :: later) ∧ ∀ ctx ∈ between, ¬ ctx.Concerns i.back.next_pid := by
  rw [intervals, mem_intervalsFrom]
  obtain ⟨out, back⟩ := i
  constructor
  · rintro ⟨first, second, rfl, ends⟩
    unfold ended at ends
    split_ifs at ends with idle
    obtain ⟨since, waits, same⟩ := Option.map_eq_some_iff.mp ends
    obtain ⟨left, earlier, between, split, apart⟩ := waiting_eq_some_iff.mp waits
    cases same
    refine ⟨idle, left, earlier, between, second, ?_, apart⟩
    rw [List.nil_append] at split
    rw [split, List.append_assoc]
    rfl
  · rintro ⟨task, left, earlier, between, later, rfl, apart⟩
    refine ⟨earlier ++ out :: between, later, by rw [List.append_assoc]; rfl, ?_⟩
    rw [ended, if_neg task, List.nil_append,
      waiting_eq_some_iff.mpr ⟨left, earlier, between, rfl, apart⟩]
    rfl

/-! ## The probe -/

/-- `offcpu_start` holds each waiting task's switch-out, under the task's own number twice. -/
def Follows (offcpu_start : OffcpuKey → Option OffcpuVal) (switches : List Switch) : Prop :=
  ∀ key, offcpu_start key =
    if key.pid = key.tid ∧ key.tid ≠ 0 then (waiting switches key.tid).map Switch.left else none

def Interval.event (i : Interval) : IlOffcpuEvent := offcpuEvent i.back i.out.left

theorem waiting_mem {out : Switch} (waits : waiting switches tid = some out) : out ∈ switches := by
  obtain ⟨_, earlier, later, rfl, _⟩ := waiting_eq_some_iff.mp waits
  exact List.mem_append_right _ List.mem_cons_self

theorem ended_eq_some {back : Switch} {i : Interval} (ends : ended before back = some i) :
    i.out ∈ before ∧ i.back = back := by
  unfold ended at ends
  split_ifs at ends
  obtain ⟨out, waits, rfl⟩ := Option.map_eq_some_iff.mp ends
  exact ⟨waiting_mem waits, rfl⟩

/-- The unsigned difference of two times is the length of the interval between them. -/
theorem Interval.duration (i : Interval) (ordered : i.out.ts ≤ i.back.ts) : (i.back.ts - i.out.ts).toNat = i.length :=
  UInt64.toNat_sub_of_le _ _ ordered

theorem switchOut_follows {offcpu_start : OffcpuKey → Option OffcpuVal} (follows : Follows offcpu_start switches)
    (ctx : Switch) (key : OffcpuKey) : switchOut offcpu_start ctx key =
      if key.pid = key.tid ∧ key.tid ≠ 0 then
        if ctx.prev_pid = key.tid then some ctx.left else (waiting switches key.tid).map Switch.left
      else none := by
  obtain ⟨pid, tid⟩ := key
  have before := follows ⟨pid, tid⟩
  dsimp only at before ⊢
  unfold switchOut
  by_cases task : ctx.prev_pid ≠ 0
  · rw [if_pos task]
    by_cases here : pid = ctx.prev_pid ∧ tid = ctx.prev_pid
    · obtain ⟨rfl, rfl⟩ := here
      rw [Function.update_self, if_pos ⟨rfl, task⟩, if_pos rfl]
    · have other : OffcpuKey.mk pid tid ≠ ⟨ctx.prev_pid, ctx.prev_pid⟩ := by
        intro same
        cases same
        exact here ⟨rfl, rfl⟩
      rw [Function.update_of_ne other, before]
      split_ifs with own mine
      · exact absurd ⟨own.1.trans mine.symm, mine.symm⟩ here
      · rfl
      · rfl
  · rw [if_neg task, before]
    split_ifs with own mine
    · exact absurd (mine ▸ own.2) task
    · rfl
    · rfl

/-- The probe keeps the map, and sends an event for an interval that has lasted long enough. -/
theorem switchIn_follows (min_duration_ns : UInt64) {offcpu_start : OffcpuKey → Option OffcpuVal}
    (follows : Follows offcpu_start switches) {ctx : Switch} (moves : ctx.prev_pid ≠ ctx.next_pid)
    (past : ∀ earlier ∈ switches, earlier.ts ≤ ctx.ts) :
    Follows (switchIn min_duration_ns (switchOut offcpu_start ctx) ctx).1 (switches ++ [ctx]) ∧
      (switchIn min_duration_ns (switchOut offcpu_start ctx) ctx).2 =
        ((ended switches ctx).filter fun i => min_duration_ns.toNat ≤ i.length).map Interval.event := by
  have out := switchOut_follows follows ctx
  have unmoved : ctx.next_pid = 0 ∨ waiting switches ctx.next_pid = none →
      Follows (switchOut offcpu_start ctx) (switches ++ [ctx]) := by
    rintro still ⟨pid, tid⟩
    rw [out, waiting_snoc]
    dsimp only
    split_ifs with own left back
    · rfl
    · rcases still with idle | gone
      · exact absurd (back ▸ idle) own.2
      · rw [← back, gone]
    · rfl
    · rfl
  have cleared : ctx.next_pid ≠ 0 → Follows (Function.update (switchOut offcpu_start ctx)
      ⟨ctx.next_pid, ctx.next_pid⟩ none) (switches ++ [ctx]) := by
    rintro task ⟨pid, tid⟩
    rw [waiting_snoc]
    dsimp only
    by_cases here : pid = ctx.next_pid ∧ tid = ctx.next_pid
    · obtain ⟨rfl, rfl⟩ := here
      rw [Function.update_self, if_pos ⟨rfl, task⟩, if_neg moves, if_pos rfl]
      rfl
    · have other : OffcpuKey.mk pid tid ≠ ⟨ctx.next_pid, ctx.next_pid⟩ := by
        intro same
        cases same
        exact here ⟨rfl, rfl⟩
      rw [Function.update_of_ne other, out]
      dsimp only
      split_ifs with own left back
      · rfl
      · exact absurd ⟨own.1.trans back.symm, back.symm⟩ here
      · rfl
      · rfl
  unfold switchIn
  by_cases idle : ctx.next_pid = 0
  · rw [if_pos idle, ended, if_pos idle]
    exact ⟨unmoved (Or.inl idle), rfl⟩
  · have found : switchOut offcpu_start ctx ⟨ctx.next_pid, ctx.next_pid⟩ =
        (waiting switches ctx.next_pid).map Switch.left := by
      rw [out, if_pos ⟨rfl, idle⟩, if_neg moves]
    rw [if_neg idle, ended, if_neg idle, found]
    cases waits : waiting switches ctx.next_pid with
    | none => exact ⟨unmoved (Or.inr waits), rfl⟩
    | some start =>
      have ordered : start.ts ≤ ctx.ts := past start (waiting_mem waits)
      have lasted : (ctx.ts - start.ts).toNat = Interval.length ⟨start, ctx⟩ := Interval.duration ⟨start, ctx⟩ ordered
      have shorter : ctx.ts - start.left.timestamp_ns < min_duration_ns ↔
          Interval.length ⟨start, ctx⟩ < min_duration_ns.toNat := by
        rw [← lasted]
        exact UInt64.lt_iff_toNat_lt
      rw [Option.map_some, Option.map_some]
      dsimp only
      by_cases short : ctx.ts - start.left.timestamp_ns < min_duration_ns
      · rw [if_pos short, Option.filter_some_neg (by simpa using shorter.mp short)]
        exact ⟨cleared idle, rfl⟩
      · rw [if_neg short, Option.filter_some_pos (by simpa using fun long => short (shorter.mpr long))]
        exact ⟨cleared idle, rfl⟩

end OffcpuProfiler

end Illuminator
