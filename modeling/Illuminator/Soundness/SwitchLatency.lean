import Illuminator.Machine.Histories
import Illuminator.Model.SchedEvents
import Mathlib.Data.List.Basic

/-! # The latency of a switch

Every event for which there is room reaches the pipeline once and in order, unless it is taken before the callback is
installed. The latency of a switch is the time since the task was woken, if it was woken since it last got a CPU. It is
something else only after a switch to the task whose event was lost, or after a wakeup for which the table had no room.
-/

namespace Illuminator

namespace SchedTracer

open SchedAnalyzer (IlSchedEvent Wakeup Switch wakeupEvent switchEvent)
open Histories (Since not_since_nil since_concat)

variable {D : Type} {pid : UInt32} {history : List Act} {action : Act}

/-- When a task was woken, if it was since it last got a CPU. -/
def waitingSince (pid : UInt32) (since : Option ℕ) : Act → Option ℕ
  | .wakeup ctx ts _ _ => if ctx.pid = pid then some ts else since
  | .switch ctx _ _ => if ctx.next_pid = pid then none else since
  | .SetCallback => since
  | .poll _ => since

def waiting (history : List Act) (pid : UInt32) : Option ℕ := history.foldl (waitingSince pid) none

/-- When a task was woken, by the note that the table has of it. -/
def notedSince (pid : UInt32) (since : Option ℕ) : Act → Option ℕ
  | .wakeup ctx ts admitted _ => if ctx.pid = pid ∧ (admitted = true ∨ since ≠ none) then some ts else since
  | .switch ctx _ reserved => if ctx.next_pid = pid ∧ reserved = true then none else since
  | .SetCallback => since
  | .poll _ => since

def noted (history : List Act) (pid : UInt32) : Option ℕ := history.foldl (notedSince pid) none

/-- The task is switched to, and there is no room for the event. -/
def Lost (pid : UInt32) : Act → Prop
  | .switch ctx _ reserved => ctx.next_pid = pid ∧ reserved = false
  | _ => False

/-- The task is woken, and there is no room for a task that the table does not hold. -/
def Refused (pid : UInt32) : Act → Prop
  | .wakeup ctx _ admitted _ => ctx.pid = pid ∧ admitted = false
  | _ => False

def Wakes (pid : UInt32) : Act → Prop
  | .wakeup ctx _ _ _ => ctx.pid = pid
  | _ => False

def SwitchesTo (pid : UInt32) : Act → Prop
  | .switch ctx _ _ => ctx.next_pid = pid
  | _ => False

/-- A switch to the task was lost while there was a note, and nothing has touched the note since. -/
def Stale (history : List Act) (pid : UInt32) : Prop :=
  Since (fun before action => Lost pid action ∧ noted before pid ≠ none)
    (fun later => ¬ Wakes pid later ∧ (SwitchesTo pid later → Lost pid later)) history

/-- A wakeup of the task was refused, and it was neither woken nor switched to since. -/
def Missed (history : List Act) (pid : UInt32) : Prop :=
  Since (fun before action => Refused pid action ∧ noted before pid = none)
    (fun later => ¬ Wakes pid later ∧ ¬ SwitchesTo pid later) history

theorem run_concat (D : Type) (history : List Act) (action : Act) :
    run D (history ++ [action]) = act (run D history) action := List.foldl_concat ..

theorem waiting_concat (history : List Act) (action : Act) (pid : UInt32) :
    waiting (history ++ [action]) pid = waitingSince pid (waiting history pid) action := List.foldl_concat ..

theorem noted_concat (history : List Act) (action : Act) (pid : UInt32) :
    noted (history ++ [action]) pid = notedSince pid (noted history pid) action := List.foldl_concat ..

/-! ## The table -/

private theorem wakeup_ts_update_elem (m : Maps) (ctx : Wakeup) (ts : ℕ) (admitted reserved : Bool) :
    (m.update_elem ctx.pid ts admitted).wakeup_ts pid =
      notedSince pid (m.wakeup_ts pid) (.wakeup ctx ts admitted reserved) := by
  change _ = if ctx.pid = pid ∧ (admitted = true ∨ m.wakeup_ts pid ≠ none) then some ts else m.wakeup_ts pid
  unfold Maps.update_elem
  by_cases own : ctx.pid = pid
  · subst own
    simp only [true_and, Bool.or_eq_true, Option.isSome_iff_ne_none]
    split_ifs
    · exact Function.update_self ..
    · rfl
  · rw [if_neg (c := ctx.pid = pid ∧ _) fun both => own both.1]
    split_ifs
    · exact Function.update_of_ne (Ne.symm own) ..
    · rfl

private theorem wakeup_ts_wakeup (m : Maps) (ctx : Wakeup) (ts : ℕ) (admitted reserved : Bool) :
    (trace_sched_wakeup m ctx ts admitted reserved).wakeup_ts pid =
      notedSince pid (m.wakeup_ts pid) (.wakeup ctx ts admitted reserved) := by
  rw [← wakeup_ts_update_elem]
  unfold trace_sched_wakeup
  cases reserved <;> rfl

private theorem wakeup_ts_switch (m : Maps) (ctx : Switch) (ts : ℕ) (reserved : Bool) :
    (trace_sched_switch m ctx ts reserved).wakeup_ts pid =
      notedSince pid (m.wakeup_ts pid) (.switch ctx ts reserved) := by
  change _ = if ctx.next_pid = pid ∧ reserved = true then none else m.wakeup_ts pid
  unfold trace_sched_switch
  cases reserved with
  | false => rw [if_pos rfl, if_neg fun both => Bool.false_ne_true both.2]
  | true =>
    rw [if_neg (by decide)]
    by_cases own : ctx.next_pid = pid
    · subst own
      rw [if_pos ⟨rfl, rfl⟩]
      exact Function.update_self ..
    · rw [if_neg fun both => own both.1]
      exact Function.update_of_ne (Ne.symm own) ..

theorem wakeup_ts_run (D : Type) (history : List Act) (pid : UInt32) :
    (run D history).maps.wakeup_ts pid = noted history pid := by
  induction history using List.reverseRecOn with
  | nil => rfl
  | append_singleton before action ih =>
    rw [run_concat, noted_concat, ← ih]
    cases action with
    | wakeup ctx ts admitted reserved => exact wakeup_ts_wakeup ..
    | switch ctx ts reserved => exact wakeup_ts_switch ..
    | SetCallback => rfl
    | poll now =>
      unfold act
      cases (run D before).maps.sched_events <;> rfl

/-! ## Notes and waits -/

theorem stale_concat : Stale (history ++ [action]) pid ↔ (Lost pid action ∧ noted history pid ≠ none) ∨
    Stale history pid ∧ ¬ Wakes pid action ∧ (SwitchesTo pid action → Lost pid action) := since_concat

theorem missed_concat : Missed (history ++ [action]) pid ↔ (Refused pid action ∧ noted history pid = none) ∨
    Missed history pid ∧ ¬ Wakes pid action ∧ ¬ SwitchesTo pid action := since_concat

/-- The note of a task is its wait, or was left over by a lost switch, or is missing after a refused wakeup. -/
inductive Accounted (history : List Act) (pid : UInt32) : Prop
  | exact (same : noted history pid = waiting history pid) (kept : ¬ Stale history pid) (heard : ¬ Missed history pid)
  | stale (note : noted history pid ≠ none) (gone : waiting history pid = none) (lost : Stale history pid)
  | missed (note : noted history pid = none) (waits : waiting history pid ≠ none) (kept : ¬ Stale history pid)
    (refused : Missed history pid)

private theorem accounted_quiet (quiet : ¬ Wakes pid action ∧ ¬ SwitchesTo pid action)
    (accounted : Accounted history pid) (note : noted (history ++ [action]) pid = noted history pid)
    (wait : waiting (history ++ [action]) pid = waiting history pid) (dull : ¬ Lost pid action ∧ ¬ Refused pid action) :
    Accounted (history ++ [action]) pid := by
  have stays : Stale (history ++ [action]) pid ↔ Stale history pid := by
    rw [stale_concat]
    tauto
  have misses : Missed (history ++ [action]) pid ↔ Missed history pid := by
    rw [missed_concat]
    tauto
  cases accounted with
  | exact same kept heard => exact .exact (by rw [note, wait, same]) (mt stays.mp kept) (mt misses.mp heard)
  | stale noted gone lost => exact .stale (by rwa [note]) (by rwa [wait]) (stays.mpr lost)
  | missed noted waits kept refused =>
    exact .missed (by rwa [note]) (by rwa [wait]) (mt stays.mp kept) (misses.mpr refused)

private theorem accounted_wakeup (ctx : Wakeup) (ts : ℕ) (admitted reserved : Bool) (own : ctx.pid = pid) :
    Accounted (history ++ [.wakeup ctx ts admitted reserved]) pid := by
  have wait : waiting (history ++ [.wakeup ctx ts admitted reserved]) pid = some ts := by
    rw [waiting_concat]
    exact if_pos own
  have note : noted (history ++ [.wakeup ctx ts admitted reserved]) pid =
      if ctx.pid = pid ∧ (admitted = true ∨ noted history pid ≠ none) then some ts else noted history pid :=
    noted_concat ..
  have kept : ¬ Stale (history ++ [.wakeup ctx ts admitted reserved]) pid := fun lost => by
    rcases stale_concat.mp lost with ⟨lost, -⟩ | ⟨-, other, -⟩
    · exact lost
    · exact other own
  by_cases held : admitted = true ∨ noted history pid ≠ none
  · rw [if_pos ⟨own, held⟩] at note
    refine .exact (by rw [note, wait]) kept (fun refused => ?_)
    rcases missed_concat.mp refused with ⟨⟨-, refused⟩, empty⟩ | ⟨-, other, -⟩
    · exact held.elim (by rw [refused]; exact Bool.false_ne_true) (absurd empty)
    · exact other own
  · rw [if_neg fun both => held both.2] at note
    rw [not_or, Bool.not_eq_true, not_not] at held
    refine .missed (by rw [note, held.2]) (by rw [wait]; exact Option.some_ne_none ts) kept ?_
    exact missed_concat.mpr (Or.inl ⟨⟨own, held.1⟩, held.2⟩)

private theorem accounted_switch (ctx : Switch) (ts : ℕ) (reserved : Bool) (own : ctx.next_pid = pid)
    (accounted : Accounted history pid) : Accounted (history ++ [.switch ctx ts reserved]) pid := by
  have wait : waiting (history ++ [.switch ctx ts reserved]) pid = none := by
    rw [waiting_concat]
    exact if_pos own
  have note : noted (history ++ [.switch ctx ts reserved]) pid =
      if ctx.next_pid = pid ∧ reserved = true then none else noted history pid := noted_concat ..
  have heard : ¬ Missed (history ++ [.switch ctx ts reserved]) pid := fun refused => by
    rcases missed_concat.mp refused with ⟨refused, -⟩ | ⟨-, -, other⟩
    · exact refused
    · exact other own
  cases reserved with
  | true =>
    rw [if_pos ⟨own, rfl⟩] at note
    refine .exact (by rw [note, wait]) (fun lost => ?_) heard
    rcases stale_concat.mp lost with ⟨⟨-, lost⟩, -⟩ | ⟨-, -, lost⟩
    · exact Bool.false_ne_true lost.symm
    · exact Bool.false_ne_true (lost own).2.symm
  | false =>
    rw [if_neg fun both => Bool.false_ne_true both.2] at note
    by_cases empty : noted history pid = none
    · refine .exact (by rw [note, wait, empty]) (fun lost => ?_) heard
      rcases stale_concat.mp lost with ⟨-, present⟩ | ⟨lost, -⟩
      · exact present empty
      · cases accounted with
        | exact same kept heard => exact kept lost
        | stale present gone lost => exact present empty
        | missed empty waits kept refused => exact kept lost
    · exact .stale (by rwa [note]) wait (stale_concat.mpr (Or.inl ⟨⟨own, rfl⟩, empty⟩))

theorem accounted (history : List Act) (pid : UInt32) : Accounted history pid := by
  induction history using List.reverseRecOn with
  | nil => exact .exact rfl not_since_nil not_since_nil
  | append_singleton before action ih =>
    cases action with
    | wakeup ctx ts admitted reserved =>
      by_cases own : ctx.pid = pid
      · exact accounted_wakeup ctx ts admitted reserved own
      · refine accounted_quiet ⟨own, id⟩ ih ?_ ?_ ⟨id, fun refused => own refused.1⟩
        · rw [noted_concat]
          exact if_neg fun both => own both.1
        · rw [waiting_concat]
          exact if_neg own
    | switch ctx ts reserved =>
      by_cases own : ctx.next_pid = pid
      · exact accounted_switch ctx ts reserved own ih
      · refine accounted_quiet ⟨id, own⟩ ih ?_ ?_ ⟨fun lost => own lost.1, id⟩
        · rw [noted_concat]
          exact if_neg fun both => own both.1
        · rw [waiting_concat]
          exact if_neg own
    | SetCallback => exact accounted_quiet ⟨id, id⟩ ih (noted_concat ..) (waiting_concat ..) ⟨id, id⟩
    | poll now => exact accounted_quiet ⟨id, id⟩ ih (noted_concat ..) (waiting_concat ..) ⟨id, id⟩

/-- What a probe puts into the ring buffer. -/
def submits (before : List Act) : Act → List IlSchedEvent
  | .wakeup ctx ts _ reserved => if reserved then [wakeupEvent ctx ts] else []
  | .switch ctx ts reserved =>
    if reserved then [switchEvent ctx ts (latency_ns (noted before ctx.next_pid) ts)] else []
  | .SetCallback => []
  | .poll _ => []

def submitted : List Act → List Act → List IlSchedEvent
  | _, [] => []
  | before, action :: after => submits before action ++ submitted (before ++ [action]) after

private theorem sched_events_wakeup (m : Maps) (ctx : Wakeup) (ts : ℕ) (admitted reserved : Bool) :
    (trace_sched_wakeup m ctx ts admitted reserved).sched_events =
      m.sched_events ++ if reserved then [wakeupEvent ctx ts] else [] := by
  unfold trace_sched_wakeup Maps.update_elem
  cases reserved <;> split_ifs <;> simp

private theorem sched_events_switch (m : Maps) (ctx : Switch) (ts : ℕ) (reserved : Bool) :
    (trace_sched_switch m ctx ts reserved).sched_events = m.sched_events ++
      if reserved then [switchEvent ctx ts (latency_ns (m.wakeup_ts ctx.next_pid) ts)] else [] := by
  unfold trace_sched_switch
  cases reserved <;> simp

theorem submitted_concat (before after : List Act) (action : Act) :
    submitted before (after ++ [action]) = submitted before after ++ submits (before ++ after) action := by
  induction after generalizing before with
  | nil => simp [submitted]
  | cons first after ih =>
    change submits before first ++ submitted _ (after ++ [action]) = _
    rw [ih, ← List.append_assoc, List.append_assoc before, List.singleton_append]
    rfl

/-- The callback was there when something was first taken out of the ring buffer. -/
def Prompt (history : List Act) : Prop :=
  ∀ before now after, history = before ++ .poll now :: after → .SetCallback ∈ before

theorem Prompt.before (prompt : Prompt (history ++ [action])) : Prompt history := by
  rintro before now after rfl
  exact prompt before now (after ++ [action]) (by simp)

theorem callback_run (D : Type) (history : List Act) : (run D history).callback_ = true ↔ .SetCallback ∈ history := by
  induction history using List.reverseRecOn with
  | nil => simp [run]
  | append_singleton before action ih =>
    rw [run_concat, List.mem_append, List.mem_singleton, ← ih]
    cases action with
    | wakeup => simp [act]
    | switch => simp [act]
    | SetCallback => simp [act]
    | poll now =>
      unfold act
      cases (run D before).maps.sched_events <;> simp

/-- What is put into the ring buffer is passed over, handed on in a batch or still there, in this order. -/
structure Delivered (D : Type) (history : List Act) (unheard : List IlSchedEvent)
    (heard : List (IlSchedEvent × Timestamp)) : Prop where
  conserved : submitted [] history = unheard ++ heard.map Prod.fst ++ (run D history).maps.sched_events
  batches : (run D history).batches = heard.map fun taken => batchOf D taken.1 taken.2
  silent : .SetCallback ∉ history → heard = []
  prompt : Prompt history → unheard = []

section Delivery

variable {unheard : List IlSchedEvent} {heard : List (IlSchedEvent × Timestamp)}

private theorem delivered_submits (delivered : Delivered D history unheard heard)
    (pushed : (act (run D history) action).maps.sched_events =
      (run D history).maps.sched_events ++ submits history action)
    (handed : (act (run D history) action).batches = (run D history).batches) :
    Delivered D (history ++ [action]) unheard heard where
  conserved := by rw [submitted_concat, delivered.conserved, run_concat, pushed, List.nil_append, List.append_assoc]
  batches := by rw [run_concat, handed, delivered.batches]
  silent unset := delivered.silent fun set => unset (List.mem_append_left _ set)
  prompt early := delivered.prompt early.before

private theorem submitted_poll (history : List Act) (now : Timestamp) :
    submitted [] (history ++ [.poll now]) = submitted [] history := by
  rw [submitted_concat]
  exact List.append_nil _

private theorem delivered_heard {event : IlSchedEvent} {rest : List IlSchedEvent} (now : Timestamp)
    (delivered : Delivered D history unheard heard) (waits : (run D history).maps.sched_events = event :: rest)
    (set : .SetCallback ∈ history) : Delivered D (history ++ [.poll now]) unheard (heard ++ [(event, now)]) where
  conserved := by
    rw [submitted_poll, delivered.conserved, run_concat, act, waits]
    simp
  batches := by
    rw [run_concat, act, waits, (callback_run D history).mpr set, delivered.batches]
    simp [HandleEvent]
  silent unset := absurd (List.mem_append_left _ set) unset
  prompt early := delivered.prompt early.before

private theorem delivered_unheard {event : IlSchedEvent} {rest : List IlSchedEvent} (now : Timestamp)
    (delivered : Delivered D history unheard heard) (waits : (run D history).maps.sched_events = event :: rest)
    (unset : .SetCallback ∉ history) : Delivered D (history ++ [.poll now]) (unheard ++ [event]) heard where
  conserved := by
    rw [submitted_poll, delivered.conserved, run_concat, act, waits, delivered.silent unset]
    simp
  batches := by
    have absent : (run D history).callback_ = false := by
      rw [← Bool.not_eq_true]
      exact mt (callback_run D history).mp unset
    rw [run_concat, act, waits, absent, delivered.batches]
    simp [HandleEvent]
  silent _ := delivered.silent unset
  prompt early := absurd (early history now [] rfl) unset

end Delivery

theorem delivered (D : Type) (history : List Act) : ∃ unheard heard, Delivered D history unheard heard := by
  induction history using List.reverseRecOn with
  | nil => exact ⟨[], [], rfl, rfl, fun _ => rfl, fun _ => rfl⟩
  | append_singleton before action ih =>
    obtain ⟨unheard, heard, delivered⟩ := ih
    cases action with
    | wakeup ctx ts admitted reserved =>
      exact ⟨unheard, heard, delivered_submits delivered (sched_events_wakeup ..) rfl⟩
    | switch ctx ts reserved =>
      refine ⟨unheard, heard, delivered_submits delivered ?_ rfl⟩
      rw [submits, ← wakeup_ts_run D]
      exact sched_events_switch ..
    | SetCallback => exact ⟨unheard, heard, delivered_submits delivered (List.append_nil _).symm rfl⟩
    | poll now =>
      cases waits : (run D before).maps.sched_events with
      | nil =>
        have idle : act (run D before) (.poll now) = run D before := by rw [act, waits]
        refine ⟨unheard, heard, delivered_submits delivered ?_ (by rw [idle])⟩
        rw [idle]
        exact (List.append_nil _).symm
      | cons event rest =>
        by_cases set : .SetCallback ∈ before
        · exact ⟨unheard, _, delivered_heard now delivered waits set⟩
        · exact ⟨_, heard, delivered_unheard now delivered waits set⟩

end SchedTracer

end Illuminator
