import Illuminator.Model.CpuProfiler
import Mathlib.Algebra.BigOperators.Group.List.Basic

/-! # How often a sample is counted

A sample is counted once as long as it is not handed out: `Collect` leaves in the map what it returns,
and a batch that the aggregation thread has cached is returned by every later `Collect`. Without a
callback the map is never cleared, and the counts are right exactly when nothing has been returned.
-/

namespace Illuminator

namespace CpuProfiler

open Interleaving

variable {τ : Type*} {key : IlStackKey} {config : Config} {s t : Shared} {pc after : Pc} {choice : Choice} {event : Event}

/-- What a batch counts for a stack. -/
def counted (key : IlStackKey) (batch : List CountedStack) : ℕ :=
  (batch.map fun sample => if sample.key = key then sample.count else 0).sum

def Event.handed : Event → List CountedStack
  | .returned batch => batch
  | _ => []

/-- What all batches returned by `Collect` count for a stack. -/
def returnedCount (key : IlStackKey) (history : List (τ × Event)) : ℕ :=
  (history.map fun entry => counted key entry.2.handed).sum

def sampledCount (key : IlStackKey) (history : List (τ × Event)) : ℕ :=
  (history.map fun entry => if entry.2 = .sampled key then 1 else 0).sum

def Shared.held (s : Shared) (key : IlStackKey) : ℕ := (s.stack_counts key).getD 0

/-- Each sample of a stack is in one returned batch, or still in the map. -/
def CountedOnce (key : IlStackKey) (history : List (τ × Event)) (s : Shared) : Prop :=
  returnedCount key history + s.held key = sampledCount key history

/-- No `Collect` is about to hand out what it leaves in the map or in the cache, and no flush is about to
delete what has not been handed out. -/
def Unread (key : IlStackKey) (s : Shared) : Pc → Prop
  | .idle => counted key (s.last_batch_.getD []) = 0
  | .looking .collect (k :: _) _ => k = key → s.stack_counts key = none
  | .deleting to_delete _ _ => to_delete = key → s.stack_counts key = none
  | _ => True

instance (key : IlStackKey) (s : Shared) (pc : Pc) : Decidable (Unread key s pc) := by
  unfold Unread
  split <;> infer_instance

/-- The batch that a `Collect` in progress will return. -/
def Pc.collecting : Pc → List CountedStack
  | .looking .collect _ batch => batch
  | _ => []

theorem counted_append (key : IlStackKey) (first second : List CountedStack) :
    counted key (first ++ second) = counted key first + counted key second := by
  rw [counted, List.map_append, List.sum_append]
  rfl

theorem stack_counts_sample (s : Shared) (sampled : IlStackKey) :
    (on_cpu_sample s sampled).stack_counts = Function.update s.stack_counts sampled (some (s.held sampled + 1)) := by
  unfold on_cpu_sample Shared.held
  cases s.stack_counts sampled <;> rfl

theorem held_sample (s : Shared) (key sampled : IlStackKey) :
    (on_cpu_sample s sampled).held key = s.held key + if sampled = key then 1 else 0 := by
  rw [Shared.held, stack_counts_sample]
  by_cases same : sampled = key
  · rw [if_pos same, same, Function.update_self, Option.getD_some]
  · rw [if_neg same, Function.update_of_ne (Ne.symm same), Nat.add_zero, Shared.held]

theorem held_delete (s : Shared) {key deleted : IlStackKey} (absent : deleted = key → s.stack_counts key = none) :
    (s.delete deleted).held key = s.held key := by
  unfold Shared.delete Shared.held
  by_cases same : deleted = key
  · rw [absent same]
    subst same
    exact congrArg (Option.getD · 0) (Function.update_self ..)
  · exact congrArg (Option.getD · 0) (Function.update_of_ne (Ne.symm same) ..)

private theorem quiet_unsampled : Event.quiet ≠ .sampled key := by
  intro same
  cases same

private theorem held_of_same (same : t.stack_counts = s.stack_counts) (unsampled : event ≠ .sampled key) :
    t.held key = s.held key + if event = .sampled key then 1 else 0 := by
  rw [if_neg unsampled, Nat.add_zero, Shared.held, same, Shared.held]

/-- A step adds to the map what it samples, unless it deletes what the map holds. -/
theorem act_held (kept : ∀ to_delete next batch, pc = .deleting to_delete next batch → to_delete = key →
    s.stack_counts key = none) (acts : act config s pc choice = some (t, after, event)) :
    t.held key = s.held key + if event = .sampled key then 1 else 0 := by
  unfold act at acts
  split at acts
  · next sampled =>
    cases acts
    rw [held_sample]
    simp only [Event.sampled.injEq]
  · unfold Collect at acts
    split at acts
    · cases acts
    split at acts
    · cases acts
      exact held_of_same rfl (by intro same; cases same)
    · split_ifs at acts <;> cases acts <;> exact held_of_same rfl (by intro same; cases same)
  · split_ifs at acts <;> cases acts <;> exact held_of_same rfl quiet_unsampled
  · split_ifs at acts
    cases acts
    exact held_of_same rfl quiet_unsampled
  · cases acts
    exact held_of_same rfl quiet_unsampled
  · next purpose batch =>
    cases purpose <;> cases acts <;> exact held_of_same rfl (by intro same; cases same)
  · split at acts <;> cases acts <;> exact held_of_same rfl quiet_unsampled
  · split_ifs at acts
    cases acts
    exact held_of_same rfl quiet_unsampled
  · split_ifs at acts
    cases acts
    exact held_of_same rfl quiet_unsampled
  · next to_delete next batch =>
    cases acts
    rw [if_neg quiet_unsampled, Nat.add_zero]
    exact held_delete s (kept to_delete next batch rfl)
  · cases acts
    exact held_of_same rfl quiet_unsampled
  · split_ifs at acts
    cases acts
    exact held_of_same rfl (by intro same; cases same)
  · cases acts

/-- What is not read is neither handed out nor kept to be handed out. -/
theorem act_unread (unread : Unread key s pc) (unseen : counted key pc.collecting = 0)
    (acts : act config s pc choice = some (t, after, event)) :
    counted key after.collecting = 0 ∧ counted key event.handed = 0 := by
  unfold act at acts
  split at acts
  · cases acts
    exact ⟨rfl, rfl⟩
  · unfold Collect at acts
    split at acts
    · cases acts
    split at acts
    · next sample rest cached =>
      cases acts
      change counted key (s.last_batch_.getD []) = 0 at unread
      rw [cached] at unread
      exact ⟨rfl, unread⟩
    · split_ifs at acts <;> cases acts <;> exact ⟨rfl, rfl⟩
  · split_ifs at acts <;> cases acts <;> exact ⟨rfl, rfl⟩
  · split_ifs at acts
    cases acts
    exact ⟨rfl, rfl⟩
  · next purpose keys =>
    cases acts
    cases purpose <;> exact ⟨rfl, rfl⟩
  · next purpose batch =>
    cases purpose <;> cases acts
    · exact ⟨rfl, unseen⟩
    · exact ⟨rfl, rfl⟩
  · next purpose k keys batch =>
    cases purpose with
    | flush => split at acts <;> cases acts <;> exact ⟨rfl, rfl⟩
    | collect =>
      split at acts
      · cases acts
        exact ⟨unseen, rfl⟩
      · next count present =>
        cases acts
        have other : k ≠ key := by
          intro same
          have absent : s.stack_counts key = none := unread same
          rw [← same, present] at absent
          cases absent
        have alone : counted key [stackSample config k count] = 0 := if_neg other
        refine ⟨?_, rfl⟩
        change counted key (batch ++ _) = 0
        rw [counted_append, alone]
        exact unseen
  · next batch key =>
    split_ifs at acts
    cases acts
    cases key <;> exact ⟨rfl, rfl⟩
  · split_ifs at acts
    cases acts
    exact ⟨rfl, rfl⟩
  · next to_delete next batch =>
    cases acts
    cases next <;> exact ⟨rfl, rfl⟩
  · cases acts
    exact ⟨rfl, rfl⟩
  · split_ifs at acts
    cases acts
    exact ⟨rfl, rfl⟩
  · cases acts

theorem returnedCount_snoc (history : List (τ × Event)) (thread : τ) (event : Event) :
    returnedCount key (history ++ [(thread, event)]) = returnedCount key history + counted key event.handed := by
  rw [returnedCount, List.map_append, List.sum_append, List.map_singleton, List.sum_singleton]
  rfl

theorem sampledCount_snoc (history : List (τ × Event)) (thread : τ) (event : Event) :
    sampledCount key (history ++ [(thread, event)]) =
      sampledCount key history + if event = .sampled key then 1 else 0 := by
  rw [sampledCount, List.map_append, List.sum_append, List.map_singleton, List.sum_singleton]
  rfl

variable {Cpu Caller : Type*} [DecidableEq Cpu] [DecidableEq Caller] {callback_ : Bool}
  {history : List ((Cpu ⊕ Option Caller) × Event)} {target : State Shared Pc (Cpu ⊕ Option Caller)}

/-- In a run in which no sample of a stack is handed out or thrown away, every sample is counted once. -/
theorem countedOnce_of_unread (conditional : (program config).RunWhere
    (fun s thread => Unread key s.shared (s.pc thread)) (start Cpu Caller callback_) history target) :
    CountedOnce key history target.shared := by
  have books := conditional.invariant (fun history s => returnedCount key history = 0 ∧
    s.shared.held key = sampledCount key history ∧ ∀ thread, counted key (s.pc thread).collecting = 0) ?_ ?_
  · rw [CountedOnce, books.1, books.2.1, Nat.zero_add]
  · refine ⟨rfl, rfl, fun thread => ?_⟩
    cases thread with
    | inl cpu => rfl
    | inr caller => cases caller <;> rfl
  · rintro history s thread choice shared pc event - ⟨returned, held, unseen⟩ unread enabled
    obtain ⟨collecting, handed⟩ := act_unread unread (unseen thread) enabled
    refine ⟨?_, ?_, State.forall_move (fun _ (pc : Pc) => counted key pc.collecting = 0) (fun t _ => unseen t)
      collecting⟩
    · rw [returnedCount_snoc, returned, handed]
    · rw [State.move_shared, act_held ?_ enabled, held, sampledCount_snoc]
      intro to_delete next batch here
      rw [here] at unread
      exact unread

/-- Two samples of a stack that no `Collect` has looked at. -/
theorem countedOnce_of_unread_sample : ∃ history target,
    (program {}).RunWhere (fun s thread => Unread ⟨7, 7, 1, 2, []⟩ s.shared (s.pc thread)) (start Unit Unit false)
      history target ∧ sampledCount ⟨7, 7, 1, 2, []⟩ history = 2 ∧ CountedOnce ⟨7, 7, 1, 2, []⟩ history target.shared := by
  obtain ⟨history, target, conditional, two⟩ := Program.exists_runWhere_of_check (program {})
    (fun s thread => Unread ⟨7, 7, 1, 2, []⟩ s.shared (s.pc thread)) (start Unit Unit false)
    (fun _ history => sampledCount ⟨7, 7, 1, 2, []⟩ history = 2)
    [(.inr (some ()), .go), (.inr (some ()), .next none), (.inl (), .sample ⟨7, 7, 1, 2, []⟩),
      (.inr none, .go), (.inr (some ()), .go), (.inl (), .sample ⟨7, 7, 1, 2, []⟩)] (by decide)
  exact ⟨history, target, conditional, two, countedOnce_of_unread conditional⟩

/-- In pull mode a `Collect` returns a sample and leaves it in the map. -/
theorem sample_counted_twice : ¬ ∀ history target, (program {}).Run (start Unit Unit false) history target →
    CountedOnce ⟨7, 7, 1, 2, []⟩ history target.shared := by
  intro always
  obtain ⟨history, target, run, returned, held, sampled⟩ := Program.exists_run_of_check (program {})
    (start Unit Unit false) (fun s history => returnedCount ⟨7, 7, 1, 2, []⟩ history = 1 ∧
      s.shared.held ⟨7, 7, 1, 2, []⟩ = 1 ∧ sampledCount ⟨7, 7, 1, 2, []⟩ history = 1)
    [(.inl (), .sample ⟨7, 7, 1, 2, []⟩), (.inr (some ()), .go), (.inr (some ()), .next (some ⟨7, 7, 1, 2, []⟩)),
      (.inr (some ()), .next none), (.inr (some ()), .go), (.inr (some ()), .go)] (by decide)
  have once : CountedOnce ⟨7, 7, 1, 2, []⟩ history target.shared := always history target run
  rw [CountedOnce, returned, held, sampled] at once
  cases once

/-! ## Without a callback -/

/-- The thread is clearing the map, or has taken a snapshot to clear it after. -/
def Pc.flushing : Pc → Bool
  | .listing .flush _ => true
  | .looking .flush _ _ => true
  | .clearing _ => true
  | .advancing _ _ => true
  | .deleting _ _ _ => true
  | .caching _ => true
  | _ => false

/-- Without a callback no thread starts to clear the map. -/
theorem act_pulls (pulls : s.callback_ = false) (steady : pc.flushing = false)
    (acts : act config s pc choice = some (t, after, event)) : t.callback_ = false ∧ after.flushing = false := by
  unfold act at acts
  split at acts
  · cases acts
    unfold on_cpu_sample
    split <;> exact ⟨pulls, rfl⟩
  · unfold Collect at acts
    split at acts
    · cases acts
    split at acts
    · cases acts
      exact ⟨pulls, rfl⟩
    · split_ifs at acts <;> cases acts <;> exact ⟨pulls, rfl⟩
  · rw [if_pos (Or.inr pulls)] at acts
    cases acts
    exact ⟨pulls, rfl⟩
  · next purpose keys key =>
    split_ifs at acts
    cases acts
    cases purpose
    · exact ⟨pulls, rfl⟩
    · cases steady
  · next purpose keys =>
    cases acts
    cases purpose
    · exact ⟨pulls, rfl⟩
    · cases steady
  · next purpose batch =>
    cases purpose
    · cases acts
      exact ⟨pulls, rfl⟩
    · cases steady
  · next purpose k keys batch =>
    cases purpose
    · split at acts <;> cases acts <;> exact ⟨pulls, rfl⟩
    · cases steady
  · cases steady
  · cases steady
  · cases steady
  · cases steady
  · cases steady
  · cases acts

/-- Without a callback the map holds every sample that was ever taken. -/
theorem held_eq_sampled (run : (program config).Run (start Cpu Caller false) history target) :
    target.shared.held key = sampledCount key history := by
  have books := run.invariant (fun history s => s.shared.held key = sampledCount key history ∧
    s.shared.callback_ = false ∧ ∀ thread, (s.pc thread).flushing = false) ?_ ?_
  · exact books.1
  · refine ⟨rfl, rfl, fun thread => ?_⟩
    cases thread with
    | inl cpu => rfl
    | inr caller => cases caller <;> rfl
  · rintro history s thread choice shared pc event ⟨held, pulls, steady⟩ enabled
    obtain ⟨still, flushing⟩ := act_pulls pulls (steady thread) enabled
    refine ⟨?_, still, State.forall_move (fun _ (pc : Pc) => pc.flushing = false) (fun t _ => steady t) flushing⟩
    rw [State.move_shared, act_held ?_ enabled, held, sampledCount_snoc]
    intro to_delete next batch here
    have away := steady thread
    rw [here] at away
    cases away

/-- In pull mode the samples of a stack are counted once exactly as long as none has been returned. -/
theorem countedOnce_iff_unreturned (run : (program config).Run (start Cpu Caller false) history target) :
    CountedOnce key history target.shared ↔ returnedCount key history = 0 := by
  rw [CountedOnce, held_eq_sampled run, Nat.add_eq_right]

end CpuProfiler

end Illuminator
