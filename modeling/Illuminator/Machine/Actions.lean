import Mathlib.Algebra.BigOperators.Group.List.Basic
import Mathlib.Algebra.GroupWithZero.Nat
import Mathlib.Data.List.Basic
import Mathlib.Data.Nat.Notation

/-! # Runs of actions

A system takes one action at a time, and each action is enabled in some states. What every action keeps
holds throughout a run. When the actions are paid for, each out of the cost of the state and a credit of
its own, a run is no longer than its credits allow; and where some action without credit is enabled in
every state short of a goal, such actions lead to the goal whatever their order.
-/

namespace Actions

variable {S A : Type*} {step : S → A → Option S} {source middle target : S} {action : A}
  {history first second : List A}

/-- A finite run with its actions in order. -/
inductive Run (step : S → A → Option S) (source : S) : List A → S → Prop
  | nil : Run step source [] source
  | snoc {history : List A} {middle target : S} {action : A} (prior : Run step source history middle)
      (next : step middle action = some target) : Run step source (history ++ [action]) target

theorem Run.append (left : Run step source first middle) (right : Run step middle second target) :
    Run step source (first ++ second) target := by
  induction right with
  | nil =>
    rw [List.append_nil]
    exact left
  | snoc _ next ih =>
    rw [← List.append_assoc]
    exact ih.snoc next

theorem Run.cons (next : step source action = some middle) (rest : Run step middle history target) :
    Run step source (action :: history) target :=
  (Run.nil.snoc next).append rest

/-- An invariant of the actions so far and the state, kept by every enabled action, holds throughout. -/
theorem Run.invariant (holds : List A → S → Prop) (initial : holds [] source)
    (preserved : ∀ {history : List A} {s t : S} {action : A}, holds history s → step s action = some t →
      holds (history ++ [action]) t)
    (run : Run step source history target) : holds history target := by
  induction run with
  | nil => exact initial
  | snoc _ next ih => exact preserved ih next

/-- An invariant of the state alone. -/
theorem Run.keeps {holds : S → Prop} (preserved : ∀ {s t : S} {action : A}, holds s → step s action = some t → holds t)
    (run : Run step source history target) (initial : holds source) : holds target :=
  run.invariant (fun _ => holds) initial fun before next => preserved before next


section Cost

variable {holds : S → Prop} {cost : S → ℕ} {credit : A → ℕ}

/-- Every action is paid for. -/
def Paid (step : S → A → Option S) (holds : S → Prop) (cost : S → ℕ) (credit : A → ℕ) : Prop :=
  ∀ {s t : S} {action : A}, holds s → step s action = some t → cost t + 1 ≤ cost s + credit action

theorem Run.bounded (preserved : ∀ {s t : S} {action : A}, holds s → step s action = some t → holds t)
    (paid : Paid step holds cost credit) (run : Run step source history target) (initial : holds source) :
    history.length + cost target ≤ cost source + (history.map credit).sum := by
  induction run with
  | nil => simp
  | @snoc history middle target action prior next ih =>
    have before := paid (prior.keeps preserved initial) next
    rw [List.length_append, List.length_singleton, List.map_append, List.sum_append, List.map_singleton,
      List.sum_singleton]
    omega

/-- While the goal is not reached, some action without credit is enabled. -/
theorem exists_run_to (goal : S → Prop) (preserved : ∀ {s t : S} {action : A}, holds s → step s action = some t → holds t)
    (paid : Paid step holds cost credit)
    (enabled : ∀ {s : S}, holds s → ¬ goal s → ∃ action t, credit action = 0 ∧ step s action = some t)
    (initial : holds source) :
    ∃ history target, Run step source history target ∧ (∀ action ∈ history, credit action = 0) ∧ goal target := by
  induction spent : cost source using Nat.strongRecOn generalizing source with
  | ind total ih =>
    by_cases reached : goal source
    · exact ⟨[], source, .nil, fun _ member => absurd member List.not_mem_nil, reached⟩
    · obtain ⟨action, next, free, stepped⟩ := enabled initial reached
      have cheaper := paid initial stepped
      obtain ⟨history, target, rest, own, arrived⟩ := ih (cost next) (by omega) (preserved initial stepped) rfl
      refine ⟨action :: history, target, rest.cons stepped, ?_, arrived⟩
      intro other member
      rcases List.mem_cons.mp member with rfl | later
      · exact free
      · exact own other later

end Cost

/-- Execute a list of actions. -/
def replay? (step : S → A → Option S) (source : S) : List A → Option S
  | [] => some source
  | action :: rest => (step source action).bind fun next => replay? step next rest

theorem run_of_replay? (success : replay? step source history = some target) : Run step source history target := by
  induction history generalizing source with
  | nil =>
    cases success
    exact .nil
  | cons action rest ih =>
    obtain ⟨next, stepped, replayed⟩ := Option.bind_eq_some_iff.mp success
    exact (ih replayed).cons stepped

end Actions
