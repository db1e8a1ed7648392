import Illuminator.Model.ApiRoutes
import Illuminator.Soundness.ControllerMoves

/-! # Collect calls of one source

A source's `Collect` is called by any worker of the collect pool that takes one of its tasks, and by
any handler that was asked for its pipeline. The calls of one source come one after another as long
as none is begun while one is in progress. Nothing sees to that but a collect pool of one worker.
-/

namespace Illuminator

namespace ApiRoutes

open Interleaving PipelineController

variable {n : ℕ} {B : Type*}

/-- The source whose `Collect` a thread is in. -/
def collects : Pc n B → Option (Fin n)
  | .inl (.collector (.collecting k)) => some k
  | .inr (.collecting k) => some k
  | _ => none

/-- The source whose `Collect` a thread's next action begins. -/
def begins (c : PipelineController n B) : Pc n B → Option (Fin n)
  | .inl (.collector .waiting) =>
    match c.collect_pool_.tasks_ with
    | .collect k :: _ => some k
    | _ => none
  | .inr (.found k) => some k
  | _ => none

variable {τ : Type*}

/-- A thread that is about to begin a `Collect` begins the only one of that source. -/
def Alone (s : State (PipelineController n B) (Pc n B) τ) (thread : τ) : Prop :=
  ∀ k, begins s.shared (s.pc thread) = some k → ∀ other, collects (s.pc other) ≠ some k

variable [Inhabited B] {setup : Setup n B} {c next : PipelineController n B} {pc after : Pc n B} {choice : Choice n B}
  {event : Event n B} {k : Fin n}

variable {ι Handler : Type*} [DecidableEq ι] [DecidableEq Handler] {collectors workers : ℕ}
  {channels : Fin n → AsyncChannel B} {running : Fin n → Bool}
  {history : List ((Party n ι collectors workers ⊕ Handler) × Event n B)}
  {target : State (PipelineController n B) (Pc n B) (Party n ι collectors workers ⊕ Handler)}

/-- The threads that the model has keep to their parts of it. -/
def Stands : Party n ι collectors workers ⊕ Handler → Pc n B → Prop
  | .inl party, .inl pc => Belongs party pc
  | .inr _, .inr _ => True
  | _, _ => False

/-- One pull-mode pipeline without processors or aggregator, and one sink. -/
def polled : Setup 1 ℕ := ⟨fun _ => ⟨fun batch => batch == 0, id, 0, false, 1, true⟩, fun _ => false, false⟩

theorem two_slots : 2 ≤ (roundUpPow2 2).toNat := by decide

/-- The pipeline was started, with some collect workers and HTTP threads. -/
def begun (collectors : ℕ) (Handler : Type) :
    State (PipelineController 1 ℕ) (Pc 1 ℕ) (Party 1 Unit collectors 1 ⊕ Handler) :=
  start Unit Handler collectors 1 (fun _ => .make 2 two_slots .kDropNewest (4 / 5) (1 / 5)) fun _ => true

/-- The timer fires and submits a collection. -/
def fires {collectors : ℕ} {Handler : Type} : List ((Party 1 Unit collectors 1 ⊕ Handler) × Choice 1 ℕ) :=
  [(.inl (.helper .timer), .inl (.fire (.collect (Fin.last 0)))), (.inl (.helper .timer), .inl .proceed)]

end ApiRoutes

end Illuminator
