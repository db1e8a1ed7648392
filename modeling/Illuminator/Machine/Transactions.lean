import Mathlib.Data.Nat.Notation

/-! # Connections with transactions

A database connection sees the committed contents, or the version that its open transaction works on.
A statement that fails changes nothing, and the engine may roll the open transaction back with it.
Outside a transaction a statement commits on its own, and only an open transaction can be committed. A
commit that fails leaves the transaction open, unless the engine rolled it back.
-/

namespace Transactions

/-- What an operation came to: done, failed, or failed with the transaction rolled back. -/
inductive Outcome where
  | done
  | failed
  | rolledBack
  deriving DecidableEq

/-- The committed contents, the open transaction's version of them, and the statements that are
prepared and not finalized. -/
structure Connection (D : Type*) where
  committed : D
  working : Option D
  statements : ℕ
  deriving DecidableEq

/-- One change after another. -/
def applyEach {D : Type*} (changes : List (D → D)) (contents : D) : D :=
  changes.foldl (fun version change => change version) contents

namespace Connection

variable {D : Type*}

/-- No transaction open and no statement left. -/
def Clean (c : Connection D) : Prop := c.working = none ∧ c.statements = 0

instance [DecidableEq D] (c : Connection D) : Decidable c.Clean := inferInstanceAs (Decidable (_ ∧ _))

/-- Open a transaction. Inside one, or when the engine refuses, nothing changes. -/
def start (c : Connection D) (refused : Bool) : Connection D :=
  match c.working with
  | none => if refused then c else { c with working := some c.committed }
  | some _ => c

/-- Prepare a statement, if the engine accepts it. -/
def prepare (c : Connection D) (accepted : Bool) : Connection D :=
  if accepted then { c with statements := c.statements + 1 } else c

def finalize (c : Connection D) : Connection D := { c with statements := c.statements - 1 }

/-- Run a prepared statement that makes a change. -/
def step (c : Connection D) (change : D → D) : Outcome → Connection D
  | .done =>
    match c.working with
    | some version => { c with working := some (change version) }
    | none => { c with committed := change c.committed }
  | .failed => c
  | .rolledBack => { c with working := none }

def rollback (c : Connection D) : Connection D := { c with working := none }

/-- Commit, and whether it succeeded. -/
def commit (c : Connection D) (outcome : Outcome) : Connection D × Bool :=
  match c.working with
  | none => (c, false)
  | some version =>
    match outcome with
    | .done => ({ c with committed := version, working := none }, true)
    | .failed => (c, false)
    | .rolledBack => (c.rollback, false)

/-- A row of changes inside a transaction changes its version only. -/
def stepEach (c : Connection D) (changes : List (D → D)) : Connection D :=
  changes.foldl (fun c change => c.step change .done) c

theorem stepEach_working {c : Connection D} {version : D} (inside : c.working = some version)
    (changes : List (D → D)) :
    c.stepEach changes = { c with working := some (applyEach changes version) } := by
  induction changes generalizing c version with
  | nil => exact congrArg (Connection.mk c.committed · c.statements) inside
  | cons change rest ih =>
    have next : c.step change .done = { c with working := some (change version) } := by
      rw [step, inside]
    rw [stepEach, List.foldl_cons, next]
    exact ih rfl

theorem stepEach_autocommit {c : Connection D} (outside : c.working = none) (changes : List (D → D)) :
    c.stepEach changes = { c with committed := applyEach changes c.committed } := by
  induction changes generalizing c with
  | nil => rfl
  | cons change rest ih =>
    have next : c.step change .done = { c with committed := change c.committed } := by
      rw [step, outside]
    rw [stepEach, List.foldl_cons, next]
    exact ih outside

end Connection

end Transactions
