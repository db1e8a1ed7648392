import Mathlib.Data.List.Basic

/-! # Code under a mutex

One thread's code reads and writes a state, and holds a mutex over a block. The mutex is not
recursive: code that locks it while its own thread holds it waits for itself and does nothing more.
Code carries the proof that the deeds it shows tell what becomes of the mutex, so that a trace in
which no lock finds the mutex held by its own thread is one of code that never waits for itself, and
the proof that a block which gets to its end leaves the mutex as it was before it.
-/

namespace Mutex

/-- What code does, in order. -/
inductive Deed (ε : Type*) where
  | lock
  | unlock
  | does (event : ε)
  deriving DecidableEq

/-- Why code does not get to its end. -/
inductive Halt (φ : Type*) where
  | waits
  | throws (fault : φ)
  deriving DecidableEq

/-- The state, and whether the thread holds the mutex. -/
structure Held (σ : Type*) where
  state : σ
  held : Bool

structure Outcome (σ ε φ α : Type*) where
  deeds : List (Deed ε)
  final : Held σ
  result : Except (Halt φ) α

universe u

variable {σ α β : Type u} {ε φ : Type*}

/-- Whether the thread holds the mutex after some deeds, unless it locks what it holds. -/
def follow : Bool → List (Deed ε) → Option Bool
  | held, [] => some held
  | held, .lock :: rest => if held then none else follow true rest
  | _, .unlock :: rest => follow false rest
  | held, .does _ :: rest => follow held rest

theorem follow_append (held : Bool) (first second : List (Deed ε)) :
    follow held (first ++ second) = (follow held first).bind fun between => follow between second := by
  induction first generalizing held with
  | nil => rfl
  | cons deed rest ih =>
    cases deed with
    | lock =>
      simp only [List.cons_append, follow, ih]
      split_ifs <;> rfl
    | unlock => exact ih false
    | does _ => exact ih held

/-- The mutex at the end, as its thread has it. -/
def Outcome.mutex (out : Outcome σ ε φ α) : Option Bool :=
  match out.result with
  | .error .waits => none
  | .error (.throws _) => some out.final.held
  | .ok _ => some out.final.held

/-- What is done before the rest. -/
def Outcome.after (deeds : List (Deed ε)) (out : Outcome σ ε φ α) : Outcome σ ε φ α :=
  { out with deeds := deeds ++ out.deeds }

/-- What a block does once it has the mutex. A fault leaves the block without the unlocking. -/
def Outcome.unlocked (out : Outcome σ ε φ α) : Outcome σ ε φ α :=
  match out.result with
  | .ok a => ⟨.lock :: out.deeds ++ [.unlock], ⟨out.final.state, false⟩, .ok a⟩
  | .error halt => ⟨.lock :: out.deeds, out.final, .error halt⟩

/-- One thread's code. -/
structure Code (σ : Type u) (ε φ : Type*) (α : Type u) where
  run : Held σ → Outcome σ ε φ α
  /-- The deeds tell what becomes of the mutex. -/
  told : ∀ s, follow s.held (run s).deeds = (run s).mutex
  /-- Code that gets to its end leaves the mutex as it was. -/
  restores : ∀ s a, (run s).result = .ok a → (run s).final.held = s.held

namespace Code

protected def pure (a : α) : Code σ ε φ α where
  run s := ⟨[], s, .ok a⟩
  told _ := rfl
  restores _ _ _ := rfl

protected def bindRun (code : Code σ ε φ α) (next : α → Code σ ε φ β) (s : Held σ) : Outcome σ ε φ β :=
  match (code.run s).result with
  | .ok a => Outcome.after (code.run s).deeds ((next a).run (code.run s).final)
  | .error halt => ⟨(code.run s).deeds, (code.run s).final, .error halt⟩

protected def bind (code : Code σ ε φ α) (next : α → Code σ ε φ β) : Code σ ε φ β where
  run := code.bindRun next
  told s := by
    have first := code.told s
    unfold Code.bindRun
    cases ends : (code.run s).result with
    | error halt =>
      rw [Outcome.mutex, ends] at first
      cases halt <;> exact first
    | ok a =>
      rw [Outcome.mutex, ends] at first
      change follow s.held ((code.run s).deeds ++ _) = _
      rw [follow_append, first]
      exact (next a).told _
  restores s b ended := by
    unfold Code.bindRun at ended ⊢
    cases ends : (code.run s).result with
    | error halt =>
      rw [ends] at ended
      cases ended
    | ok a =>
      rw [ends] at ended
      exact ((next a).restores _ b ended).trans (code.restores s a ends)

instance : Monad (Code σ ε φ) where
  pure := Code.pure
  bind := Code.bind

def state : Code σ ε φ σ where
  run s := ⟨[], s, .ok s.state⟩
  told _ := rfl
  restores _ _ _ := rfl

def modify (change : σ → σ) : Code σ ε φ PUnit where
  run s := ⟨[], { s with state := change s.state }, .ok ⟨⟩⟩
  told _ := rfl
  restores _ _ _ := rfl

def does (event : ε) : Code σ ε φ PUnit where
  run s := ⟨[.does event], s, .ok ⟨⟩⟩
  told _ := rfl
  restores _ _ _ := rfl

def throws (fault : φ) : Code σ ε φ α where
  run s := ⟨[], s, .error (.throws fault)⟩
  told _ := rfl
  restores _ _ ended := by cases ended

/-- A block under a guard. -/
def guarded (body : Code σ ε φ α) : Code σ ε φ α where
  run s :=
    if s.held then ⟨[.lock], s, .error .waits⟩ else Outcome.unlocked (body.run ⟨s.state, true⟩)
  told s := by
    split_ifs with locked
    · rw [locked]
      rfl
    · have inside := body.told ⟨s.state, true⟩
      rw [Bool.eq_false_iff.mpr locked]
      unfold Outcome.unlocked
      cases ends : (body.run ⟨s.state, true⟩).result with
      | error halt =>
        rw [Outcome.mutex, ends] at inside
        cases halt <;> exact inside
      | ok a =>
        rw [Outcome.mutex, ends] at inside
        change follow true ((body.run ⟨s.state, true⟩).deeds ++ [.unlock]) = some false
        rw [follow_append, inside]
        rfl
  restores s a ended := by
    split_ifs at ended ⊢ with locked
    unfold Outcome.unlocked at ended ⊢
    cases ends : (body.run ⟨s.state, true⟩).result with
    | error halt =>
      rw [ends] at ended
      cases ended
    | ok _ => exact (Bool.eq_false_iff.mpr locked).symm

variable {code : Code σ ε φ α} {next : α → Code σ ε φ β} {s : Held σ}

theorem bind_ok {a : α} (ends : (code.run s).result = .ok a) :
    (code >>= next).run s = Outcome.after (code.run s).deeds ((next a).run (code.run s).final) := by
  change code.bindRun next s = _
  rw [Code.bindRun, ends]

@[simp] theorem run_pure (a : α) : (pure a : Code σ ε φ α).run s = ⟨[], s, .ok a⟩ := rfl

@[simp] theorem run_throws (fault : φ) : (throws fault : Code σ ε φ α).run s = ⟨[], s, .error (.throws fault)⟩ := rfl

@[simp] theorem run_state_bind (next : σ → Code σ ε φ α) : (state >>= next).run s = (next s.state).run s := rfl

@[simp] theorem run_modify_bind (change : σ → σ) (next : PUnit → Code σ ε φ α) :
    (modify change >>= next).run s = (next ⟨⟩).run { s with state := change s.state } := rfl

@[simp] theorem run_does_bind (event : ε) (next : PUnit → Code σ ε φ α) :
    (does event >>= next).run s = Outcome.after [.does event] ((next ⟨⟩).run s) := rfl

theorem bind_error {halt : Halt φ} (halts : (code.run s).result = .error halt) :
    (code >>= next).run s = ⟨(code.run s).deeds, (code.run s).final, .error halt⟩ := by
  change code.bindRun next s = _
  rw [Code.bindRun, halts]

theorem run_bind_pure (f : α → β) :
    (code >>= fun a => pure (f a)).run s =
      { deeds := (code.run s).deeds, final := (code.run s).final, result := (code.run s).result.map f } := by
  cases ends : (code.run s).result with
  | error halt => exact bind_error ends
  | ok a =>
    rw [bind_ok ends]
    simp only [Outcome.after, run_pure, List.append_nil, Except.map]

/-- A block that gets to its end from a free mutex leaves it free. -/
theorem guarded_ok (state : σ) {a : α} (ends : (code.run ⟨state, true⟩).result = .ok a) :
    (guarded code).run ⟨state, false⟩ =
      ⟨.lock :: (code.run ⟨state, true⟩).deeds ++ [.unlock], ⟨(code.run ⟨state, true⟩).final.state, false⟩, .ok a⟩ := by
  change Outcome.unlocked _ = _
  rw [Outcome.unlocked, ends]

end Code

end Mutex
