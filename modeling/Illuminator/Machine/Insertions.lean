import Illuminator.Machine.Interleaving

/-! # Threads inserted into a schedule

A schedule of some threads and of others that are inserted, and what is left of it without the steps of
the inserted ones. An unwinding relates the state of the whole to that of the rest: the rest's steps are
the same on both sides, and an inserted step that finds what it needs leaves the relation as it is. Then
the inserted threads can be left out.
-/

namespace Interleaving

variable {σ π κ ε τ η : Type*}

/-- What is left of a schedule without the steps of the inserted threads. -/
def without (schedule : List ((τ ⊕ η) × κ)) : List ((τ ⊕ η) × κ) := schedule.filter fun entry => entry.1.isLeft

namespace Program

/-- The relation between the shared states, the control states that the two kinds of threads may have, and
what an inserted step has to find. -/
structure Unwinding (P : Program σ π κ ε) (like : σ → σ → Prop) (stays inserted : π → Prop)
    (spares : σ → π → κ → Prop) : Prop where
  follows : ∀ {shared mirror next : σ} {pc after : π} {choice : κ} {event : ε}, like shared mirror → stays pc →
    P.act shared pc choice = some (next, after, event) →
    stays after ∧ ∃ next', P.act mirror pc choice = some (next', after, event) ∧ like next next'
  hides : ∀ {shared mirror next : σ} {pc after : π} {choice : κ} {event : ε}, like shared mirror → inserted pc →
    spares shared pc choice → P.act shared pc choice = some (next, after, event) → inserted after ∧ like next mirror

variable [DecidableEq τ] [DecidableEq η]

/-- Every step that an inserted thread takes in a schedule finds what it needs. -/
def Spared (P : Program σ π κ ε) (spares : σ → π → κ → Prop) : State σ π (τ ⊕ η) → List ((τ ⊕ η) × κ) → Prop
  | _, [] => True
  | s, (thread, choice) :: rest =>
    (thread.isRight = true → spares s.shared (s.pc thread) choice) ∧
      match P.act s.shared (s.pc thread) choice with
      | none => True
      | some (shared, pc, _) => P.Spared spares (s.move thread shared pc) rest

/-- Whether a schedule is spared can be found out by executing it. -/
def decideSpared (P : Program σ π κ ε) (spares : σ → π → κ → Prop)
    [∀ shared pc choice, Decidable (spares shared pc choice)] (s : State σ π (τ ⊕ η)) :
    (schedule : List ((τ ⊕ η) × κ)) → Decidable (P.Spared spares s schedule)
  | [] => isTrue trivial
  | (thread, choice) :: rest =>
    match acted : P.act s.shared (s.pc thread) choice with
    | none => decidable_of_iff (thread.isRight = true → spares s.shared (s.pc thread) choice)
        (by simp only [Spared, acted, and_true])
    | some (shared, pc, _) =>
      have := P.decideSpared spares (s.move thread shared pc) rest
      decidable_of_iff ((thread.isRight = true → spares s.shared (s.pc thread) choice) ∧
        P.Spared spares (s.move thread shared pc) rest) (by simp only [Spared, acted])

instance (P : Program σ π κ ε) (spares : σ → π → κ → Prop) [∀ shared pc choice, Decidable (spares shared pc choice)]
    (s : State σ π (τ ⊕ η)) (schedule : List ((τ ⊕ η) × κ)) : Decidable (P.Spared spares s schedule) :=
  P.decideSpared spares s schedule

/-- A state of the whole and one of the rest. -/
structure Mirrors (like : σ → σ → Prop) (stays inserted : π → Prop) (s mirror : State σ π (τ ⊕ η)) : Prop where
  shared : like s.shared mirror.shared
  pc : ∀ t, mirror.pc (.inl t) = s.pc (.inl t)
  stays : ∀ t, stays (s.pc (.inl t))
  inserted : ∀ h, inserted (s.pc (.inr h))

variable {P : Program σ π κ ε} {like : σ → σ → Prop} {stays inserted : π → Prop} {spares : σ → π → κ → Prop}
  {s mirror target : State σ π (τ ⊕ η)}

/-- A step of the rest is taken on both sides. -/
theorem Mirrors.follow (mirrors : Mirrors like stays inserted s mirror) {t : τ} {shared shared' : σ} {pc : π}
    (related : like shared shared') (stay : stays pc) :
    Mirrors like stays inserted (s.move (.inl t) shared pc) (mirror.move (.inl t) shared' pc) := by
  refine ⟨related, fun u => ?_, fun u => ?_, fun h => ?_⟩
  · rw [State.move_pc, State.move_pc, mirrors.pc u]
  · rw [State.move_pc]
    split_ifs
    · exact stay
    · exact mirrors.stays u
  · rw [State.move_pc_of_ne _ _ _ Sum.inr_ne_inl]
    exact mirrors.inserted h

/-- An inserted step is taken on one side only. -/
theorem Mirrors.hide (mirrors : Mirrors like stays inserted s mirror) {h : η} {shared : σ} {pc : π}
    (related : like shared mirror.shared) (hidden : inserted pc) :
    Mirrors like stays inserted (s.move (.inr h) shared pc) mirror := by
  refine ⟨related, fun u => ?_, fun u => ?_, fun other => ?_⟩
  · rw [State.move_pc_of_ne _ _ _ Sum.inl_ne_inr, mirrors.pc u]
  · rw [State.move_pc_of_ne _ _ _ Sum.inl_ne_inr]
    exact mirrors.stays u
  · rw [State.move_pc]
    split_ifs
    · exact hidden
    · exact mirrors.inserted other

omit [DecidableEq η] in
private theorem replay?_of_enabled {τ : Type*} [DecidableEq τ] {s : State σ π τ} {thread : τ} {choice : κ} {shared : σ}
    {pc : π} {event : ε} (enabled : P.act s.shared (s.pc thread) choice = some (shared, pc, event))
    (rest : List (τ × κ)) : P.replay? s ((thread, choice) :: rest) =
      (P.replay? (s.move thread shared pc) rest).map fun result => (result.1, (thread, event) :: result.2) := by
  rw [replay?, enabled]

/-- Without the inserted threads a schedule has the same steps of the others and ends in a related state. -/
theorem Unwinding.replay_without (unwinds : P.Unwinding like stays inserted spares) {schedule : List ((τ ⊕ η) × κ)}
    {history : List ((τ ⊕ η) × ε)} (mirrors : Mirrors like stays inserted s mirror)
    (spared : P.Spared spares s schedule) (replayed : P.replay? s schedule = some (target, history)) :
    ∃ base, P.replay? mirror (without schedule) = some (base, history.filter fun entry => entry.1.isLeft) ∧
      Mirrors like stays inserted target base := by
  induction schedule generalizing s mirror history with
  | nil =>
    cases replayed
    exact ⟨mirror, rfl, mirrors⟩
  | cons entry rest ih =>
    obtain ⟨thread, choice⟩ := entry
    obtain ⟨found, later⟩ := spared
    rw [replay?] at replayed
    split at replayed
    · cases replayed
    · next shared pc event enabled =>
      rw [enabled] at later
      obtain ⟨⟨final, tail⟩, continued, same⟩ := Option.map_eq_some_iff.mp replayed
      cases same
      cases thread with
      | inl t =>
        obtain ⟨stay, shared', enabled', related⟩ := unwinds.follows mirrors.shared (mirrors.stays t) enabled
        obtain ⟨base, based, mirrored⟩ := ih (mirrors.follow related stay) later continued
        refine ⟨base, ?_, mirrored⟩
        rw [← mirrors.pc t] at enabled'
        rw [without, List.filter_cons_of_pos rfl, ← without, replay?_of_enabled enabled', based,
          List.filter_cons_of_pos rfl]
        rfl
      | inr h =>
        obtain ⟨hidden, related⟩ := unwinds.hides mirrors.shared (mirrors.inserted h) (found rfl) enabled
        obtain ⟨base, based, mirrored⟩ := ih (mirrors.hide related hidden) later continued
        refine ⟨base, ?_, mirrored⟩
        rw [without, List.filter_cons_of_neg Bool.false_ne_true, ← without, based,
          List.filter_cons_of_neg Bool.false_ne_true]

end Program

end Interleaving
