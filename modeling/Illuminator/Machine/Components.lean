import Illuminator.Machine.Interleaving

/-! # Components and conditional runs

A component of a larger program is a view of the shared state together with the threads that take
part in it. When every action of the whole is an action of the component by one of its threads, or
leaves the component alone, a run of the whole is a run of the component, and what is known of the
component's runs holds there. A conditional run is one whose steps are all taken from states that
meet a condition on the whole state, the other threads' included.
-/

namespace Interleaving

variable {σ π κ ε τ σ' π' κ' ε' τ' : Type*} [DecidableEq τ] [DecidableEq τ']

/-- The part of a state that a component sees. -/
def State.component (look : σ → σ') (control : π → π') (place : τ' → τ) (s : State σ π τ) : State σ' π' τ' :=
  ⟨look s.shared, fun t => control (s.pc (place t))⟩

/-- The part of a history that a component sees. -/
def seen (role : τ → Option τ') (shows : ε → Option ε') (history : List (τ × ε)) : List (τ' × ε') :=
  history.filterMap fun entry => (role entry.1).bind fun t => (shows entry.2).map (Prod.mk t)

omit [DecidableEq τ] [DecidableEq τ'] in
theorem seen_snoc_of_hidden (role : τ → Option τ') {shows : ε → Option ε'} (history : List (τ × ε)) {thread : τ}
    {event : ε} (hidden : shows event = none) :
    seen role shows (history ++ [(thread, event)]) = seen role shows history := by
  simp only [seen, List.filterMap_append, List.filterMap_cons, hidden, Option.map_none, Option.bind_fun_none,
    List.filterMap_nil, List.append_nil]

omit [DecidableEq τ] [DecidableEq τ'] in
theorem seen_snoc_of_shown {role : τ → Option τ'} {shows : ε → Option ε'} (history : List (τ × ε)) {thread : τ}
    {actor : τ'} {event : ε} {event' : ε'} (plays : role thread = some actor) (shown : shows event = some event') :
    seen role shows (history ++ [(thread, event)]) = seen role shows history ++ [(actor, event')] := by
  simp only [seen, List.filterMap_append, List.filterMap_cons, plays, Option.bind_some, shown, Option.map_some,
    List.filterMap_nil]

theorem State.component_move (look : σ → σ') (control : π → π') {place : τ' → τ} (s : State σ π τ) {thread : τ}
    {actor : τ'} (places : ∀ t, place t = thread ↔ t = actor) (shared : σ) (pc : π) :
    (s.move thread shared pc).component look control place =
      (s.component look control place).move actor (look shared) (control pc) := by
  refine congrArg (State.mk _) (funext fun t => ?_)
  rw [State.move_pc, Function.update_apply]
  simp only [places]
  split_ifs <;> rfl

omit [DecidableEq τ'] in
theorem State.component_still (look : σ → σ') (control : π → π') (place : τ' → τ) (s : State σ π τ) {thread : τ}
    {shared : σ} {pc : π} (same : look shared = look s.shared) (still : control pc = control (s.pc thread)) :
    (s.move thread shared pc).component look control place = s.component look control place := by
  refine congrArg₂ State.mk same (funext fun t => ?_)
  rw [State.move_pc]
  split_ifs with here
  · rw [still, here]
  · rfl

namespace Program

variable {P : Program σ π κ ε} {source target : State σ π τ} {history : List (τ × ε)}

/-- A run of the whole is a run of each of its components, when every action taken from a state that
a run has reached is one of the component's or leaves it alone. -/
theorem Run.component_of (Q : Program σ' π' κ' ε') (look : σ → σ') (control : π → π') (shows : ε → Option ε')
    (role : τ → Option τ') (place : τ' → τ) (places : ∀ thread t, role thread = some t ↔ place t = thread)
    (simulates : ∀ {history : List (τ × ε)} {s : State σ π τ} {thread : τ} {next : σ} {after : π} {choice : κ}
      {event : ε}, P.Run source history s → P.act s.shared (s.pc thread) choice = some (next, after, event) →
      (shows event = none ∧ look next = look s.shared ∧ control after = control (s.pc thread)) ∨
        ∃ actor choice' event', role thread = some actor ∧ shows event = some event' ∧
          Q.act (look s.shared) (control (s.pc thread)) choice' = some (look next, control after, event'))
    (run : P.Run source history target) :
    Q.Run (source.component look control place) (seen role shows history) (target.component look control place) := by
  induction run with
  | nil => exact .nil
  | @snoc history s _ _ reached step prior =>
    cases step with
    | @act thread choice shared pc event enabled =>
      rcases simulates reached enabled with ⟨hidden, same, still⟩ | ⟨actor, choice', event', plays, shown, acts⟩
      · rw [s.component_still look control place same still, seen_snoc_of_hidden role history hidden]
        exact prior
      · have mine : ∀ t, place t = thread ↔ t = actor := by
          intro t
          rw [← places, plays, Option.some.injEq, eq_comm]
        rw [s.component_move look control mine, seen_snoc_of_shown history plays shown]
        have step : Q.Step (s.component look control place) (actor, event')
            ((s.component look control place).move actor (look shared) (control pc)) := by
          have enabled' : Q.act (look s.shared) (control (s.pc (place actor))) choice' =
              some (look shared, control pc, event') := by rwa [(mine actor).mpr rfl]
          exact .act enabled'
        exact prior.snoc step

/-- A run of the whole is a run of each of its components. `belongs` is what is known of where each
thread stands. -/
theorem Run.component (Q : Program σ' π' κ' ε') (look : σ → σ') (control : π → π') (shows : ε → Option ε')
    (role : τ → Option τ') (place : τ' → τ) (places : ∀ thread t, role thread = some t ↔ place t = thread)
    (belongs : τ → π → Prop) (starts : ∀ thread, belongs thread (source.pc thread))
    (stays : ∀ {thread : τ} {shared next : σ} {pc after : π} {choice : κ} {event : ε},
      P.act shared pc choice = some (next, after, event) → belongs thread pc → belongs thread after)
    (simulates : ∀ {thread : τ} {shared next : σ} {pc after : π} {choice : κ} {event : ε},
      P.act shared pc choice = some (next, after, event) → belongs thread pc →
      (shows event = none ∧ look next = look shared ∧ control after = control pc) ∨
        ∃ actor choice' event', role thread = some actor ∧ shows event = some event' ∧
          Q.act (look shared) (control pc) choice' = some (look next, control after, event'))
    (run : P.Run source history target) :
    Q.Run (source.component look control place) (seen role shows history) (target.component look control place) := by
  refine run.component_of Q look control shows role place places fun reached enabled => simulates enabled ?_
  exact reached.invariant (fun _ s => ∀ thread, belongs thread (s.pc thread)) starts
    (fun belonging acts => State.forall_move belongs (fun t _ => belonging t) (stays acts (belonging _))) _

/-- A run whose steps are all taken from states that meet a condition. -/
inductive RunWhere (P : Program σ π κ ε) (admits : State σ π τ → τ → Prop) (source : State σ π τ) :
    List (τ × ε) → State σ π τ → Prop
  | nil : P.RunWhere admits source [] source
  | snoc {history : List (τ × ε)} {middle target : State σ π τ} {entry : τ × ε}
      (prior : P.RunWhere admits source history middle) (admitted : admits middle entry.1)
      (step : P.Step middle entry target) : P.RunWhere admits source (history ++ [entry]) target

variable {admits : State σ π τ → τ → Prop}

theorem RunWhere.run (conditional : P.RunWhere admits source history target) : P.Run source history target := by
  induction conditional with
  | nil => exact .nil
  | snoc _ _ step ih => exact ih.snoc step

/-- An invariant of a conditional run may use the condition, and what is known of the run so far. -/
theorem RunWhere.invariant (holds : List (τ × ε) → State σ π τ → Prop) (initial : holds [] source)
    (preserved : ∀ {history : List (τ × ε)} {s : State σ π τ} {thread : τ} {choice : κ} {shared : σ} {pc : π}
      {event : ε}, P.RunWhere admits source history s → holds history s → admits s thread →
      P.act s.shared (s.pc thread) choice = some (shared, pc, event) →
      holds (history ++ [(thread, event)]) (s.move thread shared pc))
    (conditional : P.RunWhere admits source history target) : holds history target := by
  induction conditional with
  | nil => exact initial
  | snoc prior admitted step ih =>
    cases step with
    | act enabled => exact preserved prior ih admitted enabled

/-- Execute a schedule as long as every step is taken from a state that meets the condition. -/
def replayWhere? (P : Program σ π κ ε) (admits : State σ π τ → τ → Prop) [∀ s thread, Decidable (admits s thread)]
    (s : State σ π τ) (history : List (τ × ε)) : List (τ × κ) → Option (State σ π τ × List (τ × ε))
  | [] => some (s, history)
  | (thread, choice) :: rest =>
    if admits s thread then
      match P.act s.shared (s.pc thread) choice with
      | none => none
      | some (shared, pc, event) =>
        P.replayWhere? admits (s.move thread shared pc) (history ++ [(thread, event)]) rest
    else none

theorem run_of_replayWhere? [∀ s thread, Decidable (admits s thread)] {middle : State σ π τ}
    {before : List (τ × ε)} {schedule : List (τ × κ)} (prior : P.RunWhere admits source before middle)
    (success : P.replayWhere? admits middle before schedule = some (target, history)) :
    P.RunWhere admits source history target := by
  induction schedule generalizing middle before with
  | nil =>
    cases success
    exact prior
  | cons entry rest ih =>
    obtain ⟨thread, choice⟩ := entry
    simp only [replayWhere?] at success
    split_ifs at success with admitted
    split at success
    · contradiction
    · next shared pc event enabled => exact ih (prior.snoc admitted (.act enabled)) success

/-- What a schedule is checked to reach, with every step admitted, is reached by a conditional run. -/
theorem exists_runWhere_of_check (P : Program σ π κ ε) (admits : State σ π τ → τ → Prop) (source : State σ π τ)
    [∀ s thread, Decidable (admits s thread)]
    (holds : State σ π τ → List (τ × ε) → Prop) [∀ s history, Decidable (holds s history)]
    (schedule : List (τ × κ)) (checked : (P.replayWhere? admits source [] schedule).any
      (fun result => decide (holds result.1 result.2)) = true) :
    ∃ history target, P.RunWhere admits source history target ∧ holds target history := by
  obtain ⟨⟨target, history⟩, success, holding⟩ := (Option.any_eq_true _ _).mp checked
  exact ⟨history, target, run_of_replayWhere? .nil success, of_decide_eq_true holding⟩

end Program

end Interleaving
