import Illuminator.Machine.Components

/-! # Reports of a shared value

Threads report a shared value to a listener. A thread on its way reads the value, compares it with the
last value known to have been reported and, where they differ, first stores what it read as known and
then tells the listener. Anyone may change the value. Reading, storing and telling are separate actions,
so a change can go unreported and reports can overtake each other. When every change is made while some
thread has yet to read and none is past reading, the listener is up to date whenever no thread is on its
way.
-/

namespace Reports

open Interleaving

structure Shared (V : Type*) where
  current : V
  known : V

/-- Where a thread stands on its way to the listener, with what it has read. -/
inductive Stage (V : Type*) where
  | away
  | unread
  | compare (value : V)
  | store (value : V)
  | tell (value : V)
  deriving DecidableEq

inductive Choice (V : Type*) where
  | write (value : V)
  | look
  | proceed

variable {V τ : Type*} [DecidableEq V] [DecidableEq τ]

/-- One action; the event is what the listener is told. -/
def act (s : Shared V) : Stage V → Choice V → Option (Shared V × Stage V × Option V)
  | .away, .write value => some ({ s with current := value }, .away, none)
  | .unread, .write value => some ({ s with current := value }, .unread, none)
  | .away, .look => some (s, .unread, none)
  | .unread, .proceed => some (s, .compare s.current, none)
  | .compare value, .proceed => if value ≠ s.known then some (s, .store value, none) else some (s, .away, none)
  | .store value, .proceed => some ({ s with known := value }, .tell value, none)
  | .tell value, .proceed => some (s, .away, some value)
  | _, _ => none

/-- What a thread past reading has read. -/
def Stage.holding : Stage V → Option V
  | .away | .unread => none
  | .compare value | .store value | .tell value => some value

/-- A thread that has yet to store what it reads. -/
def Stage.Pending : Stage V → Prop
  | .unread | .compare _ | .store _ => True
  | _ => False

/-- What a thread has read is the current value. -/
def Stage.Fresh (current : V) (stage : Stage V) : Prop := ∀ value, stage.holding = some value → value = current

/-- What a thread is about to tell is known. -/
def Stage.Stored (known : V) (stage : Stage V) : Prop := ∀ value, stage = .tell value → value = known

/-- Some thread has yet to read, and none is past reading. -/
def Timely (s : State (Shared V) (Stage V) τ) : Prop :=
  (∃ t, s.pc t = .unread) ∧ ∀ t, (s.pc t).holding = none

instance [Fintype τ] (s : State (Shared V) (Stage V) τ) : Decidable (Timely s) :=
  inferInstanceAs (Decidable (_ ∧ _))

/-- What is read is current, what is not yet known is being brought, and what is not yet told is being told. -/
structure Kept (told : V) (s : State (Shared V) (Stage V) τ) : Prop where
  fresh : ∀ t, (s.pc t).Fresh s.shared.current
  stored : ∀ t, (s.pc t).Stored s.shared.known
  known : s.shared.known ≠ s.shared.current → ∃ t, (s.pc t).Pending
  told : told ≠ s.shared.known → ∃ t, s.pc t = .tell s.shared.known

omit [DecidableEq V] [DecidableEq τ] in
/-- With no thread on its way the listener has been told the current value. -/
theorem Kept.told_eq {told : V} {s : State (Shared V) (Stage V) τ} (kept : Kept told s)
    (quiet : ∀ t, s.pc t = .away) : told = s.shared.current := by
  have known : s.shared.known = s.shared.current := by
    by_contra differs
    obtain ⟨t, pending⟩ := kept.known differs
    rw [quiet t] at pending
    exact pending
  rw [← known]
  by_contra differs
  obtain ⟨t, telling⟩ := kept.told differs
  rw [quiet t] at telling
  cases telling

section Steps

variable {told : V} {s : State (Shared V) (Stage V) τ} {thread : τ}

omit [DecidableEq V] in
/-- A thread that leaves both values alone. -/
theorem Kept.move (kept : Kept told s) {stage : Stage V} (fresh : stage.Fresh s.shared.current)
    (stored : stage.Stored s.shared.known)
    (known : s.shared.known ≠ s.shared.current → (s.pc thread).Pending → stage.Pending)
    (untold : ∀ value, s.pc thread ≠ .tell value) : Kept told (s.move thread s.shared stage) where
  fresh := State.forall_move (fun _ => Stage.Fresh _) (fun t _ => kept.fresh t) fresh
  stored := State.forall_move (fun _ => Stage.Stored _) (fun t _ => kept.stored t) stored
  known differs := State.exists_move Stage.Pending (kept.known differs) (known differs)
  told differs := State.exists_move (· = Stage.tell s.shared.known) (kept.told differs) fun mine =>
    absurd mine (untold _)

omit [DecidableEq V] in
theorem Kept.write (kept : Kept told s) (timely : Timely s) (value : V) :
    Kept told (s.move thread { s.shared with current := value } (s.pc thread)) := by
  have unread (t : τ) : (s.pc t).Fresh value := by
    intro held holds
    rw [timely.2 t] at holds
    cases holds
  refine ⟨?_, ?_, fun _ => ?_, fun differs => ?_⟩
  · exact State.forall_move (fun _ => Stage.Fresh value) (fun t _ => unread t) (unread thread)
  · exact State.forall_move (fun _ => Stage.Stored s.shared.known) (fun t _ => kept.stored t) (kept.stored thread)
  · obtain ⟨t, reader⟩ := timely.1
    exact State.exists_move Stage.Pending ⟨t, by rw [reader]; trivial⟩ id
  · exact State.exists_move (· = Stage.tell s.shared.known) (kept.told differs) id

omit [DecidableEq V] in
theorem Kept.store (kept : Kept told s) {value : V} (here : s.pc thread = .store value) :
    Kept told (s.move thread { s.shared with known := value } (.tell value)) := by
  have current : value = s.shared.current := kept.fresh thread value (by rw [here]; rfl)
  have mine : (Stage.tell value).Fresh s.shared.current := fun held holds => (Option.some.inj holds).symm.trans current
  have told : (Stage.tell value).Stored value := fun held telling => (Stage.tell.inj telling).symm
  have others (t : τ) : (s.pc t).Stored value := by
    intro held telling
    exact (kept.fresh t held (by rw [telling]; rfl)).trans current.symm
  refine ⟨?_, ?_, fun differs => absurd current differs, fun _ => ⟨thread, State.move_pc_self ..⟩⟩
  · exact State.forall_move (fun _ => Stage.Fresh s.shared.current) (fun t _ => kept.fresh t) mine
  · exact State.forall_move (fun _ => Stage.Stored value) (fun t _ => others t) told

omit [DecidableEq V] in
theorem Kept.tell (kept : Kept told s) {value : V} (here : s.pc thread = .tell value) :
    Kept value (s.move thread s.shared .away) := by
  refine ⟨?_, ?_, fun differs => ?_, fun differs => absurd (kept.stored thread value here) differs⟩
  · exact State.forall_move (fun _ => Stage.Fresh s.shared.current) (fun t _ => kept.fresh t) nofun
  · exact State.forall_move (fun _ => Stage.Stored s.shared.known) (fun t _ => kept.stored t) nofun
  · refine State.exists_move Stage.Pending (kept.known differs) fun mine => ?_
    rw [here] at mine
    exact mine.elim

/-- Every action keeps the listener up to date, when changes are made in time. -/
theorem Kept.step (kept : Kept told s) {choice : Choice V} {shared : Shared V} {stage : Stage V} {event : Option V}
    (acts : act s.shared (s.pc thread) choice = some (shared, stage, event))
    (timely : shared.current ≠ s.shared.current → Timely s) :
    Kept (event.getD told) (s.move thread shared stage) := by
  have writes {value : V} (changed : value ≠ s.shared.current → Timely s) :
      Kept told (s.move thread { s.shared with current := value } (s.pc thread)) := by
    by_cases same : value = s.shared.current
    · rw [same, State.move_self]
      exact kept
    · exact kept.write (changed same) value
  generalize here : s.pc thread = before at acts
  cases before with
  | away =>
    cases choice with
    | write value =>
      cases acts
      rw [← here]
      exact writes timely
    | look =>
      cases acts
      exact kept.move nofun nofun (fun _ _ => trivial) (by rw [here]; exact nofun)
    | proceed => cases acts
  | unread =>
    cases choice with
    | write value =>
      cases acts
      rw [← here]
      exact writes timely
    | look => cases acts
    | proceed =>
      cases acts
      have mine : (Stage.compare s.shared.current).Fresh s.shared.current := fun _ holds => (Option.some.inj holds).symm
      exact kept.move mine nofun (fun _ _ => trivial) (by rw [here]; exact nofun)
  | compare value =>
    cases choice with
    | proceed =>
      have current : (Stage.compare value).Fresh s.shared.current := here ▸ kept.fresh thread
      simp only [act] at acts
      split_ifs at acts with differs
      · cases acts
        exact kept.move current nofun (fun _ _ => trivial) (by rw [here]; exact nofun)
      · cases acts
        have known : s.shared.known = s.shared.current := (not_not.mp differs).symm.trans (current value rfl)
        exact kept.move nofun nofun (fun other => absurd known other) (by rw [here]; exact nofun)
    | _ => cases acts
  | store value =>
    cases choice with
    | proceed =>
      cases acts
      exact kept.store here
    | _ => cases acts
  | tell value =>
    cases choice with
    | proceed =>
      cases acts
      exact kept.tell here
    | _ => cases acts

end Steps

end Reports
