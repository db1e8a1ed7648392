import Illuminator.Machine.Reports
import Illuminator.Soundness.PipelineMoves

/-! # What a source knows of the backpressure flag

`Enqueue` reports the channel's flag to the source through `last_backpressure_state_`: a pipeline's run,
seen at the flag, that field and the calls of `OnBackpressure`, takes the steps of a reported value. The
flag is also changed by `Dequeue` and `TryDequeue`, which report nothing, and while another `Enqueue` is
past reading it.
-/

namespace Illuminator

namespace AsyncChannel

variable {B : Type*}

/-- A call that is about to give the flag its other value. -/
def Pc.turns (flag : Bool) : Pc B → Bool
  | .pressure .raise _ => !flag
  | .pressure .clear _ => flag
  | _ => false

theorem pressure_turns {ch next : AsyncChannel B} {stage : Pressure} {after : Option Pressure} {event : Event B}
    (called : ch.UpdateBackpressure stage = (next, after, event))
    (changed : next.backpressured_ ≠ ch.backpressured_) (reply : Reply B) :
    (Pc.pressure stage reply).turns ch.backpressured_ = true := by
  cases stage with
  | raise =>
    simp only [UpdateBackpressure] at called
    split_ifs at called with raised
    · cases called
      exact absurd rfl changed
    · rw [Bool.eq_false_iff.mpr raised]
      rfl
  | clear =>
    cases called
    exact Bool.eq_true_of_not_eq_false fun down => changed down.symm
  | _ =>
    cases called
    exact absurd rfl changed

variable [Inhabited B]

/-- The flag changes only where a call is about to change it. -/
theorem act_turns {ch next : AsyncChannel B} {pc after : Pc B} {choice : Choice B} {event : Event B}
    (enabled : act ch pc choice = some (next, after, event)) (changed : next.backpressured_ ≠ ch.backpressured_) :
    pc.turns ch.backpressured_ = true := by
  unfold act at enabled
  repeat' split at enabled
  all_goals cases enabled
  all_goals first
    | exact absurd rfl changed
    | exact absurd (tryPush_rest ‹_›).2 changed
    | exact absurd (tryPop_rest ‹_›).2 changed
    | exact pressure_turns ‹_› changed _

end AsyncChannel

namespace Pipeline

open Interleaving Reports

variable {B : Type*}

/-- The flag, and what the source is taken to know of it. -/
def reported (p : Pipeline B) : Shared Bool := ⟨p.ingest_channel_.backpressured_, p.last_backpressure_state_⟩

/-- How far a thread is with its report. -/
def Pc.stage : Pc B → Stage Bool
  | .enqueue _ | .observe => .unread
  | .compare bp => .compare bp
  | .store bp => .store bp
  | .notify bp => .tell bp
  | _ => .away

/-- What an event tells the source. -/
def Event.told : Event B → Option Bool
  | .backpressure bp => some bp
  | _ => none

/-- A thread that is about to change the flag. -/
def Pc.turns (flag : Bool) (pc : Pc B) : Bool := pc.call.turns flag

theorem handle_reported {setup : Setup B} {p next : Pipeline B} {work : Work B} {after : Option (Work B)}
    {choice : Choice B} {event : Event B} (handles : handle setup p work choice = some (next, after, event)) :
    next.reported = p.reported ∧ event.told = none := by
  unfold handle at handles
  repeat' split at handles
  all_goals cases handles
  all_goals exact ⟨rfl, rfl⟩

theorem stop_reported {setup : Setup B} {p next : Pipeline B} {stage after : StopStage} {choice : Choice B}
    {event : Event B} (stops : stop setup p stage choice = some (next, after, event)) :
    next.reported = p.reported ∧ event.told = none := by
  obtain ⟨channel, _, _, state, shown⟩ := stop_frame stops
  constructor
  · rw [reported, reported, channel, state]
  · cases event <;> first
      | rfl
      | cases shown

theorem act_away {p next : Pipeline B} {event : Event B} (frame : next.reported = p.reported ∧ event.told = none) :
    ∃ choice, Reports.act p.reported .away choice = some (next.reported, .away, event.told) := by
  rw [frame.1, frame.2]
  exact ⟨.write p.reported.current, rfl⟩

variable [Inhabited B]

/-- Every move is a step of the reported value. -/
theorem Move.reports {setup : Setup B} {p next : Pipeline B} {pc after : Pc B} {event : Event B}
    (move : Move setup p pc next after event) :
    (∃ choice, Reports.act p.reported pc.stage choice = some (next.reported, after.stage, event.told)) ∧
      (next.reported.current ≠ p.reported.current → pc.turns p.ingest_channel_.IsBackpressured = true) := by
  cases move with
  | @inside caller call after choice channel event acts busy =>
    refine ⟨⟨.write channel.backpressured_, ?_⟩, fun changed => ?_⟩
    · cases caller <;> rfl
    · rw [Pc.turns, Caller.pc_call]
      exact AsyncChannel.act_turns acts changed
  | stop stops =>
    have frame := stop_reported stops
    exact ⟨act_away frame, fun changed => absurd (congrArg Shared.current frame.1) changed⟩
  | works handles =>
    have frame := handle_reported handles
    exact ⟨act_away frame, fun changed => absurd (congrArg Shared.current frame.1) changed⟩
  | loops handles =>
    have frame := handle_reported handles
    exact ⟨act_away frame, fun changed => absurd (congrArg Shared.current frame.1) changed⟩
  | resumes handles =>
    have frame := handle_reported handles
    exact ⟨act_away frame, fun changed => absurd (congrArg Shared.current frame.1) changed⟩
  | exits handles =>
    have frame := handle_reported handles
    exact ⟨act_away frame, fun changed => absurd (congrArg Shared.current frame.1) changed⟩
  | enqueues => exact ⟨⟨.look, rfl⟩, fun changed => absurd rfl changed⟩
  | enqueued => exact ⟨⟨.write p.reported.current, rfl⟩, fun changed => absurd rfl changed⟩
  | observes => exact ⟨⟨.proceed, rfl⟩, fun changed => absurd rfl changed⟩
  | differs bp changed => exact ⟨⟨.proceed, if_pos changed⟩, fun other => absurd rfl other⟩
  | agrees bp same => exact ⟨⟨.proceed, if_neg (not_not.mpr same)⟩, fun changed => absurd rfl changed⟩
  | stores => exact ⟨⟨.proceed, rfl⟩, fun changed => absurd rfl changed⟩
  | notifies => exact ⟨⟨.proceed, rfl⟩, fun changed => absurd rfl changed⟩
  | _ => exact ⟨act_away ⟨rfl, rfl⟩, fun changed => absurd rfl changed⟩

/-! ## Runs -/

variable {τ ι : Type*} [DecidableEq τ] [DecidableEq ι]

/-- The last value passed to `OnBackpressure`. -/
def told (history : List (τ × Event B)) : Bool :=
  history.foldl (fun last entry => entry.2.told.getD last) false

/-- A thread with no `Enqueue`, `Dequeue`, `TryDequeue` or `InjectFlush` in progress. -/
def Pc.quiet : Pc B → Bool
  | .enqueue _ | .observe | .compare _ | .store _ | .notify _ | .dequeue _ | .drain _ | .inject _ => false
  | _ => true

/-- A thread about to change the flag does so while some `Enqueue` has yet to read it and no `Enqueue` has
read it without being over. -/
def Announced (s : State (Pipeline B) (Pc B) τ) (thread : τ) : Prop :=
  (s.pc thread).turns s.shared.ingest_channel_.IsBackpressured = true → Timely (s.view reported Pc.stage)

section Runs

variable {setup : Setup B} {capacity : UInt64} {slots : 2 ≤ (roundUpPow2 capacity).toNat} {policy : DropPolicy}
  {high_wm low_wm : ℚ} {history : List (Party ι × Event B)} {target : State (Pipeline B) (Pc B) (Party ι)}

theorem run_reports
    (conditional : (program setup).RunWhere Announced (initial ι capacity slots policy high_wm low_wm) history target) :
    Kept (told history) (target.view reported Pc.stage) := by
  refine conditional.invariant (fun history s => Kept (told history) (s.view reported Pc.stage)) ?_ ?_
  · have away (party : Party ι) : (party.start : Pc B).stage = .away := by cases party <;> rfl
    refine ⟨fun t => ?_, fun t => ?_, fun differs => absurd rfl differs, fun differs => absurd rfl differs⟩
    · change Stage.Fresh _ (Party.start t).stage
      rw [away]
      exact nofun
    · change Stage.Stored _ (Party.start t).stage
      rw [away]
      exact nofun
  · intro history s thread choice shared pc event _ kept announced enabled
    obtain ⟨⟨choice', acts⟩, turns⟩ := (act_move enabled).reports
    rw [State.view_move, told, List.foldl_append]
    exact kept.step acts fun changed => announced (turns changed)

/-- In a run whose changes of the flag are announced, the source knows the flag whenever no call is in
progress. -/
theorem backpressure_known
    (conditional : (program setup).RunWhere Announced (initial ι capacity slots policy high_wm low_wm) history target)
    (quiet : ∀ party, (target.pc party).quiet = true) :
    told history = target.shared.ingest_channel_.IsBackpressured := by
  refine (run_reports conditional).told_eq fun party => ?_
  change (target.pc party).stage = .away
  have outside := quiet party
  generalize target.pc party = pc at outside ⊢
  cases pc with
  | enqueue | observe | compare | store | notify => cases outside
  | _ => rfl

private theorem silent_of_away {s next : Shared Bool} {after : Stage Bool} {choice : Reports.Choice Bool}
    {event : Option Bool} (acts : Reports.act s .away choice = some (next, after, event)) : event = none := by
  cases choice with
  | proceed => cases acts
  | _ =>
    cases acts
    rfl

/-- A change that is made with no `Enqueue` in progress leaves the source with the wrong flag. -/
theorem unknown_of_unannounced
    (conditional : (program setup).RunWhere Announced (initial ι capacity slots policy high_wm low_wm) history target)
    (away : ∀ party, (target.pc party).stage = .away) {party : Party ι} {choice : Choice B} {next : Pipeline B}
    {after : Pc B} {event : Event B} (enabled : act setup target.shared (target.pc party) choice = some (next, after, event))
    (changed : next.ingest_channel_.IsBackpressured ≠ target.shared.ingest_channel_.IsBackpressured) :
    told (history ++ [(party, event)]) ≠ next.ingest_channel_.IsBackpressured := by
  obtain ⟨⟨_, acts⟩, _⟩ := (act_move enabled).reports
  rw [away party] at acts
  have before := (run_reports conditional).told_eq away
  have silent : told (history ++ [(party, event)]) = told history := by
    rw [told, List.foldl_append, List.foldl_cons, List.foldl_nil, silent_of_away acts]
    rfl
  rw [silent, before]
  exact fun same => changed same.symm

end Runs

/-- One sink written directly. -/
def plain : Setup ℕ := ⟨fun batch => batch == 0, id, 0, false, 1, false⟩

/-- One thread's consecutive choices. -/
def takes (party : Party ι) (choices : List (Choice ℕ)) : List (Party ι × Choice ℕ) := choices.map (party, ·)

/-- Two calls of `Enqueue`, of which the second raises the flag, up to the source's notification. -/
def fills (party : Party ι) : List (Party ι × Choice ℕ) :=
  takes party (.Enqueue 7 :: List.replicate 7 .proceed ++ .Enqueue 8 :: List.replicate 10 .proceed)

/-- Two calls of `Dequeue` with the first batch handled, up to the store that clears the flag. -/
def empties : List (Party ι × Choice ℕ) :=
  takes .process (List.replicate 9 .proceed ++ [.wrote true] ++ List.replicate 7 .proceed)

instance : Fintype (Party Unit) :=
  ⟨{.main, .process, .producer ()}, by rintro (_ | _ | ⟨⟨⟩⟩) <;> decide⟩

instance (s : State (Pipeline ℕ) (Pc ℕ) (Party Unit)) (party : Party Unit) : Decidable (Announced s party) :=
  inferInstanceAs (Decidable (_ → _))

/-- The process thread clears the flag while an `Enqueue` has just begun. -/
theorem backpressure_known_twice : ∃ history target,
    (program plain).RunWhere Announced (initial Unit 2 (by decide) .kDropNewest (3 / 4) (1 / 2)) history target ∧
      history.filterMap (fun entry => entry.2.told) = [true, false] ∧
      told history = target.shared.ingest_channel_.IsBackpressured := by
  obtain ⟨history, target, conditional, both, quiet⟩ := Program.exists_runWhere_of_check (program plain) Announced
    (initial Unit 2 (by decide) .kDropNewest (3 / 4) (1 / 2))
    (fun target history => history.filterMap (fun entry => entry.2.told) = [true, false] ∧
      ∀ party, (target.pc party).quiet = true)
    (fills (.producer ()) ++ takes (.producer ()) [.proceed] ++ empties ++ takes (.producer ()) [.Enqueue 9] ++
      takes .process [.proceed, .proceed] ++ takes (.producer ()) (List.replicate 9 .proceed)) (by decide +kernel)
  exact ⟨history, target, conditional, both, backpressure_known conditional quiet⟩

/-- The process thread clears the flag after the last `Enqueue`, and the source is not told. -/
theorem release_unreported : ¬ ∀ history target,
    (program plain).Run (initial Unit 2 (by decide) .kDropNewest (3 / 4) (1 / 2)) history target →
      (∀ party, (target.pc party).quiet = true) →
      told history = target.shared.ingest_channel_.IsBackpressured := by
  intro always
  obtain ⟨history, target, run, quiet, slow, clear⟩ := Program.exists_run_of_check (program plain)
    (initial Unit 2 (by decide) .kDropNewest (3 / 4) (1 / 2))
    (fun target history => (∀ party, (target.pc party).quiet = true) ∧ told history = true ∧
      target.shared.ingest_channel_.IsBackpressured = false)
    (fills (.producer ()) ++ takes (.producer ()) [.proceed] ++ empties ++ takes .process [.proceed, .proceed])
    (by decide +kernel)
  rw [always history target run quiet, clear] at slow
  cases slow

/-- Two calls of `Enqueue` report in the wrong order, and the later report is the older reading. -/
theorem reports_overtake : ∃ history target,
    (program plain).Run (initial Bool 2 (by decide) .kDropNewest (3 / 4) (1 / 2)) history target ∧
      target.pc (.producer false) = .outside ∧ target.pc (.producer true) = .outside ∧
      history.filterMap (fun entry => entry.2.told) = [false, true] ∧
      target.shared.ingest_channel_.IsBackpressured = false := by
  apply Program.exists_run_of_check (program plain) (initial Bool 2 (by decide) .kDropNewest (3 / 4) (1 / 2))
    (fun target history => target.pc (.producer false) = .outside ∧ target.pc (.producer true) = .outside ∧
      history.filterMap (fun entry => entry.2.told) = [false, true] ∧
      target.shared.ingest_channel_.IsBackpressured = false)
    (fills (.producer false) ++ empties ++ takes .process [.proceed, .proceed] ++
      takes (.producer true) (.Enqueue 9 :: List.replicate 9 .proceed) ++ takes (.producer false) [.proceed])
  decide +kernel

end Pipeline

end Illuminator
