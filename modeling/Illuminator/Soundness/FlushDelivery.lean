import Illuminator.Soundness.AsyncChannelConservation

/-! # What becomes of an accepted flush

Items leave the queue in the order they entered it, so the position at which an item entered names
it for the rest of the run. Making room discards whatever is oldest. A flush whose `InjectFlush` has
returned true is therefore still queued or handed to a consumer in every run whose evictions all
find something else at the front, and at rest in no other run.
-/

namespace Illuminator

def ChannelItem.isFlush {B : Type*} : ChannelItem B → Bool
  | .flush => true
  | .batch _ => false

namespace AsyncChannel

open Interleaving

variable {B τ : Type*}

/-- How an item left the queue. -/
inductive Exit where
  | discarded
  | delivered
  deriving DecidableEq

def Event.departure : Event B → List (Exit × ChannelItem B)
  | .evicted item => [(.discarded, item)]
  | .taken item => [(.delivered, item)]
  | _ => []

/-- The items that have entered the queue, each with its thread. -/
def entries (history : List (τ × Event B)) : List (τ × ChannelItem B) :=
  history.flatMap fun entry => entry.2.gain.map (Prod.mk entry.1)

/-- The items that have left the queue, each with its exit. -/
def departures (history : List (τ × Event B)) : List (Exit × ChannelItem B) :=
  history.flatMap fun entry => entry.2.departure

/-- The end of an `InjectFlush` call that returns true. -/
def Event.injects : Event B → Bool
  | .returned (.inject true) => true
  | _ => false

/-- Whether the thread that entered the flush at a position has had true returned for it: calls of
one thread return in the order of their entries. -/
def Acknowledged [DecidableEq τ] (history : List (τ × Event B)) (position : ℕ) (thread : τ) : Prop :=
  ((entries history).take position).countP (fun entry => entry.1 = thread ∧ entry.2.isFlush) <
    (own thread history).countP Event.injects

/-- Every acknowledged flush is still in the queue or was handed to a consumer. -/
def FlushesKept [DecidableEq τ] (history : List (τ × Event B)) (s : State (AsyncChannel B) (Pc B) τ) : Prop :=
  ∀ position thread, (entries history)[position]? = some (thread, .flush) →
    Acknowledged history position thread →
    (∃ place, (departures history).length + place = position ∧ s.shared.queue_.items[place]? = some .flush) ∨
      (departures history)[position]? = some (.delivered, .flush)

/-- The thread is not about to make room at the expense of a flush. -/
def spares (ch : AsyncChannel B) : Pc B → Bool
  | .enqueueEvict _ | .flushEvict => !(ch.queue_.items.head?.any ChannelItem.isFlush)
  | _ => true

def Event.discardsFlush : Event B → Bool
  | .evicted item => item.isFlush
  | _ => false

section Runs

variable [Inhabited B] [DecidableEq τ] {requested : UInt64} {slots : 2 ≤ (roundUpPow2 requested).toNat}
  {policy : DropPolicy} {high_wm low_wm : ℚ} {history : List (τ × Event B)}
  {target : State (AsyncChannel B) (Pc B) τ}

omit [DecidableEq τ] in
private theorem head_of_tryPop {ch next : AsyncChannel B} {result : Option (ChannelItem B)}
    (called : ch.tryPop = (next, result)) : ch.queue_.items.head? = result := by
  cases called
  exact (ch.queue_.TryPop_spec .movedFrom).1.symm

omit [DecidableEq τ] in
/-- An action discards a flush exactly when its thread was about to. -/
theorem act_spares {ch next : AsyncChannel B} {pc after : Pc B} {choice : Choice B} {event : Event B}
    (enabled : act ch pc choice = some (next, after, event)) :
    spares ch pc = true ↔ event.discardsFlush = false := by
  unfold act at enabled
  repeat' split at enabled
  all_goals cases enabled
  all_goals first
    | exact iff_of_true rfl rfl
    | (rcases pressure_event ‹_› with rfl | rfl | ⟨_, _, rfl⟩ <;> exact iff_of_true rfl rfl)
    | simp only [spares, head_of_tryPop ‹_›, Event.discardsFlush, Option.any_some, Option.any_none,
        Bool.not_eq_true', Bool.not_false]

omit [Inhabited B] [DecidableEq τ] in
theorem map_entries (history : List (τ × Event B)) :
    (entries history).map Prod.snd = history.flatMap fun entry => entry.2.gain := by
  simp only [entries, List.map_flatMap, List.map_map, Function.comp_def, List.map_id']

omit [Inhabited B] [DecidableEq τ] in
theorem map_departures (history : List (τ × Event B)) :
    (departures history).map Prod.snd = history.flatMap fun entry => entry.2.loss := by
  have each (event : Event B) : event.departure.map Prod.snd = event.loss := by cases event <;> rfl
  simp only [departures, List.map_flatMap, each]

/-- First in, first out: the entered items are those that left, followed by those still queued. -/
theorem run_fifo (run : program.Run (initial τ requested slots policy high_wm low_wm) history target) :
    (entries history).map Prod.snd = (departures history).map Prod.snd ++ target.shared.queue_.items := by
  rw [map_entries, map_departures]
  exact run_items run

omit [Inhabited B] [DecidableEq τ] in
/-- A discarded flush shows in the departures, and only that does. -/
theorem discarded_iff (history : List (τ × Event B)) :
    (.discarded, .flush) ∈ departures history ↔ ∃ entry ∈ history, entry.2.discardsFlush = true := by
  have each (event : Event B) : (.discarded, .flush) ∈ event.departure ↔ event.discardsFlush = true := by
    cases event with
    | evicted item => cases item <;> simp [Event.departure, Event.discardsFlush, ChannelItem.isFlush]
    | _ => simp [Event.departure, Event.discardsFlush]
  simp only [departures, List.mem_flatMap, each]

/-- A run whose evictions all find something else in front keeps every flush. -/
theorem flushesKept_of_spared
    (run : (program.restrict spares).Run (initial τ requested slots policy high_wm low_wm) history target) :
    FlushesKept history target := by
  have spared : ∀ entry ∈ history, entry.2.discardsFlush = false := by
    refine run.invariant (fun history _ => ∀ entry ∈ history, entry.2.discardsFlush = false) (by simp) ?_
    intro history s thread choice shared pc event ih enabled entry member
    obtain ⟨condition, acts⟩ := Program.restrict_act.mp enabled
    rcases List.mem_append.mp member with earlier | last
    · exact ih entry earlier
    · rw [List.mem_singleton.mp last]
      exact (act_spares acts).mp condition
  have fifo := run_fifo run.unrestrict
  intro position thread entered _
  have item : ((entries history).map Prod.snd)[position]? = some .flush := by
    rw [List.getElem?_map, entered]
    rfl
  rw [fifo] at item
  by_cases gone : position < (departures history).length
  · right
    rw [List.getElem?_append_left (by rwa [List.length_map]), List.getElem?_map, Option.map_eq_some_iff] at item
    obtain ⟨⟨exit, _⟩, left, rfl⟩ := item
    cases exit with
    | delivered => exact left
    | discarded =>
      obtain ⟨entry, member, discards⟩ := (discarded_iff history).mp (List.mem_of_getElem? left)
      rw [spared entry member] at discards
      contradiction
  · left
    rw [List.getElem?_append_right (by rw [List.length_map]; omega), List.length_map] at item
    exact ⟨position - (departures history).length, by omega, item⟩

/-- The flush whose entry its thread has not yet seen acknowledged. -/
def Reply.injecting : Reply B → List Unit
  | .inject true => [()]
  | _ => []

def Pc.injecting : Pc B → List Unit
  | .flushCount => [()]
  | .pressure _ reply => reply.injecting
  | .returning reply => reply.injecting
  | _ => []

def Event.flushEntered : Event B → List Unit
  | .entered .flush => [()]
  | _ => []

def Event.flushAcknowledged : Event B → List Unit
  | .returned (.inject true) => [()]
  | _ => []

omit [DecidableEq τ] in
/-- An action that enters or acknowledges a flush moves it through its thread's control state. -/
theorem act_injecting {ch next : AsyncChannel B} {pc after : Pc B} {choice : Choice B} {event : Event B}
    (enabled : act ch pc choice = some (next, after, event)) :
    pc.injecting ++ event.flushEntered = event.flushAcknowledged ++ after.injecting := by
  unfold act at enabled
  repeat' split at enabled
  all_goals cases enabled
  all_goals first
    | rfl
    | (rcases pressure_event ‹_› with rfl | rfl | ⟨_, _, rfl⟩ <;> exact List.append_nil _)
    | skip
  rename_i reply
  rcases reply with ⟨_, _⟩ | ⟨_ | _⟩ | _ <;> rfl

omit [Inhabited B] in
private theorem countP_entries (history : List (τ × Event B)) (thread : τ) :
    (entries history).countP (fun entry => entry.1 = thread ∧ entry.2.isFlush) =
      ((own thread history).flatMap Event.flushEntered).length := by
  induction history with
  | nil => rfl
  | cons entry rest ih =>
    obtain ⟨actor, event⟩ := entry
    have whole : entries ((actor, event) :: rest) = event.gain.map (Prod.mk actor) ++ entries rest := rfl
    rw [whole, List.countP_append, ih, own_cons]
    by_cases same : actor = thread
    · rw [if_pos same, List.flatMap_cons, List.length_append, List.countP_map]
      congr 1
      cases event with
      | entered item => cases item <;> simp [Event.gain, Event.flushEntered, ChannelItem.isFlush, same]
      | _ => rfl
    · rw [if_neg same, List.countP_map, Nat.add_eq_right, List.countP_eq_zero]
      simp [same]

omit [Inhabited B] [DecidableEq τ] in
private theorem countP_injects (events : List (Event B)) :
    events.countP Event.injects = (events.flatMap Event.flushAcknowledged).length := by
  induction events with
  | nil => rfl
  | cons event rest ih =>
    rw [List.countP_cons, List.flatMap_cons, List.length_append, ih, Nat.add_comm]
    congr 1
    rcases event with _ | _ | _ | _ | _ | _ | _ | _ | ⟨_ | ⟨_ | _⟩ | _⟩ <;> rfl

/-- With no call in progress every entered flush has been acknowledged. -/
theorem acknowledged_of_quiet (run : program.Run (initial τ requested slots policy high_wm low_wm) history target)
    (quiet : ∀ t, target.pc t = .idle) {position : ℕ} {thread : τ}
    (entered : (entries history)[position]? = some (thread, .flush)) : Acknowledged history position thread := by
  have settled := run.own_ledger Pc.injecting Event.flushEntered Event.flushAcknowledged thread rfl act_injecting
  rw [quiet thread] at settled
  obtain ⟨bound, here⟩ := List.getElem?_eq_some_iff.mp entered
  rw [Acknowledged, countP_injects, ← settled.trans (List.append_nil _), ← countP_entries]
  calc _ < ((entries history).take position).countP (fun entry => entry.1 = thread ∧ entry.2.isFlush) +
        ((entries history).drop position).countP (fun entry => entry.1 = thread ∧ entry.2.isFlush) := by
        rw [List.drop_eq_getElem_cons bound, here, List.countP_cons_of_pos (by simp [ChannelItem.isFlush])]
        omega
    _ = _ := by rw [← List.countP_append, List.take_append_drop]

/-- At rest, a run that kept every flush has discarded none. -/
theorem spared_of_flushesKept (run : program.Run (initial τ requested slots policy high_wm low_wm) history target)
    (quiet : ∀ t, target.pc t = .idle) (kept : FlushesKept history target) :
    ∀ entry ∈ history, entry.2.discardsFlush = false := by
  intro entry member
  by_contra discards
  have discarded := (discarded_iff history).mpr ⟨entry, member, by simpa using discards⟩
  obtain ⟨position, left⟩ := List.mem_iff_getElem?.mp discarded
  obtain ⟨gone, _⟩ := List.getElem?_eq_some_iff.mp left
  have item : ((entries history).map Prod.snd)[position]? = some .flush := by
    rw [run_fifo run, List.getElem?_append_left (by rwa [List.length_map]), List.getElem?_map, left]
    rfl
  rw [List.getElem?_map, Option.map_eq_some_iff] at item
  obtain ⟨⟨thread, _⟩, entered, rfl⟩ := item
  rcases kept position thread entered (acknowledged_of_quiet run quiet entered) with ⟨place, behind, _⟩ | delivered
  · omega
  · rw [left] at delivered
    cases Option.some.inj delivered

/-- Every acknowledged flush is kept in every run whose evictions all find something other than a
flush in front; and in a run that ends with no call in progress, in no other case. -/
theorem flush_delivery :
    ((program.restrict spares).Run (initial τ requested slots policy high_wm low_wm) history target →
      FlushesKept history target) ∧
    (program.Run (initial τ requested slots policy high_wm low_wm) history target →
      (∀ t, target.pc t = .idle) → (FlushesKept history target ↔
        (program.restrict spares).Run (initial τ requested slots policy high_wm low_wm) history target)) := by
  constructor
  · exact flushesKept_of_spared
  · intro run quiet
    constructor
    · intro kept
      exact run.restrict (fun event => event.discardsFlush = false) (fun enabled => (act_spares enabled).mpr)
        (spared_of_flushesKept run quiet kept)
    · exact flushesKept_of_spared

end Runs

/-- One uninterrupted call: its entry and a number of further actions. -/
def uninterrupted (call : Call ℕ) (actions : ℕ) : List (Unit × Choice ℕ) :=
  ((), .call call) :: List.replicate actions ((), .proceed)

theorem not_flushesKept [DecidableEq τ] {history : List (τ × Event B)} {s : State (AsyncChannel B) (Pc B) τ}
    {position : ℕ} {thread : τ} (entered : (entries history)[position]? = some (thread, .flush))
    (acknowledged : Acknowledged history position thread)
    (left : (departures history)[position]? = some (.discarded, .flush)) : ¬ FlushesKept history s := by
  intro kept
  obtain ⟨bound, _⟩ := List.getElem?_eq_some_iff.mp left
  rcases kept position thread entered acknowledged with ⟨place, behind, _⟩ | delivered
  · omega
  · rw [left] at delivered
    cases Option.some.inj delivered

instance [DecidableEq τ] (history : List (τ × Event B)) (position : ℕ) (thread : τ) :
    Decidable (Acknowledged history position thread) :=
  inferInstanceAs (Decidable (_ < _))

private theorem discarded_of_replay {policy : DropPolicy} (schedule : List (Unit × Choice ℕ))
    (shown : ((program (B := ℕ)).replay? (initial Unit 2 (by decide) policy (4 / 5) (1 / 5)) schedule).map
      (fun result => ((entries result.2)[0]?, decide (Acknowledged result.2 0 ()), (departures result.2)[0]?)) =
        some (some ((), .flush), true, some (.discarded, .flush))) :
    ∃ history target, (program (B := ℕ)).Run (initial Unit 2 (by decide) policy (4 / 5) (1 / 5)) history target ∧
      ¬ FlushesKept history target := by
  obtain ⟨history, target, run, seen⟩ := Program.exists_run_of_replay?
    (fun _ history => ((entries history)[0]?, decide (Acknowledged history 0 ()), (departures history)[0]?)) shown
  simp only [Prod.mk.injEq, decide_eq_true_eq] at seen
  obtain ⟨entered, acknowledged, left⟩ := seen
  exact ⟨history, target, run, not_flushesKept entered acknowledged left⟩

/-- Under either policy a channel of two discards an acknowledged flush: for a batch under
`kDropOldest`, for a later flush under `kDropNewest`. -/
theorem flush_discarded :
    (∃ history target, (program (B := ℕ)).Run (initial Unit 2 (by decide) .kDropOldest (4 / 5) (1 / 5))
      history target ∧ ¬ FlushesKept history target) ∧
    (∃ history target, (program (B := ℕ)).Run (initial Unit 2 (by decide) .kDropNewest (4 / 5) (1 / 5))
      history target ∧ ¬ FlushesKept history target) :=
  ⟨discarded_of_replay (uninterrupted .InjectFlush 3 ++ uninterrupted (.TryEnqueue 1) 7 ++
      uninterrupted (.TryEnqueue 2) 8) (by decide +kernel),
    discarded_of_replay (uninterrupted .InjectFlush 3 ++ uninterrupted .InjectFlush 3 ++
      uninterrupted .InjectFlush 6) (by decide +kernel)⟩

/-- The same channel keeps its flush when the batch in front of it is what makes room. -/
theorem flush_delivery_kept :
    ∃ history target, (program (B := ℕ)).Run (initial Unit 2 (by decide) .kDropOldest (4 / 5) (1 / 5))
        history target ∧ (∀ t, target.pc t = .idle) ∧
      (entries history)[1]? = some ((), .flush) ∧ (departures history)[0]? = some (.discarded, .batch 1) ∧
      FlushesKept history target := by
  obtain ⟨history, target, run, seen⟩ := Program.exists_run_of_replay?
    (P := (program (B := ℕ)).restrict spares)
    (fun (s : State (AsyncChannel ℕ) (Pc ℕ) Unit) history => (s.pc (), (entries history)[1]?, (departures history)[0]?))
    (show (((program (B := ℕ)).restrict spares).replay? (initial Unit 2 (by decide) .kDropOldest (4 / 5) (1 / 5))
      (uninterrupted (.TryEnqueue 1) 5 ++ uninterrupted .InjectFlush 3 ++ uninterrupted (.TryEnqueue 2) 10)).map
      (fun result => (result.1.pc (), (entries result.2)[1]?, (departures result.2)[0]?)) =
        some (.idle, some ((), .flush), some (.discarded, .batch 1)) by decide +kernel)
  simp only [Prod.mk.injEq] at seen
  obtain ⟨idle, entered, left⟩ := seen
  exact ⟨history, target, run.unrestrict, fun _ => idle, entered, left,
    (flush_delivery.2 run.unrestrict fun _ => idle).mpr run⟩

end AsyncChannel

end Illuminator
