import Illuminator.Machine.Actions
import Illuminator.Model.TimerWheel
import Mathlib.Data.List.Nodup
import Mathlib.Data.List.Range
import Mathlib.Tactic.Ring

/-! # The series of a timer

An entry is in the heap, among the entries popped by the pass, or in the hands of the thread that runs its callback.
An entry that waits is scheduled for the next term of its timer's series, so the callbacks of a timer are run for the
terms of its series, one after the other.
-/

namespace Illuminator

namespace TimerWheel

/-- The scheduled time of a callback. -/
def Event.scheduled : Event → Option ℤ
  | .fired _ scheduled _ => some scheduled
  | _ => none

/-- The scheduled time of a callback of one timer. -/
def Event.firing (id : ℕ) : Event → Option ℤ
  | .fired other scheduled _ => if other = id then some scheduled else none
  | _ => none

/-- The scheduled times for which the callback of a timer was run. -/
def firingsOf (id : ℕ) (log : List Event) : List ℤ := log.filterMap (Event.firing id)

/-- The time for which a timer is scheduled after so many callbacks. -/
def Registration.due (timer : Registration) (fires : ℕ) : ℤ :=
  timer.added_at + (fires + 1) * nanoseconds timer.delay

/-- The entries that a pass has popped and whose callbacks are still to be run. -/
def Phase.fired : Phase → List TimerEntry
  | .next fired | .calling _ fired | .pushing _ fired => fired
  | _ => []

/-- The entry whose callback was run last in this pass. -/
def Phase.entry : Phase → Option TimerEntry
  | .calling entry _ | .pushing entry _ => some entry
  | _ => none

/-- The entries that wait for their callbacks. -/
def Wheel.waiting (w : Wheel) : List TimerEntry := w.heap_ ++ w.phase.fired

def Wheel.ids (w : Wheel) : List ℕ := (w.waiting ++ w.phase.entry.toList).map TimerEntry.id

/-- An entry that is about to be pushed again is one that repeats. -/
def Wheel.Pushes (w : Wheel) : Prop := ∀ entry fired, w.phase = .pushing entry fired → entry.repeating = true

/-- The entry is one of its timer. -/
structure Belongs (timer : Registration) (entry : TimerEntry) : Prop where
  repeating : entry.repeating = timer.repeating
  interval : timer.repeating = true → entry.interval = timer.delay

structure Series (w : Wheel) : Prop where
  next_id : w.next_id_ = w.timers.length
  distinct : w.ids.Nodup
  waits : ∀ entry ∈ w.waiting, ∃ timer, w.timers[entry.id]? = some timer ∧ Belongs timer entry ∧
    entry.next_fire = timer.due (firingsOf entry.id w.log).length ∧
    (timer.repeating = false → firingsOf entry.id w.log = [])
  called : ∀ entry ∈ w.phase.entry, ∃ timer, w.timers[entry.id]? = some timer ∧ Belongs timer entry ∧
    entry.next_fire + nanoseconds timer.delay = timer.due (firingsOf entry.id w.log).length
  pushes : w.Pushes
  series : ∀ id timer, w.timers[id]? = some timer →
    firingsOf id w.log = (List.range (firingsOf id w.log).length).map timer.due ∧
      (timer.repeating = false → (firingsOf id w.log).length ≤ 1)
  unknown : ∀ id, w.timers.length ≤ id → firingsOf id w.log = []

variable {w w' : Wheel}

/-! ## What leaves the series alone -/

/-- An event that is no callback. -/
def Event.silent : Event → Bool
  | .fired _ _ _ => false
  | _ => true

theorem firingsOf_silent {id : ℕ} {log : List Event} {event : Event} (silent : event.silent = true) :
    firingsOf id (log ++ [event]) = firingsOf id log := by
  have nothing : event.firing id = none := by
    cases event with
    | fired => exact Bool.noConfusion silent
    | added | cancelled | started | stopped | pass => rfl
  rw [firingsOf, List.filterMap_append, List.filterMap_cons_none nothing]
  exact List.append_nil _

theorem firingsOf_fired {id : ℕ} {log : List Event} {other : ℕ} {scheduled clock : ℤ} :
    firingsOf id (log ++ [.fired other scheduled clock]) =
      if other = id then firingsOf id log ++ [scheduled] else firingsOf id log := by
  rw [firingsOf, List.filterMap_append]
  split_ifs with same
  · rw [List.filterMap_cons_some (show Event.firing id (.fired other scheduled clock) = some scheduled from if_pos same)]
    rfl
  · rw [List.filterMap_cons_none (show Event.firing id (.fired other scheduled clock) = none from if_neg same)]
    exact List.append_nil _

/-- The callbacks are the same, and no entry waits or was called that did not before. -/
structure Quiet (w w' : Wheel) : Prop where
  next_id : w'.next_id_ = w.next_id_
  timers : w'.timers = w.timers
  firings : ∀ id, firingsOf id w'.log = firingsOf id w.log
  waits : ∀ entry ∈ w'.waiting, entry ∈ w.waiting
  called : ∀ entry ∈ w'.phase.entry, entry ∈ w.phase.entry
  pushes : w'.Pushes

theorem Series.quiet (series : Series w) (quiet : Quiet w w') (distinct : w'.ids.Nodup) : Series w' := by
  constructor
  · rw [quiet.next_id, quiet.timers]
    exact series.next_id
  · exact distinct
  · intro entry waits
    rw [quiet.timers, quiet.firings]
    exact series.waits entry (quiet.waits entry waits)
  · intro entry called
    rw [quiet.timers, quiet.firings]
    exact series.called entry (quiet.called entry called)
  · exact quiet.pushes
  · intro id timer
    rw [quiet.timers, quiet.firings]
    exact series.series id timer
  · intro id
    rw [quiet.timers, quiet.firings]
    exact series.unknown id

/-- The entries are where they were, and at most a start or a stop is noted. -/
structure Still (w w' : Wheel) : Prop where
  heap : w'.heap_ = w.heap_
  fired : w'.phase.fired = w.phase.fired
  entry : w'.phase.entry = w.phase.entry
  next_id : w'.next_id_ = w.next_id_
  cancelled : w'.cancelled_ = w.cancelled_
  timers : w'.timers = w.timers
  clock : w.clock ≤ w'.clock
  reads : ∀ now, w'.phase = .pop now → w.phase = .pop now ∨ now ≤ w'.clock
  log : w'.log = w.log ∨ w'.log = w.log ++ [.started] ∨ w'.log = w.log ++ [.stopped]
  pushes : w'.Pushes

theorem Still.firings (still : Still w w') (id : ℕ) : firingsOf id w'.log = firingsOf id w.log := by
  rcases still.log with same | noted | noted
  · rw [same]
  · rw [noted, firingsOf_silent rfl]
  · rw [noted, firingsOf_silent rfl]

theorem Still.waiting (still : Still w w') : w'.waiting = w.waiting := by
  rw [Wheel.waiting, Wheel.waiting, still.heap, still.fired]

theorem Still.ids (still : Still w w') : w'.ids = w.ids := by
  rw [Wheel.ids, Wheel.ids, still.waiting, still.entry]

theorem Series.still (series : Series w) (still : Still w w') : Series w' := by
  refine series.quiet ⟨still.next_id, still.timers, still.firings, ?_, ?_, still.pushes⟩ ?_
  · rw [still.waiting]
    exact fun _ waits => waits
  · rw [still.entry]
    exact fun _ called => called
  · rw [still.ids]
    exact series.distinct

/-! ## What moves an entry -/

theorem Series.lt (series : Series w) {id : ℕ} (member : id ∈ w.ids) : id < w.timers.length := by
  obtain ⟨entry, inside, rfl⟩ := List.mem_map.mp member
  rcases List.mem_append.mp inside with waits | called
  · obtain ⟨timer, added, _⟩ := series.waits entry waits
    exact (List.getElem?_eq_some_iff.mp added).1
  · obtain ⟨timer, added, _⟩ := series.called entry (Option.mem_toList.mp called)
    exact (List.getElem?_eq_some_iff.mp added).1

/-- The heap loses entries, and pops some of what is left. -/
theorem Series.pop (series : Series w) (idle : w.phase.fired = []) (nobody : w.phase.entry = none)
    {heap kept fired : List TimerEntry} {log : List Event} {cancelled : List ℕ} (sub : kept.Sublist w.heap_)
    (popped : kept.Perm (fired ++ heap)) (noted : log = w.log ++ [.pass]) :
    Series { w with heap_ := heap, cancelled_ := cancelled, phase := .next fired, log := log } := by
  have before : w.ids = w.heap_.map TimerEntry.id := by
    rw [Wheel.ids, Wheel.waiting, idle, nobody, List.append_nil, Option.toList_none, List.append_nil]
  have inside {entry : TimerEntry} (member : entry ∈ heap ++ fired) : entry ∈ w.heap_ :=
    sub.subset (popped.mem_iff.mpr ((List.perm_append_comm).mem_iff.mp member))
  apply series.quiet
  · refine ⟨rfl, rfl, ?_, ?_, fun entry called => absurd called (Option.not_mem_none entry), ?_⟩
    · intro id
      rw [noted]
      exact firingsOf_silent rfl
    · intro entry waits
      exact List.mem_append_left _ (inside waits)
    · intro entry later pushing
      cases pushing
  · change ((heap ++ fired ++ []).map TimerEntry.id).Nodup
    have whole := series.distinct
    rw [before] at whole
    rw [List.append_nil]
    exact (((popped.trans List.perm_append_comm).map TimerEntry.id).nodup_iff).mp (whole.sublist (sub.map _))

theorem Registration.due_succ (timer : Registration) (fires : ℕ) :
    timer.due fires + nanoseconds timer.delay = timer.due (fires + 1) := by
  unfold Registration.due
  push_cast
  ring

/-- The entry whose callback is run stays with the thread. -/
theorem ids_fire {entry : TimerEntry} {fired : List TimerEntry} (here : w.phase = .next (entry :: fired)) :
    w.ids.Perm ((w.heap_ ++ fired ++ [entry]).map TimerEntry.id) := by
  rw [Wheel.ids, Wheel.waiting, here]
  refine List.Perm.map _ ?_
  change (w.heap_ ++ entry :: fired ++ []).Perm _
  rw [List.append_nil, List.append_assoc]
  exact List.Perm.append_left _ (List.perm_append_singleton entry fired).symm

/-- A callback is run for the next term of its series. -/
theorem Series.fire (series : Series w) {entry : TimerEntry} {fired : List TimerEntry}
    (here : w.phase = .next (entry :: fired)) :
    Series
      { w with phase := .calling entry fired, log := w.log ++ [.fired entry.id entry.next_fire w.clock] } := by
  have waiting : w.waiting = w.heap_ ++ entry :: fired := by rw [Wheel.waiting, here]; rfl
  have first : entry ∈ w.waiting := by
    rw [waiting]
    exact List.mem_append_right _ (List.mem_cons_self ..)
  have distinct := (ids_fire here).nodup_iff.mp series.distinct
  have others {other : TimerEntry} (member : other ∈ w.heap_ ++ fired) : entry.id ≠ other.id := by
    rw [List.map_append, List.nodup_append] at distinct
    exact (distinct.2.2 other.id (List.mem_map_of_mem member) entry.id (List.mem_singleton_self _)).symm
  obtain ⟨timer, added, belongs, scheduled, once⟩ := series.waits entry first
  constructor
  · exact series.next_id
  · exact distinct
  · intro other member
    have waits : other ∈ w.waiting := by
      rw [waiting]
      exact (List.Sublist.append_left (List.sublist_cons_self entry fired) w.heap_).subset member
    rw [firingsOf_fired, if_neg (others member)]
    exact series.waits other waits
  · intro other called
    cases called
    refine ⟨timer, added, belongs, ?_⟩
    rw [firingsOf_fired, if_pos rfl, List.length_append, List.length_singleton, scheduled, timer.due_succ]
  · intro other later pushing
    cases pushing
  · intro id other found
    rw [firingsOf_fired]
    obtain ⟨terms, single⟩ := series.series id other found
    split_ifs with same
    · subst same
      cases added.symm.trans found
      refine ⟨?_, fun oneshot => ?_⟩
      · rw [List.length_append, List.length_singleton, List.range_succ, List.map_append, ← terms, scheduled]
        rfl
      · rw [once oneshot]
        exact le_refl 1
    · exact ⟨terms, single⟩
  · intro id beyond
    rw [firingsOf_fired, if_neg]
    · exact series.unknown id beyond
    · rintro rfl
      exact absurd (List.getElem?_eq_some_iff.mp added).1 (not_lt.mpr beyond)

theorem ids_drop {entry : TimerEntry} {fired : List TimerEntry} (here : w.phase = .calling entry fired) :
    ((w.heap_ ++ fired ++ []).map TimerEntry.id).Sublist w.ids := by
  rw [Wheel.ids, Wheel.waiting, here]
  exact List.Sublist.map _ (List.Sublist.append_left (List.nil_sublist _) _)

/-- An entry that is not to be pushed again is dropped. -/
theorem Series.drop (series : Series w) {entry : TimerEntry} {fired : List TimerEntry}
    (here : w.phase = .calling entry fired) (total : ℕ) :
    Series { w with fires_total_ := total, phase := .next fired } := by
  have waiting : w.waiting = w.heap_ ++ fired := by rw [Wheel.waiting, here]; rfl
  apply series.quiet
  · refine ⟨rfl, rfl, fun _ => rfl, ?_, fun entry called => absurd called (Option.not_mem_none entry), ?_⟩
    · intro other member
      rw [waiting]
      exact member
    · intro other later pushing
      cases pushing
  · have left := ids_drop here
    exact series.distinct.sublist left

theorem ids_push {entry : TimerEntry} {fired : List TimerEntry} (here : w.phase = .pushing entry fired) :
    w.ids.Perm (entry.id :: (w.heap_ ++ fired ++ []).map TimerEntry.id) := by
  rw [Wheel.ids, Wheel.waiting, here]
  refine List.Perm.map TimerEntry.id (?_ : List.Perm _ (entry :: (w.heap_ ++ fired ++ [])))
  rw [List.append_nil]
  exact List.perm_append_singleton entry _

/-- An entry is pushed again for the term after the one it was fired for. -/
theorem Series.push (series : Series w) {entry : TimerEntry} {fired : List TimerEntry}
    (here : w.phase = .pushing entry fired) :
    Series
      { w with
        heap_ := { entry with next_fire := entry.next_fire + nanoseconds entry.interval } :: w.heap_
        phase := .next fired } := by
  have waiting : w.waiting = w.heap_ ++ fired := by rw [Wheel.waiting, here]; rfl
  have current : w.phase.entry = some entry := by rw [here]; rfl
  obtain ⟨timer, added, belongs, scheduled⟩ := series.called entry current
  have repeating : timer.repeating = true := belongs.repeating.symm.trans (series.pushes entry fired here)
  constructor
  · exact series.next_id
  · have moved := ids_push here
    exact moved.nodup_iff.mp series.distinct
  · intro other member
    rcases List.mem_append.mp member with pushed | waits
    · rcases List.mem_cons.mp pushed with rfl | old
      · refine ⟨timer, added, ⟨belongs.repeating, belongs.interval⟩, ?_, ?_⟩
        · change entry.next_fire + nanoseconds entry.interval = _
          rw [belongs.interval repeating]
          exact scheduled
        · intro oneshot
          exact absurd (repeating.symm.trans oneshot) (by decide)
      · exact series.waits other (waiting ▸ List.mem_append_left _ old)
    · exact series.waits other (waiting ▸ List.mem_append_right _ waits)
  · exact fun other called => absurd called (Option.not_mem_none other)
  · intro other later pushing
    cases pushing
  · exact series.series
  · exact series.unknown

theorem rearmed (w : Wheel) : ∃ timer, RearmTimerfdLocked w = { w with timer_fd_ := timer } := by
  unfold RearmTimerfdLocked
  split
  · exact ⟨_, rfl⟩
  · dsimp only
    split_ifs
    · exact ⟨_, rfl⟩
    · exact ⟨_, rfl⟩

theorem added (delay interval : ℤ) (repeating : Bool) (w : Wheel) :
    ∃ timer, add delay interval repeating w =
      { w with
        next_id_ := w.next_id_ + 1
        heap_ := ⟨w.next_id_, w.clock + nanoseconds delay, interval, repeating⟩ :: w.heap_
        timers := w.timers ++ [⟨w.clock, delay, repeating⟩]
        log := w.log ++ [.added w.next_id_]
        timer_fd_ := timer } :=
  rearmed _

/-- A timer is added with the next id, under which nothing was ever run. -/
theorem Series.add (series : Series w) (delay interval : ℤ) (repeating : Bool)
    (same : repeating = true → interval = delay) : Series (TimerWheel.add delay interval repeating w) := by
  unfold TimerWheel.add
  generalize grown : ({ w with
    next_id_ := w.next_id_ + 1
    heap_ := ⟨w.next_id_, w.clock + nanoseconds delay, interval, repeating⟩ :: w.heap_
    timers := w.timers ++ [⟨w.clock, delay, repeating⟩]
    log := w.log ++ [.added w.next_id_] } : Wheel) = later
  have kept {id : ℕ} {timer : Registration} (added : w.timers[id]? = some timer) :
      later.timers[id]? = some timer := by
    rw [← grown]
    change (w.timers ++ [_])[id]? = some timer
    rw [List.getElem?_append_left (List.getElem?_eq_some_iff.mp added).1]
    exact added
  have newest : later.timers[w.next_id_]? = some ⟨w.clock, delay, repeating⟩ := by
    rw [← grown, series.next_id]
    exact List.getElem?_concat_length
  have firings (id : ℕ) : firingsOf id later.log = firingsOf id w.log := by
    rw [← grown]
    exact firingsOf_silent rfl
  have nothing : firingsOf w.next_id_ w.log = [] := series.unknown w.next_id_ (le_of_eq series.next_id.symm)
  have length : later.timers.length = w.timers.length + 1 := by
    rw [← grown]
    exact List.length_append
  have phase : later.phase = w.phase := by rw [← grown]
  have waiting : later.waiting = ⟨w.next_id_, w.clock + nanoseconds delay, interval, repeating⟩ :: w.waiting := by
    rw [← grown]
    rfl
  have added : Series later := by
    constructor
    · rw [length, ← series.next_id, ← grown]
    · rw [Wheel.ids, waiting, phase]
      refine List.nodup_cons.mpr ⟨fun member => ?_, series.distinct⟩
      exact absurd (series.lt member) (not_lt.mpr (le_of_eq series.next_id.symm))
    · intro entry member
      rw [waiting] at member
      rw [firings]
      rcases List.mem_cons.mp member with rfl | old
      · refine ⟨⟨w.clock, delay, repeating⟩, newest, ⟨rfl, same⟩, ?_, fun _ => nothing⟩
        change w.clock + nanoseconds delay = _
        rw [nothing, Registration.due, List.length_nil, Nat.cast_zero, zero_add, one_mul]
      · obtain ⟨timer, found, rest⟩ := series.waits entry old
        exact ⟨timer, kept found, rest⟩
    · intro entry called
      rw [phase] at called
      rw [firings]
      obtain ⟨timer, found, rest⟩ := series.called entry called
      exact ⟨timer, kept found, rest⟩
    · rw [Wheel.Pushes, phase]
      exact series.pushes
    · intro id timer found
      rw [firings]
      rcases Nat.lt_or_ge id w.timers.length with old | new
      · refine series.series id timer ?_
        rw [List.getElem?_eq_getElem old, ← kept (List.getElem?_eq_getElem old), found]
      · rw [series.unknown id new]
        exact ⟨rfl, fun _ => Nat.zero_le 1⟩
    · intro id beyond
      rw [firings]
      exact series.unknown id (by omega)
  obtain ⟨timer, rearmed⟩ := rearmed later
  rw [rearmed]
  exact added.still ⟨rfl, rfl, rfl, rfl, rfl, rfl, le_refl _, fun _ popping => Or.inl popping, Or.inl rfl, added.pushes⟩

/-! ## What a step can do -/

/-- The entries stay where they are, or a timer is added or cancelled, or entries move. -/
inductive Effect (w : Wheel) : Wheel → Prop
  | still {w' : Wheel} (still : Still w w') : Effect w w'
  | add (delay interval : ℤ) (repeating : Bool) (same : repeating = true → interval = delay) :
      Effect w (TimerWheel.add delay interval repeating w)
  | cancel (id : ℕ) : Effect w (Cancel id w)
  | pop (now : ℤ) {heap fired : List TimerEntry} (here : w.phase = .pop now)
      (popped : PriorityQueue.popDue TimerEntry.next_fire now (PurgeCancelledLocked w).heap_ fired = some heap) :
      Effect w { w with heap_ := heap, cancelled_ := [], phase := .next fired, log := w.log ++ [.pass] }
  | fire {entry : TimerEntry} {fired : List TimerEntry} (here : w.phase = .next (entry :: fired)) :
      Effect w
        { w with phase := .calling entry fired, log := w.log ++ [.fired entry.id entry.next_fire w.clock] }
  | drop {entry : TimerEntry} {fired : List TimerEntry} (here : w.phase = .calling entry fired) (total : ℕ) :
      Effect w { w with fires_total_ := total, phase := .next fired }
  | push {entry : TimerEntry} {fired : List TimerEntry} (here : w.phase = .pushing entry fired) :
      Effect w
        { w with
          heap_ := { entry with next_fire := entry.next_fire + nanoseconds entry.interval } :: w.heap_
          phase := .next fired }

/-- A phase in which the thread holds no entry. -/
def Phase.empty (phase : Phase) : Prop := phase.fired = [] ∧ phase.entry = none

theorem Phase.empty.pushes {phase : Phase} (empty : phase.empty) (entry : TimerEntry) (fired : List TimerEntry)
    (pushing : phase = .pushing entry fired) : entry.repeating = true := by
  rw [pushing] at empty
  exact absurd empty.2 (Option.some_ne_none entry)

theorem still_empty (idle : w.phase.empty) {phase : Phase} (next : phase.empty)
    (reads : ∀ now, phase = .pop now → now ≤ w.clock) (timer : Option Timerfd) :
    Still w { w with phase := phase, timer_fd_ := timer } :=
  ⟨rfl, next.1.trans idle.1.symm, next.2.trans idle.2.symm, rfl, rfl, rfl, le_refl _,
    fun now popping => Or.inr (reads now popping), Or.inl rfl, next.pushes⟩

theorem readTimer_kept (w : Wheel) : ∃ timer, readTimer w = { w with timer_fd_ := timer } := by
  unfold readTimer
  split_ifs
  · exact ⟨none, rfl⟩
  · exact ⟨w.timer_fd_, rfl⟩

theorem run_effect {fired : List TimerEntry} (stepped : TimerWheel.run fired w = some w') : Effect w w' := by
  have idle {phase : Phase} (here : w.phase = phase) (empty : phase.empty) : w.phase.empty := here ▸ empty
  unfold TimerWheel.run at stepped
  split at stepped
  · cases stepped
  · cases stepped
  · cases stepped
  · next here =>
    cases stepped
    refine .still (still_empty (idle here ⟨rfl, rfl⟩) ?_ ?_ w.timer_fd_)
    · split_ifs
      · exact ⟨rfl, rfl⟩
      · exact ⟨rfl, rfl⟩
    · intro now popping
      split_ifs at popping
  · next timer here =>
    cases stepped
    obtain ⟨value, read⟩ := readTimer_kept w
    split_ifs
    · rw [read]
      exact .still (still_empty (idle here ⟨rfl, rfl⟩) ⟨rfl, rfl⟩ (by rintro _ ⟨⟩) value)
    · exact .still (still_empty (idle here ⟨rfl, rfl⟩) ⟨rfl, rfl⟩ (by rintro _ ⟨⟩) w.timer_fd_)
  · next here =>
    cases stepped
    refine .still (still_empty (idle here ⟨rfl, rfl⟩) ⟨rfl, rfl⟩ ?_ w.timer_fd_)
    rintro now ⟨⟩
    exact le_refl _
  · next now here =>
    obtain ⟨heap, popped, rfl⟩ := Option.map_eq_some_iff.mp stepped
    exact .pop now here popped
  · next here =>
    cases stepped
    exact .still (still_empty (idle here ⟨rfl, rfl⟩) ⟨rfl, rfl⟩ (by rintro _ ⟨⟩) w.timer_fd_)
  · next here =>
    cases stepped
    exact .fire here
  · next entry rest here =>
    cases stepped
    by_cases again : (entry.repeating && w.running_) = true
    · rw [if_pos again]
      refine .still ⟨rfl, by rw [here]; rfl, by rw [here]; rfl, rfl, rfl, rfl, le_refl _, ?_, Or.inl rfl, ?_⟩
      · rintro _ ⟨⟩
      · intro other later pushing
        cases pushing
        exact (Bool.and_eq_true_iff.mp again).1
    · rw [if_neg again]
      exact .drop here _
  · next here =>
    cases stepped
    exact .push here
  · next here =>
    cases stepped
    obtain ⟨timer, rearmed⟩ := rearmed w
    rw [rearmed]
    exact .still (still_empty (idle here ⟨rfl, rfl⟩) ⟨rfl, rfl⟩ (by rintro _ ⟨⟩) timer)

theorem step_effect (pushes : w.Pushes) (unstarted : w.owner = .starting → w.phase = .absent) {action : Action}
    (stepped : TimerWheel.step w action = some w') : Effect w w' := by
  cases action with
  | tick clock =>
    obtain ⟨later, ⟨⟩⟩ := Option.ite_none_right_eq_some.mp stepped
    exact .still ⟨rfl, rfl, rfl, rfl, rfl, rfl, later, fun _ popping => Or.inl popping, Or.inl rfl, pushes⟩
  | AddRepeating interval =>
    cases stepped
    exact .add interval interval true fun _ => rfl
  | AddOnce delay =>
    cases stepped
    exact .add delay 0 false fun repeating => Bool.noConfusion repeating
  | Cancel id =>
    cases stepped
    exact .cancel id
  | Start =>
    obtain ⟨_, ⟨⟩⟩ := Option.ite_none_right_eq_some.mp stepped
    exact .still ⟨rfl, rfl, rfl, rfl, rfl, rfl, le_refl _, fun _ popping => Or.inl popping, Or.inr (Or.inl rfl), pushes⟩
  | spawn =>
    obtain ⟨starting, ⟨⟩⟩ := Option.ite_none_right_eq_some.mp stepped
    have absent := unstarted starting
    exact .still ⟨rfl, by rw [absent]; rfl, by rw [absent]; rfl, rfl, rfl, rfl, le_refl _, by rintro _ ⟨⟩,
      Or.inl rfl, Phase.empty.pushes ⟨rfl, rfl⟩⟩
  | Stop =>
    obtain ⟨_, stepped⟩ := Option.ite_none_right_eq_some.mp stepped
    split_ifs at stepped
    · cases stepped
      exact .still ⟨rfl, rfl, rfl, rfl, rfl, rfl, le_refl _, fun _ popping => Or.inl popping, Or.inl rfl, pushes⟩
    · cases stepped
      exact .still ⟨rfl, rfl, rfl, rfl, rfl, rfl, le_refl _, fun _ popping => Or.inl popping, Or.inr (Or.inr rfl), pushes⟩
  | join =>
    obtain ⟨⟨_, exited⟩, ⟨⟩⟩ := Option.ite_none_right_eq_some.mp stepped
    exact .still ⟨rfl, by rw [exited]; rfl, by rw [exited]; rfl, rfl, rfl, rfl, le_refl _, by rintro _ ⟨⟩,
      Or.inr (Or.inr rfl), Phase.empty.pushes ⟨rfl, rfl⟩⟩
  | epoll_wait timer =>
    obtain ⟨waiting, ⟨⟩⟩ := Option.ite_none_right_eq_some.mp stepped
    exact .still (@still_empty w (waiting ▸ ⟨rfl, rfl⟩) (.reading timer) ⟨rfl, rfl⟩ (by rintro _ ⟨⟩) w.timer_fd_)
  | run fired => exact run_effect stepped

theorem Series.cancel (series : Series w) (id : ℕ) : Series (Cancel id w) :=
  series.quiet
    ⟨rfl, rfl, fun _ => firingsOf_silent rfl, fun _ waits => waits, fun _ called => called, series.pushes⟩
    series.distinct

theorem Series.effect (series : Series w) (effect : Effect w w') : Series w' := by
  cases effect with
  | still still => exact series.still still
  | add delay interval repeating same => exact series.add delay interval repeating same
  | cancel id => exact series.cancel id
  | pop now here popped =>
    have idle : w.phase.empty := here ▸ ⟨rfl, rfl⟩
    exact series.pop idle.1 idle.2 List.filter_sublist (PriorityQueue.popDue_perm popped) rfl
  | fire here => exact series.fire here
  | drop here total => exact series.drop here total
  | push here => exact series.push here

/-- A wheel that was just made. -/
def Wheel.initial (clock : ℤ) : Wheel := { clock := clock }

theorem Series.initial (clock : ℤ) : Series (Wheel.initial clock) where
  next_id := rfl
  distinct := List.nodup_nil
  waits entry member := absurd member List.not_mem_nil
  called entry called := absurd called (Option.not_mem_none entry)
  pushes := Phase.empty.pushes ⟨rfl, rfl⟩
  series id timer found := by cases found
  unknown _ _ := rfl

end TimerWheel

end Illuminator
