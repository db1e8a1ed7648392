import Illuminator.Soundness.TimerPasses

/-! # Runs of the timer wheel

Once `Stop` has returned the wheel has no thread until it is started again. Outside of a pass the timerfd is armed for
the earliest entry, or, where that entry was due already, for the next nanosecond.
-/

namespace Illuminator

namespace TimerWheel

variable {w w' : Wheel}

/-! ## The thread of the wheel -/

structure Stops (w : Wheel) : Prop where
  starting : w.owner = .starting → w.phase = .absent ∧ w.running_ = true
  joining : w.owner = .joining → w.running_ = false
  idle : w.owner = .outside → w.running_ = false → w.phase = .absent
  halted : ∀ before after, w.log = before ++ .stopped :: after → .started ∉ after →
    w.owner = .outside ∧ w.running_ = false ∧ ∀ id scheduled clock, .fired id scheduled clock ∉ after

/-- The phases from the reads of the descriptors to the end of `ProcessFired`. -/
def Phase.inPass : Phase → Bool
  | .absent | .check | .waiting | .exited => false
  | _ => true

/-- The thread of the wheel goes on: it leaves its owner alone and stops nothing, and when it is outside of a pass
then, it was so before, or the pass has just armed the timerfd. -/
structure GoesOn (w w' : Wheel) : Prop where
  present : w.phase ≠ .absent
  owner : w'.owner = w.owner
  running_ : w'.running_ = w.running_
  log : w'.log = w.log ∨ ∃ event : Event, event ≠ .stopped ∧ w'.log = w.log ++ [event]
  pass : w'.phase.inPass = true ∨ (w.phase.inPass = false ∧ w'.heap_ = w.heap_ ∧ w'.timer_fd_ = w.timer_fd_) ∨
    w' = { RearmTimerfdLocked w with phase := .check }

theorem run_goesOn {fired : List TimerEntry} (stepped : run fired w = some w') : GoesOn w w' := by
  have present {phase : Phase} (here : w.phase = phase) (other : phase ≠ .absent) : w.phase ≠ .absent := here ▸ other
  unfold run at stepped
  split at stepped
  · cases stepped
  · cases stepped
  · cases stepped
  · next here =>
    cases stepped
    exact ⟨present here Phase.noConfusion, rfl, rfl, Or.inl rfl, Or.inr (Or.inl ⟨by rw [here]; rfl, rfl, rfl⟩)⟩
  · next timer here =>
    cases stepped
    obtain ⟨value, read⟩ := readTimer_kept w
    split_ifs
    · rw [read]
      exact ⟨present here Phase.noConfusion, rfl, rfl, Or.inl rfl, Or.inl rfl⟩
    · exact ⟨present here Phase.noConfusion, rfl, rfl, Or.inl rfl, Or.inl rfl⟩
  · next here =>
    cases stepped
    exact ⟨present here Phase.noConfusion, rfl, rfl, Or.inl rfl, Or.inl rfl⟩
  · next now here =>
    obtain ⟨heap, _, rfl⟩ := Option.map_eq_some_iff.mp stepped
    exact ⟨present here Phase.noConfusion, rfl, rfl, Or.inr ⟨.pass, Event.noConfusion, rfl⟩, Or.inl rfl⟩
  · next here =>
    cases stepped
    exact ⟨present here Phase.noConfusion, rfl, rfl, Or.inl rfl, Or.inl rfl⟩
  · next here =>
    cases stepped
    exact ⟨present here Phase.noConfusion, rfl, rfl, Or.inr ⟨_, Event.noConfusion, rfl⟩, Or.inl rfl⟩
  · next here =>
    cases stepped
    refine ⟨present here Phase.noConfusion, rfl, rfl, Or.inl rfl, Or.inl ?_⟩
    dsimp only
    split_ifs
    · rfl
    · rfl
  · next here =>
    cases stepped
    exact ⟨present here Phase.noConfusion, rfl, rfl, Or.inl rfl, Or.inl rfl⟩
  · next here =>
    cases stepped
    obtain ⟨timer, rearmed⟩ := rearmed w
    refine ⟨present here Phase.noConfusion, ?_, ?_, Or.inl ?_, Or.inr (Or.inr rfl)⟩
    · rw [rearmed]
    · rw [rearmed]
    · rw [rearmed]

theorem Stops.initial (clock : ℤ) : Stops (Wheel.initial clock) where
  starting starting := by cases starting
  joining joining := by cases joining
  idle _ _ := rfl
  halted before after split := absurd split.symm (List.append_ne_nil_of_right_ne_nil before (List.cons_ne_nil _ after))

/-- An event that is neither a start nor a callback does not end the time after a stop. -/
theorem Stops.halted_snoc (stops : Stops w) {event : Event} (other : event ≠ .stopped) {before after : List Event}
    (split : w.log ++ [event] = before ++ .stopped :: after) (unstarted : .started ∉ after) :
    w.owner = .outside ∧ w.running_ = false ∧
      ∃ rest, after = rest ++ [event] ∧ ∀ id scheduled clock, .fired id scheduled clock ∉ rest := by
  rcases Interleaving.snoc_split split with ⟨last, _⟩ | ⟨rest, rfl, front⟩
  · exact absurd last other
  · obtain ⟨outside, halted, quiet⟩ := stops.halted before rest front fun started =>
      unstarted (List.mem_append_left _ started)
    exact ⟨outside, halted, rest, rfl, quiet⟩

/-- What leaves the owner and the thread alone and runs no callback. -/
theorem Stops.kept (stops : Stops w) (owner : w'.owner = w.owner) (running_ : w'.running_ = w.running_)
    (phase : w'.phase = w.phase)
    (log : w'.log = w.log ∨ ∃ event : Event, event ≠ .stopped ∧ event.silent = true ∧ w'.log = w.log ++ [event]) :
    Stops w' := by
  refine ⟨?_, ?_, ?_, ?_⟩
  · rw [owner, phase, running_]
    exact stops.starting
  · rw [owner, running_]
    exact stops.joining
  · rw [owner, running_, phase]
    exact stops.idle
  · intro before after split unstarted
    rw [owner, running_]
    rcases log with same | ⟨event, other, silent, noted⟩
    · exact stops.halted before after (same.symm.trans split) unstarted
    · obtain ⟨outside, halted, rest, rfl, quiet⟩ := stops.halted_snoc other (noted.symm.trans split) unstarted
      refine ⟨outside, halted, fun id scheduled clock fired => ?_⟩
      rcases List.mem_append.mp fired with old | new
      · exact quiet id scheduled clock old
      · cases List.mem_singleton.mp new
        exact Bool.noConfusion silent

theorem add_owner (delay interval : ℤ) (repeating : Bool) (w : Wheel) :
    (add delay interval repeating w).owner = w.owner ∧
      (add delay interval repeating w).running_ = w.running_ := by
  obtain ⟨timer, added⟩ := added delay interval repeating w
  rw [added]
  exact ⟨rfl, rfl⟩

theorem Stops.add (stops : Stops w) (delay interval : ℤ) (repeating : Bool) :
    Stops (TimerWheel.add delay interval repeating w) := by
  obtain ⟨phase, _, _, _, log, _⟩ := add_kept delay interval repeating w
  obtain ⟨owner, running_⟩ := add_owner delay interval repeating w
  exact stops.kept owner running_ phase (Or.inr ⟨_, Event.noConfusion, rfl, log⟩)

/-- The thread of the wheel goes on, so that the owner has not stopped it. -/
theorem Stops.run (stops : Stops w) {fired : List TimerEntry} (stepped : TimerWheel.run fired w = some w') :
    Stops w' := by
  obtain ⟨present, owner, running_, log, _⟩ := run_goesOn stepped
  refine ⟨fun starting => ?_, ?_, fun outside halted => ?_, fun before after split unstarted => ?_⟩
  · exact absurd (stops.starting (owner ▸ starting)).1 present
  · rw [owner, running_]
    exact stops.joining
  · exact absurd (stops.idle (owner ▸ outside) (running_ ▸ halted)) present
  · rcases log with same | ⟨event, other, noted⟩
    · obtain ⟨outside, halted, _⟩ := stops.halted before after (same.symm.trans split) unstarted
      exact absurd (stops.idle outside halted) present
    · obtain ⟨outside, halted, _⟩ := stops.halted_snoc other (noted.symm.trans split) unstarted
      exact absurd (stops.idle outside halted) present

theorem Stops.step (stops : Stops w) {action : Action} (stepped : TimerWheel.step w action = some w') :
    Stops w' := by
  cases action with
  | tick clock =>
    obtain ⟨_, ⟨⟩⟩ := Option.ite_none_right_eq_some.mp stepped
    exact stops.kept rfl rfl rfl (Or.inl rfl)
  | AddRepeating interval =>
    cases stepped
    exact stops.add interval interval true
  | AddOnce delay =>
    cases stepped
    exact stops.add delay 0 false
  | Cancel id =>
    cases stepped
    exact stops.kept rfl rfl rfl (Or.inr ⟨.cancelled id, Event.noConfusion, rfl, rfl⟩)
  | Start =>
    obtain ⟨⟨outside, absent⟩, ⟨⟩⟩ := Option.ite_none_right_eq_some.mp stepped
    refine ⟨fun _ => ⟨absent, rfl⟩, by rintro ⟨⟩, by rintro ⟨⟩, fun before after split unstarted => ?_⟩
    obtain ⟨_, _, rest, rfl, _⟩ := stops.halted_snoc Event.noConfusion split unstarted
    exact absurd (List.mem_append_right rest (List.mem_singleton_self _)) unstarted
  | spawn =>
    obtain ⟨starting, ⟨⟩⟩ := Option.ite_none_right_eq_some.mp stepped
    obtain ⟨_, running_⟩ := stops.starting starting
    refine ⟨by rintro ⟨⟩, by rintro ⟨⟩, fun _ halted => ?_, fun before after split unstarted => ?_⟩
    · exact absurd (running_.symm.trans halted) Bool.noConfusion
    · obtain ⟨outside, _⟩ := stops.halted before after split unstarted
      exact absurd (starting.symm.trans outside) Owner.noConfusion
  | Stop =>
    obtain ⟨outside, stepped⟩ := Option.ite_none_right_eq_some.mp stepped
    split_ifs at stepped with running_
    · cases stepped
      refine ⟨by rintro ⟨⟩, fun _ => rfl, by rintro ⟨⟩, fun before after split unstarted => ?_⟩
      obtain ⟨_, halted, _⟩ := stops.halted before after split unstarted
      exact absurd (running_.symm.trans halted) Bool.noConfusion
    · cases stepped
      have halted : w.running_ = false := Bool.eq_false_iff.mpr running_
      refine ⟨stops.starting, stops.joining, stops.idle, fun before after split unstarted => ⟨outside, halted, ?_⟩⟩
      rcases Interleaving.snoc_split split with ⟨_, rfl⟩ | ⟨rest, rfl, front⟩
      · exact fun _ _ _ => List.not_mem_nil
      · obtain ⟨_, _, quiet⟩ := stops.halted before rest front fun started =>
          unstarted (List.mem_append_left _ started)
        exact fun id scheduled clock fired =>
          quiet id scheduled clock (Interleaving.mem_of_snoc fired Event.noConfusion)
  | join =>
    obtain ⟨⟨joining, exited⟩, ⟨⟩⟩ := Option.ite_none_right_eq_some.mp stepped
    have halted := stops.joining joining
    refine ⟨by rintro ⟨⟩, by rintro ⟨⟩, fun _ _ => rfl, fun before after split unstarted => ⟨rfl, halted, ?_⟩⟩
    rcases Interleaving.snoc_split split with ⟨_, rfl⟩ | ⟨rest, rfl, front⟩
    · exact fun _ _ _ => List.not_mem_nil
    · obtain ⟨outside, _⟩ := stops.halted before rest front fun started =>
        unstarted (List.mem_append_left _ started)
      exact absurd (joining.symm.trans outside) Owner.noConfusion
  | epoll_wait timer =>
    obtain ⟨waiting, ⟨⟩⟩ := Option.ite_none_right_eq_some.mp stepped
    refine ⟨fun starting => ?_, stops.joining, fun outside halted => ?_, stops.halted⟩
    · exact absurd (waiting.symm.trans (stops.starting starting).1) Phase.noConfusion
    · exact absurd (waiting.symm.trans (stops.idle outside halted)) Phase.noConfusion
  | run fired => exact stops.run stepped

/-! ## The timerfd -/

/-- The timerfd expires no later than the earliest entry is due, or, when an entry was due as the timerfd was armed,
right after that. -/
def Timerfd.Covers (timer : Timerfd) (heap_ : List TimerEntry) : Prop :=
  (∀ entry ∈ heap_, timer.expiry ≤ entry.next_fire) ∨
    (∃ entry ∈ heap_, entry.next_fire ≤ timer.armed_at) ∧ timer.expiry = timer.armed_at + 1

def Armed (w : Wheel) : Prop :=
  w.phase.inPass = false → w.heap_ ≠ [] → ∃ timer, w.timer_fd_ = some timer ∧ timer.Covers w.heap_

theorem RearmTimerfdLocked_covers (w : Wheel) (nonempty : w.heap_ ≠ []) :
    ∃ timer, RearmTimerfdLocked w = { w with timer_fd_ := some timer } ∧ timer.Covers w.heap_ := by
  unfold RearmTimerfdLocked
  split
  · next none =>
    exact absurd (List.map_eq_nil_iff.mp (List.min?_eq_none_iff.mp none)) nonempty
  · next next_fire least =>
    obtain ⟨member, below⟩ := List.min?_eq_some_iff.mp least
    obtain ⟨entry, inside, rfl⟩ := List.mem_map.mp member
    dsimp only
    split_ifs with due
    · refine ⟨⟨w.clock, ⟨0, 1⟩⟩, rfl, Or.inr ⟨⟨entry, inside, ?_⟩, rfl⟩⟩
      change entry.next_fire ≤ w.clock
      omega
    · refine ⟨⟨w.clock, ⟨(entry.next_fire - w.clock) / 1000000000, (entry.next_fire - w.clock) % 1000000000⟩⟩, ?_,
        Or.inl fun other elsewhere => ?_⟩
      · rw [timerfd_settime, if_neg]
        intro zero
        obtain ⟨seconds, rest⟩ := ItValue.mk.inj zero
        omega
      · have later := below other.next_fire (List.mem_map_of_mem elsewhere)
        rw [Timerfd.expiry, ItValue.total]
        dsimp only
        omega

/-- The heap and the timerfd stay as they are, and no pass ends. -/
theorem Armed.kept (armed : Armed w) (heap : w'.heap_ = w.heap_) (timer : w'.timer_fd_ = w.timer_fd_)
    (outside : w'.phase.inPass = false → w.phase.inPass = false) : Armed w' := by
  unfold Armed
  rw [heap, timer]
  exact fun idle => armed (outside idle)

theorem Armed.add (delay interval : ℤ) (repeating : Bool) (w : Wheel) :
    Armed (TimerWheel.add delay interval repeating w) := by
  unfold TimerWheel.add
  obtain ⟨timer, rearmed, covers⟩ := RearmTimerfdLocked_covers { w with
    next_id_ := w.next_id_ + 1
    heap_ := ⟨w.next_id_, w.clock + nanoseconds delay, interval, repeating⟩ :: w.heap_
    timers := w.timers ++ [⟨w.clock, delay, repeating⟩]
    log := w.log ++ [.added w.next_id_] } (List.cons_ne_nil _ _)
  rw [rearmed]
  exact fun _ _ => ⟨timer, rfl, covers⟩

/-- A pass arms the timerfd at its end. -/
theorem Armed.run (armed : Armed w) {fired : List TimerEntry} (stepped : TimerWheel.run fired w = some w') :
    Armed w' := by
  rcases (run_goesOn stepped).pass with inside | ⟨outside, heap, timer⟩ | ended
  · exact fun idle => absurd (inside.symm.trans idle) Bool.noConfusion
  · exact armed.kept heap timer fun _ => outside
  · intro _ nonempty
    have before : w.heap_ ≠ [] := by
      obtain ⟨timer, rearmed⟩ := rearmed w
      rw [ended, rearmed] at nonempty
      exact nonempty
    obtain ⟨timer, rearmed, covers⟩ := RearmTimerfdLocked_covers w before
    rw [ended, rearmed]
    exact ⟨timer, rfl, covers⟩

theorem Armed.step (armed : Armed w) (stops : Stops w) {action : Action}
    (stepped : TimerWheel.step w action = some w') : Armed w' := by
  cases action with
  | tick clock =>
    obtain ⟨_, ⟨⟩⟩ := Option.ite_none_right_eq_some.mp stepped
    exact armed.kept rfl rfl fun idle => idle
  | AddRepeating interval =>
    cases stepped
    exact .add interval interval true w
  | AddOnce delay =>
    cases stepped
    exact .add delay 0 false w
  | Cancel id =>
    cases stepped
    exact armed.kept rfl rfl fun idle => idle
  | Start =>
    obtain ⟨_, ⟨⟩⟩ := Option.ite_none_right_eq_some.mp stepped
    exact armed.kept rfl rfl fun idle => idle
  | spawn =>
    obtain ⟨starting, ⟨⟩⟩ := Option.ite_none_right_eq_some.mp stepped
    exact armed.kept rfl rfl fun _ => by rw [(stops.starting starting).1]; rfl
  | Stop =>
    obtain ⟨_, stepped⟩ := Option.ite_none_right_eq_some.mp stepped
    split_ifs at stepped
    · cases stepped
      exact armed.kept rfl rfl fun idle => idle
    · cases stepped
      exact armed.kept rfl rfl fun idle => idle
  | join =>
    obtain ⟨⟨_, exited⟩, ⟨⟩⟩ := Option.ite_none_right_eq_some.mp stepped
    exact armed.kept rfl rfl fun _ => by rw [exited]; rfl
  | epoll_wait timer =>
    obtain ⟨_, ⟨⟩⟩ := Option.ite_none_right_eq_some.mp stepped
    exact fun idle => Bool.noConfusion idle
  | run fired => exact armed.run stepped

/-! ## Runs -/

/-- A pass is never stuck, whichever of the entries with the same time are on top. -/
theorem pass_goes_on (inside : w.phase.inPass = true) : ∃ fired w', run fired w = some w' := by
  unfold run
  cases here : w.phase with
  | absent | check | waiting | exited =>
    rw [here] at inside
    cases inside
  | pop now =>
    obtain ⟨fired, heap, popped⟩ := PriorityQueue.exists_popDue TimerEntry.next_fire now (PurgeCancelledLocked w).heap_
    exact ⟨fired, _, Option.map_eq_some_iff.mpr ⟨heap, popped, rfl⟩⟩
  | next fired =>
    cases fired with
    | nil => exact ⟨[], _, rfl⟩
    | cons entry fired => exact ⟨[], _, rfl⟩
  | reading | process | calling | pushing | rearm => exact ⟨[], _, rfl⟩

/-- Of the entries that were not cancelled, a pass leaves those in the heap that are not due. -/
theorem pass_leaves {now : ℤ} {fired : List TimerEntry} (here : w.phase = .pop now) (stepped : run fired w = some w') :
    (∀ entry ∈ w'.heap_, now < entry.next_fire) ∧
      ∀ entry ∈ w.heap_, entry.id ∉ w.cancelled_ → entry ∈ w'.heap_ ∨ entry ∈ w'.phase.fired := by
  unfold run at stepped
  rw [here] at stepped
  obtain ⟨heap, popped, rfl⟩ := Option.map_eq_some_iff.mp stepped
  refine ⟨PriorityQueue.popDue_rest popped, fun entry member uncancelled => ?_⟩
  have kept : entry ∈ (PurgeCancelledLocked w).heap_ := by
    refine List.mem_filter.mpr ⟨member, ?_⟩
    rw [Bool.not_eq_true', Bool.eq_false_iff]
    exact fun cancelled => uncancelled (List.contains_iff_mem.mp cancelled)
  rcases List.mem_append.mp ((PriorityQueue.popDue_perm popped).mem_iff.mp kept) with due | later
  · exact Or.inr due
  · exact Or.inl later

/-- What a run ensures: no callback is early, the callbacks of a timer are for the terms of its series, one after the
other and just one for a timer that does not repeat, those between the beginnings of two passes are in order, a timer
that was cancelled after it was added has at most one callback more, there are none between the return of `Stop` and
the next start, and the timerfd is armed outside of the passes. -/
structure OnTime (w : Wheel) : Prop where
  not_early : ∀ id scheduled clock, .fired id scheduled clock ∈ w.log → scheduled ≤ clock
  in_series : ∀ id timer, w.timers[id]? = some timer →
    firingsOf id w.log = (List.range (firingsOf id w.log).length).map timer.due
  once : ∀ id timer, w.timers[id]? = some timer → timer.repeating = false → (firingsOf id w.log).length ≤ 1
  known : ∀ id, w.timers.length ≤ id → firingsOf id w.log = []
  in_order : ∀ before part after, w.log = before ++ part ++ after → .pass ∉ part →
    (scheduledIn part).Pairwise (· ≤ ·)
  cancelled : ∀ before after id, w.log = before ++ .cancelled id :: after → .added id ∈ before →
    (firingsOf id after).length ≤ 1
  stopped : ∀ before after, w.log = before ++ .stopped :: after → .started ∉ after →
    ∀ id scheduled clock, .fired id scheduled clock ∉ after
  armed : w.phase.inPass = false → w.heap_ ≠ [] → ∃ timer, w.timer_fd_ = some timer ∧ timer.Covers w.heap_

structure Sound (w : Wheel) : Prop where
  series : Series w
  ordered : Ordered w
  cancels : Cancels w
  stops : Stops w
  armed : Armed w

theorem Sound.initial (clock : ℤ) : Sound (Wheel.initial clock) where
  series := .initial clock
  ordered := .initial clock
  cancels := .initial clock
  stops := .initial clock
  armed _ nonempty := absurd rfl nonempty

theorem Sound.step (sound : Sound w) {action : Action} (stepped : TimerWheel.step w action = some w') : Sound w' := by
  have effect := step_effect sound.series.pushes (fun starting => (sound.stops.starting starting).1) stepped
  constructor
  · exact sound.series.effect effect
  · exact sound.ordered.effect effect
  · exact sound.cancels.effect sound.series effect
  · exact sound.stops.step stepped
  · exact sound.armed.step sound.stops stepped

theorem runs_on_time {clock : ℤ} {history : List Action} (run : Actions.Run step (Wheel.initial clock) history w) :
    OnTime w := by
  have sound : Sound w := run.keeps (fun sound stepped => sound.step stepped) (.initial clock)
  constructor
  · exact sound.ordered.not_early
  · exact fun id timer added => (sound.series.series id timer added).1
  · exact fun id timer added => (sound.series.series id timer added).2
  · exact sound.series.unknown
  · exact sound.ordered.past
  · exact fun before after id split added => (sound.cancels.limited before after id split added).1
  · exact fun before after split unstarted => (sound.stops.halted before after split unstarted).2.2
  · exact sound.armed

/-- A repeating timer is cancelled after its first callback, while it is about to be pushed again. -/
private def cancelledOnce : List Action :=
  [.AddRepeating 5, .AddOnce 1, .Start, .spawn, .run [], .tick 5000001, .epoll_wait true, .run [], .run [],
    .run [⟨1, 1000000, 0, false⟩, ⟨0, 5000000, 5, true⟩], .run [], .run [], .run [], .Cancel 0, .run [], .run [],
    .run [], .run [], .run [], .tick 10000000, .epoll_wait true, .run [], .run [], .run [], .run [], .run [], .run [],
    .Stop, .epoll_wait false, .run [], .run [], .run [], .run [], .run [], .run [], .join]

theorem runs_on_time_cancelled : ∃ w, Actions.replay? step (Wheel.initial 0) cancelledOnce = some w ∧
    w.log = [.added 0, .added 1, .started, .pass, .fired 1 1000000 5000001, .fired 0 5000000 5000001, .cancelled 0,
      .pass, .pass, .stopped] ∧ OnTime w := by
  obtain ⟨w, replayed⟩ := Option.isSome_iff_exists.mp
    (show (Actions.replay? step (Wheel.initial 0) cancelledOnce).isSome = true from rfl)
  have logged : (Actions.replay? step (Wheel.initial 0) cancelledOnce).map Wheel.log =
      some [.added 0, .added 1, .started, .pass, .fired 1 1000000 5000001, .fired 0 5000000 5000001, .cancelled 0,
        .pass, .pass, .stopped] := rfl
  rw [replayed, Option.map_some, Option.some.injEq] at logged
  exact ⟨w, replayed, logged, runs_on_time (Actions.run_of_replay? replayed)⟩

/-- A timer that is due when it is added has the timerfd armed for the next nanosecond. -/
theorem armed_late : ¬ ∀ clock history w, Actions.Run step (Wheel.initial clock) history w →
    w.phase.inPass = false → w.heap_ ≠ [] →
      ∃ timer, w.timer_fd_ = some timer ∧ ∀ entry ∈ w.heap_, timer.expiry ≤ entry.next_fire := by
  intro claimed
  have run : Actions.Run step (Wheel.initial 0) [.AddOnce 0] (AddOnce 0 (Wheel.initial 0)) :=
    Actions.run_of_replay? rfl
  obtain ⟨timer, armed, early⟩ := claimed 0 _ _ run rfl (List.cons_ne_nil _ _)
  cases armed
  exact absurd (early ⟨0, 0, 0, false⟩ (List.mem_cons_self ..)) (by decide)

end TimerWheel

end Illuminator
