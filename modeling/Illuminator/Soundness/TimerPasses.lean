import Illuminator.Machine.Interleaving
import Illuminator.Soundness.TimerSeries

/-! # Passes and cancellations

A pass runs the callbacks of the entries it popped in the order in which they were scheduled, none of them early. An
entry whose timer was cancelled is purged before the next pass pops it, so that its callback is run at most once more,
when the current pass has popped it already.
-/

namespace Illuminator

namespace TimerWheel

variable {w w' : Wheel}

/-! ## The order within a pass -/

def scheduledIn (log : List Event) : List ℤ := log.filterMap Event.scheduled

/-- The callbacks since the pass began and those still to be run are in the order of their times. -/
structure Ordered (w : Wheel) : Prop where
  due : ∀ entry ∈ w.phase.fired, entry.next_fire ≤ w.clock
  reads : ∀ now, w.phase = .pop now → now ≤ w.clock
  not_early : ∀ id scheduled clock, Event.fired id scheduled clock ∈ w.log → scheduled ≤ clock
  present : ∀ before part, w.log = before ++ part → .pass ∉ part →
    (scheduledIn part ++ w.phase.fired.map TimerEntry.next_fire).Pairwise (· ≤ ·)
  past : ∀ before part after, w.log = before ++ part ++ after → .pass ∉ part →
    (scheduledIn part).Pairwise (· ≤ ·)

theorem scheduledIn_silent {log : List Event} {event : Event} (silent : event.silent = true) :
    scheduledIn (log ++ [event]) = scheduledIn log := by
  have nothing : event.scheduled = none := by
    cases event with
    | fired => exact Bool.noConfusion silent
    | added | cancelled | started | stopped | pass => rfl
  rw [scheduledIn, List.filterMap_append, List.filterMap_cons_none nothing]
  exact List.append_nil _

/-- What is past is what was present. -/
theorem past_snoc {log : List Event} {event : Event} {fired : List ℤ}
    (past : ∀ before part after, log = before ++ part ++ after → .pass ∉ part → (scheduledIn part).Pairwise (· ≤ ·))
    (present : ∀ before part, log ++ [event] = before ++ part → .pass ∉ part →
      (scheduledIn part ++ fired).Pairwise (· ≤ ·)) :
    ∀ before part after, log ++ [event] = before ++ part ++ after → .pass ∉ part →
      (scheduledIn part).Pairwise (· ≤ ·) := by
  intro before part after same inside
  rcases Interleaving.suffix_split same with rfl | ⟨rest, rfl, front⟩
  · rw [List.append_nil] at same
    exact (List.pairwise_append.mp (present before part same inside)).1
  · exact past before part rest front inside

/-- An event that is no callback, with the same entries still to be run. -/
theorem Ordered.silent (ordered : Ordered w) (fired : w'.phase.fired = w.phase.fired) (clock : w.clock ≤ w'.clock)
    (reads : ∀ now, w'.phase = .pop now → now ≤ w'.clock)
    (noted : w'.log = w.log ∨ ∃ event : Event, event.silent = true ∧ w'.log = w.log ++ [event]) : Ordered w' := by
  have due : ∀ entry ∈ w'.phase.fired, entry.next_fire ≤ w'.clock := by
    rw [fired]
    exact fun entry member => le_trans (ordered.due entry member) clock
  rcases noted with same | ⟨event, silent, noted⟩
  · refine ⟨due, reads, ?_, ?_, ?_⟩
    · rw [same]
      exact ordered.not_early
    · rw [same, fired]
      exact ordered.present
    · rw [same]
      exact ordered.past
  · have present : ∀ before part, w.log ++ [event] = before ++ part → .pass ∉ part →
        (scheduledIn part ++ w.phase.fired.map TimerEntry.next_fire).Pairwise (· ≤ ·) := by
      intro before part split inside
      rcases Interleaving.suffix_split split with rfl | ⟨rest, rfl, front⟩
      · exact ordered.present w.log [] (List.append_nil _).symm List.not_mem_nil
      · rw [scheduledIn_silent silent]
        exact ordered.present before rest front fun member => inside (List.mem_append_left _ member)
    refine ⟨due, reads, ?_, ?_, ?_⟩
    · intro id scheduled time member
      rw [noted] at member
      rcases List.mem_append.mp member with old | new
      · exact ordered.not_early id scheduled time old
      · cases List.mem_singleton.mp new
        exact Bool.noConfusion silent
    · rw [noted, fired]
      exact present
    · rw [noted]
      exact past_snoc ordered.past present

/-- What a pass pops is due, and in order. -/
theorem Ordered.pop (ordered : Ordered w) {now : ℤ} {heap fired : List TimerEntry} (here : w.phase = .pop now)
    (popped : PriorityQueue.popDue TimerEntry.next_fire now (PurgeCancelledLocked w).heap_ fired = some heap) :
    Ordered { w with heap_ := heap, cancelled_ := [], phase := .next fired, log := w.log ++ [.pass] } := by
  have present : ∀ before part, w.log ++ [.pass] = before ++ part → .pass ∉ part →
      (scheduledIn part ++ fired.map TimerEntry.next_fire).Pairwise (· ≤ ·) := by
    intro before part split inside
    rcases Interleaving.suffix_split split with rfl | ⟨rest, rfl, _⟩
    · exact List.pairwise_map.mpr (PriorityQueue.popDue_sorted popped)
    · exact absurd (List.mem_append_right rest (List.mem_singleton_self _)) inside
  refine ⟨?_, by rintro _ ⟨⟩, ?_, present, past_snoc ordered.past present⟩
  · exact fun entry member => le_trans (PriorityQueue.popDue_due popped entry member) (ordered.reads now here)
  · intro id scheduled time member
    exact ordered.not_early id scheduled time (Interleaving.mem_of_snoc member Event.noConfusion)

theorem Ordered.fire (ordered : Ordered w) {entry : TimerEntry} {fired : List TimerEntry}
    (here : w.phase = .next (entry :: fired)) :
    Ordered
      { w with phase := .calling entry fired, log := w.log ++ [.fired entry.id entry.next_fire w.clock] } := by
  have before_fired : w.phase.fired = entry :: fired := by rw [here]; rfl
  have due := ordered.due
  have order := ordered.present
  rw [before_fired] at due order
  have present : ∀ before part, w.log ++ [.fired entry.id entry.next_fire w.clock] = before ++ part → .pass ∉ part →
      (scheduledIn part ++ fired.map TimerEntry.next_fire).Pairwise (· ≤ ·) := by
    intro before part split inside
    rcases Interleaving.suffix_split split with rfl | ⟨rest, rfl, front⟩
    · exact (order w.log [] (List.append_nil _).symm List.not_mem_nil).sublist (List.sublist_cons_self ..)
    · have earlier := order before rest front fun member => inside (List.mem_append_left _ member)
      rw [List.map_cons, List.append_cons] at earlier
      rw [scheduledIn, List.filterMap_append]
      exact earlier
  refine ⟨fun other member => due other (List.mem_cons_of_mem entry member), by rintro _ ⟨⟩, ?_, present,
    past_snoc ordered.past present⟩
  intro id scheduled time member
  rcases List.mem_append.mp member with old | new
  · exact ordered.not_early id scheduled time old
  · cases List.mem_singleton.mp new
    exact due entry (List.mem_cons_self ..)

theorem add_kept (delay interval : ℤ) (repeating : Bool) (w : Wheel) :
    (add delay interval repeating w).phase = w.phase ∧ (add delay interval repeating w).clock = w.clock ∧
      (add delay interval repeating w).cancelled_ = w.cancelled_ ∧
      (add delay interval repeating w).next_id_ = w.next_id_ + 1 ∧
      (add delay interval repeating w).log = w.log ++ [.added w.next_id_] ∧
      (add delay interval repeating w).ids = w.next_id_ :: w.ids := by
  obtain ⟨timer, added⟩ := added delay interval repeating w
  rw [added]
  exact ⟨rfl, rfl, rfl, rfl, rfl, rfl⟩

theorem Still.silent_log (still : Still w w') :
    w'.log = w.log ∨ ∃ event : Event, event.silent = true ∧ w'.log = w.log ++ [event] := by
  rcases still.log with same | noted | noted
  · exact Or.inl same
  · exact Or.inr ⟨_, rfl, noted⟩
  · exact Or.inr ⟨_, rfl, noted⟩

theorem Ordered.effect (ordered : Ordered w) (effect : Effect w w') : Ordered w' := by
  cases effect with
  | still still =>
    refine ordered.silent still.fired still.clock (fun now popping => ?_) still.silent_log
    rcases still.reads now popping with before | read
    · exact le_trans (ordered.reads now before) still.clock
    · exact read
  | add delay interval repeating _ =>
    obtain ⟨phase, clock, _, _, log, _⟩ := add_kept delay interval repeating w
    refine ordered.silent (congrArg Phase.fired phase) (le_of_eq clock.symm) ?_ (Or.inr ⟨_, rfl, log⟩)
    rw [phase, clock]
    exact ordered.reads
  | cancel id => exact ordered.silent rfl (le_refl _) ordered.reads (Or.inr ⟨.cancelled id, rfl, rfl⟩)
  | pop now here popped => exact ordered.pop here popped
  | fire here => exact ordered.fire here
  | drop here total => exact ordered.silent (by rw [here]; rfl) (le_refl _) (by rintro _ ⟨⟩) (Or.inl rfl)
  | push here => exact ordered.silent (by rw [here]; rfl) (le_refl _) (by rintro _ ⟨⟩) (Or.inl rfl)

theorem Ordered.initial (clock : ℤ) : Ordered (Wheel.initial clock) where
  due entry member := absurd member List.not_mem_nil
  reads := by rintro _ ⟨⟩
  not_early id scheduled clock member := absurd member List.not_mem_nil
  present before part split _ := by
    rw [(List.append_eq_nil_iff.mp split.symm).2]
    exact List.Pairwise.nil
  past before part after split _ := by
    rw [(List.append_eq_nil_iff.mp (List.append_eq_nil_iff.mp split.symm).1).2]
    exact List.Pairwise.nil

/-! ## Cancelled timers -/

/-- A timer cancelled after it was added was fired at most once since. While an entry of it is anywhere the
cancellation is not used up, and when the current pass has popped the entry it was not fired since. -/
structure Cancels (w : Wheel) : Prop where
  known : ∀ id, .added id ∈ w.log → id < w.next_id_
  limited : ∀ before after id, w.log = before ++ .cancelled id :: after → .added id ∈ before →
    (firingsOf id after).length ≤ 1 ∧ (id ∈ w.ids → id ∈ w.cancelled_) ∧
      (id ∈ w.phase.fired.map TimerEntry.id → firingsOf id after = [])

/-- Nothing is cancelled by an event of another kind. -/
theorem cancelled_split {log before after : List Event} {event : Event} {id : ℕ}
    (same : log ++ [event] = before ++ .cancelled id :: after) (other : event ≠ .cancelled id) :
    ∃ rest, after = rest ++ [event] ∧ log = before ++ .cancelled id :: rest := by
  rcases Interleaving.snoc_split same with ⟨last, _⟩ | earlier
  · exact absurd last other
  · exact earlier

/-- An event that is no callback and no cancellation, with no more entries and cancellations used up only for entries
that are gone. -/
theorem Cancels.silent (cancels : Cancels w) (known : ∀ id, .added id ∈ w'.log → id < w'.next_id_)
    (ids : ∀ id, id < w.next_id_ → id ∈ w'.ids → id ∈ w.ids ∧ (id ∈ w.cancelled_ → id ∈ w'.cancelled_))
    (fired : ∀ id ∈ w'.phase.fired.map TimerEntry.id,
      id ∈ w.phase.fired.map TimerEntry.id ∨ id ∈ w.ids ∧ id ∉ w.cancelled_)
    (noted : w'.log = w.log ∨ ∃ event : Event, event.silent = true ∧ (∀ id, event ≠ .cancelled id) ∧
      w'.log = w.log ++ [event]) : Cancels w' := by
  refine ⟨known, ?_⟩
  intro before after id split added
  have earlier : ∃ rest, firingsOf id after = firingsOf id rest ∧ w.log = before ++ .cancelled id :: rest := by
    rcases noted with same | ⟨event, silent, other, noted⟩
    · exact ⟨after, rfl, same.symm.trans split⟩
    · rw [noted] at split
      obtain ⟨rest, rfl, front⟩ := cancelled_split split (other id)
      exact ⟨rest, firingsOf_silent silent, front⟩
  obtain ⟨rest, firings, front⟩ := earlier
  have old : id < w.next_id_ := cancels.known id (front ▸ List.mem_append_left _ added)
  obtain ⟨once, pending, waits⟩ := cancels.limited before rest id front added
  rw [firings]
  refine ⟨once, fun member => ?_, fun member => ?_⟩
  · obtain ⟨member, kept⟩ := ids id old member
    exact kept (pending member)
  · rcases fired id member with waiting | ⟨inside, purged⟩
    · exact waits waiting
    · exact absurd (pending inside) purged

theorem Cancels.cancel (cancels : Cancels w) (id : ℕ) : Cancels (Cancel id w) := by
  refine ⟨fun other added => cancels.known other (Interleaving.mem_of_snoc added Event.noConfusion), ?_⟩
  intro before after other split added
  rcases Interleaving.snoc_split split with ⟨last, rfl⟩ | ⟨rest, rfl, front⟩
  · cases last
    exact ⟨Nat.zero_le 1, fun _ => List.mem_append_right _ (List.mem_singleton_self id), fun _ => rfl⟩
  · obtain ⟨once, pending, waits⟩ := cancels.limited before rest other front added
    rw [firingsOf_silent rfl]
    exact ⟨once, fun member => List.mem_append_left _ (pending member), waits⟩

theorem Cancels.fire (cancels : Cancels w) (series : Series w) {entry : TimerEntry} {fired : List TimerEntry}
    (here : w.phase = .next (entry :: fired)) :
    Cancels
      { w with phase := .calling entry fired, log := w.log ++ [.fired entry.id entry.next_fire w.clock] } := by
  have before_fired : w.phase.fired = entry :: fired := by rw [here]; rfl
  have alone : entry.id ∉ fired.map TimerEntry.id := by
    have distinct := series.distinct
    rw [Wheel.ids, Wheel.waiting, before_fired, List.map_append, List.map_append, List.map_cons] at distinct
    exact (List.nodup_cons.mp (List.nodup_append.mp (List.nodup_append.mp distinct).1).2.1).1
  refine ⟨fun id added => cancels.known id (Interleaving.mem_of_snoc added Event.noConfusion), ?_⟩
  intro before after id split added
  obtain ⟨rest, rfl, front⟩ := cancelled_split split Event.noConfusion
  obtain ⟨once, pending, waits⟩ := cancels.limited before rest id front added
  rw [before_fired] at waits
  have inside (member : id ∈ (w.heap_ ++ fired ++ [entry]).map TimerEntry.id) : id ∈ w.ids :=
    (ids_fire here).mem_iff.mpr member
  rw [firingsOf_fired]
  split_ifs with same
  · subst same
    rw [waits (List.mem_cons_self ..)]
    exact ⟨le_refl 1, fun member => pending (inside member), fun member => absurd member alone⟩
  · exact ⟨once, fun member => pending (inside member), fun member => waits (List.mem_cons_of_mem _ member)⟩

/-- The entries of cancelled timers are purged, and then the cancellations are used up. -/
theorem Cancels.pop (cancels : Cancels w) {now : ℤ} {heap fired : List TimerEntry}
    (popped : PriorityQueue.popDue TimerEntry.next_fire now (PurgeCancelledLocked w).heap_ fired = some heap) :
    Cancels { w with heap_ := heap, cancelled_ := [], phase := .next fired, log := w.log ++ [.pass] } := by
  have purged {id : ℕ} (member : id ∈ (heap ++ fired).map TimerEntry.id) : id ∈ w.ids ∧ id ∉ w.cancelled_ := by
    obtain ⟨entry, inside, rfl⟩ := List.mem_map.mp member
    have left : entry ∈ (PurgeCancelledLocked w).heap_ :=
      (PriorityQueue.popDue_perm popped).mem_iff.mpr (List.perm_append_comm.mem_iff.mp inside)
    obtain ⟨before, uncancelled⟩ := List.mem_filter.mp left
    refine ⟨?_, fun cancelled => ?_⟩
    · exact List.mem_map_of_mem (List.mem_append_left _ (List.mem_append_left _ before))
    · rw [List.contains_iff_mem.mpr cancelled] at uncancelled
      exact Bool.noConfusion uncancelled
  apply cancels.silent
  · exact fun id added => cancels.known id (Interleaving.mem_of_snoc added Event.noConfusion)
  · intro id _ member
    change id ∈ (heap ++ fired ++ []).map TimerEntry.id at member
    rw [List.append_nil] at member
    exact ⟨(purged member).1, fun cancelled => absurd cancelled (purged member).2⟩
  · intro id member
    change id ∈ fired.map TimerEntry.id at member
    refine Or.inr (purged ?_)
    rw [List.map_append]
    exact List.mem_append_right _ member
  · exact Or.inr ⟨.pass, rfl, fun _ => Event.noConfusion, rfl⟩

theorem Cancels.effect (cancels : Cancels w) (series : Series w) (effect : Effect w w') : Cancels w' := by
  cases effect with
  | still still =>
    have log : ∀ id, .added id ∈ w'.log → .added id ∈ w.log := by
      intro id added
      rcases still.log with same | noted | noted
      · exact same ▸ added
      · rw [noted] at added
        exact Interleaving.mem_of_snoc added Event.noConfusion
      · rw [noted] at added
        exact Interleaving.mem_of_snoc added Event.noConfusion
    apply cancels.silent
    · rw [still.next_id]
      exact fun id added => cancels.known id (log id added)
    · rw [still.ids, still.cancelled]
      exact fun id _ member => ⟨member, fun cancelled => cancelled⟩
    · rw [still.fired]
      exact fun id member => Or.inl member
    · rcases still.log with same | noted | noted
      · exact Or.inl same
      · exact Or.inr ⟨.started, rfl, fun _ => Event.noConfusion, noted⟩
      · exact Or.inr ⟨.stopped, rfl, fun _ => Event.noConfusion, noted⟩
  | add delay interval repeating _ =>
    obtain ⟨phase, _, cancelled, next_id, log, ids⟩ := add_kept delay interval repeating w
    apply cancels.silent
    · rw [log, next_id]
      intro id added
      rcases List.mem_append.mp added with old | new
      · exact Nat.lt_succ_of_lt (cancels.known id old)
      · cases List.mem_singleton.mp new
        exact Nat.lt_succ_self _
    · rw [ids, cancelled]
      intro id old member
      refine ⟨(List.mem_cons.mp member).resolve_left fun new => ?_, fun cancelled => cancelled⟩
      exact absurd old (by rw [new]; exact lt_irrefl _)
    · rw [phase]
      exact fun id member => Or.inl member
    · exact Or.inr ⟨.added w.next_id_, rfl, fun _ => Event.noConfusion, log⟩
  | cancel id => exact cancels.cancel id
  | pop now here popped => exact cancels.pop popped
  | fire here => exact cancels.fire series here
  | drop here total =>
    apply cancels.silent
    · exact cancels.known
    · have left := ids_drop here
      exact fun id _ member => ⟨left.subset member, fun cancelled => cancelled⟩
    · intro id member
      rw [here]
      exact Or.inl member
    · exact Or.inl rfl
  | push here =>
    apply cancels.silent
    · exact cancels.known
    · have moved := ids_push here
      exact fun id _ member => ⟨moved.mem_iff.mpr member, fun cancelled => cancelled⟩
    · intro id member
      rw [here]
      exact Or.inl member
    · exact Or.inl rfl

theorem Cancels.initial (clock : ℤ) : Cancels (Wheel.initial clock) where
  known _ added := absurd added List.not_mem_nil
  limited before after _ split :=
    absurd split.symm (List.append_ne_nil_of_right_ne_nil before (List.cons_ne_nil _ after))

end TimerWheel

end Illuminator
