import Illuminator.Model.LockFreeQueue
import Mathlib.Data.List.Range

/-! # Safety of the ring queue under every interleaving

A slot is free for one ticket or holds one ticket's element, and its sequence number says which.
Tickets advance by compare-and-swap, so at most one thread works on a slot in each direction; a
slot returns to the free phase only after the pop of its ticket has stored the next lap's number.
These facts form one invariant of the history and the state. From it, every returned element is
the one pushed under the same ticket, no element is returned twice or overwritten, and the
outstanding tickets never exceed the capacity.
-/

namespace Illuminator.LockFreeQueue

open Interleaving

variable {V τ : Type*}

/-- Tickets won by pushes, with their values, in the order of the winning swaps. -/
def pushWins (history : List (τ × Event V)) : List (ℕ × V) :=
  history.filterMap fun entry => match entry.2 with
    | .pushWon ticket value => some (ticket, value)
    | _ => none

/-- Tickets won by pops, in the order of the winning swaps. -/
def popWins (history : List (τ × Event V)) : List ℕ :=
  history.filterMap fun entry => match entry.2 with
    | .popWon ticket => some ticket
    | _ => none

/-- Tickets and values of the pops that have returned. -/
def results (history : List (τ × Event V)) : List (ℕ × V) :=
  history.filterMap fun entry => match entry.2 with
    | .popped ticket value => some (ticket, value)
    | _ => none

/-- The pushed values, indexed by ticket. -/
def values (history : List (τ × Event V)) : List V := (pushWins history).map Prod.snd

/-- Tickets whose pop has returned. -/
def done (history : List (τ × Event V)) : List ℕ := (results history).map Prod.fst

/-- An action that neither wins a ticket nor finishes a pop. -/
def Event.Plain : Event V → Prop
  | .pushWon .. | .popWon .. | .popped .. => False
  | _ => True

section History
variable (history : List (τ × Event V)) (thread : τ)

theorem pushWins_plain {event : Event V} (plain : event.Plain) :
    pushWins (history ++ [(thread, event)]) = pushWins history := by
  cases event <;> simp_all [pushWins, Event.Plain]

theorem popWins_plain {event : Event V} (plain : event.Plain) :
    popWins (history ++ [(thread, event)]) = popWins history := by
  cases event <;> simp_all [popWins, Event.Plain]

theorem results_plain {event : Event V} (plain : event.Plain) :
    results (history ++ [(thread, event)]) = results history := by
  cases event <;> simp_all [results, Event.Plain]

@[simp] theorem pushWins_pushWon (ticket : ℕ) (value : V) :
    pushWins (history ++ [(thread, .pushWon ticket value)]) = pushWins history ++ [(ticket, value)] := by
  simp [pushWins]

@[simp] theorem popWins_pushWon (ticket : ℕ) (value : V) :
    popWins (history ++ [(thread, .pushWon ticket value)]) = popWins history := by
  simp [popWins]

@[simp] theorem results_pushWon (ticket : ℕ) (value : V) :
    results (history ++ [(thread, .pushWon ticket value)]) = results history := by
  simp [results]

@[simp] theorem pushWins_popWon (ticket : ℕ) :
    pushWins (history ++ [(thread, (.popWon ticket : Event V))]) = pushWins history := by
  simp [pushWins]

@[simp] theorem popWins_popWon (ticket : ℕ) :
    popWins (history ++ [(thread, (.popWon ticket : Event V))]) = popWins history ++ [ticket] := by
  simp [popWins]

@[simp] theorem results_popWon (ticket : ℕ) :
    results (history ++ [(thread, (.popWon ticket : Event V))]) = results history := by
  simp [results]

@[simp] theorem pushWins_popped (ticket : ℕ) (value : V) :
    pushWins (history ++ [(thread, .popped ticket value)]) = pushWins history := by
  simp [pushWins]

@[simp] theorem popWins_popped (ticket : ℕ) (value : V) :
    popWins (history ++ [(thread, .popped ticket value)]) = popWins history := by
  simp [popWins]

@[simp] theorem results_popped (ticket : ℕ) (value : V) :
    results (history ++ [(thread, .popped ticket value)]) = results history ++ [(ticket, value)] := by
  simp [results]

end History

/-- The fixed geometry of a ring of at least two slots. -/
structure Shape (q : LockFreeQueue V) : Prop where
  slots : 2 ≤ q.capacity_
  pow : ∃ n, q.capacity_ = 2 ^ n
  mask : q.mask_ = q.capacity_ - 1

theorem Shape.index_eq {q : LockFreeQueue V} (shape : Shape q) (pos : ℕ) :
    q.index pos = pos % q.capacity_ := by
  obtain ⟨n, pow⟩ := shape.pow
  rw [index, shape.mask, pow, Nat.and_two_pow_sub_one_eq_mod]

theorem make_shape {requested : UInt64} (slots : 2 ≤ (roundUpPow2 requested).toNat) (blank : V) :
    Shape (make requested blank) :=
  ⟨slots, roundUpPow2_pow requested (by omega), rfl⟩

section Slots
variable {q : LockFreeQueue V} {pos other : ℕ}

theorem Shape.cell_eq (shape : Shape q) (same : other % q.capacity_ = pos % q.capacity_) :
    q.cell other = q.cell pos := by
  rw [cell, cell, shape.index_eq, shape.index_eq, same]

theorem Shape.storeSequence (shape : Shape q) (pos sequence : ℕ) :
    Shape (q.storeSequence pos sequence) := ⟨shape.slots, shape.pow, shape.mask⟩

theorem Shape.storeData (shape : Shape q) (pos : ℕ) (data : V) :
    Shape (q.storeData pos data) := ⟨shape.slots, shape.pow, shape.mask⟩

theorem Shape.cell_storeSequence (shape : Shape q) (sequence : ℕ) :
    (q.storeSequence pos sequence).cell other =
      if other % q.capacity_ = pos % q.capacity_ then ⟨sequence, (q.cell pos).data⟩ else q.cell other := by
  change Function.update q.cells_ (q.index pos) _ (q.index other) = _
  rw [Function.update_apply, shape.index_eq, shape.index_eq, ← shape.index_eq other]
  rfl

theorem Shape.cell_storeData (shape : Shape q) (data : V) :
    (q.storeData pos data).cell other =
      if other % q.capacity_ = pos % q.capacity_ then ⟨(q.cell pos).sequence, data⟩ else q.cell other := by
  change Function.update q.cells_ (q.index pos) _ (q.index other) = _
  rw [Function.update_apply, shape.index_eq, shape.index_eq, ← shape.index_eq other]
  rfl

/-- A slot whose element and then sequence number were written. -/
theorem Shape.cell_write (shape : Shape q) (data : V) (sequence : ℕ) :
    ((q.storeData pos data).storeSequence pos sequence).cell other =
      if other % q.capacity_ = pos % q.capacity_ then ⟨sequence, data⟩ else q.cell other := by
  rw [(shape.storeData pos data).cell_storeSequence, shape.cell_storeData, shape.cell_storeData, if_pos rfl]
  change (if other % q.capacity_ = pos % q.capacity_ then _ else _) = _
  split_ifs <;> rfl

/-- Two tickets of one slot never differ by one. -/
theorem Shape.succ_ne (shape : Shape q) (same : other % q.capacity_ = pos % q.capacity_) :
    other ≠ pos + 1 := by
  rintro rfl
  have slots := shape.slots
  have wrapped := Nat.dvd_of_mod_eq_zero (Nat.sub_mod_eq_zero_of_mod_eq same)
  rw [Nat.add_sub_cancel_left] at wrapped
  exact absurd (Nat.le_of_dvd Nat.one_pos wrapped) (by omega)

/-- A later ticket of one slot is at least a lap away. -/
theorem lap_le (same : other % q.capacity_ = pos % q.capacity_)
    (later : pos < other) : pos + q.capacity_ ≤ other := by
  have wrapped := Nat.dvd_of_mod_eq_zero (Nat.sub_mod_eq_zero_of_mod_eq same)
  have lap := Nat.le_of_dvd (by omega) wrapped
  omega

end Slots

/-- The lap of a slot: free for ticket `k`, or holding ticket `k`'s element. -/
inductive Phase (q : LockFreeQueue V) (values : List V) (k : ℕ) : Prop
  | free (sequence : (q.cell k).sequence = k) (unpopped : q.tail_ ≤ k) (room : k < q.tail_ + q.capacity_)
      (unlapped : q.head_ ≤ k + q.capacity_)
  | full (sequence : (q.cell k).sequence = k + 1) (pushed : k < q.head_)
      (unlapped : q.head_ ≤ k + q.capacity_) (popLap : q.tail_ ≤ k + q.capacity_)
      (data : q.tail_ ≤ k → values[k]? = some (q.cell k).data)

/-- Some ticket of the slot gives its lap, and every earlier ticket's pop has returned. -/
def SlotHolds (q : LockFreeQueue V) (values : List V) (done : List ℕ) (slot : ℕ) : Prop :=
  ∃ k, k % q.capacity_ = slot % q.capacity_ ∧ Phase q values k ∧
    ∀ j < k, j % q.capacity_ = k % q.capacity_ → j ∈ done

def Pc.pushTicket : Pc V → Option ℕ
  | .pushMove _ pos => some pos
  | .pushStore pos => some pos
  | _ => none

def Pc.popTicket : Pc V → Option ℕ
  | .popMove pos => some pos
  | .popStore pos _ => some pos
  | _ => none

/-- What a thread knows about the slot it stands at. -/
def Fact (q : LockFreeQueue V) (values : List V) (done : List ℕ) : Pc V → Prop
  | .pushClaim _ pos => pos < q.head_ ∨ (q.cell pos).sequence = pos
  | .pushMove value pos => pos < q.head_ ∧ (q.cell pos).sequence = pos ∧ values[pos]? = some value
  | .pushStore pos => pos < q.head_ ∧ (q.cell pos).sequence = pos ∧ values[pos]? = some (q.cell pos).data
  | .popClaim pos => pos < q.tail_ ∨ (q.cell pos).sequence = pos + 1
  | .popMove pos => pos < q.tail_ ∧ (q.cell pos).sequence = pos + 1 ∧
      values[pos]? = some (q.cell pos).data ∧ pos ∉ done
  | .popStore pos value => pos < q.tail_ ∧ (q.cell pos).sequence = pos + 1 ∧
      values[pos]? = some value ∧ pos ∉ done
  | _ => True

/-- The invariant of every reachable history and state. -/
structure Inv (history : List (τ × Event V)) (s : State (LockFreeQueue V) (Pc V) τ) : Prop where
  shape : Shape s.shared
  pushTickets : (pushWins history).map Prod.fst = List.range s.shared.head_
  popTickets : popWins history = List.range s.shared.tail_
  ordered : s.shared.tail_ ≤ s.shared.head_
  slots : ∀ slot, SlotHolds s.shared (values history) (done history) slot
  facts : ∀ t, Fact s.shared (values history) (done history) (s.pc t)
  pushers : s.Exclusive Pc.pushTicket
  poppers : s.Exclusive Pc.popTicket
  returned : ∀ result ∈ results history, result.1 < s.shared.tail_ ∧
    (values history)[result.1]? = some result.2
  once : (done history).Nodup
  winners : ∀ t k, (s.pc t).popTicket = some k → (t, Event.popWon k) ∈ history
  winnersReturned : ∀ t k value, (t, Event.popped k value) ∈ history → (t, Event.popWon k) ∈ history

/-- The effect of one action: a quiet one, or one of the six that touch a ticket or a slot. -/
inductive Effect (movedFrom : V → V) (q : LockFreeQueue V) :
    Pc V → LockFreeQueue V → Pc V → Event V → Prop
  | quiet {pc after : Pc V} {event : Event V} (plain : event.Plain)
      (pushFree : after.pushTicket = none) (popFree : after.popTicket = none)
      (fact : ∀ values done, Fact q values done after) : Effect movedFrom q pc q after event
  | claimPush {value : V} {pos : ℕ} (current : q.head_ = pos) :
      Effect movedFrom q (.pushClaim value pos) { q with head_ := pos + 1 } (.pushMove value pos)
        (.pushWon pos value)
  | movePush {value : V} {pos : ℕ} :
      Effect movedFrom q (.pushMove value pos) (q.storeData pos value) (.pushStore pos) .local
  | storePush {pos : ℕ} :
      Effect movedFrom q (.pushStore pos) (q.storeSequence pos (pos + 1)) .idle (.pushed pos)
  | claimPop {pos : ℕ} (current : q.tail_ = pos) :
      Effect movedFrom q (.popClaim pos) { q with tail_ := pos + 1 } (.popMove pos) (.popWon pos)
  | movePop {pos : ℕ} :
      Effect movedFrom q (.popMove pos) (q.storeData pos (movedFrom (q.cell pos).data))
        (.popStore pos (q.cell pos).data) .local
  | storePop {pos : ℕ} {value : V} :
      Effect movedFrom q (.popStore pos value) (q.storeSequence pos (pos + q.capacity_)) .idle
        (.popped pos value)

theorem act_effect {movedFrom : V → V} {q next : LockFreeQueue V} {pc after : Pc V} {choice : Choice V}
    {event : Event V} (enabled : act movedFrom q pc choice = some (next, after, event)) :
    Effect movedFrom q pc next after event := by
  unfold act at enabled
  split at enabled
  · cases enabled; exact .quiet trivial rfl rfl fun _ _ => trivial
  · cases enabled; exact .quiet trivial rfl rfl fun _ _ => trivial
  · cases enabled; exact .quiet trivial rfl rfl fun _ _ => trivial
  · next value pos =>
    split_ifs at enabled with equal negative
    · cases enabled
      refine .quiet trivial rfl rfl fun _ _ => Or.inr ?_
      simp only [diff] at equal
      omega
    · cases enabled; exact .quiet trivial rfl rfl fun _ _ => trivial
    · cases enabled; exact .quiet trivial rfl rfl fun _ _ => trivial
  · split_ifs at enabled with current
    · cases enabled; exact .claimPush current
    · cases enabled; exact .quiet trivial rfl rfl fun _ _ => trivial
  · cases enabled; exact .quiet trivial rfl rfl fun _ _ => trivial
  · cases enabled; exact .movePush
  · cases enabled; exact .storePush
  · cases enabled; exact .quiet trivial rfl rfl fun _ _ => trivial
  · next pos =>
    split_ifs at enabled with equal negative
    · cases enabled
      refine .quiet trivial rfl rfl fun _ _ => Or.inr ?_
      simp only [diff] at equal
      omega
    · cases enabled; exact .quiet trivial rfl rfl fun _ _ => trivial
    · cases enabled; exact .quiet trivial rfl rfl fun _ _ => trivial
  · split_ifs at enabled with current
    · cases enabled; exact .claimPop current
    · cases enabled; exact .quiet trivial rfl rfl fun _ _ => trivial
  · cases enabled; exact .quiet trivial rfl rfl fun _ _ => trivial
  · cases enabled; exact .movePop
  · cases enabled; exact .storePop
  · contradiction

section Phases
variable {q next : LockFreeQueue V} {values : List V} {done : List ℕ} {pos slot : ℕ}

theorem SlotHolds.free_of (holds : SlotHolds q values done pos) (shape : Shape q)
    (sequence : (q.cell pos).sequence = pos) :
    q.tail_ ≤ pos ∧ pos < q.tail_ + q.capacity_ ∧ q.head_ ≤ pos + q.capacity_ ∧
      ∀ j < pos, j % q.capacity_ = pos % q.capacity_ → j ∈ done := by
  obtain ⟨k, same, phase, earlier⟩ := holds
  have cells := shape.cell_eq same
  cases phase with
  | free current unpopped room unlapped =>
    obtain rfl : k = pos := by rw [← current, cells, sequence]
    exact ⟨unpopped, room, unlapped, earlier⟩
  | full current =>
    exact absurd (by rw [← current, cells, sequence] : pos = k + 1) (shape.succ_ne same.symm)

theorem SlotHolds.full_of (holds : SlotHolds q values done pos) (shape : Shape q)
    (sequence : (q.cell pos).sequence = pos + 1) :
    pos < q.head_ ∧ q.head_ ≤ pos + q.capacity_ ∧ q.tail_ ≤ pos + q.capacity_ ∧
      (q.tail_ ≤ pos → values[pos]? = some (q.cell pos).data) ∧
      ∀ j < pos, j % q.capacity_ = pos % q.capacity_ → j ∈ done := by
  obtain ⟨k, same, phase, earlier⟩ := holds
  have cells := shape.cell_eq same
  cases phase with
  | free current =>
    exact absurd (by rw [← current, cells, sequence] : k = pos + 1) (shape.succ_ne same)
  | full current pushed unlapped popLap data =>
    obtain rfl : k = pos := by
      rw [cells, sequence] at current
      omega
    exact ⟨pushed, unlapped, popLap, data, earlier⟩

theorem SlotHolds.claimPush (holds : SlotHolds q values done slot) (shape : Shape q)
    (current : q.head_ = pos) (sequence : (q.cell pos).sequence = pos) (length : values.length = pos)
    (value : V) : SlotHolds { q with head_ := pos + 1 } (values ++ [value]) done slot := by
  have slots := shape.slots
  obtain ⟨k, same, phase, earlier⟩ := holds
  have clash (lapped : k + q.capacity_ = pos) : q.cell k = q.cell pos :=
    shape.cell_eq (by rw [← lapped, Nat.add_mod_right])
  refine ⟨k, same, ?_, earlier⟩
  cases phase with
  | free at_k unpopped room unlapped =>
    refine .free at_k unpopped room ?_
    by_contra lapped
    have equal : k + q.capacity_ = pos := by simp only at lapped; omega
    rw [clash equal, sequence] at at_k
    omega
  | full at_k pushed unlapped popLap data =>
    refine .full at_k (by simp only; omega) ?_ popLap fun waiting => ?_
    · by_contra lapped
      have equal : k + q.capacity_ = pos := by simp only at lapped; omega
      rw [clash equal, sequence] at at_k
      omega
    · rw [List.getElem?_append_left (by omega)]
      exact data waiting

theorem SlotHolds.claimPop (holds : SlotHolds q values done slot) (shape : Shape q)
    (current : q.tail_ = pos) (sequence : (q.cell pos).sequence = pos + 1) :
    SlotHolds { q with tail_ := pos + 1 } values done slot := by
  have slots := shape.slots
  obtain ⟨k, same, phase, earlier⟩ := holds
  refine ⟨k, same, ?_, earlier⟩
  cases phase with
  | free at_k unpopped room unlapped =>
    refine .free at_k ?_ (by simp only; omega) unlapped
    by_contra passed
    obtain rfl : k = pos := by simp only at passed; omega
    change (q.cell k).sequence = k at at_k
    omega
  | full at_k pushed unlapped popLap data =>
    refine .full at_k pushed unlapped ?_ fun waiting => data (by simp only at waiting; omega)
    by_contra lapped
    have equal : k + q.capacity_ = pos := by simp only at lapped; omega
    have cells : q.cell k = q.cell pos := shape.cell_eq (by rw [← equal, Nat.add_mod_right])
    rw [cells, sequence] at at_k
    omega

/-- Writing into another slot leaves this slot's lap unchanged. -/
theorem SlotHolds.frame (holds : SlotHolds q values done slot) {added : List ℕ}
    (capacity : next.capacity_ = q.capacity_) (head : next.head_ = q.head_) (tail : next.tail_ = q.tail_)
    (cells : ∀ k, k % q.capacity_ = slot % q.capacity_ → next.cell k = q.cell k)
    (kept : ∀ j ∈ done, j ∈ added) : SlotHolds next values added slot := by
  obtain ⟨k, same, phase, earlier⟩ := holds
  refine ⟨k, by rw [capacity]; exact same, ?_, fun j before => ?_⟩
  · cases phase with
    | free at_k unpopped room unlapped =>
      exact .free (by rw [cells k same]; exact at_k) (by omega) (by omega) (by omega)
    | full at_k pushed unlapped popLap data =>
      refine .full (by rw [cells k same]; exact at_k) (by omega) (by omega) (by omega) ?_
      rw [tail, cells k same]
      exact data
  · rw [capacity]
    exact fun class_ => kept j (earlier j before class_)

/-- Moving an element in or out keeps every lap when no waiting element is in that slot. -/
theorem SlotHolds.storeData (holds : SlotHolds q values done slot) (shape : Shape q) (data : V)
    (idle : ∀ k, k % q.capacity_ = pos % q.capacity_ → (q.cell k).sequence = k + 1 → k < q.tail_) :
    SlotHolds (q.storeData pos data) values done slot := by
  obtain ⟨k, same, phase, earlier⟩ := holds
  have sequence : ((q.storeData pos data).cell k).sequence = (q.cell k).sequence := by
    rw [shape.cell_storeData]
    split_ifs with here
    · rw [shape.cell_eq here]
    · rfl
  refine ⟨k, same, ?_, earlier⟩
  cases phase with
  | free at_k unpopped room unlapped => exact .free (by rw [sequence]; exact at_k) unpopped room unlapped
  | full at_k pushed unlapped popLap waiting =>
    refine .full (by rw [sequence]; exact at_k) pushed unlapped popLap fun behind => ?_
    rw [shape.cell_storeData, if_neg fun here => absurd (idle k here at_k) (not_lt.mpr behind)]
    exact waiting behind

end Phases

/-- The position a thread's fact is about. -/
def Pc.position : Pc V → Option ℕ
  | .pushClaim _ pos => some pos
  | .pushMove _ pos => some pos
  | .pushStore pos => some pos
  | .popClaim pos => some pos
  | .popMove pos => some pos
  | .popStore pos _ => some pos
  | _ => none

/-- Facts survive every change outside their slot that advances the counters. -/
theorem Fact.mono {q next : LockFreeQueue V} {earlier later : List V} {done added : List ℕ} {pc : Pc V}
    (fact : Fact q earlier done pc) (head : q.head_ ≤ next.head_) (tail : q.tail_ ≤ next.tail_)
    (kept : ∀ (k : ℕ) (v : V), earlier[k]? = some v → later[k]? = some v)
    (cells : ∀ pos, pc.position = some pos → next.cell pos = q.cell pos)
    (fresh : ∀ pos, pc.position = some pos → pos ∉ done → pos ∉ added) : Fact next later added pc := by
  cases pc with
  | pushClaim value pos =>
    rw [Fact, cells pos rfl]
    exact fact.imp_left fun won => by omega
  | pushMove value pos =>
    rw [Fact, cells pos rfl]
    exact ⟨by have := fact.1; omega, fact.2.1, kept _ _ fact.2.2⟩
  | pushStore pos =>
    rw [Fact, cells pos rfl]
    exact ⟨by have := fact.1; omega, fact.2.1, kept _ _ fact.2.2⟩
  | popClaim pos =>
    rw [Fact, cells pos rfl]
    exact fact.imp_left fun won => by omega
  | popMove pos =>
    rw [Fact, cells pos rfl]
    exact ⟨by have := fact.1; omega, fact.2.1, kept _ _ fact.2.2.1, fresh pos rfl fact.2.2.2⟩
  | popStore pos value =>
    rw [Fact, cells pos rfl]
    exact ⟨by have := fact.1; omega, fact.2.1, kept _ _ fact.2.2.1, fresh pos rfl fact.2.2.2⟩
  | idle | pushLoad | pushTest | popLoad | popTest => trivial

section Preservation
variable {history : List (τ × Event V)} {s : State (LockFreeQueue V) (Pc V) τ} {thread : τ}

theorem Inv.length (inv : Inv history s) : (values history).length = s.shared.head_ := by
  have lengths := congrArg List.length inv.pushTickets
  simpa only [values, List.length_map, List.length_range] using lengths

theorem Inv.done_lt (inv : Inv history s) {k : ℕ} (returned : k ∈ done history) : k < s.shared.tail_ := by
  obtain ⟨result, member, rfl⟩ := List.mem_map.mp returned
  exact (inv.returned result member).1

/-- A thread with a ticket works alone on its slot: any other thread there has lost its claim. -/
theorem Inv.clash (inv : Inv history s) {pos : ℕ}
    (holds : (s.pc thread).pushTicket = some pos ∨ (s.pc thread).popTicket = some pos) {other : τ}
    (different : other ≠ thread) {spot : ℕ} (position : (s.pc other).position = some spot)
    (same : spot % s.shared.capacity_ = pos % s.shared.capacity_) :
    (∃ value, s.pc other = .pushClaim value spot ∧ spot < s.shared.head_) ∨
      (s.pc other = .popClaim spot ∧ spot < s.shared.tail_) := by
  have cells := inv.shape.cell_eq same
  have apart := inv.shape.succ_ne same
  have apart' := inv.shape.succ_ne same.symm
  have mine := inv.facts thread
  have theirs := inv.facts other
  have sequence : ((s.pc thread).pushTicket = some pos ∧ (s.shared.cell pos).sequence = pos ∧
        pos < s.shared.head_) ∨
      ((s.pc thread).popTicket = some pos ∧ (s.shared.cell pos).sequence = pos + 1 ∧
        pos < s.shared.tail_) := by
    cases at_ : s.pc thread <;>
      simp only [at_, Pc.pushTicket, Pc.popTicket, Fact, reduceCtorEq, Option.some.injEq, or_self,
        or_false, false_or] at holds mine ⊢ <;>
      subst holds <;> simp [mine]
  have pusher : (s.pc other).pushTicket = some pos → (s.pc thread).pushTicket = some pos → False :=
    fun held holds => different (inv.pushers _ _ _ held holds)
  have popper : (s.pc other).popTicket = some pos → (s.pc thread).popTicket = some pos → False :=
    fun held holds => different (inv.poppers _ _ _ held holds)
  cases at_ : s.pc other with
  | pushClaim value at_pos =>
    simp only [at_, Pc.position, Option.some.injEq] at position
    subst position
    simp only [at_, Fact, cells] at theirs
    exact Or.inl ⟨value, rfl, by omega⟩
  | popClaim at_pos =>
    simp only [at_, Pc.position, Option.some.injEq] at position
    subst position
    simp only [at_, Fact, cells] at theirs
    exact Or.inr ⟨rfl, by omega⟩
  | pushMove value at_pos =>
    simp only [at_, Pc.position, Option.some.injEq] at position
    subst position
    simp only [at_, Fact, cells, Pc.pushTicket, Option.some.injEq] at theirs pusher
    exfalso
    rcases sequence with ⟨ticket, current, _⟩ | ⟨ticket, current, _⟩
    · exact pusher (by omega) ticket
    · omega
  | pushStore at_pos =>
    simp only [at_, Pc.position, Option.some.injEq] at position
    subst position
    simp only [at_, Fact, cells, Pc.pushTicket, Option.some.injEq] at theirs pusher
    exfalso
    rcases sequence with ⟨ticket, current, _⟩ | ⟨ticket, current, _⟩
    · exact pusher (by omega) ticket
    · omega
  | popMove at_pos =>
    simp only [at_, Pc.position, Option.some.injEq] at position
    subst position
    simp only [at_, Fact, cells, Pc.popTicket, Option.some.injEq] at theirs popper
    exfalso
    rcases sequence with ⟨ticket, current, _⟩ | ⟨ticket, current, _⟩
    · omega
    · exact popper (by omega) ticket
  | popStore at_pos value =>
    simp only [at_, Pc.position, Option.some.injEq] at position
    subst position
    simp only [at_, Fact, cells, Pc.popTicket, Option.some.injEq] at theirs popper
    exfalso
    rcases sequence with ⟨ticket, current, _⟩ | ⟨ticket, current, _⟩
    · omega
    · exact popper (by omega) ticket
  | idle | pushLoad | pushTest | popLoad | popTest =>
    simp only [at_, Pc.position, reduceCtorEq] at position

/-- While a ticket holder writes its own slot, every other thread's fact survives. -/
theorem Inv.others (inv : Inv history s) {pos : ℕ}
    (holds : (s.pc thread).pushTicket = some pos ∨ (s.pc thread).popTicket = some pos)
    (next : LockFreeQueue V) (head : next.head_ = s.shared.head_) (tail : next.tail_ = s.shared.tail_)
    (frame : ∀ k, k % s.shared.capacity_ ≠ pos % s.shared.capacity_ → next.cell k = s.shared.cell k)
    {added : List ℕ} (adds : ∀ k ∈ added, k ∈ done history ∨ k = pos) {other : τ}
    (different : other ≠ thread) : Fact next (values history) added (s.pc other) := by
  by_cases here : ∃ spot, (s.pc other).position = some spot ∧
      spot % s.shared.capacity_ = pos % s.shared.capacity_
  · obtain ⟨spot, position, same⟩ := here
    rcases inv.clash holds different position same with ⟨value, at_, won⟩ | ⟨at_, won⟩
    · rw [at_]
      exact Or.inl (by omega)
    · rw [at_]
      exact Or.inl (by omega)
  · have apart (k : ℕ) (position : (s.pc other).position = some k) :
        k % s.shared.capacity_ ≠ pos % s.shared.capacity_ := fun same => here ⟨k, position, same⟩
    refine (inv.facts other).mono head.ge tail.ge (fun _ _ => id) (fun k position => frame k (apart k position)) ?_
    intro k position absent present
    rcases adds k present with before | equal
    · exact absent before
    · exact apart k position (by rw [equal])

private theorem Inv.winnersReturned_append (inv : Inv history s) {event : Event V}
    (now : ∀ k value, event = .popped k value → (thread, Event.popWon k) ∈ history) :
    ∀ t k value, (t, Event.popped k value) ∈ history ++ [(thread, event)] →
      (t, Event.popWon k) ∈ history ++ [(thread, event)] := by
  intro t k value present
  rcases List.mem_append.mp present with before | last
  · exact List.mem_append_left _ (inv.winnersReturned t k value before)
  · have same := List.mem_singleton.mp last
    rw [(Prod.mk.inj same).1]
    exact List.mem_append_left _ (now k value (Prod.mk.inj same).2.symm)

variable [DecidableEq τ]

/-- Facts of the moved state: the others' survive, and the mover has its own. -/
private theorem Inv.facts_move {next : LockFreeQueue V} {after : Pc V} {vs : List V} {ds : List ℕ}
    (others : ∀ other, other ≠ thread → Fact next vs ds (s.pc other)) (mine : Fact next vs ds after) :
    ∀ t, Fact next vs ds ((s.move thread next after).pc t) :=
  State.forall_move (fun _ => Fact next vs ds) others mine

/-- Pop tickets in hand were won by their holder, also after one more event. -/
private theorem Inv.winners_move (inv : Inv history s) {next : LockFreeQueue V} {after : Pc V}
    {event : Event V} (mine : ∀ k, after.popTicket = some k → (s.pc thread).popTicket = some k ∨
      event = .popWon k) :
    ∀ t k, ((s.move thread next after).pc t).popTicket = some k →
      (t, Event.popWon k) ∈ history ++ [(thread, event)] := by
  refine State.forall_move (fun t (pc : Pc V) => ∀ k, pc.popTicket = some k →
    (t, Event.popWon k) ∈ history ++ [(thread, event)])
    (fun t _ k ticket => List.mem_append_left _ (inv.winners t k ticket)) ?_
  intro k ticket
  rcases mine k ticket with held | won
  · exact List.mem_append_left _ (inv.winners thread k held)
  · rw [won]
    exact List.mem_append_right _ (List.mem_singleton_self _)

/-- A plain action keeps the invariant when the slots' laps and the mover's own fact are settled. -/
theorem Inv.plain (inv : Inv history s) {next : LockFreeQueue V} {after : Pc V} {event : Event V}
    (plain : event.Plain) (shape : Shape next) (head : next.head_ = s.shared.head_)
    (tail : next.tail_ = s.shared.tail_)
    (slots : ∀ slot, SlotHolds next (values history) (done history) slot)
    (others : ∀ other, other ≠ thread → Fact next (values history) (done history) (s.pc other))
    (fact : Fact next (values history) (done history) after)
    (pushKept : ∀ k, after.pushTicket = some k → (s.pc thread).pushTicket = some k)
    (popKept : ∀ k, after.popTicket = some k → (s.pc thread).popTicket = some k) :
    Inv (history ++ [(thread, event)]) (s.move thread next after) := by
  have wins := pushWins_plain history thread plain
  have returns := results_plain history thread plain
  have sameValues : values (history ++ [(thread, event)]) = values history := by rw [values, wins, values]
  have sameDone : done (history ++ [(thread, event)]) = done history := by rw [done, returns, done]
  refine ⟨shape, ?_, ?_, ?_, ?_, ?_, ?_, ?_, ?_, ?_, ?_, ?_⟩
  · rw [wins, State.move_shared, head]
    exact inv.pushTickets
  · rw [popWins_plain history thread plain, State.move_shared, tail]
    exact inv.popTickets
  · rw [State.move_shared, head, tail]
    exact inv.ordered
  · rw [sameValues, sameDone]
    exact slots
  · rw [sameValues, sameDone]
    exact Inv.facts_move others fact
  · exact inv.pushers.move_of_held _ pushKept
  · exact inv.poppers.move_of_held _ popKept
  · rw [sameValues, returns, State.move_shared, tail]
    exact inv.returned
  · rw [sameDone]
    exact inv.once
  · exact inv.winners_move fun k ticket => Or.inl (popKept k ticket)
  · refine inv.winnersReturned_append fun k value same => ?_
    rw [same] at plain
    exact plain.elim

theorem Inv.quiet (inv : Inv history s) {after : Pc V} {event : Event V} (plain : event.Plain)
    (pushFree : after.pushTicket = none) (popFree : after.popTicket = none)
    (fact : ∀ values done, Fact s.shared values done after) :
    Inv (history ++ [(thread, event)]) (s.move thread s.shared after) :=
  inv.plain plain inv.shape rfl rfl inv.slots (fun other _ => inv.facts other) (fact _ _)
    (by simp [pushFree]) (by simp [popFree])

theorem Inv.claimPush (inv : Inv history s) {value : V} {pos : ℕ} (at_ : s.pc thread = .pushClaim value pos)
    (current : s.shared.head_ = pos) :
    Inv (history ++ [(thread, .pushWon pos value)])
      (s.move thread { s.shared with head_ := pos + 1 } (.pushMove value pos)) := by
  have claim := inv.facts thread
  simp only [at_, Fact, current, lt_self_iff_false, false_or] at claim
  have length : (values history).length = pos := inv.length.trans current
  have appended : values (history ++ [(thread, .pushWon pos value)]) = values history ++ [value] := by
    simp [values]
  have sameDone : done (history ++ [(thread, .pushWon pos value)]) = done history := by simp [done]
  have kept (k : ℕ) (v : V) (present : (values history)[k]? = some v) :
      (values history ++ [value])[k]? = some v := by
    rw [List.getElem?_append_left (List.getElem?_eq_some_iff.mp present).1]
    exact present
  have room := ((inv.slots pos).free_of inv.shape claim).1
  refine ⟨⟨inv.shape.slots, inv.shape.pow, inv.shape.mask⟩, ?_, ?_, ?_, ?_, ?_, ?_, ?_, ?_, ?_, ?_, ?_⟩
  · rw [pushWins_pushWon, List.map_append, inv.pushTickets, current, State.move_shared, List.range_succ]
    rfl
  · rw [popWins_pushWon]
    exact inv.popTickets
  · change s.shared.tail_ ≤ pos + 1
    omega
  · intro slot
    rw [appended, sameDone]
    exact (inv.slots slot).claimPush inv.shape current claim length value
  · rw [appended, sameDone]
    refine Inv.facts_move (fun other _ => ?_) ?_
    · have advance : s.shared.head_ ≤ pos + 1 := by omega
      exact (inv.facts other).mono advance le_rfl kept (fun _ _ => rfl) (fun _ _ => id)
    · exact ⟨Nat.lt_succ_self pos, claim, by rw [← length, List.getElem?_concat_length]⟩
  · refine inv.pushers.move _ fun k fresh u _ held => ?_
    obtain rfl : pos = k := Option.some.inj fresh
    have won := inv.facts u
    cases there : s.pc u <;> simp only [there, Pc.pushTicket, Option.some.injEq, reduceCtorEq] at held <;>
      simp only [there, Fact] at won <;> omega
  · exact inv.poppers.move_of_held _ fun k held => absurd held (by simp [Pc.popTicket])
  · rw [appended, results_pushWon]
    exact fun result present => ⟨(inv.returned result present).1, kept _ _ (inv.returned result present).2⟩
  · rw [sameDone]
    exact inv.once
  · exact inv.winners_move fun k ticket => absurd ticket (by simp [Pc.popTicket])
  · exact inv.winnersReturned_append fun k value same => absurd same (by simp)

theorem Inv.claimPop (inv : Inv history s) {pos : ℕ} (at_ : s.pc thread = .popClaim pos)
    (current : s.shared.tail_ = pos) :
    Inv (history ++ [(thread, .popWon pos)])
      (s.move thread { s.shared with tail_ := pos + 1 } (.popMove pos)) := by
  have claim := inv.facts thread
  simp only [at_, Fact, current, lt_self_iff_false, false_or] at claim
  obtain ⟨pushed, _, _, data, _⟩ := (inv.slots pos).full_of inv.shape claim
  have sameValues : values (history ++ [(thread, .popWon pos)]) = values history := by simp [values]
  have sameDone : done (history ++ [(thread, (.popWon pos : Event V))]) = done history := by simp [done]
  have unpopped : pos ∉ done history := fun present => by
    have := inv.done_lt present
    omega
  refine ⟨⟨inv.shape.slots, inv.shape.pow, inv.shape.mask⟩, ?_, ?_, ?_, ?_, ?_, ?_, ?_, ?_, ?_, ?_, ?_⟩
  · rw [pushWins_popWon]
    exact inv.pushTickets
  · rw [popWins_popWon, inv.popTickets, current, State.move_shared, List.range_succ]
  · exact pushed
  · intro slot
    rw [sameValues, sameDone]
    exact (inv.slots slot).claimPop inv.shape current claim
  · rw [sameValues, sameDone]
    refine Inv.facts_move (fun other _ => ?_) ?_
    · have advance : s.shared.tail_ ≤ pos + 1 := by omega
      exact (inv.facts other).mono le_rfl advance (fun _ _ => id) (fun _ _ => rfl) (fun _ _ => id)
    · exact ⟨Nat.lt_succ_self pos, claim, data current.le, unpopped⟩
  · exact inv.pushers.move_of_held _ fun k held => absurd held (by simp [Pc.pushTicket])
  · refine inv.poppers.move _ fun k fresh u _ held => ?_
    obtain rfl : pos = k := Option.some.inj fresh
    have won := inv.facts u
    cases there : s.pc u <;> simp only [there, Pc.popTicket, Option.some.injEq, reduceCtorEq] at held <;>
      simp only [there, Fact] at won <;> omega
  · rw [sameValues, results_popWon]
    intro result present
    obtain ⟨before, value⟩ := inv.returned result present
    exact ⟨before.trans_le (current.le.trans (Nat.le_succ pos)), value⟩
  · rw [sameDone]
    exact inv.once
  · refine inv.winners_move fun k ticket => Or.inr ?_
    rw [Option.some.inj ticket]
  · exact inv.winnersReturned_append fun k value same => absurd same (by simp)

theorem Inv.movePush (inv : Inv history s) {value : V} {pos : ℕ} (at_ : s.pc thread = .pushMove value pos) :
    Inv (history ++ [(thread, .local)]) (s.move thread (s.shared.storeData pos value) (.pushStore pos)) := by
  have fact := inv.facts thread
  simp only [at_, Fact] at fact
  have ticket : (s.pc thread).pushTicket = some pos := by rw [at_]; rfl
  refine inv.plain trivial (inv.shape.storeData pos value) rfl rfl (fun slot => ?_)
    (fun other => inv.others (Or.inl ticket) (s.shared.storeData pos value) rfl rfl (fun k apart => ?_) (fun _ => Or.inl))
    ?_ ?_ ?_
  · refine (inv.slots slot).storeData inv.shape value fun k same sequence => ?_
    rw [inv.shape.cell_eq same, fact.2.1] at sequence
    exact absurd sequence (inv.shape.succ_ne same.symm)
  · rw [inv.shape.cell_storeData, if_neg apart]
  · refine ⟨fact.1, ?_, ?_⟩ <;> rw [inv.shape.cell_storeData, if_pos rfl]
    · exact fact.2.1
    · exact fact.2.2
  · rw [ticket]
    exact fun k held => held
  · exact fun k held => absurd held (by simp [Pc.popTicket])

theorem Inv.storePush (inv : Inv history s) {pos : ℕ} (at_ : s.pc thread = .pushStore pos) :
    Inv (history ++ [(thread, .pushed pos)])
      (s.move thread (s.shared.storeSequence pos (pos + 1)) .idle) := by
  have fact := inv.facts thread
  simp only [at_, Fact] at fact
  have ticket : (s.pc thread).pushTicket = some pos := by rw [at_]; rfl
  have frame (k : ℕ) (apart : k % s.shared.capacity_ ≠ pos % s.shared.capacity_) :
      (s.shared.storeSequence pos (pos + 1)).cell k = s.shared.cell k := by
    rw [inv.shape.cell_storeSequence, if_neg apart]
  refine inv.plain trivial (inv.shape.storeSequence pos (pos + 1)) rfl rfl (fun slot => ?_)
    (fun other => inv.others (Or.inl ticket) (s.shared.storeSequence pos (pos + 1)) rfl rfl frame (fun _ => Or.inl))
    trivial ?_ ?_
  · by_cases here : slot % s.shared.capacity_ = pos % s.shared.capacity_
    · obtain ⟨unpopped, _, unlapped, earlier⟩ := (inv.slots pos).free_of inv.shape fact.2.1
      refine ⟨pos, here.symm, .full ?_ fact.1 unlapped ?_ fun _ => ?_, earlier⟩
      · rw [inv.shape.cell_storeSequence, if_pos rfl]
      · exact unpopped.trans (Nat.le_add_right ..)
      · rw [inv.shape.cell_storeSequence, if_pos rfl]
        exact fact.2.2
    · exact (inv.slots slot).frame rfl rfl rfl (fun k same => frame k (by rw [same]; exact here))
        (fun _ => id)
  · exact fun k held => absurd held (by simp [Pc.pushTicket])
  · exact fun k held => absurd held (by simp [Pc.popTicket])

theorem Inv.movePop (inv : Inv history s) {pos : ℕ} (at_ : s.pc thread = .popMove pos) (left : V) :
    Inv (history ++ [(thread, .local)])
      (s.move thread (s.shared.storeData pos left) (.popStore pos (s.shared.cell pos).data)) := by
  have fact := inv.facts thread
  simp only [at_, Fact] at fact
  have ticket : (s.pc thread).popTicket = some pos := by rw [at_]; rfl
  refine inv.plain trivial (inv.shape.storeData pos left) rfl rfl (fun slot => ?_)
    (fun other => inv.others (Or.inr ticket) (s.shared.storeData pos left) rfl rfl (fun k apart => ?_) (fun _ => Or.inl))
    ?_ ?_ ?_
  · refine (inv.slots slot).storeData inv.shape left fun k same sequence => ?_
    rw [inv.shape.cell_eq same, fact.2.1] at sequence
    omega
  · rw [inv.shape.cell_storeData, if_neg apart]
  · refine ⟨fact.1, ?_, fact.2.2.1, fact.2.2.2⟩
    rw [inv.shape.cell_storeData, if_pos rfl]
    exact fact.2.1
  · exact fun k held => absurd held (by simp [Pc.pushTicket])
  · rw [ticket]
    exact fun k held => held

theorem Inv.storePop (inv : Inv history s) {value : V} {pos : ℕ} (at_ : s.pc thread = .popStore pos value) :
    Inv (history ++ [(thread, .popped pos value)])
      (s.move thread (s.shared.storeSequence pos (pos + s.shared.capacity_)) .idle) := by
  have fact := inv.facts thread
  simp only [at_, Fact] at fact
  have ticket : (s.pc thread).popTicket = some pos := by rw [at_]; rfl
  have sameValues : values (history ++ [(thread, .popped pos value)]) = values history := by simp [values]
  have appended : done (history ++ [(thread, .popped pos value)]) = done history ++ [pos] := by simp [done]
  have frame (k : ℕ) (apart : k % s.shared.capacity_ ≠ pos % s.shared.capacity_) :
      (s.shared.storeSequence pos (pos + s.shared.capacity_)).cell k = s.shared.cell k := by
    rw [inv.shape.cell_storeSequence, if_neg apart]
  refine ⟨inv.shape.storeSequence .., ?_, ?_, inv.ordered, ?_, ?_, ?_, ?_, ?_, ?_, ?_, ?_⟩
  · rw [pushWins_popped]
    exact inv.pushTickets
  · rw [popWins_popped]
    exact inv.popTickets
  · intro slot
    rw [sameValues, appended]
    by_cases here : slot % s.shared.capacity_ = pos % s.shared.capacity_
    · obtain ⟨_, unlapped, popLap, _, earlier⟩ := (inv.slots pos).full_of inv.shape fact.2.1
      refine ⟨pos + s.shared.capacity_, ?_, .free ?_ popLap ?_ ?_, fun j before same => ?_⟩
      · exact (Nat.add_mod_right ..).trans here.symm
      · rw [State.move_shared, inv.shape.cell_storeSequence, if_pos (Nat.add_mod_right ..)]
      · exact Nat.add_lt_add_right fact.1 _
      · exact unlapped.trans (Nat.le_add_right ..)
      · have class_ : j % s.shared.capacity_ = pos % s.shared.capacity_ := same.trans (Nat.add_mod_right ..)
        rcases lt_trichotomy j pos with less | equal | more
        · exact List.mem_append_left _ (earlier j less class_)
        · rw [equal]
          exact List.mem_append_right _ (List.mem_singleton_self _)
        · exact absurd (lap_le class_ more) (not_le_of_gt before)
    · exact (inv.slots slot).frame rfl rfl rfl (fun k same => frame k (by rw [same]; exact here))
        (fun j member => List.mem_append_left _ member)
  · rw [sameValues, appended]
    refine Inv.facts_move (fun other => inv.others (Or.inr ticket)
      (s.shared.storeSequence pos (pos + s.shared.capacity_)) rfl rfl frame fun k member => ?_) trivial
    exact (List.mem_append.mp member).imp_right List.mem_singleton.mp
  · exact inv.pushers.move_of_held _ fun k held => absurd held (by simp [Pc.pushTicket])
  · exact inv.poppers.move_of_held _ fun k held => absurd held (by simp [Pc.popTicket])
  · rw [sameValues, results_popped]
    intro result present
    rcases List.mem_append.mp present with before | now
    · exact inv.returned result before
    · rw [List.mem_singleton.mp now]
      exact ⟨fact.1, fact.2.2.1⟩
  · rw [appended]
    exact inv.once.append (List.nodup_singleton _) fun k before now =>
      fact.2.2.2 (List.mem_singleton.mp now ▸ before)
  · exact inv.winners_move fun k held => absurd held (by simp [Pc.popTicket])
  · refine inv.winnersReturned_append fun k returned same => ?_
    obtain ⟨rfl, rfl⟩ := Event.popped.inj same
    exact inv.winners thread pos ticket

end Preservation

/-- Every atomic action keeps the invariant. -/
theorem Inv.act [DecidableEq τ] {movedFrom : V → V} {history : List (τ × Event V)}
    {s : State (LockFreeQueue V) (Pc V) τ} {thread : τ} {choice : Choice V} {next : LockFreeQueue V}
    {after : Pc V} {event : Event V} (inv : Inv history s)
    (enabled : LockFreeQueue.act movedFrom s.shared (s.pc thread) choice = some (next, after, event)) :
    Inv (history ++ [(thread, event)]) (s.move thread next after) := by
  have effect := act_effect enabled
  generalize at_ : s.pc thread = pc at effect
  cases effect with
  | quiet plain pushFree popFree fact => exact inv.quiet plain pushFree popFree fact
  | claimPush current => exact inv.claimPush at_ current
  | movePush => exact inv.movePush at_
  | storePush => exact inv.storePush at_
  | claimPop current => exact inv.claimPop at_ current
  | movePop => exact inv.movePop at_ _
  | storePop => exact inv.storePop at_

theorem Inv.initial {requested : UInt64} (slots : 2 ≤ (roundUpPow2 requested).toNat) (blank : V) :
    Inv [] (initial τ requested blank) where
  shape := make_shape slots blank
  pushTickets := rfl
  popTickets := rfl
  ordered := le_rfl
  slots slot := by
    have shape := make_shape slots blank
    have below : slot % (roundUpPow2 requested).toNat < (roundUpPow2 requested).toNat :=
      Nat.mod_lt _ (by omega)
    refine ⟨slot % (roundUpPow2 requested).toNat, Nat.mod_mod .., .free ?_ (Nat.zero_le _) ?_
      (Nat.zero_le _), fun j before same => ?_⟩
    · rw [cell, (show Shape (LockFreeQueue.initial τ requested blank).shared from shape).index_eq]
      exact Nat.mod_mod ..
    · exact below.trans_le (Nat.le_add_left ..)
    · have := lap_le same.symm before
      change j + (roundUpPow2 requested).toNat ≤ _ at this
      omega
  facts _ := trivial
  pushers _ _ _ held := absurd held (by simp [LockFreeQueue.initial, Pc.pushTicket])
  poppers _ _ _ held := absurd held (by simp [LockFreeQueue.initial, Pc.popTicket])
  returned _ present := absurd present (by simp [results])
  once := List.nodup_nil
  winners _ _ held := absurd held (by simp [LockFreeQueue.initial, Pc.popTicket])
  winnersReturned _ _ _ present := absurd present (by simp)

theorem reachable_inv [DecidableEq τ] {movedFrom : V → V} {requested : UInt64} {blank : V}
    (slots : 2 ≤ (roundUpPow2 requested).toNat) {history : List (τ × Event V)}
    {s : State (LockFreeQueue V) (Pc V) τ}
    (run : (program movedFrom).Run (initial τ requested blank) history s) : Inv history s :=
  run.invariant Inv (Inv.initial slots blank) Inv.act

/-- What a reachable state of the queue guarantees, in terms of its history. A push about to move
its element into a slot comes after the pop of every earlier ticket of that slot. -/
structure Safe (history : List (τ × Event V)) (s : State (LockFreeQueue V) (Pc V) τ) : Prop where
  pushTickets : (pushWins history).map Prod.fst = List.range s.shared.head_
  popTickets : popWins history = List.range s.shared.tail_
  poppedOnce : (done history).Nodup
  fifo : ∀ t ticket value, (t, Event.popped ticket value) ∈ history →
    (t, Event.popWon ticket) ∈ history ∧ (ticket, value) ∈ pushWins history
  keptUntilPopped : ∀ t pos value, s.pc t = .pushMove value pos →
    ∀ ticket < pos, s.shared.index ticket = s.shared.index pos → ticket ∈ done history
  popsPushed : (popWins history).length ≤ (pushWins history).length
  bounded : (pushWins history).length ≤ (popWins history).length + s.shared.capacity_

private theorem mem_pushWins_iff {history : List (τ × Event V)} {head ticket : ℕ} {value : V}
    (tickets : (pushWins history).map Prod.fst = List.range head) :
    (ticket, value) ∈ pushWins history ↔ (values history)[ticket]? = some value := by
  have fst (k : ℕ) (entry : ℕ × V) (at_k : (pushWins history)[k]? = some entry) : entry.1 = k := by
    have mapped : ((pushWins history).map Prod.fst)[k]? = some entry.1 := by rw [List.getElem?_map, at_k]; rfl
    rw [tickets] at mapped
    have below : k < head := by simpa using (List.getElem?_eq_some_iff.mp mapped).1
    rw [List.getElem?_range below] at mapped
    exact (Option.some.inj mapped).symm
  constructor
  · intro member
    obtain ⟨k, at_k⟩ := List.mem_iff_getElem?.mp member
    obtain rfl : ticket = k := fst k _ at_k
    rw [values, List.getElem?_map, at_k]
    rfl
  · intro at_ticket
    rw [values, List.getElem?_map] at at_ticket
    obtain ⟨entry, present, same⟩ := Option.map_eq_some_iff.mp at_ticket
    have pair : (ticket, value) = entry := Prod.ext (fst _ _ present).symm same.symm
    rw [pair]
    exact List.mem_of_getElem? present

theorem Inv.safe {history : List (τ × Event V)} {s : State (LockFreeQueue V) (Pc V) τ}
    (inv : Inv history s) : Safe history s where
  pushTickets := inv.pushTickets
  popTickets := inv.popTickets
  poppedOnce := inv.once
  fifo t ticket value present := by
    refine ⟨inv.winnersReturned t ticket value present, (mem_pushWins_iff inv.pushTickets).mpr ?_⟩
    exact (inv.returned (ticket, value) (List.mem_filterMap.mpr ⟨_, present, rfl⟩)).2
  keptUntilPopped t pos value at_ ticket before same := by
    have fact := inv.facts t
    simp only [at_, Fact] at fact
    rw [inv.shape.index_eq, inv.shape.index_eq] at same
    exact ((inv.slots pos).free_of inv.shape fact.2.1).2.2.2 ticket before same
  popsPushed := by
    have pushes := congrArg List.length inv.pushTickets
    rw [List.length_map, List.length_range] at pushes
    rw [pushes, inv.popTickets, List.length_range]
    exact inv.ordered
  bounded := by
    have pushes := congrArg List.length inv.pushTickets
    rw [List.length_map, List.length_range] at pushes
    rw [pushes, inv.popTickets, List.length_range]
    obtain ⟨k, same, phase, earlier⟩ := inv.slots s.shared.tail_
    cases phase with
    | free _ unpopped room unlapped =>
      obtain rfl : k = s.shared.tail_ := by
        by_contra differ
        have := lap_le same (by omega)
        omega
      exact unlapped
    | full _ _ unlapped popLap _ =>
      rcases lt_trichotomy k s.shared.tail_ with less | equal | more
      · have := lap_le same.symm less
        omega
      · rw [← equal]
        exact unlapped
      · exact absurd (inv.done_lt (earlier _ more same.symm)) (lt_irrefl _)

theorem act_capacity {movedFrom : V → V} {q next : LockFreeQueue V} {pc after : Pc V}
    {choice : Choice V} {event : Event V} (enabled : act movedFrom q pc choice = some (next, after, event)) :
    next.capacity_ = q.capacity_ := by
  cases act_effect enabled <;> rfl

theorem run_capacity [DecidableEq τ] {movedFrom : V → V} {source s : State (LockFreeQueue V) (Pc V) τ}
    {history : List (τ × Event V)} (run : (program movedFrom).Run source history s) :
    s.shared.capacity_ = source.shared.capacity_ := by
  refine run.invariant (fun _ s => s.shared.capacity_ = source.shared.capacity_) rfl ?_
  intro _ _ _ _ _ _ _ same enabled
  exact (act_capacity enabled).trans same

/-- Under any interleaving of any number of threads, with compare-and-swaps failing at will, a
queue of at least two slots hands each value to one pop, in ticket order, and never overwrites or
overfills. -/
theorem concurrent_safety [DecidableEq τ] (movedFrom : V → V) (requested : UInt64) (blank : V)
    (slots : 2 ≤ (roundUpPow2 requested).toNat) {history : List (τ × Event V)}
    {s : State (LockFreeQueue V) (Pc V) τ}
    (run : (program movedFrom).Run (initial τ requested blank) history s) :
    Safe history s ∧ s.shared.capacity_ = (roundUpPow2 requested).toNat :=
  ⟨(reachable_inv slots run).safe, run_capacity run⟩

/-- Two threads meet in the ring: one push is suspended after its claim while the other fails a swap,
claims the next ticket and is refused a pop; the first ticket's value is still popped first. -/
def meeting : List (Bool × Choice ℕ) :=
  [(false, .push 7), (false, .proceed), (true, .push 8), (true, .proceed), (false, .proceed),
    (true, .proceed), (false, .proceed), (true, .spurious), (true, .proceed), (true, .proceed),
    (true, .proceed), (true, .proceed), (true, .pop), (true, .proceed), (true, .proceed),
    (false, .proceed), (false, .proceed), (false, .pop), (false, .proceed), (false, .proceed),
    (false, .proceed), (false, .proceed), (false, .proceed)]

theorem concurrent_safety_meeting :
    ∃ history s, (program id).Run (initial Bool 2 0) history s ∧
      results history = [(0, 7)] ∧ Safe history s ∧
        s.shared.capacity_ = (roundUpPow2 2).toNat := by
  obtain ⟨history, s, run, returned⟩ := Interleaving.Program.exists_run_of_replay?
    (fun (_ : State (LockFreeQueue ℕ) (Pc ℕ) Bool) history => results history)
    (show ((program id).replay? (initial Bool 2 0) meeting).map
      (fun result => results result.2) = some [(0, 7)] by decide +kernel)
  exact ⟨history, s, run, returned, concurrent_safety id 2 0 (by decide) run⟩

end Illuminator.LockFreeQueue
