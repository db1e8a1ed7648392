import Illuminator.Soundness.LockFreeQueueSafety

/-! # Uninterrupted queue calls and their bounded FIFO

Components above the queue treat each call as one step. These functions are the two loops run by a
thread that nobody interrupts, and each result is certified as a run of the atomic actions. Between
calls a ring is settled: the sequence numbers of its slots say exactly which tickets are held.
A settled ring represents the list of held elements, and on it every call returns: a push appends
or is refused at capacity, and a pop takes the oldest element or is refused when there is none.
-/

namespace Illuminator

namespace LockFreeQueue

open Interleaving

variable {V τ : Type*}

/-- An uninterrupted `TryPush`. `none` is the loop that reloads an unchanged head forever. -/
def tryPush (q : LockFreeQueue V) (value : V) : Option (LockFreeQueue V × Bool) :=
  let pos := q.head_
  if q.diff pos pos = 0 then
    some (({ q with head_ := pos + 1 }.storeData pos value).storeSequence pos (pos + 1), true)
  else if q.diff pos pos < 0 then some (q, false)
  else none

/-- An uninterrupted `TryPop`, with the value it returns. -/
def tryPop (movedFrom : V → V) (q : LockFreeQueue V) : Option (LockFreeQueue V × Option V) :=
  let pos := q.tail_
  if q.diff pos (pos + 1) = 0 then
    let value := (q.cell pos).data
    some (({ q with tail_ := pos + 1 }.storeData pos (movedFrom value)).storeSequence pos
      (pos + q.capacity_), some value)
  else if q.diff pos (pos + 1) < 0 then some (q, none)
  else none

/-- A push call is a run of its thread's atomic actions. -/
theorem tryPush_run [DecidableEq τ] (movedFrom : V → V) {s : State (LockFreeQueue V) (Pc V) τ}
    {thread : τ} (idle : s.pc thread = .idle) {value : V} {next : LockFreeQueue V} {ok : Bool}
    (called : s.shared.tryPush value = some (next, ok)) :
    ∃ events : List (Event V), (program movedFrom).Run s (events.map (Prod.mk thread)) (s.move thread next .idle) := by
  simp only [tryPush] at called
  split_ifs at called with equal negative
  · cases called
    refine ⟨[.local, .local, .local, .pushWon s.shared.head_ value, .local, .pushed s.shared.head_],
      Program.run_of_solo? [.push value, .proceed, .proceed, .proceed, .proceed, .proceed] ?_⟩
    simp only [Program.solo?, program, act, idle, equal, ↓reduceIte, Option.map_some]
  · cases called
    refine ⟨[.local, .local, .pushRefused value],
      Program.run_of_solo? [.push value, .proceed, .proceed] ?_⟩
    simp only [Program.solo?, program, act, idle, equal, negative, ↓reduceIte, Option.map_some]

/-- A pop call is a run of its thread's atomic actions. -/
theorem tryPop_run [DecidableEq τ] (movedFrom : V → V) {s : State (LockFreeQueue V) (Pc V) τ}
    {thread : τ} (idle : s.pc thread = .idle) {next : LockFreeQueue V} {result : Option V}
    (called : s.shared.tryPop movedFrom = some (next, result)) :
    ∃ events : List (Event V), (program movedFrom).Run s (events.map (Prod.mk thread)) (s.move thread next .idle) := by
  simp only [tryPop] at called
  split_ifs at called with equal negative
  · cases called
    refine ⟨[.local, .local, .local, .popWon s.shared.tail_, .local,
      .popped s.shared.tail_ (s.shared.cell s.shared.tail_).data],
      Program.run_of_solo? [.pop, .proceed, .proceed, .proceed, .proceed, .proceed] ?_⟩
    simp only [Program.solo?, program, act, idle, equal, ↓reduceIte, Option.map_some]
    rfl
  · cases called
    refine ⟨[.local, .local, .popRefused],
      Program.run_of_solo? [.pop, .proceed, .proceed] ?_⟩
    simp only [Program.solo?, program, act, idle, equal, negative, ↓reduceIte, Option.map_some]

/-- A ring with no call in progress: held tickets are published and the next lap's are vacant. -/
structure Settled (q : LockFreeQueue V) : Prop extends Shape q where
  ordered : q.tail_ ≤ q.head_
  bounded : q.head_ ≤ q.tail_ + q.capacity_
  held : ∀ k, q.tail_ ≤ k → k < q.head_ → (q.cell k).sequence = k + 1
  vacant : ∀ k, q.head_ ≤ k → k < q.tail_ + q.capacity_ → (q.cell k).sequence = k

/-- The held elements, oldest first. -/
def items (q : LockFreeQueue V) : List V :=
  (List.range' q.tail_ (q.head_ - q.tail_)).map fun k => (q.cell k).data

@[simp] theorem items_length (q : LockFreeQueue V) : q.items.length = q.head_ - q.tail_ := by
  simp only [items, List.length_map, List.length_range']

theorem make_settled {requested : UInt64} (slots : 2 ≤ (roundUpPow2 requested).toNat) (blank : V) :
    Settled (make requested blank) := by
  have shape := make_shape slots blank
  refine ⟨shape, le_rfl, Nat.zero_le _, fun k _ below => absurd below (Nat.not_lt_zero k), fun k _ below => ?_⟩
  rw [cell, shape.index_eq]
  exact Nat.mod_eq_of_lt (by simpa [make] using below)

namespace Settled

variable {q : LockFreeQueue V}

/-- The window of one lap: distinct tickets in it use distinct slots. -/
private theorem apart {j k : ℕ} (lower : q.tail_ ≤ k) (upper : k < q.tail_ + q.capacity_)
    (lower' : q.tail_ ≤ j) (upper' : j < q.tail_ + q.capacity_)
    (same : j % q.capacity_ = k % q.capacity_) : j = k := by
  rcases lt_trichotomy j k with less | equal | more
  · have := lap_le same.symm less
    omega
  · exact equal
  · have := lap_le same more
    omega

/-- A push call appends when there is room and is refused otherwise. -/
theorem tryPush_spec (settled : Settled q) (value : V) :
    ∃ next, Settled next ∧ next.capacity_ = q.capacity_ ∧
      q.tryPush value = some (next, decide (q.items.length < q.capacity_)) ∧
      next.items = if q.items.length < q.capacity_ then q.items ++ [value] else q.items := by
  have ordered := settled.ordered
  have bounded := settled.bounded
  have slots := settled.slots
  by_cases room : q.items.length < q.capacity_
  · rw [items_length] at room
    have sequence := settled.vacant q.head_ le_rfl (by omega)
    have claimed : Shape { q with head_ := q.head_ + 1 } := ⟨settled.slots, settled.pow, settled.mask⟩
    generalize published : ({ q with head_ := q.head_ + 1 }.storeData q.head_ value).storeSequence
      q.head_ (q.head_ + 1) = next
    have head : next.head_ = q.head_ + 1 := by rw [← published]; rfl
    have tail : next.tail_ = q.tail_ := by rw [← published]; rfl
    have capacity : next.capacity_ = q.capacity_ := by rw [← published]; rfl
    have here : next.cell q.head_ = ⟨q.head_ + 1, value⟩ := by
      rw [← published]
      exact (claimed.cell_write ..).trans (if_pos rfl)
    have elsewhere (k : ℕ) (lower : q.tail_ ≤ k) (upper : k < q.tail_ + q.capacity_) (other : k ≠ q.head_) :
        next.cell k = q.cell k := by
      have distinct : ¬ k % q.capacity_ = q.head_ % q.capacity_ := fun same =>
        other (apart ordered (by omega) lower upper same)
      rw [← published]
      exact (claimed.cell_write ..).trans (if_neg distinct)
    refine ⟨next, ⟨?_, ?_, ?_, ?_, ?_⟩, capacity, ?_, ?_⟩
    · rw [← published]
      exact (claimed.storeData ..).storeSequence ..
    · omega
    · omega
    · intro k lower upper
      by_cases same : k = q.head_
      · rw [same, here]
      · rw [elsewhere k (by omega) (by omega) same]
        exact settled.held k (by omega) (by omega)
    · intro k lower upper
      rw [elsewhere k (by omega) (by omega) (by omega)]
      exact settled.vacant k (by omega) (by omega)
    · simp only [tryPush, diff, sequence, sub_self, ↓reduceIte, items_length, room, decide_true, published]
    · rw [items_length, if_pos room]
      have length : next.head_ - next.tail_ = q.head_ - q.tail_ + 1 := by omega
      have last : q.tail_ + (q.head_ - q.tail_) = q.head_ := by omega
      rw [items, length, tail, List.range'_1_concat, List.map_append, last, List.map_singleton, here]
      congr 1
      refine List.map_congr_left fun k member => ?_
      rw [List.mem_range'_1] at member
      rw [elsewhere k (by omega) (by omega) (by omega)]
  · rw [items_length] at room
    have lap : q.head_ = q.tail_ + q.capacity_ := by omega
    have sequence : (q.cell q.head_).sequence = q.tail_ + 1 := by
      rw [settled.toShape.cell_eq (show q.head_ % q.capacity_ = q.tail_ % q.capacity_ by
        rw [lap, Nat.add_mod_right])]
      exact settled.held q.tail_ le_rfl (by omega)
    have nonzero : ¬ q.diff q.head_ q.head_ = 0 := by simp only [diff, sequence]; omega
    have negative : q.diff q.head_ q.head_ < 0 := by simp only [diff, sequence]; omega
    refine ⟨q, settled, rfl, ?_, ?_⟩
    · simp only [tryPush, nonzero, negative, ↓reduceIte, items_length, room, decide_false]
    · rw [items_length, if_neg room]

/-- A pop call takes the oldest element, if there is one. -/
theorem tryPop_spec (settled : Settled q) (movedFrom : V → V) :
    ∃ next, Settled next ∧ next.capacity_ = q.capacity_ ∧
      q.tryPop movedFrom = some (next, q.items.head?) ∧ next.items = q.items.tail := by
  have ordered := settled.ordered
  have bounded := settled.bounded
  have slots := settled.slots
  by_cases empty : q.head_ = q.tail_
  · have sequence := settled.vacant q.tail_ (by omega) (by omega)
    have nothing : q.items = [] := List.eq_nil_of_length_eq_zero (by rw [items_length]; omega)
    have nonzero : ¬ q.diff q.tail_ (q.tail_ + 1) = 0 := by simp only [diff, sequence]; omega
    have negative : q.diff q.tail_ (q.tail_ + 1) < 0 := by simp only [diff, sequence]; omega
    refine ⟨q, settled, rfl, ?_, by rw [nothing, List.tail_nil]⟩
    simp only [tryPop, nonzero, negative, ↓reduceIte, nothing, List.head?_nil]
  · have sequence := settled.held q.tail_ le_rfl (by omega)
    have claimed : Shape { q with tail_ := q.tail_ + 1 } := ⟨settled.slots, settled.pow, settled.mask⟩
    generalize released : ({ q with tail_ := q.tail_ + 1 }.storeData q.tail_
      (movedFrom (q.cell q.tail_).data)).storeSequence q.tail_ (q.tail_ + q.capacity_) = next
    have head : next.head_ = q.head_ := by rw [← released]; rfl
    have tail : next.tail_ = q.tail_ + 1 := by rw [← released]; rfl
    have capacity : next.capacity_ = q.capacity_ := by rw [← released]; rfl
    have elsewhere (k : ℕ) (distinct : ¬ k % q.capacity_ = q.tail_ % q.capacity_) : next.cell k = q.cell k := by
      rw [← released]
      exact (claimed.cell_write ..).trans (if_neg distinct)
    have inside (k : ℕ) (lower : q.tail_ < k) (upper : k < q.tail_ + q.capacity_) : next.cell k = q.cell k :=
      elsewhere k fun same => by
        have := lap_le same lower
        omega
    have unfolded : q.items = (q.cell q.tail_).data :: next.items := by
      have length : q.head_ - q.tail_ = next.head_ - next.tail_ + 1 := by omega
      rw [items, items, length, List.range'_succ, List.map_cons, tail]
      congr 1
      refine List.map_congr_left fun k member => ?_
      rw [List.mem_range'_1] at member
      rw [inside k (by omega) (by omega)]
    refine ⟨next, ⟨?_, ?_, ?_, ?_, ?_⟩, capacity, ?_, by rw [unfolded, List.tail_cons]⟩
    · rw [← released]
      exact (claimed.storeData ..).storeSequence ..
    · omega
    · omega
    · intro k lower upper
      rw [inside k (by omega) (by omega)]
      exact settled.held k (by omega) (by omega)
    · intro k lower upper
      by_cases same : k % q.capacity_ = q.tail_ % q.capacity_
      · have lap := lap_le same (by omega)
        have last : k = q.tail_ + q.capacity_ := by omega
        rw [← released, (claimed.cell_write ..).trans (if_pos same), last]
      · have other : k ≠ q.tail_ + q.capacity_ := fun equal => same (by rw [equal, Nat.add_mod_right])
        rw [elsewhere k same]
        exact settled.vacant k (by omega) (by omega)
    · simp only [tryPop, diff, sequence, sub_self, ↓reduceIte, unfolded, List.head?_cons, released]

end Settled

end LockFreeQueue

/-- A ring between calls, with the evidence that it is settled. -/
structure SettledQueue (V : Type*) where
  ring : LockFreeQueue V
  settled : ring.Settled

namespace SettledQueue

variable {V : Type*}

def make (requested : UInt64) (slots : 2 ≤ (roundUpPow2 requested).toNat) (blank : V) : SettledQueue V :=
  ⟨.make requested blank, LockFreeQueue.make_settled slots blank⟩

def items (q : SettledQueue V) : List V := q.ring.items

def capacity (q : SettledQueue V) : ℕ := q.ring.capacity_

theorem tryPush_isSome (q : SettledQueue V) (value : V) : (q.ring.tryPush value).isSome := by
  obtain ⟨_, _, _, called, _⟩ := q.settled.tryPush_spec value
  rw [called]
  rfl

theorem tryPop_isSome (q : SettledQueue V) (movedFrom : V → V) : (q.ring.tryPop movedFrom).isSome := by
  obtain ⟨_, _, _, called, _⟩ := q.settled.tryPop_spec movedFrom
  rw [called]
  rfl

theorem tryPush_settled (q : SettledQueue V) (value : V) :
    ((q.ring.tryPush value).get (q.tryPush_isSome value)).1.Settled := by
  obtain ⟨_, settled, _, called, _⟩ := q.settled.tryPush_spec value
  simp only [called, Option.get_some]
  exact settled

theorem tryPop_settled (q : SettledQueue V) (movedFrom : V → V) :
    ((q.ring.tryPop movedFrom).get (q.tryPop_isSome movedFrom)).1.Settled := by
  obtain ⟨_, settled, _, called, _⟩ := q.settled.tryPop_spec movedFrom
  simp only [called, Option.get_some]
  exact settled

/-- The uninterrupted `TryPush`, which always returns on a settled ring. -/
def TryPush (q : SettledQueue V) (value : V) : SettledQueue V × Bool :=
  (⟨_, q.tryPush_settled value⟩, ((q.ring.tryPush value).get (q.tryPush_isSome value)).2)

/-- The uninterrupted `TryPop`, which always returns on a settled ring. -/
def TryPop (q : SettledQueue V) (movedFrom : V → V) : SettledQueue V × Option V :=
  (⟨_, q.tryPop_settled movedFrom⟩, ((q.ring.tryPop movedFrom).get (q.tryPop_isSome movedFrom)).2)

@[simp] theorem make_items (requested : UInt64) (slots : 2 ≤ (roundUpPow2 requested).toNat) (blank : V) :
    (make requested slots blank).items = [] := rfl

theorem TryPush_spec (q : SettledQueue V) (value : V) :
    (q.TryPush value).2 = decide (q.items.length < q.capacity) ∧
      (q.TryPush value).1.capacity = q.capacity ∧
      (q.TryPush value).1.items = if q.items.length < q.capacity then q.items ++ [value] else q.items := by
  obtain ⟨next, _, same, called, elements⟩ := q.settled.tryPush_spec value
  simp only [TryPush, items, capacity, called, Option.get_some]
  exact ⟨rfl, same, elements⟩

theorem TryPop_spec (q : SettledQueue V) (movedFrom : V → V) :
    (q.TryPop movedFrom).2 = q.items.head? ∧ (q.TryPop movedFrom).1.capacity = q.capacity ∧
      (q.TryPop movedFrom).1.items = q.items.tail := by
  obtain ⟨next, _, same, called, elements⟩ := q.settled.tryPop_spec movedFrom
  simp only [TryPop, items, capacity, called, Option.get_some]
  exact ⟨trivial, same, elements⟩

/-- An accepted push appends its element. -/
theorem items_of_pushed {q next : SettledQueue V} {value : V} (called : q.TryPush value = (next, true)) :
    next.items = q.items ++ [value] := by
  obtain ⟨ok, _, elements⟩ := q.TryPush_spec value
  rw [called] at ok elements
  rwa [if_pos (of_decide_eq_true ok.symm)] at elements

/-- A refused push leaves the elements of a full ring in place. -/
theorem items_of_refused {q next : SettledQueue V} {value : V} (called : q.TryPush value = (next, false)) :
    next.items = q.items := by
  obtain ⟨ok, _, elements⟩ := q.TryPush_spec value
  rw [called] at ok elements
  rwa [if_neg (of_decide_eq_false ok.symm)] at elements

/-- A successful pop returns the oldest element. -/
theorem items_of_popped {q next : SettledQueue V} {movedFrom : V → V} {value : V}
    (called : q.TryPop movedFrom = (next, some value)) : q.items = value :: next.items := by
  obtain ⟨result, _, elements⟩ := q.TryPop_spec movedFrom
  rw [called] at result elements
  rw [elements]
  exact List.eq_cons_of_mem_head? result.symm

/-- A pop is refused exactly by an empty ring. -/
theorem items_of_empty {q next : SettledQueue V} {movedFrom : V → V}
    (called : q.TryPop movedFrom = (next, none)) : q.items = [] ∧ next.items = [] := by
  obtain ⟨result, _, elements⟩ := q.TryPop_spec movedFrom
  rw [called] at result elements
  have empty := List.head?_eq_none_iff.mp result.symm
  exact ⟨empty, by rw [elements, empty, List.tail_nil]⟩

/-- A refused pop leaves the ring alone. -/
theorem eq_of_empty {q next : SettledQueue V} {movedFrom : V → V}
    (called : q.TryPop movedFrom = (next, none)) : next = q := by
  have popped : q.ring.tryPop movedFrom = some (next.ring, none) :=
    (Option.some_get (q.tryPop_isSome movedFrom)).symm.trans
      (congrArg (fun result => some (result.1.ring, result.2)) called)
  obtain ⟨ring, settled⟩ := q
  obtain ⟨after, still⟩ := next
  simp only [LockFreeQueue.tryPop] at popped
  split_ifs at popped
  · cases popped
  · cases popped
    rfl

end SettledQueue

end Illuminator
