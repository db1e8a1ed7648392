import Illuminator.Model.QueueCalls
import Illuminator.Model.QueueWords

/-! # The queue as a bounded FIFO

Calls of one thread on the 64-bit ring follow the ring on natural numbers as long as its sequence
numbers stay near its positions, and so they follow the bounded FIFO over any number of laps. A ring
with one slot takes a second element while it holds one, and the size that is computed from wrapped
positions is wrong from the push on that wraps the head.
-/

namespace Illuminator

namespace QueueWords

variable {V : Type*} {w : QueueWords V} {movedFrom : V → V}

theorem diff_toInt {a b : ℕ} (above : (a : ℤ) - b < 2 ^ 62) (below : -2 ^ 62 < (a : ℤ) - b) :
    (diff (UInt64.ofNat a) (UInt64.ofNat b)).toInt = a - b := by
  have difference : (diff (UInt64.ofNat a) (UInt64.ofNat b)).toInt = ((a : ℤ) - b).bmod (2 ^ 64) := by
    rw [diff, UInt64.toInt64_ofNat', UInt64.toInt64_ofNat', Int64.toInt_sub, Int64.toInt_ofNat', Int64.toInt_ofNat']
    exact (Int.sub_bmod ..).symm
  rw [difference]
  apply Int.bmod_eq_of_le
  · omega
  · omega

theorem diff_zero {a b : ℕ} (same : a = b) : diff (UInt64.ofNat a) (UInt64.ofNat b) = 0 := by
  rw [same, diff, Int64.sub_self]

theorem diff_neg {a b : ℕ} (less : a < b) (near : b < a + 2 ^ 62) :
    diff (UInt64.ofNat a) (UInt64.ofNat b) ≠ 0 ∧ diff (UInt64.ofNat a) (UInt64.ofNat b) < 0 := by
  have value := diff_toInt (a := a) (b := b) (by omega) (by omega)
  constructor
  · intro zero
    rw [zero] at value
    change (0 : ℤ) = _ at value
    omega
  · rw [Int64.lt_iff_toInt_lt, value]
    change _ < (0 : ℤ)
    omega

theorem succ_ofNat {a : UInt64} {n : ℕ} (value : a = UInt64.ofNat n) : a + 1 = UInt64.ofNat (n + 1) := by
  rw [value, UInt64.ofNat_add]
  rfl

theorem TryPush_taken {h : ℕ} (head : w.head_ = UInt64.ofNat h)
    (sequence : (w.cell w.head_).sequence = UInt64.ofNat h) (value : V) :
    w.TryPush value = some ({ w with head_ := w.head_ + 1 }.store w.head_ value (w.head_ + 1), true) := by
  have zero : diff (w.cell w.head_).sequence w.head_ = 0 := by rw [sequence, head, diff_zero rfl]
  simp only [TryPush, zero, if_true]

theorem TryPush_refused {h s : ℕ} (head : w.head_ = UInt64.ofNat h)
    (sequence : (w.cell w.head_).sequence = UInt64.ofNat s) (less : s < h) (near : h < s + 2 ^ 62) (value : V) :
    w.TryPush value = some (w, false) := by
  have negative := diff_neg less near
  rw [← sequence, ← head] at negative
  simp only [TryPush, if_neg negative.1, if_pos negative.2]

theorem TryPop_taken {t : ℕ} (tail : w.tail_ = UInt64.ofNat t)
    (sequence : (w.cell w.tail_).sequence = UInt64.ofNat (t + 1)) (movedFrom : V → V) :
    w.TryPop movedFrom = some
      ({ w with tail_ := w.tail_ + 1 }.store w.tail_ (movedFrom (w.cell w.tail_).data) (w.tail_ + w.capacity_),
        some (w.cell w.tail_).data) := by
  have zero : diff (w.cell w.tail_).sequence (w.tail_ + 1) = 0 := by
    rw [sequence, succ_ofNat tail, diff_zero rfl]
  simp only [TryPop, zero, if_true]

theorem TryPop_refused {t : ℕ} (tail : w.tail_ = UInt64.ofNat t)
    (sequence : (w.cell w.tail_).sequence = UInt64.ofNat t) (movedFrom : V → V) :
    w.TryPop movedFrom = some (w, none) := by
  have negative := diff_neg (Nat.lt_succ_self t) (by omega)
  rw [← sequence, ← succ_ofNat tail] at negative
  simp only [TryPop, if_neg negative.1, if_pos negative.2]

/-- A ring of words and the ring on natural numbers whose counters it holds modulo `2 ^ 64`. -/
structure Wraps (w : QueueWords V) (q : LockFreeQueue V) : Prop where
  capacity : w.capacity_ = UInt64.ofNat q.capacity_
  mask : w.mask_.toNat = q.mask_
  head : w.head_ = UInt64.ofNat q.head_
  tail : w.tail_ = UInt64.ofNat q.tail_
  cells : ∀ i, w.cells_ i = ⟨UInt64.ofNat (q.cells_ i.toNat).sequence, (q.cells_ i.toNat).data⟩

section Wraps

variable {q : LockFreeQueue V}

/-- A wrapped position has the slot of the position. -/
theorem Wraps.index (wraps : Wraps w q) (shape : q.Shape) (small : q.capacity_ ≤ 2 ^ 32) (pos : ℕ) :
    (UInt64.ofNat pos &&& w.mask_).toNat = q.index pos := by
  obtain ⟨n, pow⟩ := shape.pow
  have short : n ≤ 64 := by
    by_contra long
    have large := Nat.pow_le_pow_right (show 0 < 2 by decide) (show 33 ≤ n by omega)
    omega
  rw [UInt64.toNat_and, wraps.mask, shape.index_eq, shape.mask, pow, Nat.and_two_pow_sub_one_eq_mod,
    UInt64.toNat_ofNat', Nat.mod_mod_of_dvd _ (Nat.pow_dvd_pow 2 short)]

theorem Wraps.cell (wraps : Wraps w q) (shape : q.Shape) (small : q.capacity_ ≤ 2 ^ 32) (pos : ℕ) :
    w.cell (UInt64.ofNat pos) = ⟨UInt64.ofNat (q.cell pos).sequence, (q.cell pos).data⟩ := by
  rw [QueueWords.cell, wraps.cells, wraps.index shape small]
  rfl

theorem Wraps.store (wraps : Wraps w q) (shape : q.Shape) (small : q.capacity_ ≤ 2 ^ 32) (pos sequence : ℕ) (data : V) :
    Wraps (w.store (UInt64.ofNat pos) data (UInt64.ofNat sequence))
      ((q.storeData pos data).storeSequence pos sequence) := by
  refine ⟨wraps.capacity, wraps.mask, wraps.head, wraps.tail, fun i => ?_⟩
  have slot := wraps.index shape small pos
  have ring : ((q.storeData pos data).storeSequence pos sequence).cells_ i.toNat =
      if i.toNat = q.index pos then ⟨sequence, data⟩ else q.cells_ i.toNat := by
    change Function.update (Function.update q.cells_ (q.index pos) _) (q.index pos) _ i.toNat = _
    by_cases here : i.toNat = q.index pos
    · rw [if_pos here, here, Function.update_self]
      change (⟨sequence, (Function.update q.cells_ (q.index pos) _ (q.index pos)).data⟩ : Cell V) = _
      rw [Function.update_self]
    · rw [if_neg here, Function.update_of_ne here, Function.update_of_ne here]
  rw [ring]
  change Function.update w.cells_ (UInt64.ofNat pos &&& w.mask_) _ i = _
  by_cases here : i = UInt64.ofNat pos &&& w.mask_
  · rw [here, Function.update_self, if_pos slot]
  · have other : i.toNat ≠ q.index pos := fun same => here (UInt64.toNat_inj.mp (same.trans slot.symm))
    rw [Function.update_of_ne here, if_neg other, wraps.cells]

/-- A push on the words is the push on the natural numbers. -/
theorem Wraps.push (wraps : Wraps w q) (settled : q.Settled) (small : q.capacity_ ≤ 2 ^ 32) (value : V) :
    ∃ next q', w.TryPush value = some (next, decide (q.items.length < q.capacity_)) ∧ Wraps next q' ∧ q'.Settled ∧
      next.capacity_ = w.capacity_ ∧ q'.items = (if q.items.length < q.capacity_ then q.items ++ [value] else q.items) ∧
      q'.capacity_ = q.capacity_ ∧ q'.head_ = if q.items.length < q.capacity_ then q.head_ + 1 else q.head_ := by
  have shape := settled.toShape
  have ordered := settled.ordered
  have bounded := settled.bounded
  have slots := settled.slots
  obtain ⟨q', kept, same, called, elements⟩ := settled.tryPush_spec value
  by_cases room : q.items.length < q.capacity_
  · have free := room
    rw [LockFreeQueue.items_length] at free
    have vacant := settled.vacant q.head_ (Nat.le_refl _) (by omega)
    have sequence : (w.cell w.head_).sequence = UInt64.ofNat q.head_ := by
      rw [wraps.head, wraps.cell shape small, vacant]
    have stored : q' = ({ q with head_ := q.head_ + 1 }.storeData q.head_ value).storeSequence q.head_ (q.head_ + 1) := by
      rw [LockFreeQueue.tryPush] at called
      simp only [LockFreeQueue.diff, vacant, sub_self, if_true] at called
      exact (congrArg Prod.fst (Option.some.inj called)).symm
    have claimed : Wraps { w with head_ := w.head_ + 1 } { q with head_ := q.head_ + 1 } :=
      ⟨wraps.capacity, wraps.mask, succ_ofNat wraps.head, wraps.tail, wraps.cells⟩
    have written := claimed.store ⟨shape.slots, shape.pow, shape.mask⟩ small q.head_ (q.head_ + 1) value
    rw [← succ_ofNat wraps.head, ← wraps.head] at written
    rw [if_pos room] at elements
    rw [decide_eq_true room, if_pos room, if_pos room]
    refine ⟨_, q', TryPush_taken wraps.head sequence value, ?_, kept, rfl, elements, same, ?_⟩
    · rw [stored]
      exact written
    · rw [stored]
      rfl
  · have lap : q.head_ = q.tail_ + q.capacity_ := by
      rw [LockFreeQueue.items_length] at room
      omega
    have held : (q.cell q.head_).sequence = q.tail_ + 1 := by
      rw [shape.cell_eq (show q.head_ % q.capacity_ = q.tail_ % q.capacity_ by rw [lap, Nat.add_mod_right])]
      exact settled.held q.tail_ (Nat.le_refl _) (by omega)
    have sequence : (w.cell w.head_).sequence = UInt64.ofNat (q.tail_ + 1) := by
      rw [wraps.head, wraps.cell shape small, held]
    rw [decide_eq_false room, if_neg room, if_neg room]
    exact ⟨w, q, TryPush_refused wraps.head sequence (by omega) (by omega) value, wraps, settled, rfl, rfl, rfl, rfl⟩

/-- A pop on the words is the pop on the natural numbers. -/
theorem Wraps.pop (wraps : Wraps w q) (settled : q.Settled) (small : q.capacity_ ≤ 2 ^ 32) (movedFrom : V → V) :
    ∃ next q', w.TryPop movedFrom = some (next, q.items.head?) ∧ Wraps next q' ∧ q'.Settled ∧
      next.capacity_ = w.capacity_ ∧ q'.items = q.items.tail ∧ q'.capacity_ = q.capacity_ ∧ q'.head_ = q.head_ := by
  have shape := settled.toShape
  have ordered := settled.ordered
  have bounded := settled.bounded
  have slots := settled.slots
  obtain ⟨q', kept, same, called, elements⟩ := settled.tryPop_spec movedFrom
  by_cases empty : q.head_ = q.tail_
  · have vacant := settled.vacant q.tail_ (by omega) (by omega)
    have nothing : q.items = [] := List.eq_nil_of_length_eq_zero (by rw [LockFreeQueue.items_length]; omega)
    have sequence : (w.cell w.tail_).sequence = UInt64.ofNat q.tail_ := by
      rw [wraps.tail, wraps.cell shape small, vacant]
    rw [nothing]
    exact ⟨w, q, TryPop_refused wraps.tail sequence movedFrom, wraps, settled, rfl, nothing, rfl, rfl⟩
  · have held := settled.held q.tail_ (Nat.le_refl _) (by omega)
    have sequence : (w.cell w.tail_).sequence = UInt64.ofNat (q.tail_ + 1) := by
      rw [wraps.tail, wraps.cell shape small, held]
    have popped : some (({ q with tail_ := q.tail_ + 1 }.storeData q.tail_
        (movedFrom (q.cell q.tail_).data)).storeSequence q.tail_ (q.tail_ + q.capacity_), some (q.cell q.tail_).data) =
          some (q', q.items.head?) := by
      rw [← called, LockFreeQueue.tryPop]
      simp only [LockFreeQueue.diff, held, sub_self, if_true]
    obtain ⟨stored, result⟩ := Prod.mk.inj (Option.some.inj popped)
    have data : (w.cell w.tail_).data = (q.cell q.tail_).data := by rw [wraps.tail, wraps.cell shape small]
    have claimed : Wraps { w with tail_ := w.tail_ + 1 } { q with tail_ := q.tail_ + 1 } :=
      ⟨wraps.capacity, wraps.mask, wraps.head, succ_ofNat wraps.tail, wraps.cells⟩
    have written := claimed.store ⟨shape.slots, shape.pow, shape.mask⟩ small q.tail_ (q.tail_ + q.capacity_)
      (movedFrom (q.cell q.tail_).data)
    rw [UInt64.ofNat_add, ← wraps.tail, ← wraps.capacity, ← data] at written
    rw [← result, ← data]
    refine ⟨_, q', TryPop_taken wraps.tail sequence movedFrom, ?_, kept, rfl, elements, same, ?_⟩
    · rw [← stored, ← data]
      exact written
    · rw [← stored]
      rfl

end Wraps

/-- A ring with one slot, from which `t` elements have been taken. -/
structure OneSlot (w : QueueWords V) (t : ℕ) (held : Option V) : Prop where
  capacity : w.capacity_ = 1
  mask : w.mask_ = 0
  tail : w.tail_ = UInt64.ofNat t
  head : w.head_ = UInt64.ofNat (t + held.toList.length)
  sequence : (w.cells_ 0).sequence = UInt64.ofNat (t + held.toList.length)
  data : ∀ value, held = some value → (w.cells_ 0).data = value

section OneSlot

variable {t : ℕ} {held : Option V}

theorem OneSlot.cell (slot : OneSlot w t held) (pos : UInt64) : w.cell pos = w.cells_ 0 := by
  rw [QueueWords.cell, slot.mask, UInt64.and_zero]

theorem OneSlot.push (slot : OneSlot w t none) (value : V) :
    ∃ next, w.TryPush value = some (next, true) ∧ OneSlot next t (some value) := by
  have sequence : (w.cell w.head_).sequence = UInt64.ofNat t := by
    rw [slot.cell]
    exact slot.sequence
  have stored : ({ w with head_ := w.head_ + 1 }.store w.head_ value (w.head_ + 1)).cells_ 0 = ⟨w.head_ + 1, value⟩ := by
    change Function.update w.cells_ (w.head_ &&& w.mask_) _ 0 = _
    rw [slot.mask, UInt64.and_zero, Function.update_self]
  refine ⟨_, TryPush_taken slot.head sequence value, slot.capacity, slot.mask, slot.tail, succ_ofNat slot.head, ?_, ?_⟩
  · rw [stored]
    exact succ_ofNat slot.head
  · rintro _ ⟨⟩
    rw [stored]

/-- A second element is taken while one is held. -/
theorem OneSlot.crowded {held : V} (slot : OneSlot w t (some held)) (value : V) :
    ∃ next, w.TryPush value = some (next, true) := by
  have sequence : (w.cell w.head_).sequence = UInt64.ofNat (t + 1) := by
    rw [slot.cell]
    exact slot.sequence
  exact ⟨_, TryPush_taken slot.head sequence value⟩

theorem OneSlot.pop (slot : OneSlot w t held) (movedFrom : V → V) :
    ∃ next, w.TryPop movedFrom = some (next, held) ∧ OneSlot next (t + held.toList.length) none := by
  cases held with
  | none =>
    have sequence : (w.cell w.tail_).sequence = UInt64.ofNat t := by
      rw [slot.cell]
      exact slot.sequence
    exact ⟨w, TryPop_refused slot.tail sequence movedFrom, slot⟩
  | some value =>
    have sequence : (w.cell w.tail_).sequence = UInt64.ofNat (t + 1) := by
      rw [slot.cell]
      exact slot.sequence
    have data : (w.cell w.tail_).data = value := by
      rw [slot.cell]
      exact slot.data value rfl
    have popped := TryPop_taken slot.tail sequence movedFrom
    rw [data] at popped
    refine ⟨_, popped, slot.capacity, slot.mask, succ_ofNat slot.tail, slot.head, ?_, nofun⟩
    change (Function.update w.cells_ (w.tail_ &&& w.mask_) _ 0).sequence = _
    rw [slot.mask, UInt64.and_zero, Function.update_self, slot.capacity]
    exact succ_ofNat slot.tail

end OneSlot

/-- The ring holds some elements, after a number of accepted pushes. -/
def Represents (w : QueueWords V) (items : List V) (accepted : ℕ) : Prop :=
  (∃ q, Wraps w q ∧ q.Settled ∧ q.capacity_ ≤ 2 ^ 32 ∧ q.items = items ∧ q.head_ = accepted) ∨
    ∃ t held, OneSlot w t held ∧ held.toList = items ∧ t + items.length = accepted

section Represents

variable {items : List V} {accepted : ℕ}

theorem Wraps.capacity_toNat {q : LockFreeQueue V} (wraps : Wraps w q) (small : q.capacity_ ≤ 2 ^ 32) :
    w.capacity_.toNat = q.capacity_ := by
  rw [wraps.capacity, UInt64.toNat_ofNat', Nat.mod_eq_of_lt (by omega)]

theorem Represents.push (represents : Represents w items accepted) (room : 2 ≤ w.capacity_.toNat ∨ items = [])
    (value : V) :
    ∃ next, w.TryPush value = some (next, decide (items.length < w.capacity_.toNat)) ∧ next.capacity_ = w.capacity_ ∧
      Represents next (if items.length < w.capacity_.toNat then items ++ [value] else items)
        (if items.length < w.capacity_.toNat then accepted + 1 else accepted) := by
  rcases represents with ⟨q, wraps, settled, small, rfl, rfl⟩ | ⟨t, held, slot, rfl, rfl⟩
  · obtain ⟨next, q', pushed, kept, settled', same, elements, capacity, head⟩ := wraps.push settled small value
    rw [wraps.capacity_toNat small]
    exact ⟨next, pushed, same, Or.inl ⟨q', kept, settled', by omega, elements, head⟩⟩
  · have one : w.capacity_.toNat = 1 := by
      rw [slot.capacity]
      rfl
    have vacant : held = none := by
      rcases room with two | nothing
      · omega
      · exact Option.toList_eq_nil_iff.mp nothing
    subst vacant
    obtain ⟨next, pushed, kept⟩ := slot.push value
    rw [one]
    exact ⟨next, pushed, kept.capacity.trans slot.capacity.symm, Or.inr ⟨t, some value, kept, rfl, rfl⟩⟩

/-- A ring with one slot that holds an element is full, and takes another one. -/
theorem Represents.crowded (represents : Represents w items accepted) (small : w.capacity_.toNat < 2)
    (holds : items ≠ []) (value : V) :
    ¬ items.length < w.capacity_.toNat ∧ ∃ next, w.TryPush value = some (next, true) := by
  rcases represents with ⟨q, wraps, settled, bound, rfl, rfl⟩ | ⟨t, held, slot, rfl, rfl⟩
  · have slots := settled.slots
    rw [wraps.capacity_toNat bound] at small
    omega
  · cases held with
    | none => exact absurd rfl holds
    | some element =>
      rw [slot.capacity]
      exact ⟨Nat.lt_irrefl 1, slot.crowded value⟩

theorem Represents.pop (represents : Represents w items accepted) (movedFrom : V → V) :
    ∃ next, w.TryPop movedFrom = some (next, items.head?) ∧ next.capacity_ = w.capacity_ ∧
      Represents next items.tail accepted := by
  rcases represents with ⟨q, wraps, settled, small, rfl, rfl⟩ | ⟨t, held, slot, rfl, rfl⟩
  · obtain ⟨next, q', popped, kept, settled', same, elements, capacity, head⟩ := wraps.pop settled small movedFrom
    exact ⟨next, popped, same, Or.inl ⟨q', kept, settled', by omega, elements, head⟩⟩
  · obtain ⟨next, popped, kept⟩ := slot.pop movedFrom
    have first : held.toList.head? = held := by cases held <;> rfl
    have rest : held.toList.tail = [] := by cases held <;> rfl
    rw [first, rest]
    exact ⟨next, popped, kept.capacity.trans slot.capacity.symm, Or.inr ⟨_, none, kept, rfl, rfl⟩⟩

/-- The positions of a ring that represents some elements. -/
theorem Represents.positions (represents : Represents w items accepted) :
    items.length ≤ accepted ∧ items.length ≤ 2 ^ 32 ∧ w.head_ = UInt64.ofNat accepted ∧
      w.tail_ = UInt64.ofNat (accepted - items.length) := by
  rcases represents with ⟨q, wraps, settled, small, rfl, rfl⟩ | ⟨t, held, slot, rfl, rfl⟩
  · have ordered := settled.ordered
    have bounded := settled.bounded
    rw [LockFreeQueue.items_length]
    refine ⟨by omega, by omega, wraps.head, ?_⟩
    rw [wraps.tail]
    congr 1
    omega
  · refine ⟨by omega, ?_, slot.head, ?_⟩
    · cases held <;> simp
    · rw [slot.tail, Nat.add_sub_cancel]

theorem Represents.size (represents : Represents w items accepted) (unwrapped : accepted < 2 ^ 64) :
    w.SizeApprox.toNat = items.length := by
  obtain ⟨within, _, head, tail⟩ := represents.positions
  have order : w.tail_ ≤ w.head_ := by
    rw [head, tail, UInt64.le_iff_toNat_le, UInt64.toNat_ofNat', UInt64.toNat_ofNat', Nat.mod_eq_of_lt unwrapped,
      Nat.mod_eq_of_lt (by omega)]
    omega
  rw [SizeApprox, if_pos order, UInt64.toNat_sub_of_le _ _ order, head, tail, UInt64.toNat_ofNat', UInt64.toNat_ofNat',
    Nat.mod_eq_of_lt unwrapped, Nat.mod_eq_of_lt (by omega)]
  omega

/-- When the head has just wrapped, the size is computed as zero. -/
theorem Represents.size_wrapped (represents : Represents w items (2 ^ 64)) (holds : items ≠ []) :
    w.SizeApprox.toNat ≠ items.length := by
  obtain ⟨_, small, head, tail⟩ := represents.positions
  have positive := List.length_pos_iff.mpr holds
  have disorder : ¬ w.tail_ ≤ w.head_ := by
    rw [head, tail, UInt64.le_iff_toNat_le, UInt64.toNat_ofNat', UInt64.toNat_ofNat', Nat.mod_self,
      Nat.mod_eq_of_lt (by omega)]
    omega
  rw [SizeApprox, if_neg disorder]
  exact fun zero => Nat.ne_of_gt positive zero.symm

theorem Represents.destroy (represents : Represents w items accepted) (movedFrom : V → V) :
    (destroy movedFrom (items.length + 1) w).isSome = true := by
  induction items generalizing w with
  | nil =>
    obtain ⟨next, popped, _, _⟩ := represents.pop movedFrom
    rw [QueueWords.destroy, popped]
    rfl
  | cons value rest ih =>
    obtain ⟨next, popped, _, kept⟩ := represents.pop movedFrom
    rw [List.length_cons, QueueWords.destroy, popped]
    exact ih kept

end Represents

/-! ## Sequences of calls -/

/-- One call on a list of at most `capacity` elements. -/
def fifoCall (capacity : ℕ) (items : List V) : Call V → List V × Result V
  | .push value => if items.length < capacity then (items ++ [value], .pushed true) else (items, .pushed false)
  | .pop => (items.tail, .popped items.head?)

/-- What is held after some calls, and their results. -/
def fifo (capacity : ℕ) (items : List V) : List (Call V) → List V × List (Result V)
  | [] => (items, [])
  | first :: rest =>
    ((fifo capacity (fifoCall capacity items first).1 rest).1,
      (fifoCall capacity items first).2 :: (fifo capacity (fifoCall capacity items first).1 rest).2)

def held (capacity : ℕ) (before : List (Call V)) : List V := (fifo capacity [] before).1

def results (capacity : ℕ) (before : List (Call V)) : List (Result V) := (fifo capacity [] before).2

def Result.accepted : Result V → Bool
  | .pushed ok => ok
  | .popped _ => false

/-- How many pushes have been accepted. -/
def accepted (capacity : ℕ) (before : List (Call V)) : ℕ := (results capacity before).countP Result.accepted

section Fifo

variable {capacity : ℕ} {before : List (Call V)} {last : Call V}

theorem fifo_snoc (capacity : ℕ) (items : List V) (before : List (Call V)) (last : Call V) :
    fifo capacity items (before ++ [last]) =
      ((fifoCall capacity (fifo capacity items before).1 last).1,
        (fifo capacity items before).2 ++ [(fifoCall capacity (fifo capacity items before).1 last).2]) := by
  induction before generalizing items with
  | nil => rfl
  | cons first rest ih =>
    rw [List.cons_append, fifo, ih]
    rfl

theorem held_snoc : held capacity (before ++ [last]) = (fifoCall capacity (held capacity before) last).1 := by
  rw [held, fifo_snoc]
  rfl

theorem results_snoc :
    results capacity (before ++ [last]) = results capacity before ++ [(fifoCall capacity (held capacity before) last).2] := by
  rw [results, fifo_snoc]
  rfl

theorem accepted_snoc : accepted capacity (before ++ [last]) =
    accepted capacity before + if (fifoCall capacity (held capacity before) last).2.accepted then 1 else 0 := by
  rw [accepted, results_snoc, List.countP_append, List.countP_singleton]
  rfl

theorem accepted_mono {cs : List (Call V)} (earlier : before <+: cs) : accepted capacity before ≤ accepted capacity cs := by
  obtain ⟨rest, rfl⟩ := earlier
  induction rest using List.reverseRecOn with
  | nil => rw [List.append_nil]
  | append_singleton rest last ih =>
    rw [← List.append_assoc, accepted_snoc]
    exact Nat.le_add_right_of_le ih

theorem calls_cons (movedFrom : V → V) (w : QueueWords V) (first : Call V) (rest : List (Call V)) :
    calls movedFrom w (first :: rest) = (call movedFrom w first).bind fun done =>
      (calls movedFrom done.1 rest).map fun later => (later.1, done.2 :: later.2) := by
  rw [calls]
  cases call movedFrom w first <;> rfl

theorem calls_snoc (movedFrom : V → V) (w : QueueWords V) (before : List (Call V)) (last : Call V) :
    calls movedFrom w (before ++ [last]) = (calls movedFrom w before).bind fun done =>
      (call movedFrom done.1 last).map fun next => (next.1, done.2 ++ [next.2]) := by
  induction before generalizing w with
  | nil =>
    have start : calls movedFrom w [] = some (w, []) := rfl
    rw [List.nil_append, calls_cons, start, Option.bind_some]
    cases call movedFrom w last <;> rfl
  | cons first rest ih =>
    rw [List.cons_append, calls_cons, calls_cons]
    cases call movedFrom w first with
    | none => rfl
    | some done =>
      rw [Option.bind_some, Option.bind_some, ih]
      cases calls movedFrom done.1 rest with
      | none => rfl
      | some later =>
        rw [Option.bind_some, Option.map_map]
        rfl

end Fifo

/-- No push is made on a full ring of one slot. -/
def Uncrowded (requested_capacity : UInt64) (cs : List (Call V)) : Prop :=
  2 ≤ requested_capacity.toNat ∨ ∀ before value, before ++ [.push value] <+: cs → held 1 before = []

theorem Uncrowded.initial {requested_capacity : UInt64} {before cs : List (Call V)}
    (uncrowded : Uncrowded requested_capacity cs) (earlier : before <+: cs) : Uncrowded requested_capacity before :=
  uncrowded.imp id fun each first value within => each first value (within.trans earlier)

section Capacity

variable {requested_capacity : UInt64}

/-- The capacity is the least power of two that is at least the request and one. -/
theorem capacity_least (small : requested_capacity.toNat ≤ 2 ^ 32) :
    IsLeast {p : ℕ | (∃ n, p = 2 ^ n) ∧ max requested_capacity.toNat 1 ≤ p} (roundUpPow2 requested_capacity).toNat ∧
      (roundUpPow2 requested_capacity).toNat ≤ 2 ^ 32 := by
  have short : (requested_capacity.toNat - 1).size ≤ 32 := Nat.size_le.mpr (by omega)
  have exact_ : (roundUpPow2 requested_capacity).toNat = 2 ^ (requested_capacity.toNat - 1).size := by
    rw [roundUpPow2_toNat, Nat.mod_eq_of_lt (Nat.pow_lt_pow_right (by decide) (by omega))]
  have above : max requested_capacity.toNat 1 ≤ 2 ^ (requested_capacity.toNat - 1).size := by
    have larger := Nat.lt_size_self (requested_capacity.toNat - 1)
    omega
  rw [exact_]
  refine ⟨⟨⟨⟨_, rfl⟩, above⟩, ?_⟩, Nat.pow_le_pow_right (by decide) short⟩
  rintro _ ⟨⟨n, rfl⟩, enough⟩
  refine Nat.pow_le_pow_right (by decide) (Nat.size_le.mpr ?_)
  have positive := Nat.two_pow_pos n
  omega

theorem two_le_capacity (small : requested_capacity.toNat ≤ 2 ^ 32) :
    2 ≤ (roundUpPow2 requested_capacity).toNat ↔ 2 ≤ requested_capacity.toNat := by
  obtain ⟨⟨⟨-, above⟩, least⟩, -⟩ := capacity_least small
  constructor
  · intro two
    by_contra tiny
    have one : (roundUpPow2 requested_capacity).toNat ≤ 1 := least ⟨⟨0, rfl⟩, by omega⟩
    omega
  · intro two
    omega

theorem make_represents (small : requested_capacity.toNat ≤ 2 ^ 32) (blank : V) :
    Represents (make requested_capacity blank) [] 0 := by
  obtain ⟨⟨⟨-, above⟩, -⟩, bound⟩ := capacity_least small
  by_cases slots : 2 ≤ (roundUpPow2 requested_capacity).toNat
  · refine Or.inl ⟨.make requested_capacity blank, ⟨?_, ?_, rfl, rfl, fun i => ?_⟩,
      LockFreeQueue.make_settled slots blank, bound, rfl, rfl⟩
    · exact UInt64.ofNat_toNat.symm
    · exact UInt64.toNat_sub_of_le _ _ (UInt64.le_iff_toNat_le.mpr (Nat.le_of_succ_le slots))
    · change (⟨i, blank⟩ : WordCell V) = ⟨UInt64.ofNat i.toNat, blank⟩
      rw [UInt64.ofNat_toNat]
  · have one : roundUpPow2 requested_capacity = 1 := UInt64.toNat_inj.mp (by
      change _ = 1
      omega)
    refine Or.inr ⟨0, none, ⟨one, ?_, rfl, rfl, rfl, nofun⟩, rfl, rfl⟩
    change roundUpPow2 requested_capacity - 1 = 0
    rw [one]
    rfl

end Capacity

section Runs

variable {requested_capacity : UInt64} {cs before : List (Call V)}

/-- What the queue is to do after some calls: they have returned with the results of the FIFO, the size is that of the
FIFO, the capacity is unchanged, and the destructor would end. -/
def Follows (movedFrom : V → V) (requested_capacity : UInt64) (blank : V) (before : List (Call V)) : Prop :=
  ∃ w, calls movedFrom (make requested_capacity blank) before =
      some (w, results (roundUpPow2 requested_capacity).toNat before) ∧
    w.SizeApprox.toNat = (held (roundUpPow2 requested_capacity).toNat before).length ∧
    w.capacity_ = roundUpPow2 requested_capacity ∧ ∃ turns, (destroy movedFrom turns w).isSome = true

/-- Calls that do not crowd a ring of one slot follow the FIFO. -/
theorem calls_represent (movedFrom : V → V) (small : requested_capacity.toNat ≤ 2 ^ 32) (blank : V)
    (uncrowded : Uncrowded requested_capacity before) :
    ∃ w, calls movedFrom (make requested_capacity blank) before =
        some (w, results (roundUpPow2 requested_capacity).toNat before) ∧
      w.capacity_ = roundUpPow2 requested_capacity ∧
      Represents w (held (roundUpPow2 requested_capacity).toNat before)
        (accepted (roundUpPow2 requested_capacity).toNat before) := by
  induction before using List.reverseRecOn with
  | nil => exact ⟨_, rfl, rfl, make_represents small blank⟩
  | append_singleton before last ih =>
    obtain ⟨w, called, capacity, represents⟩ := ih (uncrowded.initial (List.prefix_append ..))
    rw [calls_snoc, called, Option.bind_some, held_snoc, results_snoc, accepted_snoc]
    cases last with
    | pop =>
      obtain ⟨next, popped, same, kept⟩ := represents.pop movedFrom
      refine ⟨next, ?_, same.trans capacity, kept⟩
      rw [call, popped]
      rfl
    | push value =>
      have room : 2 ≤ w.capacity_.toNat ∨ held (roundUpPow2 requested_capacity).toNat before = [] := by
        by_cases two : 2 ≤ (roundUpPow2 requested_capacity).toNat
        · exact Or.inl (by rwa [capacity])
        · obtain ⟨⟨⟨-, above⟩, -⟩, -⟩ := capacity_least small
          have one : (roundUpPow2 requested_capacity).toNat = 1 := by omega
          rw [one]
          exact Or.inr ((uncrowded.resolve_left fun large => two ((two_le_capacity small).mpr large)) before value
            (List.prefix_refl _))
      obtain ⟨next, pushed, same, kept⟩ := represents.push room value
      rw [capacity] at pushed kept
      refine ⟨next, ?_, same.trans capacity, ?_⟩
      · rw [call, pushed, fifoCall]
        split_ifs with free
        · rw [decide_eq_true free]
          rfl
        · rw [decide_eq_false free]
          rfl
      · rw [fifoCall]
        by_cases free : (held (roundUpPow2 requested_capacity).toNat before).length < (roundUpPow2 requested_capacity).toNat
        · rw [if_pos free, if_pos free] at kept
          rw [if_pos free]
          exact kept
        · rw [if_neg free, if_neg free] at kept
          rw [if_neg free]
          exact kept

/-- A queue that follows the FIFO has not been crowded. -/
theorem uncrowded_of_follows (movedFrom : V → V) (small : requested_capacity.toNat ≤ 2 ^ 32) (blank : V)
    (follows : ∀ first, first <+: before → Follows movedFrom requested_capacity blank first) :
    Uncrowded requested_capacity before := by
  induction before using List.reverseRecOn with
  | nil => exact Or.inr fun first value within => absurd (List.prefix_nil.mp within) (by simp)
  | append_singleton before last ih =>
    have uncrowded := ih fun first within => follows first (within.trans (List.prefix_append ..))
    refine Classical.or_iff_not_imp_left.mpr fun tiny first value within => ?_
    rcases List.prefix_concat_iff.mp within with whole | earlier
    · obtain ⟨rfl, same⟩ := List.append_inj' whole rfl
      obtain rfl := List.singleton_inj.mp same
      by_contra holds
      have one : (roundUpPow2 requested_capacity).toNat < 2 :=
        Nat.lt_of_not_le fun two => tiny ((two_le_capacity small).mp two)
      obtain ⟨⟨⟨-, above⟩, -⟩, -⟩ := capacity_least small
      have exactly : (roundUpPow2 requested_capacity).toNat = 1 := by omega
      obtain ⟨w, called, capacity, represents⟩ := calls_represent movedFrom small blank uncrowded
      rw [exactly] at called represents
      obtain ⟨full, next, pushed⟩ := represents.crowded (by rw [capacity]; exact one) holds value
      rw [capacity, exactly] at full
      obtain ⟨_, done, -⟩ := follows _ (List.prefix_refl _)
      rw [exactly, calls_snoc, called, Option.bind_some, call, pushed, results_snoc, fifoCall, if_neg full] at done
      have last := List.append_inj' (congrArg Prod.snd (Option.some.inj done)) rfl
      cases List.singleton_inj.mp last.2
    · exact (uncrowded.resolve_left tiny) first value earlier

/-- A queue that follows the FIFO has accepted fewer than `2 ^ 64` pushes. -/
theorem accepted_of_follows (movedFrom : V → V) (small : requested_capacity.toNat ≤ 2 ^ 32) (blank : V)
    (follows : ∀ first, first <+: before → Follows movedFrom requested_capacity blank first) :
    accepted (roundUpPow2 requested_capacity).toNat before < 2 ^ 64 := by
  induction before using List.reverseRecOn with
  | nil => exact Nat.two_pow_pos 64
  | append_singleton before last ih =>
    have fewer := ih fun first within => follows first (within.trans (List.prefix_append ..))
    by_contra many
    rw [accepted_snoc] at many
    split_ifs at many with took
    · have wrapped : accepted (roundUpPow2 requested_capacity).toNat (before ++ [last]) = 2 ^ 64 := by
        rw [accepted_snoc, if_pos took]
        omega
      obtain ⟨w, called, -, represents⟩ := calls_represent movedFrom small blank
        (uncrowded_of_follows movedFrom small blank follows)
      obtain ⟨_, done, size, -⟩ := follows _ (List.prefix_refl _)
      cases (called.symm.trans done)
      rw [wrapped] at represents
      refine represents.size_wrapped ?_ size
      rw [held_snoc]
      cases last with
      | pop => cases took
      | push value =>
        rw [fifoCall] at took ⊢
        split_ifs at took ⊢
        · simp
        · exact absurd took Bool.false_ne_true
    · exact many fewer

/-- For every requested capacity up to `2 ^ 32`, the calls of one thread make the queue the bounded FIFO list, at every
moment, if and only if no push is made on a ring of one slot that holds an element and fewer than `2 ^ 64` pushes are
accepted. The capacity is always the least power of two that is at least the request and one. -/
theorem queue_fifo_iff (movedFrom : V → V) (requested_capacity : UInt64) (small : requested_capacity.toNat ≤ 2 ^ 32)
    (blank : V) (cs : List (Call V)) :
    (IsLeast {p : ℕ | (∃ n, p = 2 ^ n) ∧ max requested_capacity.toNat 1 ≤ p}
          (make requested_capacity blank).capacity_.toNat ∧
        ∀ before, before <+: cs → Follows movedFrom requested_capacity blank before) ↔
      Uncrowded requested_capacity cs ∧ accepted (roundUpPow2 requested_capacity).toNat cs < 2 ^ 64 := by
  constructor
  · rintro ⟨-, follows⟩
    exact ⟨uncrowded_of_follows movedFrom small blank follows, accepted_of_follows movedFrom small blank follows⟩
  · rintro ⟨uncrowded, fewer⟩
    refine ⟨(capacity_least small).1, fun before within => ?_⟩
    obtain ⟨w, called, capacity, represents⟩ := calls_represent movedFrom small blank (uncrowded.initial within)
    exact ⟨w, called, represents.size (Nat.lt_of_le_of_lt (accepted_mono within) fewer), capacity, _,
      represents.destroy movedFrom⟩

/-- On a queue made for one element, a second push overwrites the first element, and the pop after it never ends. -/
theorem queue_crowded :
    ¬ (∀ before, before <+: [Call.push 1, Call.push 2] → Follows id 1 0 before) ∧
      calls id (make 1 0) [Call.push 1, Call.push 2, Call.pop] = none := by
  refine ⟨fun follows => ?_, rfl⟩
  rcases uncrowded_of_follows id (by decide) 0 follows with two | each
  · exact absurd two (by decide)
  · exact absurd (each [Call.push 1] 2 (List.prefix_refl _)) (by decide)

theorem queue_fifo_iff_two :
    (IsLeast {p : ℕ | (∃ n, p = 2 ^ n) ∧ max (2 : UInt64).toNat 1 ≤ p} (make 2 0).capacity_.toNat ∧
        ∀ before, before <+: [Call.push 1, Call.pop] → Follows id 2 0 before) ↔
      Uncrowded 2 [Call.push 1, Call.pop] ∧ accepted (roundUpPow2 2).toNat [Call.push 1, Call.pop] < 2 ^ 64 :=
  queue_fifo_iff id 2 (by decide) 0 [Call.push 1, Call.pop]

end Runs

end QueueWords

end Illuminator
