import Illuminator.Model.LockFreeQueue

/-! # The queue on 64-bit words

The members of `LockFreeQueue` as the machine has them, and its calls made by one thread. Positions and
sequence numbers wrap at `2 ^ 64`, and so does the signed difference that both loops test. A
compare-and-swap of a thread that nobody interrupts succeeds, or fails spuriously and leads back to the
same turn of the loop.
-/

namespace Illuminator

structure WordCell (V : Type*) where
  sequence : UInt64
  data : V

structure QueueWords (V : Type*) where
  capacity_ : UInt64
  mask_ : UInt64
  head_ : UInt64
  tail_ : UInt64
  cells_ : UInt64 → WordCell V

namespace QueueWords

variable {V : Type*}

def make (requested_capacity : UInt64) (blank : V) : QueueWords V where
  capacity_ := roundUpPow2 requested_capacity
  mask_ := roundUpPow2 requested_capacity - 1
  head_ := 0
  tail_ := 0
  cells_ i := ⟨i, blank⟩

def cell (w : QueueWords V) (pos : UInt64) : WordCell V := w.cells_ (pos &&& w.mask_)

/-- An element and a sequence number are stored in one slot. -/
def store (w : QueueWords V) (pos : UInt64) (data : V) (sequence : UInt64) : QueueWords V :=
  { w with cells_ := Function.update w.cells_ (pos &&& w.mask_) ⟨sequence, data⟩ }

def diff (seq expected : UInt64) : Int64 := seq.toInt64 - expected.toInt64

/-- `none` is the loop that reloads an unchanged head forever. -/
def TryPush (w : QueueWords V) (value : V) : Option (QueueWords V × Bool) :=
  let pos := w.head_
  let d := diff (w.cell pos).sequence pos
  if d = 0 then some ({ w with head_ := pos + 1 }.store pos value (pos + 1), true)
  else if d < 0 then some (w, false)
  else none

/-- The popped value, or nothing; `movedFrom` is what a move leaves in the slot. -/
def TryPop (movedFrom : V → V) (w : QueueWords V) : Option (QueueWords V × Option V) :=
  let pos := w.tail_
  let d := diff (w.cell pos).sequence (pos + 1)
  if d = 0 then
    some ({ w with tail_ := pos + 1 }.store pos (movedFrom (w.cell pos).data) (pos + w.capacity_),
      some (w.cell pos).data)
  else if d < 0 then some (w, none)
  else none

def SizeApprox (w : QueueWords V) : UInt64 := if w.tail_ ≤ w.head_ then w.head_ - w.tail_ else 0

/-- The destructor's loop, if it ends within a number of turns. -/
def destroy (movedFrom : V → V) : ℕ → QueueWords V → Option (QueueWords V)
  | 0, _ => none
  | turns + 1, w =>
    match w.TryPop movedFrom with
    | none => none
    | some (next, some _) => destroy movedFrom turns next
    | some (next, none) => some next

inductive Call (V : Type*) where
  | push (value : V)
  | pop

inductive Result (V : Type*) where
  | pushed (ok : Bool)
  | popped (value : Option V)

def call (movedFrom : V → V) (w : QueueWords V) : Call V → Option (QueueWords V × Result V)
  | .push value => (w.TryPush value).map fun done => (done.1, .pushed done.2)
  | .pop => (w.TryPop movedFrom).map fun done => (done.1, .popped done.2)

/-- One call after another, as long as each of them returns. -/
def calls (movedFrom : V → V) (w : QueueWords V) : List (Call V) → Option (QueueWords V × List (Result V))
  | [] => some (w, [])
  | first :: rest =>
    match w.call movedFrom first with
    | none => none
    | some (next, result) => (calls movedFrom next rest).map fun done => (done.1, result :: done.2)

end QueueWords

end Illuminator
