import Illuminator.Machine.Interleaving
import Mathlib.Data.Nat.Bitwise
import Mathlib.Data.Nat.Size
import Mathlib.Data.Rat.Floor

/-! # The bounded ring queue and its threads

Capacities are rounded up to a power of two on 64-bit words, so masking a position is reducing it
modulo the capacity. `TryPush` and `TryPop` run as control states over the shared ring: one action
for each atomic load, compare-and-swap, slot move and sequence store. Positions and sequence
numbers are unbounded naturals, which models the runs whose counters do not wrap. Events record
the tickets won by compare-and-swap and the values that change hands.
-/

namespace Illuminator

/-- Smear the highest set bit of `v - 1` downward and add one, on 64-bit words. -/
def roundUpPow2 (v : UInt64) : UInt64 :=
  if v == 0 then 1
  else
    let v := v - 1
    let v := v ||| v >>> 1
    let v := v ||| v >>> 2
    let v := v ||| v >>> 4
    let v := v ||| v >>> 8
    let v := v ||| v >>> 16
    let v := v ||| v >>> 32
    v + 1

/-- Each bit of `x` collects the next `width` bits of `m`. -/
private def Smeared (width m x : ℕ) : Prop :=
  ∀ i, x.testBit i = true ↔ ∃ j, i ≤ j ∧ j < i + width ∧ m.testBit j = true

private theorem smeared_self (m : ℕ) : Smeared 1 m m := by
  intro i
  constructor
  · intro set
    exact ⟨i, le_rfl, Nat.lt_succ_self i, set⟩
  · rintro ⟨j, lower, upper, set⟩
    obtain rfl : j = i := by omega
    exact set

/-- One `v |= v >> shift` doubles the reach. -/
private theorem Smeared.double {width m : ℕ} {v shift : UInt64} (smeared : Smeared width m v.toNat)
    (amount : shift.toNat = width) (small : width < 64) :
    Smeared (width + width) m (v ||| v >>> shift).toNat := by
  intro i
  rw [UInt64.toNat_or, UInt64.toNat_shiftRight, amount, Nat.mod_eq_of_lt small, Nat.testBit_or,
    Nat.testBit_shiftRight, Bool.or_eq_true, smeared i, smeared (width + i)]
  constructor
  · rintro (⟨j, lower, upper, set⟩ | ⟨j, lower, upper, set⟩)
    · exact ⟨j, lower, by omega, set⟩
    · exact ⟨j, by omega, by omega, set⟩
  · rintro ⟨j, lower, upper, set⟩
    by_cases near : j < i + width
    · exact Or.inl ⟨j, lower, near, set⟩
    · exact Or.inr ⟨j, by omega, by omega, set⟩

private theorem Smeared.eq_ones {m x : ℕ} (bound : m < 2 ^ 64) (smeared : Smeared 64 m x) :
    x = 2 ^ m.size - 1 := by
  apply Nat.eq_of_testBit_eq
  intro i
  rw [Nat.testBit_two_pow_sub_one, Bool.eq_iff_iff, decide_eq_true_eq, smeared i]
  constructor
  · rintro ⟨j, lower, _, set⟩
    exact lt_of_le_of_lt lower (Nat.lt_size.mpr (Nat.ge_two_pow_of_testBit set))
  · intro small
    obtain ⟨j, lower, set⟩ := Nat.exists_ge_and_testBit_of_ge_two_pow (Nat.lt_size.mp small)
    have top : j < 64 := by
      by_contra beyond
      have large := Nat.pow_le_pow_right (n := 2) (by decide) (not_lt.mp beyond)
      exact absurd (Nat.ge_two_pow_of_testBit set) (not_le_of_gt (lt_of_lt_of_le bound large))
    exact ⟨j, lower, by omega, set⟩

/-- The rounded capacity counts modulo the word size: it is zero only past `2 ^ 63`. -/
theorem roundUpPow2_toNat (v : UInt64) :
    (roundUpPow2 v).toNat = 2 ^ (v.toNat - 1).size % 2 ^ 64 := by
  by_cases zero : v = 0
  · subst zero
    decide
  · have positive : 1 ≤ v.toNat := by
      by_contra none
      exact zero (UInt64.toNat_inj.mp (by simpa using none))
    have pred : (v - 1).toNat = v.toNat - 1 :=
      UInt64.toNat_sub_of_le v 1 (UInt64.le_iff_toNat_le.mpr positive)
    have start : Smeared 1 (v.toNat - 1) (v - 1).toNat := pred ▸ smeared_self _
    have two := start.double (show (1 : UInt64).toNat = 1 from rfl) (by decide)
    have four := two.double (show (2 : UInt64).toNat = 2 from rfl) (by decide)
    have eight := four.double (show (4 : UInt64).toNat = 4 from rfl) (by decide)
    have sixteen := eight.double (show (8 : UInt64).toNat = 8 from rfl) (by decide)
    have half := sixteen.double (show (16 : UInt64).toNat = 16 from rfl) (by decide)
    have ones := half.double (show (32 : UInt64).toNat = 32 from rfl) (by decide)
    have value := ones.eq_ones (lt_of_le_of_lt (Nat.sub_le ..) v.toNat_lt)
    simp only [roundUpPow2, beq_iff_eq, zero, ↓reduceIte]
    rw [UInt64.toNat_add, value]
    change (2 ^ (v.toNat - 1).size - 1 + 1) % 2 ^ 64 = _
    rw [Nat.sub_add_cancel Nat.one_le_two_pow]

/-- Every usable capacity is a power of two. -/
theorem roundUpPow2_pow (v : UInt64) (usable : (roundUpPow2 v).toNat ≠ 0) :
    ∃ n, (roundUpPow2 v).toNat = 2 ^ n := by
  rw [roundUpPow2_toNat] at usable ⊢
  by_cases small : (v.toNat - 1).size < 64
  · exact ⟨_, Nat.mod_eq_of_lt (Nat.pow_lt_pow_right (by decide) small)⟩
  · exact absurd (Nat.mod_eq_zero_of_dvd (Nat.pow_dvd_pow 2 (not_lt.mp small))) usable

/-- A ring slot: its sequence number and the element it holds. -/
structure Cell (V : Type*) where
  sequence : ℕ
  data : V

structure LockFreeQueue (V : Type*) where
  capacity_ : ℕ
  mask_ : ℕ
  head_ : ℕ
  tail_ : ℕ
  cells_ : ℕ → Cell V

namespace LockFreeQueue

variable {V : Type*}

/-- The constructor: every slot's sequence number starts at its index. -/
def make (requested : UInt64) (blank : V) : LockFreeQueue V where
  capacity_ := (roundUpPow2 requested).toNat
  mask_ := (roundUpPow2 requested).toNat - 1
  head_ := 0
  tail_ := 0
  cells_ i := ⟨i, blank⟩

def index (q : LockFreeQueue V) (pos : ℕ) : ℕ := pos &&& q.mask_

def cell (q : LockFreeQueue V) (pos : ℕ) : Cell V := q.cells_ (q.index pos)

/-- Store one slot's sequence number. -/
def storeSequence (q : LockFreeQueue V) (pos sequence : ℕ) : LockFreeQueue V :=
  { q with cells_ := Function.update q.cells_ (q.index pos) ⟨sequence, (q.cell pos).data⟩ }

/-- Move an element into or out of one slot, leaving `data` there. -/
def storeData (q : LockFreeQueue V) (pos : ℕ) (data : V) : LockFreeQueue V :=
  { q with cells_ := Function.update q.cells_ (q.index pos) ⟨(q.cell pos).sequence, data⟩ }

/-- The signed difference both loops test. -/
def diff (q : LockFreeQueue V) (pos expected : ℕ) : ℤ := (q.cell pos).sequence - expected

def SizeApprox (q : LockFreeQueue V) : ℕ :=
  if q.tail_ ≤ q.head_ then q.head_ - q.tail_ else 0

/-- A conversion of a nonnegative real to `size_t` drops its fraction. -/
def truncate (x : ℚ) : ℕ := x.floor.toNat

def AboveHighWatermark (q : LockFreeQueue V) (ratio : ℚ) : Bool :=
  decide (truncate (q.capacity_ * ratio) < q.SizeApprox)

def BelowLowWatermark (q : LockFreeQueue V) (ratio : ℚ) : Bool :=
  decide (q.SizeApprox < truncate (q.capacity_ * ratio))

/-- Where a thread stands inside `TryPush` or `TryPop`, with its local variables. -/
inductive Pc (V : Type*) where
  | idle
  | pushLoad (value : V)
  | pushTest (value : V) (pos : ℕ)
  | pushClaim (value : V) (pos : ℕ)
  | pushMove (value : V) (pos : ℕ)
  | pushStore (pos : ℕ)
  | popLoad
  | popTest (pos : ℕ)
  | popClaim (pos : ℕ)
  | popMove (pos : ℕ)
  | popStore (pos : ℕ) (value : V)

/-- A thread's freedom: which call it makes, and whether a weak compare-and-swap fails. -/
inductive Choice (V : Type*) where
  | push (value : V)
  | pop
  | proceed
  | spurious

/-- What an action shows: tickets won, calls finished, and the values they carry. -/
inductive Event (V : Type*) where
  | local
  | pushRefused (value : V)
  | pushWon (ticket : ℕ) (value : V)
  | pushed (ticket : ℕ)
  | popRefused
  | popWon (ticket : ℕ)
  | popped (ticket : ℕ) (value : V)

/-- One atomic action of a thread inside the queue. `movedFrom` is what a move leaves behind. -/
def act (movedFrom : V → V) (q : LockFreeQueue V) :
    Pc V → Choice V → Option (LockFreeQueue V × Pc V × Event V)
  | .idle, .push value => some (q, .pushLoad value, .local)
  | .idle, .pop => some (q, .popLoad, .local)
  | .pushLoad value, .proceed => some (q, .pushTest value q.head_, .local)
  | .pushTest value pos, .proceed =>
    if q.diff pos pos = 0 then some (q, .pushClaim value pos, .local)
    else if q.diff pos pos < 0 then some (q, .idle, .pushRefused value)
    else some (q, .pushLoad value, .local)
  | .pushClaim value pos, .proceed =>
    if q.head_ = pos then some ({ q with head_ := pos + 1 }, .pushMove value pos, .pushWon pos value)
    else some (q, .pushTest value q.head_, .local)
  | .pushClaim value _, .spurious => some (q, .pushTest value q.head_, .local)
  | .pushMove value pos, .proceed => some (q.storeData pos value, .pushStore pos, .local)
  | .pushStore pos, .proceed => some (q.storeSequence pos (pos + 1), .idle, .pushed pos)
  | .popLoad, .proceed => some (q, .popTest q.tail_, .local)
  | .popTest pos, .proceed =>
    if q.diff pos (pos + 1) = 0 then some (q, .popClaim pos, .local)
    else if q.diff pos (pos + 1) < 0 then some (q, .idle, .popRefused)
    else some (q, .popLoad, .local)
  | .popClaim pos, .proceed =>
    if q.tail_ = pos then some ({ q with tail_ := pos + 1 }, .popMove pos, .popWon pos)
    else some (q, .popTest q.tail_, .local)
  | .popClaim _, .spurious => some (q, .popTest q.tail_, .local)
  | .popMove pos, .proceed =>
    some (q.storeData pos (movedFrom (q.cell pos).data), .popStore pos (q.cell pos).data, .local)
  | .popStore pos value, .proceed =>
    some (q.storeSequence pos (pos + q.capacity_), .idle, .popped pos value)
  | _, _ => none

/-- Any number of threads calling `TryPush` and `TryPop` on one queue. -/
def program (movedFrom : V → V) :
    Interleaving.Program (LockFreeQueue V) (Pc V) (Choice V) (Event V) :=
  ⟨act movedFrom⟩

/-- A freshly constructed queue with every thread outside it. -/
def initial (τ : Type*) (requested : UInt64) (blank : V) :
    Interleaving.State (LockFreeQueue V) (Pc V) τ :=
  ⟨make requested blank, fun _ => .idle⟩

end LockFreeQueue

end Illuminator
