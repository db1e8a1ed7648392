import Mathlib.Data.Nat.Digits.Defs
import Mathlib.Data.UInt

/-! # Reads of a buffer

A pointer into a buffer is an offset that wraps at 64 bits. A read gives the little-endian number that lies there, or
nothing when it leaves the buffer; a string is read up to its terminating NUL. What follows a read is looked at only when
the read stays inside.
-/

namespace BoundedReads

variable {α β : Type}

def Inside (buf : List UInt8) (pointer : UInt64) (size : ℕ) : Prop := pointer.toNat + size ≤ buf.length

instance (buf : List UInt8) (pointer : UInt64) (size : ℕ) : Decidable (Inside buf pointer size) :=
  inferInstanceAs (Decidable (_ ≤ _))

/-- The number at a pointer, as far as the buffer goes. -/
def number (buf : List UInt8) (pointer : UInt64) (size : ℕ) : ℕ :=
  Nat.ofDigits 256 (((buf.drop pointer.toNat).take size).map UInt8.toNat)

def readNumber (buf : List UInt8) (pointer : UInt64) (size : ℕ) : Option ℕ :=
  if Inside buf pointer size then some (number buf pointer size) else none

/-- A NUL lies at the pointer or behind it. -/
def Terminated (buf : List UInt8) (pointer : UInt64) : Prop := 0 ∈ buf.drop pointer.toNat

instance (buf : List UInt8) (pointer : UInt64) : Decidable (Terminated buf pointer) :=
  inferInstanceAs (Decidable (_ ∈ _))

/-- The bytes before the NUL. -/
def text (buf : List UInt8) (pointer : UInt64) : List UInt8 := (buf.drop pointer.toNat).takeWhile (· != 0)

def readString (buf : List UInt8) (pointer : UInt64) : Option (List UInt8) :=
  if Terminated buf pointer then some (text buf pointer) else none

section Rows

variable {buf : List UInt8} {pointer : UInt64} {size : ℕ}

@[simp] theorem isSome_readNumber_bind (next : ℕ → Option β) :
    (readNumber buf pointer size >>= next).isSome = true ↔
      Inside buf pointer size ∧ (next (number buf pointer size)).isSome = true := by
  rw [readNumber]
  split_ifs with inside <;> simp [inside]

@[simp] theorem isSome_map_readNumber_bind (change : ℕ → α) (next : α → Option β) :
    ((readNumber buf pointer size).map change >>= next).isSome = true ↔
      Inside buf pointer size ∧ (next (change (number buf pointer size))).isSome = true := by
  rw [readNumber]
  split_ifs with inside <;> simp [inside]

@[simp] theorem isSome_readString_bind (next : List UInt8 → Option β) :
    (readString buf pointer >>= next).isSome = true ↔
      Terminated buf pointer ∧ (next (text buf pointer)).isSome = true := by
  rw [readString]
  split_ifs with terminated <;> simp [terminated]

end Rows

end BoundedReads
