import Mathlib.Algebra.Order.Ring.Nat
import Mathlib.Data.Nat.Bitwise
import Mathlib.Tactic.Ring

/-! # Big-endian byte strings

A big-endian byte string is a numeral in base 256, most significant digit first. Writing out a
number's digits and reading them back is the identity below the numeral's capacity, and the usual
shift-and-or loop over a 64-bit accumulator reads the same numeral modulo its word size.
-/

namespace BigEndian

/-- The number a byte string denotes. -/
def value (bytes : List UInt8) : ℕ := bytes.foldl (fun total byte => total * 256 + byte.toNat) 0

/-- The low `width` base-256 digits of a number, most significant first. -/
def digits (width n : ℕ) : List UInt8 := (List.range width).reverse.map fun i => UInt8.ofNat (n / 256 ^ i)

@[simp] theorem digits_length (width n : ℕ) : (digits width n).length = width := by
  simp only [digits, List.length_map, List.length_reverse, List.length_range]

private theorem foldl_value (bytes : List UInt8) (total : ℕ) :
    bytes.foldl (fun total byte => total * 256 + byte.toNat) total = total * 256 ^ bytes.length + value bytes := by
  induction bytes generalizing total with
  | nil => simp [value]
  | cons byte rest ih =>
    have expanded : value (byte :: rest) = (0 * 256 + byte.toNat) * 256 ^ rest.length + value rest := ih _
    rw [List.foldl_cons, ih, expanded, List.length_cons, pow_succ]
    ring

theorem value_cons (byte : UInt8) (rest : List UInt8) :
    value (byte :: rest) = byte.toNat * 256 ^ rest.length + value rest := by
  rw [value, List.foldl_cons, foldl_value, Nat.zero_mul, Nat.zero_add]

/-- A numeral stays below its capacity. -/
theorem value_lt (bytes : List UInt8) : value bytes < 256 ^ bytes.length := by
  induction bytes with
  | nil => exact Nat.one_pos
  | cons byte rest ih =>
    have small : byte.toNat < 256 := byte.toNat_lt
    rw [value_cons, List.length_cons, pow_succ, Nat.mul_comm (256 ^ rest.length) 256]
    calc byte.toNat * 256 ^ rest.length + value rest
        < byte.toNat * 256 ^ rest.length + 256 ^ rest.length := Nat.add_lt_add_left ih _
      _ = (byte.toNat + 1) * 256 ^ rest.length := (Nat.succ_mul ..).symm
      _ ≤ 256 * 256 ^ rest.length := Nat.mul_le_mul_right _ small

theorem digits_succ (width n : ℕ) :
    digits (width + 1) n = UInt8.ofNat (n / 256 ^ width) :: digits width n := by
  rw [digits, List.range_succ, List.reverse_append, List.map_append]
  rfl

/-- Digits read back as the number, as far as they reach. -/
theorem value_digits (width n : ℕ) : value (digits width n) = n % 256 ^ width := by
  induction width with
  | zero => simp [digits, value, Nat.mod_one]
  | succ width ih =>
    rw [digits_succ, value_cons, digits_length, ih, pow_succ, Nat.mod_mul, UInt8.toNat_ofNat']
    ring

/-- One turn of the shift-and-or loop on a 64-bit accumulator. -/
def accumulate (total : UInt64) (byte : UInt8) : UInt64 := (total <<< 8) ||| byte.toUInt64

theorem accumulate_zero (byte : UInt8) : accumulate 0 byte = byte.toUInt64 := by
  rw [accumulate, UInt64.zero_shiftLeft, UInt64.zero_or]

theorem accumulate_toNat (total : UInt64) (byte : UInt8) :
    (accumulate total byte).toNat = (total.toNat * 256 + byte.toNat) % 2 ^ 64 := by
  have small : byte.toNat < 2 ^ 8 := byte.toNat_lt
  have shifted : (total <<< 8).toNat = (total.toNat % 2 ^ 56) * 2 ^ 8 := by
    rw [UInt64.toNat_shiftLeft, Nat.shiftLeft_eq]
    change total.toNat * 2 ^ 8 % 2 ^ 64 = _
    omega
  rw [accumulate, UInt64.toNat_or, UInt8.toNat_toUInt64, shifted, ← Nat.shiftLeft_eq,
    ← Nat.shiftLeft_add_eq_or_of_lt small, Nat.shiftLeft_eq]
  omega

/-- The loop reads the numeral modulo the word size. -/
theorem foldl_accumulate (bytes : List UInt8) (total : UInt64) :
    (bytes.foldl accumulate total).toNat = (total.toNat * 256 ^ bytes.length + value bytes) % 2 ^ 64 := by
  induction bytes generalizing total with
  | nil => simp [value, Nat.mod_eq_of_lt total.toNat_lt]
  | cons byte rest ih =>
    rw [List.foldl_cons, ih, accumulate_toNat, Nat.add_mod, Nat.mod_mul_mod, ← Nat.add_mod, value_cons,
      List.length_cons, pow_succ]
    ring_nf

end BigEndian
