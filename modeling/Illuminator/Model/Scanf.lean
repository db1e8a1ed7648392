import Illuminator.Model.Strings
import Illuminator.Standards.JsonText

/-! # Scanned text

The conversions of `sscanf`. A blank of the format and every conversion but a scan set skip white space. A conversion
gives its value and the text behind it, `none` where it fails.
-/

namespace Illuminator

namespace Scanf

open JsonText (hexValue)

/-- A number in the digits of a base. -/
def numeral (base n : ℕ) : Bytes := (Nat.toDigits base n).map fun digit => UInt8.ofNat digit.toNat

def digit (base : ℕ) (c : UInt8) : Option ℕ := (hexValue c).filter (· < base)

/-- The number that digits denote. -/
def value (base : ℕ) (digits : Bytes) : ℕ := digits.foldl (fun n c => base * n + (digit base c).getD 0) 0

def skip (text : Bytes) : Bytes := text.dropWhile isspace

/-- `%lx` and `%lu`. A sign may stand before the digits, and `0x` between it and hexadecimal ones. A number that does
not fit gives the greatest value. -/
def number (base : ℕ) (text : Bytes) : Option (UInt64 × Bytes) :=
  let text := skip text
  let minus := text.head? == some 0x2D
  let digits := if minus || text.head? == some 0x2B then text.tail else text
  let digits := if base = 16 ∧ (digits.take 2 = ascii "0x" ∨ digits.take 2 = ascii "0X") then digits.drop 2 else digits
  let read := digits.takeWhile fun c => (digit base c).isSome
  let rest := digits.dropWhile fun c => (digit base c).isSome
  if read = [] then none
  else if 2 ^ 64 ≤ value base read then some (UInt64.ofNat (2 ^ 64 - 1), rest)
  else some (if minus then -UInt64.ofNat (value base read) else UInt64.ofNat (value base read), rest)

/-- A character of the format. -/
def literal (c : UInt8) (text : Bytes) : Option Bytes := if text.head? = some c then some text.tail else none

/-- `%s` with a width. -/
def word (width : ℕ) (text : Bytes) : Option (Bytes × Bytes) :=
  let text := skip text
  let read := (text.takeWhile (!isspace ·)).take width
  if read = [] then none else some (read, text.drop read.length)

/-- `%[^\n]` with a width. -/
def restOfLine (width : ℕ) (text : Bytes) : Option (Bytes × Bytes) :=
  let read := (text.takeWhile (· != 0x0A)).take width
  if read = [] then none else some (read, text.drop read.length)

/-! ## Printed numbers -/

section Numerals

variable {base : ℕ}

theorem digit_digitChar (small : base ≤ 16) {d : ℕ} (below : d < base) :
    digit base (UInt8.ofNat d.digitChar.toNat) = some d := by
  have table : ∀ d : Fin 16, hexValue (UInt8.ofNat d.val.digitChar.toNat) = some d.val := by decide
  rw [digit, table ⟨d, by omega⟩, Option.filter_some, if_pos (decide_eq_true below)]

theorem value_concat (digits : Bytes) (c : UInt8) :
    value base (digits ++ [c]) = base * value base digits + (digit base c).getD 0 := by
  rw [value, List.foldl_append]
  rfl

theorem value_zeros (zeros : ℕ) (digits : Bytes) :
    value base (List.replicate zeros 0x30 ++ digits) = value base digits := by
  induction zeros with
  | zero => rfl
  | succ zeros ih =>
    rw [List.replicate_succ, List.cons_append, value, List.foldl_cons]
    have zero : (digit base 0x30).getD 0 = 0 := by
      rw [digit, show hexValue 0x30 = some 0 by decide, Option.filter_some]
      split <;> rfl
    rw [zero, Nat.mul_zero, Nat.add_zero]
    exact ih

theorem numeral_ne_nil (n : ℕ) : numeral base n ≠ [] := by
  rw [numeral, ne_eq, List.map_eq_nil_iff]
  exact Nat.toDigits_ne_nil

/-- A numeral consists of digits, and denotes the number. -/
theorem numeral_spec (large : 1 < base) (small : base ≤ 16) (n : ℕ) :
    (∀ c ∈ numeral base n, (digit base c).isSome) ∧ value base (numeral base n) = n := by
  induction n using Nat.strongRecOn with
  | ind n ih =>
    rw [numeral, Nat.toDigits_eq_if large]
    split_ifs with below
    · have read := digit_digitChar small below
      refine ⟨?_, ?_⟩
      · intro c member
        rw [List.map_singleton, List.mem_singleton] at member
        rw [member, read]
        rfl
      · rw [List.map_singleton, ← List.nil_append [_], value_concat, read]
        exact Nat.zero_add n
    · have read := digit_digitChar small (Nat.mod_lt n (by omega : 0 < base))
      obtain ⟨digits, denotes⟩ := ih (n / base) (Nat.div_lt_self (by omega) large)
      rw [List.map_append, List.map_singleton]
      refine ⟨?_, ?_⟩
      · intro c member
        rcases List.mem_append.mp member with front | last
        · exact digits c front
        · rw [List.mem_singleton.mp last, read]
          rfl
      · rw [value_concat, read]
        change base * value base (numeral base (n / base)) + n % base = n
        rw [denotes, Nat.div_add_mod]

end Numerals

/-! ## Reading them -/

/-- A text that no digit begins, and no letter of `0x`. -/
def Stops (tail : Bytes) : Prop := ∀ c ∈ tail.head?, hexValue c = none ∧ c ≠ 0x78 ∧ c ≠ 0x58

theorem hexValue_range {c : UInt8} (digit : (hexValue c).isSome) : 0x30 ≤ c.toNat := by
  rw [hexValue] at digit
  split_ifs at digit with decimal upper lower
  · exact decimal.1
  · exact le_trans (by decide) (UInt8.le_iff_toNat_le.mp upper.1)
  · exact le_trans (by decide) (UInt8.le_iff_toNat_le.mp lower.1)
  · cases digit

theorem digit_hexValue {base : ℕ} {c : UInt8} (found : (digit base c).isSome) : (hexValue c).isSome := by
  rw [digit] at found
  cases known : hexValue c with
  | none =>
    rw [known] at found
    exact found
  | some d => rfl

/-- A digit is not a sign, and no white space. -/
theorem digit_plain {base : ℕ} {c : UInt8} (found : (digit base c).isSome) :
    isspace c = false ∧ c ≠ 0x2D ∧ c ≠ 0x2B := by
  have range := hexValue_range (digit_hexValue found)
  have apart : ∀ other : UInt8, other.toNat < 48 → c ≠ other := by
    rintro other small rfl
    omega
  refine ⟨?_, apart _ (by decide), apart _ (by decide)⟩
  simp only [isspace, Bool.or_eq_false_iff, Bool.and_eq_false_iff, decide_eq_false_iff_not, UInt8.le_iff_toNat_le,
    beq_eq_false_iff_ne]
  refine ⟨apart _ (by decide), .inr ?_⟩
  change ¬ c.toNat ≤ 13
  omega

/-- Behind the first digit there is no `x`. -/
theorem unprefixed {base : ℕ} {digits tail : Bytes} (present : digits ≠ [])
    (known : ∀ c ∈ digits, (digit base c).isSome) (stops : Stops tail) :
    ¬ ((digits ++ tail).take 2 = ascii "0x" ∨ (digits ++ tail).take 2 = ascii "0X") := by
  obtain ⟨first, rest, rfl⟩ := List.exists_cons_of_ne_nil present
  have second : ∀ c ∈ (rest ++ tail).head?, c ≠ 0x78 ∧ c ≠ 0x58 := by
    intro c head
    cases rest with
    | nil => exact (stops c head).2
    | cons next others =>
      obtain rfl : next = c := Option.some.inj head
      have found := digit_hexValue (known next (List.mem_cons_of_mem _ List.mem_cons_self))
      refine ⟨?_, ?_⟩ <;> rintro rfl <;> revert found <;> decide
  have taken : ((first :: rest) ++ tail).take 2 = first :: (rest ++ tail).take 1 := rfl
  rw [taken]
  cases following : rest ++ tail with
  | nil =>
    rintro (same | same) <;> exact List.cons_ne_nil _ _ (List.cons.inj same).2.symm
  | cons c others =>
    obtain ⟨lower, upper⟩ := second c (by rw [following]; rfl)
    rintro (same | same)
    · exact lower (List.cons.inj (List.cons.inj same).2).1
    · exact upper (List.cons.inj (List.cons.inj same).2).1

/-- A printed number is read back, whatever zeros it is filled up with. -/
theorem number_numeral {base : ℕ} (large : 1 < base) (small : base ≤ 16) (n : UInt64) (zeros : ℕ) {tail : Bytes}
    (stops : Stops tail) :
    number base (List.replicate zeros 0x30 ++ (numeral base n.toNat ++ tail)) = some (n, tail) := by
  set digits := List.replicate zeros 0x30 ++ numeral base n.toNat with printed
  have whole : List.replicate zeros 0x30 ++ (numeral base n.toNat ++ tail) = digits ++ tail :=
    (List.append_assoc _ _ _).symm
  obtain ⟨known, denotes⟩ := numeral_spec large small n.toNat
  have zero : (digit base 0x30).isSome := by
    rw [digit, show hexValue 0x30 = some 0 by decide, Option.filter_some, if_pos (decide_eq_true (by omega))]
    rfl
  have every : ∀ c ∈ digits, (digit base c).isSome := by
    intro c member
    rcases List.mem_append.mp member with front | back
    · rw [List.eq_of_mem_replicate front]
      exact zero
    · exact known c back
  have present : digits ≠ [] := List.append_ne_nil_of_right_ne_nil _ (numeral_ne_nil _)
  have valued : value base digits = n.toNat := by rw [printed, value_zeros, denotes]
  have ends : tail.takeWhile (fun c => (digit base c).isSome) = [] ∧
      tail.dropWhile (fun c => (digit base c).isSome) = tail := by
    cases tail with
    | nil => exact ⟨rfl, rfl⟩
    | cons c rest =>
      have unknown : (digit base c).isSome = false := by
        rw [digit, (stops c rfl).1]
        rfl
      rw [List.takeWhile_cons_of_neg (by rw [unknown]; exact Bool.false_ne_true),
        List.dropWhile_cons_of_neg (by rw [unknown]; exact Bool.false_ne_true)]
      exact ⟨rfl, rfl⟩
  obtain ⟨first, rest, split⟩ := List.exists_cons_of_ne_nil present
  obtain ⟨solid, minus, plus⟩ := digit_plain (every first (split ▸ List.mem_cons_self))
  have skipped : skip (digits ++ tail) = digits ++ tail := by
    rw [skip, split, List.cons_append, List.dropWhile_cons_of_neg (by rw [solid]; exact Bool.false_ne_true)]
  have signs : ((digits ++ tail).head? == some 0x2D) = false ∧ ((digits ++ tail).head? == some 0x2B) = false := by
    rw [split, List.cons_append, List.head?_cons]
    exact ⟨beq_eq_false_iff_ne.mpr fun same => minus (Option.some.inj same),
      beq_eq_false_iff_ne.mpr fun same => plus (Option.some.inj same)⟩
  have plain : (if base = 16 ∧ ((digits ++ tail).take 2 = ascii "0x" ∨ (digits ++ tail).take 2 = ascii "0X")
      then (digits ++ tail).drop 2 else digits ++ tail) = digits ++ tail :=
    if_neg fun found => unprefixed present every stops found.2
  rw [whole, number]
  simp only [skipped, signs.1, signs.2, Bool.or_false, Bool.false_eq_true, if_false, plain]
  rw [List.takeWhile_append_of_pos every, List.dropWhile_append_of_pos every, ends.1, ends.2, List.append_nil, if_neg present, valued,
    if_neg (Nat.not_le.mpr n.toNat_lt), UInt64.ofNat_toNat]

end Scanf

end Illuminator
