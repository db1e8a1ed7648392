import Illuminator.Model.Strings
import Mathlib.Data.UInt

/-! # Input streams

What `std::getline` and the extractions of an `std::istringstream` do. An extraction skips white space, and from the
first one that fails on every other one fails and leaves its variable alone.
-/

namespace Illuminator

/-- The lines that `std::getline` reads: a line break ends a line, and what follows the last one is a line when it is
not empty. -/
def lines (content : Bytes) : List Bytes :=
  let parts := content.splitOn 0x0A
  if parts.getLast? = some [] then parts.dropLast else parts

/-- What is left of the text, and whether an extraction has failed. -/
structure IStream where
  rest : Bytes
  fail : Bool := false
  deriving DecidableEq

namespace IStream

/-- `>>` into a string that is empty. -/
def word (iss : IStream) : Bytes × IStream :=
  let text := iss.rest.dropWhile isspace
  if iss.fail || text.isEmpty then ([], ⟨text, true⟩)
  else (text.takeWhile (!isspace ·), ⟨text.dropWhile (!isspace ·), false⟩)

/-- `>>` into an unsigned integer of so many bits that is zero. A sign may stand before the digits; a number that does
not fit gives the greatest value and fails. -/
def unsigned (bits : ℕ) (iss : IStream) : ℕ × IStream :=
  let text := iss.rest.dropWhile isspace
  if iss.fail || text.isEmpty then (0, ⟨text, true⟩)
  else
    let minus := text.head? == some 0x2D
    let digits := if minus || text.head? == some 0x2B then text.tail else text
    let numeral := digits.takeWhile isdigit
    let rest := digits.dropWhile isdigit
    if numeral = [] then (0, ⟨rest, true⟩)
    else if 2 ^ bits ≤ of_decimal numeral then (2 ^ bits - 1, ⟨rest, true⟩)
    else (if minus then (2 ^ bits - of_decimal numeral) % 2 ^ bits else of_decimal numeral, ⟨rest, false⟩)

/-- `>>` into a signed integer of so many bits that is zero. A number that does not fit gives the nearest value and
fails. -/
def signed (bits : ℕ) (iss : IStream) : ℤ × IStream :=
  let text := iss.rest.dropWhile isspace
  if iss.fail || text.isEmpty then (0, ⟨text, true⟩)
  else
    let minus := text.head? == some 0x2D
    let digits := if minus || text.head? == some 0x2B then text.tail else text
    let numeral := digits.takeWhile isdigit
    let rest := digits.dropWhile isdigit
    if numeral = [] then (0, ⟨rest, true⟩)
    else if minus then
      if 2 ^ (bits - 1) < of_decimal numeral then (-(2 ^ (bits - 1) : ℕ), ⟨rest, true⟩)
      else (-(of_decimal numeral : ℤ), ⟨rest, false⟩)
    else if 2 ^ (bits - 1) ≤ of_decimal numeral then ((2 ^ (bits - 1) - 1 : ℕ), ⟨rest, true⟩)
    else (of_decimal numeral, ⟨rest, false⟩)

def uint64 (iss : IStream) : UInt64 × IStream := ((UInt64.ofNat (iss.unsigned 64).1), (iss.unsigned 64).2)

def uint32 (iss : IStream) : UInt32 × IStream := ((UInt32.ofNat (iss.unsigned 32).1), (iss.unsigned 32).2)

def int64 (iss : IStream) : Int64 × IStream := (Int64.ofInt (iss.signed 64).1, (iss.signed 64).2)

/-! ## Reading numbers that were printed -/

/-- An integer in decimal, with a minus sign if it is negative. -/
def decimal (z : ℤ) : Bytes := if z < 0 then 0x2D :: to_string z.natAbs else to_string z.natAbs

/-- A text that no digit begins. -/
def Stops (tail : Bytes) : Prop := ∀ c ∈ tail.head?, isdigit c = false

theorem digits_stop {n : ℕ} {tail : Bytes} (stops : Stops tail) :
    (to_string n ++ tail).takeWhile isdigit = to_string n ∧ (to_string n ++ tail).dropWhile isdigit = tail := by
  rw [List.takeWhile_append_of_pos isdigit_to_string, List.dropWhile_append_of_pos isdigit_to_string]
  cases tail with
  | nil => exact ⟨List.append_nil _, rfl⟩
  | cons c rest =>
    rw [List.takeWhile_cons_of_neg (by rw [stops c rfl]; exact Bool.false_ne_true),
      List.dropWhile_cons_of_neg (by rw [stops c rfl]; exact Bool.false_ne_true)]
    exact ⟨List.append_nil _, rfl⟩

/-- The first digit of a printed number. -/
theorem to_string_first (n : ℕ) : ∃ first rest, to_string n = first :: rest ∧ isspace first = false ∧
    first ≠ 0x2D ∧ first ≠ 0x2B := by
  obtain ⟨first, rest, written⟩ := List.exists_cons_of_ne_nil (to_string_ne_nil n)
  have range := to_string_range (n := n) (written ▸ List.mem_cons_self)
  have apart : ∀ other : UInt8, other.toNat < 48 → first ≠ other := by
    rintro other small rfl
    omega
  refine ⟨first, rest, written, ?_, apart _ (by decide), apart _ (by decide)⟩
  simp only [isspace, Bool.or_eq_false_iff, Bool.and_eq_false_iff, decide_eq_false_iff_not, UInt8.le_iff_toNat_le,
    beq_eq_false_iff_ne]
  refine ⟨apart _ (by decide), .inr ?_⟩
  change ¬ first.toNat ≤ 13
  omega

/-- After a blank a printed number is all that is left, and its sign tells its digits. -/
theorem decimal_parts (z : ℤ) (tail : Bytes) :
    (0x20 :: (decimal z ++ tail)).dropWhile isspace = decimal z ++ tail ∧ (decimal z ++ tail).isEmpty = false ∧
      ((decimal z ++ tail).head? == some 0x2D) = decide (z < 0) ∧
      ((decimal z ++ tail).head? == some 0x2B) = false ∧
      (if z < 0 then (decimal z ++ tail).tail else decimal z ++ tail) = to_string z.natAbs ++ tail := by
  have blank : (0x20 :: (decimal z ++ tail)).dropWhile isspace = (decimal z ++ tail).dropWhile isspace := rfl
  rw [blank, decimal]
  split_ifs with negative
  · exact ⟨rfl, rfl, (decide_eq_true negative).symm, rfl, rfl⟩
  · obtain ⟨first, rest, written, solid, minus, plus⟩ := to_string_first z.natAbs
    rw [written, List.cons_append, List.dropWhile_cons_of_neg (by rw [solid]; exact Bool.false_ne_true),
      List.head?_cons, decide_eq_false negative]
    refine ⟨rfl, rfl, beq_eq_false_iff_ne.mpr ?_, beq_eq_false_iff_ne.mpr ?_, rfl⟩
    · exact fun same => minus (Option.some.inj same)
    · exact fun same => plus (Option.some.inj same)

/-- A number of so many bits is read as an unsigned one, a negative number modulo its range. -/
theorem unsigned_decimal {bits : ℕ} {z : ℤ} {tail : Bytes} (stops : Stops tail) (small : z.natAbs < 2 ^ bits) :
    unsigned bits ⟨0x20 :: (decimal z ++ tail), false⟩ =
      (if z < 0 then (2 ^ bits - z.natAbs) % 2 ^ bits else z.natAbs, ⟨tail, false⟩) := by
  obtain ⟨text, some_, minus, plus, digits⟩ := decimal_parts z tail
  obtain ⟨numeral, rest⟩ := digits_stop (n := z.natAbs) stops
  rw [unsigned]
  simp only [text, some_, minus, plus, Bool.or_false, Bool.false_eq_true, if_false, decide_eq_true_eq, digits, numeral,
    rest, to_string_ne_nil, of_decimal_to_string]
  exact if_neg (Nat.not_le.mpr small)

/-- A number of so many bits is read as a signed one. -/
theorem signed_decimal {bits : ℕ} {z : ℤ} {tail : Bytes} (stops : Stops tail) (least : -2 ^ (bits - 1) ≤ z)
    (greatest : z < 2 ^ (bits - 1)) :
    signed bits ⟨0x20 :: (decimal z ++ tail), false⟩ = (z, ⟨tail, false⟩) := by
  obtain ⟨text, some_, minus, plus, digits⟩ := decimal_parts z tail
  obtain ⟨numeral, rest⟩ := digits_stop (n := z.natAbs) stops
  have cast : ((2 ^ (bits - 1) : ℕ) : ℤ) = 2 ^ (bits - 1) := by push_cast; rfl
  rw [signed]
  simp only [text, some_, minus, plus, Bool.or_false, Bool.false_eq_true, if_false, decide_eq_true_eq, digits, numeral,
    rest, to_string_ne_nil, of_decimal_to_string]
  split_ifs with negative large large
  · omega
  · rw [show -(z.natAbs : ℤ) = z by omega]
  · omega
  · rw [show (z.natAbs : ℤ) = z by omega]

theorem uint64_decimal {z : ℤ} {tail : Bytes} (stops : Stops tail) (small : z.natAbs < 2 ^ 64) :
    uint64 ⟨0x20 :: (decimal z ++ tail), false⟩ = (UInt64.ofInt z, ⟨tail, false⟩) := by
  rw [uint64, unsigned_decimal stops small]
  have same : (if z < 0 then (2 ^ 64 - z.natAbs) % 2 ^ 64 else z.natAbs) = (z % 2 ^ 64).toNat := by
    split_ifs <;> omega
  rw [same]
  rfl

theorem uint32_decimal {z : ℤ} {tail : Bytes} (stops : Stops tail) (small : z.natAbs < 2 ^ 32) :
    uint32 ⟨0x20 :: (decimal z ++ tail), false⟩ = (UInt32.ofInt z, ⟨tail, false⟩) := by
  rw [uint32, unsigned_decimal stops small]
  have same : (if z < 0 then (2 ^ 32 - z.natAbs) % 2 ^ 32 else z.natAbs) = (z % 2 ^ 32).toNat := by
    split_ifs <;> omega
  rw [same]
  rfl

theorem int64_decimal {z : ℤ} {tail : Bytes} (stops : Stops tail) (least : -2 ^ 63 ≤ z) (greatest : z < 2 ^ 63) :
    int64 ⟨0x20 :: (decimal z ++ tail), false⟩ = (Int64.ofInt z, ⟨tail, false⟩) := by
  rw [int64, signed_decimal stops least greatest]

end IStream

end Illuminator
