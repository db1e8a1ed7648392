import Mathlib.Algebra.Group.Nat.Defs
import Mathlib.Data.List.Basic

/-! # Strings

A `std::string` is its list of bytes, whatever they are, and `std::to_string` of an unsigned number
is its shortest decimal numeral.
-/

namespace Illuminator

abbrev Bytes := List UInt8

/-- A statement about the bytes of a string is decided along the string, not for every byte there is. -/
instance (priority := high) decidableBytes (s : Bytes) (p : UInt8 → Prop) [DecidablePred p] : Decidable (∀ c ∈ s, p c) :=
  List.decidableBAll p s

instance (priority := high) decidableFirst (first : Option UInt8) (p : UInt8 → Prop) [DecidablePred p] :
    Decidable (∀ c ∈ first, p c) :=
  Option.decidableForallMem first

/-- A string literal of the source, all of whose characters are ASCII. -/
def ascii (literal : String) : Bytes := literal.toList.map fun c => UInt8.ofNat c.toNat

/-- A string that is the UTF-8 encoding of some characters. -/
def ValidUtf8 (s : Bytes) : Prop := ∃ chars : List Char, s = chars.flatMap String.utf8EncodeChar

theorem validUtf8_iff (s : Bytes) : ValidUtf8 s ↔ s.toByteArray.IsValidUTF8 := by
  constructor
  · rintro ⟨chars, rfl⟩
    exact ⟨chars, rfl⟩
  · rintro ⟨chars, same⟩
    refine ⟨chars, ?_⟩
    have lists := congrArg (fun b : ByteArray => b.data.toList) same
    simpa only [List.data_toByteArray, List.utf8Encode] using lists

instance (s : Bytes) : Decidable (ValidUtf8 s) := decidable_of_iff _ (validUtf8_iff s).symm

/-- `std::to_string` of an unsigned integer. -/
def to_string (n : ℕ) : Bytes := (Nat.toDigits 10 n).map fun digit => UInt8.ofNat digit.toNat

private theorem digit_range {n : ℕ} {digit : Char} (member : digit ∈ Nat.toDigits 10 n) :
    48 ≤ digit.toNat ∧ digit.toNat ≤ 57 := by
  have isDigit := Nat.isDigit_of_mem_toDigits (by decide) (by decide) member
  simp only [Char.isDigit, Bool.and_eq_true, decide_eq_true_eq] at isDigit
  exact isDigit

/-- A numeral consists of the digits `0` to `9`. -/
theorem to_string_range {n : ℕ} {byte : UInt8} (member : byte ∈ to_string n) : 48 ≤ byte.toNat ∧ byte.toNat ≤ 57 := by
  obtain ⟨digit, inside, rfl⟩ := List.mem_map.mp member
  have range := digit_range inside
  rw [UInt8.toNat_ofNat']
  omega

private theorem digits_of_to_string (n : ℕ) :
    (to_string n).map (fun byte => Char.ofNat byte.toNat) = Nat.toDigits 10 n := by
  rw [to_string, List.map_map]
  refine (List.map_congr_left fun digit member => ?_).trans (List.map_id _)
  have range := digit_range member
  rw [Function.comp_apply, UInt8.toNat_ofNat', Nat.mod_eq_of_lt (by omega), Char.ofNat_toNat, id]

/-- The number that a decimal numeral denotes. -/
def of_decimal (numeral : Bytes) : ℕ := Nat.ofDigitChars 10 (numeral.map fun byte => Char.ofNat byte.toNat) 0

theorem of_decimal_to_string (n : ℕ) : of_decimal (to_string n) = n := by
  rw [of_decimal, digits_of_to_string]
  exact Nat.ofDigitChars_ten_toDigits

theorem to_string_ne_nil (n : ℕ) : to_string n ≠ [] := by
  rw [to_string, ne_eq, List.map_eq_nil_iff]
  exact Nat.toDigits_ne_nil

/-- A numeral of more than one digit does not begin with a zero. -/
theorem to_string_head (n : ℕ) (positive : 0 < n) : (to_string n).head? ≠ some 0x30 := by
  induction n using Nat.strongRecOn with
  | ind n ih =>
    rw [to_string, Nat.toDigits_eq_if (by decide)]
    split_ifs with small
    · have each : ∀ d : Fin 10, 0 < d.val → UInt8.ofNat d.val.digitChar.toNat ≠ 0x30 := by decide
      simpa using each ⟨n, small⟩ positive
    · have shorter := ih (n / 10) (by omega) (by omega)
      rw [List.map_append, List.head?_append]
      cases first : ((Nat.toDigits 10 (n / 10)).map fun digit => UInt8.ofNat digit.toNat).head? with
      | none =>
        rw [List.head?_eq_none_iff] at first
        exact absurd first (to_string_ne_nil (n / 10))
      | some byte =>
        rw [to_string, first] at shorter
        exact shorter

theorem to_string_injective : Function.Injective to_string := by
  intro left right same
  have digits : Nat.toDigits 10 left = Nat.toDigits 10 right := by
    rw [← digits_of_to_string, same, digits_of_to_string]
  calc left = Nat.ofDigitChars 10 (Nat.toDigits 10 left) 0 := Nat.ofDigitChars_ten_toDigits.symm
    _ = Nat.ofDigitChars 10 (Nat.toDigits 10 right) 0 := by rw [digits]
    _ = right := Nat.ofDigitChars_ten_toDigits

def isspace (byte : UInt8) : Bool := byte == 0x20 || (0x09 ≤ byte && byte ≤ 0x0D)

def isdigit (byte : UInt8) : Bool := 0x30 ≤ byte && byte ≤ 0x39

theorem isdigit_to_string {n : ℕ} : ∀ byte ∈ to_string n, isdigit byte = true := by
  intro byte member
  have range := to_string_range member
  simp only [isdigit, Bool.and_eq_true, decide_eq_true_eq, UInt8.le_iff_toNat_le]
  exact range

theorem notMem_to_string {n : ℕ} {byte : UInt8} (other : byte.toNat < 48) : byte ∉ to_string n := fun member =>
  absurd (to_string_range member).1 (by omega)

/-- `std::stoull` in base ten, `none` where it throws. Leading white space and one sign are skipped, and a minus sign
negates modulo 2^64. -/
def stoull (text : Bytes) : Option ℕ :=
  let signed := text.dropWhile isspace
  let negative := signed.head? == some 0x2D
  let unsigned := if negative || signed.head? == some 0x2B then signed.tail else signed
  let numeral := unsigned.takeWhile isdigit
  if numeral = [] ∨ 2 ^ 64 ≤ of_decimal numeral then none
  else some (if negative then (2 ^ 64 - of_decimal numeral) % 2 ^ 64 else of_decimal numeral)

/-- A string of digits is read as the number it denotes, unless that is too large. -/
theorem stoull_digits {text : Bytes} (present : text ≠ []) (digits : ∀ byte ∈ text, isdigit byte = true) :
    stoull text = if 2 ^ 64 ≤ of_decimal text then none else some (of_decimal text) := by
  obtain ⟨first, rest, rfl⟩ := List.exists_cons_of_ne_nil present
  have digit := digits first List.mem_cons_self
  have unspaced : isspace first = false := by
    have range : 0x30 ≤ first.toNat := by
      rw [isdigit, Bool.and_eq_true, decide_eq_true_eq, UInt8.le_iff_toNat_le] at digit
      exact digit.1
    have other : first ≠ 0x20 := by
      rintro rfl
      exact absurd range (by decide)
    simp only [isspace, Bool.or_eq_false_iff, Bool.and_eq_false_iff, decide_eq_false_iff_not,
      UInt8.le_iff_toNat_le, beq_eq_false_iff_ne]
    refine ⟨other, .inr ?_⟩
    change ¬ first.toNat ≤ 13
    omega
  have plain : ∀ sign : UInt8, isdigit sign = false → (some first == some sign) = false := by
    intro sign letter
    refine beq_eq_false_iff_ne.mpr fun same => ?_
    rw [Option.some.inj same, letter] at digit
    cases digit
  have whole : (first :: rest).dropWhile isspace = first :: rest := by
    rw [List.dropWhile_cons_of_neg (by simp [unspaced])]
  have numeral : (first :: rest).takeWhile isdigit = first :: rest := by
    rw [← List.append_nil (first :: rest), List.takeWhile_append_of_pos digits, List.takeWhile_nil]
  simp only [stoull, whole, List.head?_cons, plain 0x2D (by decide), plain 0x2B (by decide), Bool.or_false,
    Bool.false_eq_true, if_false, numeral, present, false_or]

/-- A number of 64 bits is read back from its numeral. -/
theorem stoull_to_string {n : ℕ} (fits : n < 2 ^ 64) : stoull (to_string n) = some n := by
  rw [stoull_digits (to_string_ne_nil n) isdigit_to_string, of_decimal_to_string]
  exact if_neg (Nat.not_le.mpr fits)

example : to_string 1024 = [0x31, 0x30, 0x32, 0x34] := by decide

end Illuminator
