import Illuminator.Model.JsonDocument
import Mathlib.Data.List.TakeWhile

/-! # JSON texts

A writer and a reader of JSON. The writer makes a text without white space and escapes what has to be
escaped; the reader takes every text of the grammar. How floating-point numbers are written and read is a
parameter. A value whose strings are UTF-8 is read back from its text.
-/

namespace Illuminator

namespace JsonText

open JsonValue

/-- How floating-point numbers are written and read. -/
structure Floats (D : Type) where
  isfinite : D → Bool
  format : D → Bytes
  strtod : Bytes → Option D

variable {D : Type}

/-! ## Strings -/

def hexDigit (n : ℕ) : UInt8 := if n < 10 then UInt8.ofNat (48 + n) else UInt8.ofNat (87 + n)

def escape (c : UInt8) : Bytes :=
  if c = 0x22 then [0x5C, 0x22]
  else if c = 0x5C then [0x5C, 0x5C]
  else if c = 0x08 then [0x5C, 0x62]
  else if c = 0x0C then [0x5C, 0x66]
  else if c = 0x0A then [0x5C, 0x6E]
  else if c = 0x0D then [0x5C, 0x72]
  else if c = 0x09 then [0x5C, 0x74]
  else if c.toNat < 0x20 then [0x5C, 0x75, 0x30, 0x30, hexDigit (c.toNat / 16), hexDigit (c.toNat % 16)]
  else [c]

def quoted (s : Bytes) : Bytes := 0x22 :: (s.flatMap escape ++ [0x22])

def unescape : UInt8 → Option UInt8
  | 0x22 => some 0x22
  | 0x5C => some 0x5C
  | 0x2F => some 0x2F
  | 0x62 => some 0x08
  | 0x66 => some 0x0C
  | 0x6E => some 0x0A
  | 0x72 => some 0x0D
  | 0x74 => some 0x09
  | _ => none

def hexValue (c : UInt8) : Option ℕ :=
  if 0x30 ≤ c ∧ c ≤ 0x39 then some (c.toNat - 0x30)
  else if 0x41 ≤ c ∧ c ≤ 0x46 then some (c.toNat - 0x37)
  else if 0x61 ≤ c ∧ c ≤ 0x66 then some (c.toNat - 0x57)
  else none

def codeUnit (a b c d : UInt8) : Option ℕ := do
  let a ← hexValue a
  let b ← hexValue b
  let c ← hexValue c
  let d ← hexValue d
  return ((a * 16 + b) * 16 + c) * 16 + d

/-- A byte of a string, or a UTF-16 code unit that an escape stands for. -/
inductive Piece where
  | byte (b : UInt8)
  | unit (code : ℕ)

/-- The pieces of a string up to its closing quote, and what follows the quote. -/
def pieces : Bytes → Option (List Piece × Bytes)
  | [] => none
  | 0x22 :: rest => some ([], rest)
  | 0x5C :: 0x75 :: a :: b :: c :: d :: rest =>
    (codeUnit a b c d).bind fun code => (pieces rest).map fun read => (.unit code :: read.1, read.2)
  | 0x5C :: c :: rest =>
    (unescape c).bind fun b => (pieces rest).map fun read => (.byte b :: read.1, read.2)
  | c :: rest => if c.toNat < 0x20 then none else (pieces rest).map fun read => (.byte c :: read.1, read.2)

def encode (code : ℕ) : Bytes := String.utf8EncodeChar (Char.ofNat code)

/-- The bytes that pieces stand for. Two surrogates stand for one character. -/
def assemble : List Piece → Option Bytes
  | [] => some []
  | .byte b :: later => (assemble later).map (b :: ·)
  | .unit high :: .unit low :: later =>
    if 0xD800 ≤ high ∧ high < 0xE000 then
      if high < 0xDC00 ∧ 0xDC00 ≤ low ∧ low < 0xE000 then
        (assemble later).map (encode (0x10000 + (high - 0xD800) * 0x400 + (low - 0xDC00)) ++ ·)
      else none
    else (assemble (.unit low :: later)).map (encode high ++ ·)
  | .unit code :: later => if 0xD800 ≤ code ∧ code < 0xE000 then none else (assemble later).map (encode code ++ ·)

/-- Reads a string after its opening quote. -/
def string (text : Bytes) : Option (Bytes × Bytes) :=
  (pieces text).bind fun read => (assemble read.1).bind fun s => if ValidUtf8 s then some (s, read.2) else none

/-! ## Numbers -/

def isDigit (c : UInt8) : Bool := 0x30 ≤ c && c ≤ 0x39

/-- The characters that numbers consist of. -/
def isNumberChar (c : UInt8) : Bool := isDigit c || c == 0x2B || c == 0x2D || c == 0x2E || c == 0x45 || c == 0x65

def exponent : Bytes → Bool
  | [] => true
  | e :: 0x2B :: digits => (e == 0x45 || e == 0x65) && !digits.isEmpty && digits.all isDigit
  | e :: 0x2D :: digits => (e == 0x45 || e == 0x65) && !digits.isEmpty && digits.all isDigit
  | e :: digits => (e == 0x45 || e == 0x65) && !digits.isEmpty && digits.all isDigit

def fraction : Bytes → Bool
  | 0x2E :: rest => !(rest.takeWhile isDigit).isEmpty && exponent (rest.dropWhile isDigit)
  | rest => exponent rest

def magnitude (text : Bytes) : Bool :=
  !(text.takeWhile isDigit).isEmpty &&
    ((text.takeWhile isDigit).length == 1 || (text.takeWhile isDigit).head? != some 0x30) &&
    fraction (text.dropWhile isDigit)

/-- The grammar of a number. -/
def numeral : Bytes → Bool
  | 0x2D :: rest => magnitude rest
  | text => magnitude text

/-- An integer literal with a sign is an integer, one without is unsigned; what is out of range or no integer
literal is a `double`. -/
def number (floats : Floats D) (text : Bytes) : Option (JsonValue D) :=
  if numeral text then
    if text.all isDigit && decide (of_decimal text < 2 ^ 64) then
      some (.number_unsigned (UInt64.ofNat (of_decimal text)))
    else if text.tail.all isDigit && decide (of_decimal text.tail ≤ 2 ^ 63) && text.head? == some 0x2D then
      some (.number_integer (Int64.ofInt (-of_decimal text.tail)))
    else (floats.strtod text).map .number_float
  else none

/-! ## Values -/

def isSpace (c : UInt8) : Bool := c == 0x20 || c == 0x09 || c == 0x0A || c == 0x0D

def skip (text : Bytes) : Bytes := text.dropWhile isSpace

mutual

/-- Reads a value at the start of a text. `fuel` bounds the nesting and the number of elements. -/
def value (floats : Floats D) : ℕ → Bytes → Option (JsonValue D × Bytes)
  | 0, _ => none
  | fuel + 1, text =>
    match text with
    | 0x22 :: rest => (string rest).map fun read => (.string read.1, read.2)
    | 0x5B :: rest =>
      match skip rest with
      | 0x5D :: later => some (.array [], later)
      | inside =>
        (value floats fuel inside).bind fun first =>
          (elements floats fuel (skip first.2)).map fun others => (.array (first.1 :: others.1), others.2)
    | 0x7B :: rest =>
      match skip rest with
      | 0x7D :: later => some (.object [], later)
      | inside =>
        (member floats fuel inside).bind fun first =>
          (members floats fuel (skip first.2)).map fun others =>
            (.object (Members.setAll (first.1 :: others.1) []), others.2)
    | 0x6E :: 0x75 :: 0x6C :: 0x6C :: rest => some (.null, rest)
    | 0x74 :: 0x72 :: 0x75 :: 0x65 :: rest => some (.boolean true, rest)
    | 0x66 :: 0x61 :: 0x6C :: 0x73 :: 0x65 :: rest => some (.boolean false, rest)
    | text => (number floats (text.takeWhile isNumberChar)).map fun read => (read, text.dropWhile isNumberChar)

/-- Reads the elements of an array after its first one, up to the closing bracket. -/
def elements (floats : Floats D) : ℕ → Bytes → Option (List (JsonValue D) × Bytes)
  | 0, _ => none
  | fuel + 1, text =>
    match text with
    | 0x5D :: rest => some ([], rest)
    | 0x2C :: rest =>
      (value floats fuel (skip rest)).bind fun first =>
        (elements floats fuel (skip first.2)).map fun others => (first.1 :: others.1, others.2)
    | _ => none

def member (floats : Floats D) : ℕ → Bytes → Option ((Bytes × JsonValue D) × Bytes)
  | 0, _ => none
  | fuel + 1, text =>
    match text with
    | 0x22 :: rest =>
      (string rest).bind fun key =>
        match skip key.2 with
        | 0x3A :: later => (value floats fuel (skip later)).map fun read => ((key.1, read.1), read.2)
        | _ => none
    | _ => none

/-- Reads the members of an object after its first one, up to the closing brace. -/
def members (floats : Floats D) : ℕ → Bytes → Option (Members D × Bytes)
  | 0, _ => none
  | fuel + 1, text =>
    match text with
    | 0x7D :: rest => some ([], rest)
    | 0x2C :: rest =>
      (member floats fuel (skip rest)).bind fun first =>
        (members floats fuel (skip first.2)).map fun others => (first.1 :: others.1, others.2)
    | _ => none

end

def parse (floats : Floats D) (text : Bytes) : Option (JsonValue D) :=
  (value floats (text.length + 1) (skip text)).bind fun read =>
    if (skip read.2).isEmpty then some read.1 else none

/-! ## Writing -/

def integer (i : Int64) : Bytes :=
  if 0 ≤ i then to_string i.toInt.toNat else 0x2D :: to_string (-i.toInt).toNat

mutual

def write (floats : Floats D) : JsonValue D → Bytes
  | .null => ascii "null"
  | .boolean true => ascii "true"
  | .boolean false => ascii "false"
  | .number_integer i => integer i
  | .number_unsigned u => to_string u.toNat
  | .number_float d => if floats.isfinite d then floats.format d else ascii "null"
  | .string s => quoted s
  | .array [] => [0x5B, 0x5D]
  | .array (first :: others) => 0x5B :: (write floats first ++ writeOthers floats others)
  | .object [] => [0x7B, 0x7D]
  | .object ((key, first) :: others) =>
    0x7B :: (quoted key ++ 0x3A :: (write floats first ++ writeMembers floats others))

def writeOthers (floats : Floats D) : List (JsonValue D) → Bytes
  | [] => [0x5D]
  | v :: others => 0x2C :: (write floats v ++ writeOthers floats others)

def writeMembers (floats : Floats D) : List (Bytes × JsonValue D) → Bytes
  | [] => [0x7D]
  | (key, v) :: others => 0x2C :: (quoted key ++ 0x3A :: (write floats v ++ writeMembers floats others))

end

def dump (floats : Floats D) (v : JsonValue D) : Option Bytes :=
  if ∀ s ∈ v.strings, ValidUtf8 s then some (write floats v) else none

/-! ## Strings are read back -/

private theorem codeUnit_control :
    ∀ n : Fin 0x20, codeUnit 0x30 0x30 (hexDigit (n.val / 16)) (hexDigit (n.val % 16)) = some n.val := by
  decide

private theorem encode_control : ∀ n : Fin 0x20, encode n.val = [UInt8.ofNat n.val] := by
  decide

private theorem assemble_control {code : ℕ} (control : code < 0x20) (later : List Piece) :
    assemble (.unit code :: later) = (assemble later).map (UInt8.ofNat code :: ·) := by
  have plain : ¬ (0xD800 ≤ code ∧ code < 0xE000) := by omega
  have encoded : encode code = [UInt8.ofNat code] := encode_control ⟨code, control⟩
  cases later with
  | nil => simp only [assemble, if_neg plain, encoded, Option.map_some, List.singleton_append]
  | cons piece rest =>
    cases piece with
    | byte b => simp only [assemble, if_neg plain, encoded, List.singleton_append]
    | unit low => simp only [assemble, if_neg plain, encoded, List.singleton_append]

/-- One character of a string is read back. -/
private theorem pieces_escape (c : UInt8) {text rest s : Bytes} {later : List Piece}
    (read : pieces text = some (later, rest)) (assembled : assemble later = some s) :
    ∃ piece, pieces (escape c ++ text) = some (piece :: later, rest) ∧ assemble (piece :: later) = some (c :: s) := by
  have byte (b : UInt8) : assemble (.byte b :: later) = some (b :: s) := by rw [assemble, assembled]; rfl
  unfold escape
  split_ifs with quote backslash backspace feed newline carriage tab control
  · subst quote
    exact ⟨.byte 0x22, by simp [pieces, unescape, read], byte _⟩
  · subst backslash
    exact ⟨.byte 0x5C, by simp [pieces, unescape, read], byte _⟩
  · subst backspace
    exact ⟨.byte 0x08, by simp [pieces, unescape, read], byte _⟩
  · subst feed
    exact ⟨.byte 0x0C, by simp [pieces, unescape, read], byte _⟩
  · subst newline
    exact ⟨.byte 0x0A, by simp [pieces, unescape, read], byte _⟩
  · subst carriage
    exact ⟨.byte 0x0D, by simp [pieces, unescape, read], byte _⟩
  · subst tab
    exact ⟨.byte 0x09, by simp [pieces, unescape, read], byte _⟩
  · refine ⟨.unit c.toNat, ?_, ?_⟩
    · have code := codeUnit_control ⟨c.toNat, control⟩
      simp only [List.cons_append, List.nil_append, pieces, code, Option.bind_some, read, Option.map_some]
    · rw [assemble_control control, assembled, UInt8.ofNat_toNat]
      rfl
  · refine ⟨.byte c, ?_, byte c⟩
    rw [List.singleton_append, pieces, if_neg control, read]
    · rfl
    · exact quote
    · intros; contradiction
    · intros; contradiction

theorem string_quoted {s : Bytes} (valid : ValidUtf8 s) (rest : Bytes) :
    string (s.flatMap escape ++ 0x22 :: rest) = some (s, rest) := by
  have whole : ∃ body, pieces (s.flatMap escape ++ 0x22 :: rest) = some (body, rest) ∧ assemble body = some s := by
    clear valid
    induction s with
    | nil => exact ⟨[], rfl, rfl⟩
    | cons c s ih =>
      obtain ⟨body, read, assembled⟩ := ih
      obtain ⟨piece, readOne, assembledOne⟩ := pieces_escape c read assembled
      refine ⟨piece :: body, ?_, assembledOne⟩
      rw [List.flatMap_cons, List.append_assoc]
      exact readOne
  obtain ⟨body, read, assembled⟩ := whole
  rw [string, read, Option.bind_some, assembled, Option.bind_some, if_pos valid]

/-! ## Numbers are read back -/

private theorem to_string_digits (n : ℕ) : (to_string n).all isDigit = true := by
  rw [List.all_eq_true]
  intro c member
  have range := to_string_range member
  simp only [isDigit, Bool.and_eq_true, decide_eq_true_eq, UInt8.le_iff_toNat_le]
  exact range

private theorem digit_ne_minus {c : UInt8} (digit : isDigit c = true) : c ≠ 0x2D := by
  rintro rfl
  exact absurd digit (by decide)

private theorem isNumberChar_of_isDigit {c : UInt8} (digit : isDigit c = true) : isNumberChar c = true := by
  simp only [isNumberChar, digit, Bool.true_or]

theorem to_string_characters (n : ℕ) : (to_string n).all isNumberChar = true :=
  List.all_eq_true.mpr fun c member => isNumberChar_of_isDigit (List.all_eq_true.mp (to_string_digits n) c member)

/-- The digits of a numeral end where no digit follows. -/
private theorem span_digits (n : ℕ) {rest : Bytes} (stops : ∀ c ∈ rest.head?, isDigit c = false) :
    (to_string n ++ rest).takeWhile isDigit = to_string n ∧ (to_string n ++ rest).dropWhile isDigit = rest := by
  have digits := List.all_eq_true.mp (to_string_digits n)
  rw [List.takeWhile_append_of_pos digits, List.dropWhile_append_of_pos digits]
  cases rest with
  | nil => exact ⟨List.append_nil _, rfl⟩
  | cons c later =>
    have other : ¬ isDigit c = true := by
      rw [stops c rfl]
      exact Bool.false_ne_true
    rw [List.takeWhile_cons_of_neg other, List.dropWhile_cons_of_neg other, List.append_nil]
    exact ⟨rfl, rfl⟩

private theorem magnitude_append (n : ℕ) {rest : Bytes} (stops : ∀ c ∈ rest.head?, isDigit c = false) :
    magnitude (to_string n ++ rest) = fraction rest := by
  obtain ⟨taken, dropped⟩ := span_digits n stops
  have leading : ((to_string n).length == 1 || (to_string n).head? != some 0x30) = true := by
    rcases Nat.eq_zero_or_pos n with rfl | positive
    · decide
    · rw [Bool.or_eq_true, bne_iff_ne]
      exact Or.inr (to_string_head n positive)
  have some_digit : (to_string n).isEmpty = false := by
    rw [List.isEmpty_eq_false_iff]
    exact to_string_ne_nil n
  simp only [magnitude, taken, dropped, leading, some_digit, Bool.not_false, Bool.true_and]

private theorem numeral_append (n : ℕ) {rest : Bytes} (stops : ∀ c ∈ rest.head?, isDigit c = false) :
    numeral (to_string n ++ rest) = fraction rest := by
  have digits := List.all_eq_true.mp (to_string_digits n)
  cases shape : to_string n with
  | nil => exact absurd shape (to_string_ne_nil n)
  | cons c later =>
    have first : isDigit c = true := digits c (by rw [shape]; exact List.mem_cons_self)
    unfold numeral
    split
    · rename_i same
      exact absurd (List.cons.inj same).1 (digit_ne_minus first)
    · rw [← shape, magnitude_append n stops]

private theorem no_digit_follows : ∀ c ∈ ([] : Bytes).head?, isDigit c = false := by
  intro c absent
  cases absent

theorem numeral_to_string (n : ℕ) : numeral (to_string n) = true := by
  have whole := numeral_append n no_digit_follows
  rw [List.append_nil] at whole
  exact whole

private theorem number_unsigned (floats : Floats D) (u : UInt64) :
    number floats (to_string u.toNat) = some (.number_unsigned u) := by
  have inRange : of_decimal (to_string u.toNat) < 2 ^ 64 := by
    rw [of_decimal_to_string]
    exact u.toNat_lt
  rw [number, if_pos (numeral_to_string _), if_pos (by rw [to_string_digits, decide_eq_true inRange]; rfl),
    of_decimal_to_string, UInt64.ofNat_toNat]

private theorem number_integer (floats : Floats D) (i : Int64) :
    number floats (integer i) = some ((JsonValue.number_integer i).reparsed floats.isfinite) := by
  unfold integer reparsed
  split_ifs with nonnegative
  · rw [← Int64.toNatClampNeg, ← Int64.toNat_toUInt64_of_le nonnegative, number_unsigned]
  · have below : i.toInt < 0 := by
      rw [Int64.le_iff_toInt_le] at nonnegative
      exact Int.not_le.mp nonnegative
    have least : -(2 ^ 63) ≤ i.toInt := i.le_toInt
    have inRange : of_decimal (to_string (-i.toInt).toNat) ≤ 2 ^ 63 := by
      rw [of_decimal_to_string]
      omega
    have grammatical : numeral (0x2D :: to_string (-i.toInt).toNat) = true := by
      have whole := magnitude_append (-i.toInt).toNat no_digit_follows
      rw [List.append_nil] at whole
      exact whole
    have signed : (0x2D :: to_string (-i.toInt).toNat).all isDigit = false := rfl
    rw [number, if_pos grammatical, if_neg (by rw [signed]; exact Bool.false_ne_true),
      if_pos (by rw [List.tail_cons, to_string_digits, decide_eq_true inRange]; rfl), List.tail_cons,
      of_decimal_to_string, Int.toNat_of_nonneg (by omega), Int.neg_neg, Int64.ofInt_toInt]

/-- Floating-point numbers are read back. -/
structure Floats.Faithful (floats : Floats D) : Prop where
  characters : ∀ d, floats.isfinite d = true → (floats.format d).all isNumberChar = true
  reads : ∀ d, floats.isfinite d = true → number floats (floats.format d) = some (.number_float d)

/-- What is written of a floating-point number is some number. -/
structure Floats.Printed (floats : Floats D) : Prop where
  characters : ∀ d, floats.isfinite d = true → (floats.format d).all isNumberChar = true
  reads : ∀ d, floats.isfinite d = true → ∃ v, number floats (floats.format d) = some v

theorem Floats.Faithful.printed {floats : Floats D} (faithful : floats.Faithful) : floats.Printed :=
  ⟨faithful.characters, fun d finite => ⟨_, faithful.reads d finite⟩⟩

/-! ## Values are read back -/

mutual

/-- What a value is after it was written and read. -/
def reread (floats : Floats D) : JsonValue D → JsonValue D
  | .number_integer i => if 0 ≤ i then .number_unsigned i.toUInt64 else .number_integer i
  | .number_float d => if floats.isfinite d then (number floats (floats.format d)).getD .null else .null
  | .array elements => .array (rereadOf floats elements)
  | .object members => .object (Members.setAll (rereadIn floats members) [])
  | other => other

def rereadOf (floats : Floats D) : List (JsonValue D) → List (JsonValue D)
  | [] => []
  | v :: rest => reread floats v :: rereadOf floats rest

def rereadIn (floats : Floats D) : Members D → Members D
  | [] => []
  | (key, v) :: rest => (key, reread floats v) :: rereadIn floats rest

end

mutual

/-- A value whose keys ascend is read back as it was written. -/
theorem reread_ordered {floats : Floats D} (faithful : floats.Faithful) :
    ∀ (v : JsonValue D), v.Ordered → reread floats v = v.reparsed floats.isfinite
  | .null, _ => rfl
  | .boolean _, _ => rfl
  | .number_integer _, _ => rfl
  | .number_unsigned _, _ => rfl
  | .number_float d, _ => by
    rw [reread, reparsed]
    split_ifs with finite
    · rw [faithful.reads d finite, Option.getD_some]
    · rfl
  | .string _, _ => rfl
  | .array elements, ordered => by rw [reread, reparsed, rereadOf_ordered faithful elements ordered]
  | .object members, ordered => by
    have ascending : ((reparsedIn floats.isfinite members).map Prod.fst).Pairwise (· < ·) := by
      rw [keys_reparsedIn]
      exact ordered.1
    rw [reread, reparsed, rereadIn_ordered faithful members ordered.2, Members.setAll_append _ [] ascending,
      List.nil_append]

theorem rereadOf_ordered {floats : Floats D} (faithful : floats.Faithful) :
    ∀ (elements : List (JsonValue D)), OrderedOf elements → rereadOf floats elements = reparsedOf floats.isfinite elements
  | [], _ => rfl
  | v :: rest, ordered => by
    rw [rereadOf, reparsedOf, reread_ordered faithful v ordered.1, rereadOf_ordered faithful rest ordered.2]

theorem rereadIn_ordered {floats : Floats D} (faithful : floats.Faithful) :
    ∀ (members : Members D), OrderedIn members → rereadIn floats members = reparsedIn floats.isfinite members
  | [], _ => rfl
  | (_, v) :: rest, ordered => by
    rw [rereadIn, reparsedIn, reread_ordered faithful v ordered.1, rereadIn_ordered faithful rest ordered.2]

end

/-- A text that does not continue a number. -/
def Follows (rest : Bytes) : Prop := ∀ c ∈ rest.head?, isNumberChar c = false

private theorem follows_cons {c : UInt8} {rest : Bytes} (other : isNumberChar c = false) : Follows (c :: rest) := by
  intro first same
  cases same
  exact other

/-- The first character of a value is neither white space nor a closing bracket. -/
private def Begins (text : Bytes) : Prop := ∃ c rest, text = c :: rest ∧ isSpace c = false ∧ c ≠ 0x5D

private theorem begins_number {text : Bytes} (characters : text.all isNumberChar = true) (nonempty : text ≠ []) :
    Begins text := by
  cases text with
  | nil => exact absurd rfl nonempty
  | cons c rest =>
    have first : isNumberChar c = true := List.all_eq_true.mp characters c List.mem_cons_self
    refine ⟨c, rest, rfl, ?_, ?_⟩
    · by_contra space
      rw [Bool.not_eq_false] at space
      simp only [isSpace, Bool.or_eq_true, beq_iff_eq] at space
      obtain ((rfl | rfl) | rfl) | rfl := space <;> exact absurd first (by decide)
    · rintro rfl
      exact absurd first (by decide)

private theorem skip_begins {text : Bytes} (begins : Begins text) (rest : Bytes) : skip (text ++ rest) = text ++ rest := by
  obtain ⟨c, later, rfl, space, _⟩ := begins
  rw [List.cons_append, skip, List.dropWhile_cons_of_neg (by rw [space]; exact Bool.false_ne_true)]

private theorem number_nil (floats : Floats D) : number floats [] = none := rfl

/-- A number ends where no more of its characters follow. -/
private theorem value_number (floats : Floats D) {text rest : Bytes} {v : JsonValue D}
    (characters : text.all isNumberChar = true) (reads : number floats text = some v) (follows : Follows rest)
    (fuel : ℕ) : value floats (fuel + 1) (text ++ rest) = some (v, rest) := by
  have each := List.all_eq_true.mp characters
  have stops : rest.takeWhile isNumberChar = [] ∧ rest.dropWhile isNumberChar = rest := by
    cases rest with
    | nil => exact ⟨rfl, rfl⟩
    | cons c later =>
      have other : ¬ isNumberChar c = true := by
        rw [follows c rfl]
        exact Bool.false_ne_true
      exact ⟨List.takeWhile_cons_of_neg other, List.dropWhile_cons_of_neg other⟩
  have taken : (text ++ rest).takeWhile isNumberChar = text := by
    rw [List.takeWhile_append_of_pos each, stops.1, List.append_nil]
  have dropped : (text ++ rest).dropWhile isNumberChar = rest := by
    rw [List.dropWhile_append_of_pos each, stops.2]
  cases text with
  | nil =>
    rw [number_nil] at reads
    cases reads
  | cons c later =>
    have first : isNumberChar c = true := each c List.mem_cons_self
    have other {d : UInt8} {beyond : Bytes} (notNumber : isNumberChar d = false) : c :: later ++ rest ≠ d :: beyond := by
      intro same
      rw [(List.cons.inj same).1, notNumber] at first
      exact Bool.false_ne_true first
    unfold value
    split
    · exact absurd ‹_› (other (by decide))
    · exact absurd ‹_› (other (by decide))
    · exact absurd ‹_› (other (by decide))
    · exact absurd ‹_› (other (by decide))
    · exact absurd ‹_› (other (by decide))
    · exact absurd ‹_› (other (by decide))
    · rw [taken, dropped, reads]
      rfl

theorem all_integer (i : Int64) : (integer i).all isNumberChar = true := by
  unfold integer
  split_ifs
  · exact to_string_characters _
  · rw [List.all_cons, to_string_characters]
    rfl

private theorem begins_write {floats : Floats D} (printed : floats.Printed) (v : JsonValue D) :
    Begins (write floats v) := by
  have numeric (n : ℕ) : Begins (to_string n) := begins_number (to_string_characters n) (to_string_ne_nil n)
  unfold write
  split
  · exact ⟨0x6E, _, rfl, rfl, by decide⟩
  · exact ⟨0x74, _, rfl, rfl, by decide⟩
  · exact ⟨0x66, _, rfl, rfl, by decide⟩
  · rename_i i
    unfold integer
    split_ifs
    · exact numeric _
    · exact ⟨0x2D, _, rfl, rfl, by decide⟩
  · exact numeric _
  · rename_i d
    split_ifs with finite
    · refine begins_number (printed.characters d finite) ?_
      intro empty
      obtain ⟨v, reads⟩ := printed.reads d finite
      rw [empty, number_nil] at reads
      cases reads
    · exact ⟨0x6E, _, rfl, rfl, by decide⟩
  · exact ⟨0x22, _, rfl, rfl, by decide⟩
  · exact ⟨0x5B, _, rfl, rfl, by decide⟩
  · exact ⟨0x5B, _, rfl, rfl, by decide⟩
  · exact ⟨0x7B, _, rfl, rfl, by decide⟩
  · exact ⟨0x7B, _, rfl, rfl, by decide⟩

/-- After an element of an array comes no number. -/
private theorem follows_others (floats : Floats D) (others : List (JsonValue D)) (rest : Bytes) :
    Follows (writeOthers floats others ++ rest) := by
  cases others with
  | nil => exact follows_cons (by decide)
  | cons v others => exact follows_cons (by decide)

private theorem follows_members (floats : Floats D) (others : Members D) (rest : Bytes) :
    Follows (writeMembers floats others ++ rest) := by
  cases others with
  | nil => exact follows_cons (by decide)
  | cons entry others => exact follows_cons (by decide)

private theorem skip_others (floats : Floats D) (others : List (JsonValue D)) (rest : Bytes) :
    skip (writeOthers floats others ++ rest) = writeOthers floats others ++ rest := by
  cases others <;> rfl

private theorem skip_members (floats : Floats D) (others : Members D) (rest : Bytes) :
    skip (writeMembers floats others ++ rest) = writeMembers floats others ++ rest := by
  cases others <;> rfl

/-- One member of an object is read back when its value is. -/
private theorem member_write {floats : Floats D} {key text rest : Bytes} {v : JsonValue D} {fuel : ℕ}
    (valid : ValidUtf8 key) (begins : Begins text) (reads : value floats fuel (text ++ rest) = some (v, rest)) :
    member floats (fuel + 1) (quoted key ++ 0x3A :: (text ++ rest)) = some ((key, v), rest) := by
  rw [quoted, List.cons_append, List.append_assoc, List.singleton_append]
  unfold member
  simp only [string_quoted valid, Option.bind_some]
  change ((value floats fuel (skip (text ++ rest))).map _) = _
  rw [skip_begins begins, reads]
  rfl

/-- An array is read back when its first element and the others are. -/
private theorem value_array {floats : Floats D} {first others rest : Bytes} {v : JsonValue D}
    {vs : List (JsonValue D)} {fuel : ℕ} (begins : Begins first)
    (readFirst : value floats fuel (first ++ (others ++ rest)) = some (v, others ++ rest))
    (skipped : skip (others ++ rest) = others ++ rest)
    (readOthers : elements floats fuel (others ++ rest) = some (vs, rest)) :
    value floats (fuel + 1) (0x5B :: (first ++ others) ++ rest) = some (.array (v :: vs), rest) := by
  rw [List.cons_append, List.append_assoc]
  unfold value
  simp only [skip_begins begins]
  obtain ⟨c, later, rfl, _, notClosing⟩ := begins
  split
  · rename_i after same
    exact absurd (List.cons.inj same).1 notClosing
  · rw [readFirst, Option.bind_some, skipped, readOthers]
    rfl

private theorem value_object {floats : Floats D} {key first others rest : Bytes} {v : JsonValue D} {ms : Members D}
    {fuel : ℕ} (valid : ValidUtf8 key) (begins : Begins first)
    (readFirst : value floats fuel (first ++ (others ++ rest)) = some (v, others ++ rest))
    (skipped : skip (others ++ rest) = others ++ rest)
    (readOthers : members floats (fuel + 1) (others ++ rest) = some (ms, rest)) :
    value floats (fuel + 2) (0x7B :: (quoted key ++ 0x3A :: (first ++ others)) ++ rest) =
      some (.object (Members.setAll ((key, v) :: ms) []), rest) := by
  have readMember := member_write valid begins readFirst
  rw [List.cons_append, List.append_assoc, List.cons_append, List.append_assoc]
  unfold value
  change ((member floats (fuel + 1) (quoted key ++ 0x3A :: (first ++ (others ++ rest)))).bind _) = _
  rw [readMember, Option.bind_some, skipped, readOthers]
  rfl

mutual

/-- A value is read back from its text, whatever follows. -/
theorem value_write {floats : Floats D} (printed : floats.Printed) :
    ∀ (v : JsonValue D), (∀ s ∈ v.strings, ValidUtf8 s) → ∀ {fuel : ℕ} {rest : Bytes},
      (write floats v).length ≤ fuel → Follows rest →
      value floats fuel (write floats v ++ rest) = some (reread floats v, rest)
  | .null, _, fuel + 1, _, _, _ => rfl
  | .boolean true, _, fuel + 1, _, _, _ => rfl
  | .boolean false, _, fuel + 1, _, _, _ => rfl
  | .number_integer i, _, fuel + 1, rest, _, follows =>
    value_number floats (all_integer i) (number_integer floats i) follows fuel
  | .number_unsigned u, _, fuel + 1, rest, _, follows =>
    value_number floats (to_string_characters u.toNat) (number_unsigned floats u) follows fuel
  | .number_float d, _, fuel + 1, rest, _, follows => by
    unfold write reread
    split_ifs with finite
    · obtain ⟨v, reads⟩ := printed.reads d finite
      rw [reads, Option.getD_some]
      exact value_number floats (printed.characters d finite) reads follows fuel
    · rfl
  | .string s, valid, fuel + 1, rest, _, _ => by
    have whole := string_quoted (valid s (List.mem_singleton.mpr rfl)) rest
    rw [write, quoted, List.cons_append, List.append_assoc, List.singleton_append]
    unfold value
    simp only [whole, Option.map_some]
    rfl
  | .array [], _, fuel + 1, _, _, _ => rfl
  | .array (first :: others), valid, fuel + 1, rest, enough, _ => by
    rw [write, List.length_cons, List.length_append] at enough
    rw [write]
    refine value_array (begins_write printed first) ?_ (skip_others floats others rest) ?_
    · refine value_write printed first (fun s inside => ?_) (by omega) (follows_others floats others rest)
      exact valid s (List.mem_append_left _ inside)
    · refine elements_write printed others (fun s inside => ?_) (by omega)
      exact valid s (List.mem_append_right _ inside)
  | .object [], _, fuel + 1, _, _, _ => rfl
  | .object ((key, first) :: others), valid, 1, rest, enough, _ => by
    rw [write, List.length_cons, List.length_append, List.length_cons] at enough
    omega
  | .object ((key, first) :: others), valid, fuel + 2, rest, enough, _ => by
    rw [write, List.length_cons, List.length_append, List.length_cons, List.length_append] at enough
    rw [write, reread, rereadIn]
    refine value_object (valid key List.mem_cons_self) (begins_write printed first) ?_ (skip_members floats others rest) ?_
    · refine value_write printed first (fun s inside => ?_) (by omega) (follows_members floats others rest)
      exact valid s (List.mem_cons_of_mem _ (List.mem_append_left _ inside))
    · refine members_write printed others (fun s inside => ?_) (by omega)
      exact valid s (List.mem_cons_of_mem _ (List.mem_append_right _ inside))
  | v, _, 0, _, enough, _ => by
    obtain ⟨c, later, text, _⟩ := begins_write printed v
    rw [text] at enough
    exact absurd enough (Nat.not_succ_le_zero _)

theorem elements_write {floats : Floats D} (printed : floats.Printed) :
    ∀ (others : List (JsonValue D)), (∀ s ∈ stringsOf others, ValidUtf8 s) →
      ∀ {fuel : ℕ} {rest : Bytes}, (writeOthers floats others).length ≤ fuel →
      elements floats fuel (writeOthers floats others ++ rest) = some (rereadOf floats others, rest)
  | [], _, 0, _, enough => absurd enough (Nat.not_succ_le_zero _)
  | _ :: _, _, 0, _, enough => absurd enough (Nat.not_succ_le_zero _)
  | [], _, fuel + 1, _, _ => rfl
  | v :: others, valid, fuel + 1, rest, enough => by
    rw [writeOthers, List.length_cons, List.length_append] at enough
    have readFirst := @value_write floats printed v
      (fun s inside => valid s (List.mem_append_left _ inside)) fuel (writeOthers floats others ++ rest) (by omega)
      (follows_others floats others rest)
    have readOthers := @elements_write floats printed others
      (fun s inside => valid s (List.mem_append_right _ inside)) fuel rest (by omega)
    rw [writeOthers, List.cons_append, List.append_assoc]
    unfold elements
    change ((value floats fuel (skip (write floats v ++ (writeOthers floats others ++ rest)))).bind _) = _
    rw [skip_begins (begins_write printed v), readFirst, Option.bind_some, skip_others, readOthers]
    rfl

theorem members_write {floats : Floats D} (printed : floats.Printed) :
    ∀ (others : Members D), (∀ s ∈ stringsIn others, ValidUtf8 s) →
      ∀ {fuel : ℕ} {rest : Bytes}, (writeMembers floats others).length ≤ fuel →
      members floats fuel (writeMembers floats others ++ rest) = some (rereadIn floats others, rest)
  | [], _, 0, _, enough => absurd enough (Nat.not_succ_le_zero _)
  | _ :: _, _, 0, _, enough => absurd enough (Nat.not_succ_le_zero _)
  | [], _, fuel + 1, _, _ => rfl
  | (key, v) :: others, valid, 1, rest, enough => by
    rw [writeMembers, List.length_cons, List.length_append, List.length_cons] at enough
    omega
  | (key, v) :: others, valid, fuel + 2, rest, enough => by
    rw [writeMembers, List.length_cons, List.length_append, List.length_cons, List.length_append] at enough
    have readFirst := @value_write floats printed v
      (fun s inside => valid s (List.mem_cons_of_mem _ (List.mem_append_left _ inside))) fuel
      (writeMembers floats others ++ rest) (by omega) (follows_members floats others rest)
    have readOthers := @members_write floats printed others
      (fun s inside => valid s (List.mem_cons_of_mem _ (List.mem_append_right _ inside))) (fuel + 1) rest (by omega)
    have readMember := member_write (valid key List.mem_cons_self) (begins_write printed v) readFirst
    rw [writeMembers, List.cons_append, List.append_assoc, List.cons_append, List.append_assoc]
    unfold members
    change ((member floats (fuel + 1) (quoted key ++ 0x3A :: (write floats v ++ (writeMembers floats others ++ rest)))).bind
      _) = _
    rw [readMember, Option.bind_some, skip_members, readOthers]
    rfl

end

/-- The text of a value parses to what the value is read as. -/
theorem parse_write {floats : Floats D} (printed : floats.Printed) {v : JsonValue D}
    (valid : ∀ s ∈ v.strings, ValidUtf8 s) : parse floats (write floats v) = some (reread floats v) := by
  have whole := @value_write D floats printed v valid ((write floats v).length + 1) [] (Nat.le_succ _)
    (by intro c absent; cases absent)
  rw [List.append_nil] at whole
  have skipped := skip_begins (begins_write printed v) []
  rw [List.append_nil] at skipped
  rw [parse, skipped, whole]
  rfl

/-- A line break behind the text makes no difference. -/
theorem parse_write_line {floats : Floats D} (printed : floats.Printed) {v : JsonValue D}
    (valid : ∀ s ∈ v.strings, ValidUtf8 s) : parse floats (write floats v ++ [0x0A]) = some (reread floats v) := by
  have whole := @value_write D floats printed v valid ((write floats v ++ [0x0A]).length + 1) [0x0A]
    (by rw [List.length_append]; omega) (follows_cons (by decide))
  rw [parse, skip_begins (begins_write printed v) [0x0A], whole]
  rfl

/-! ## Control characters -/

private theorem printable_characters {text : Bytes} (characters : text.all isNumberChar = true) :
    ∀ c ∈ text, 0x20 ≤ c := by
  intro c inside
  have kind := List.all_eq_true.mp characters c inside
  simp only [isNumberChar, isDigit, Bool.or_eq_true, Bool.and_eq_true, decide_eq_true_eq, beq_iff_eq] at kind
  rcases kind with (((((⟨low, -⟩ | rfl) | rfl) | rfl) | rfl) | rfl)
  · exact UInt8.le_trans (by decide) low
  all_goals decide

private theorem printable_hexDigit : ∀ n : Fin 16, 0x20 ≤ hexDigit n.val := by
  decide

private theorem printable_escape (c : UInt8) : ∀ e ∈ escape c, 0x20 ≤ e := by
  unfold escape
  split_ifs with quote backslash backspace feed newline carriage tab control
  · decide
  · decide
  · decide
  · decide
  · decide
  · decide
  · decide
  · have high := printable_hexDigit ⟨c.toNat / 16, by omega⟩
    have low := printable_hexDigit ⟨c.toNat % 16, by omega⟩
    simp only [List.forall_mem_cons]
    exact ⟨by decide, by decide, by decide, by decide, high, low, List.forall_mem_nil _⟩
  · rw [List.forall_mem_singleton, UInt8.le_iff_toNat_le]
    exact Nat.not_lt.mp control

private theorem printable_quoted (s : Bytes) : ∀ c ∈ quoted s, 0x20 ≤ c := by
  unfold quoted
  rw [List.forall_mem_cons, List.forall_mem_append, List.forall_mem_singleton]
  refine ⟨by decide, ?_, by decide⟩
  intro c inside
  obtain ⟨e, -, shown⟩ := List.mem_flatMap.mp inside
  exact printable_escape e c shown

mutual

/-- A text has no control characters. -/
theorem printable_write {floats : Floats D} (printed : floats.Printed) :
    ∀ (v : JsonValue D), ∀ c ∈ write floats v, 0x20 ≤ c
  | .null => by rw [write]; decide
  | .boolean true => by rw [write]; decide
  | .boolean false => by rw [write]; decide
  | .number_integer i => printable_characters (all_integer i)
  | .number_unsigned u => printable_characters (to_string_characters u.toNat)
  | .number_float d => by
    rw [write]
    split_ifs with finite
    · exact printable_characters (printed.characters d finite)
    · decide
  | .string s => printable_quoted s
  | .array [] => by rw [write]; decide
  | .array (first :: others) => by
    rw [write, List.forall_mem_cons, List.forall_mem_append]
    exact ⟨by decide, printable_write printed first, printable_writeOthers printed others⟩
  | .object [] => by rw [write]; decide
  | .object ((key, first) :: others) => by
    rw [write, List.forall_mem_cons, List.forall_mem_append, List.forall_mem_cons, List.forall_mem_append]
    exact ⟨by decide, printable_quoted key, by decide, printable_write printed first,
      printable_writeMembers printed others⟩

theorem printable_writeOthers {floats : Floats D} (printed : floats.Printed) :
    ∀ (others : List (JsonValue D)), ∀ c ∈ writeOthers floats others, 0x20 ≤ c
  | [] => by rw [writeOthers]; decide
  | v :: others => by
    rw [writeOthers, List.forall_mem_cons, List.forall_mem_append]
    exact ⟨by decide, printable_write printed v, printable_writeOthers printed others⟩

theorem printable_writeMembers {floats : Floats D} (printed : floats.Printed) :
    ∀ (others : Members D), ∀ c ∈ writeMembers floats others, 0x20 ≤ c
  | [] => by rw [writeMembers]; decide
  | (key, v) :: others => by
    rw [writeMembers, List.forall_mem_cons, List.forall_mem_append, List.forall_mem_cons, List.forall_mem_append]
    exact ⟨by decide, printable_quoted key, by decide, printable_write printed v,
      printable_writeMembers printed others⟩

end

/-- The library that writes and reads these texts. -/
def library (floats : Floats D) : Library D := ⟨dump floats, parse floats⟩

theorem library_documented {floats : Floats D} (faithful : floats.Faithful) :
    (library floats).Documented floats.isfinite := by
  constructor
  · intro v
    change dump floats v = none ↔ _
    unfold dump
    split_ifs with valid
    · simpa using valid
    · simpa using valid
  · intro v text ordered dumped
    change dump floats v = some text at dumped
    unfold dump at dumped
    split_ifs at dumped with valid
    cases dumped
    change parse floats (write floats v) = _
    rw [parse_write faithful.printed valid, reread_ordered faithful v ordered]

/-! ## Whole numbers -/

/-- The `double`s with a whole number as value, and one that is not a number. -/
def wholes : Floats (Option ℤ) where
  isfinite := Option.isSome
  format
    | none => []
    | some k => (if 0 ≤ k then to_string k.toNat else 0x2D :: to_string (-k).toNat) ++ [0x2E, 0x30]
  strtod text :=
    some (some (if text.head? == some 0x2D then -of_decimal (text.tail.takeWhile isDigit)
      else of_decimal (text.takeWhile isDigit)))

private theorem point_follows : ∀ c ∈ ([0x2E, 0x30] : Bytes).head?, isDigit c = false := by
  intro c first
  cases first
  rfl

private theorem point_digits (n : ℕ) : (to_string n ++ [0x2E, 0x30]).all isDigit = false := by
  rw [List.all_append, to_string_digits]
  rfl

private theorem to_string_ne_minus (n : ℕ) (rest : Bytes) : ((to_string n ++ rest).head? == some 0x2D) = false := by
  rw [beq_eq_false_iff_ne]
  intro minus
  cases shape : to_string n with
  | nil => exact to_string_ne_nil n shape
  | cons c later =>
    rw [shape] at minus
    cases minus
    refine digit_ne_minus (List.all_eq_true.mp (to_string_digits n) 0x2D ?_) rfl
    rw [shape]
    exact List.mem_cons_self

private theorem number_whole (n : ℕ) : number wholes (to_string n ++ [0x2E, 0x30]) = some (.number_float (some n)) := by
  have grammatical : numeral (to_string n ++ [0x2E, 0x30]) = true := numeral_append n point_follows
  rw [number, if_pos grammatical, point_digits, to_string_ne_minus, Bool.false_and, Bool.and_false]
  simp only [Bool.false_eq_true, if_false, wholes, to_string_ne_minus, (span_digits n point_follows).1,
    of_decimal_to_string, Option.map_some]

private theorem number_negative_whole (n : ℕ) :
    number wholes (0x2D :: to_string n ++ [0x2E, 0x30]) = some (.number_float (some (-n))) := by
  have grammatical : numeral (0x2D :: to_string n ++ [0x2E, 0x30]) = true := magnitude_append n point_follows
  have signed : (0x2D :: to_string n ++ [0x2E, 0x30]).all isDigit = false := rfl
  rw [number, if_pos grammatical, signed, Bool.false_and, List.cons_append, List.tail_cons, point_digits,
    Bool.false_and, Bool.false_and]
  simp only [Bool.false_eq_true, if_false, wholes, List.head?_cons, beq_self_eq_true, if_true, List.tail_cons,
    (span_digits n point_follows).1, of_decimal_to_string, Option.map_some]

theorem wholes_faithful : wholes.Faithful := by
  constructor
  · intro d finite
    obtain ⟨k, rfl⟩ := Option.isSome_iff_exists.mp finite
    change ((if 0 ≤ k then to_string k.toNat else 0x2D :: to_string (-k).toNat) ++ [0x2E, 0x30]).all isNumberChar = true
    rw [List.all_append]
    split_ifs
    · rw [to_string_characters]
      rfl
    · rw [List.all_cons, to_string_characters]
      rfl
  · intro d finite
    obtain ⟨k, rfl⟩ := Option.isSome_iff_exists.mp finite
    change number wholes ((if 0 ≤ k then to_string k.toNat else 0x2D :: to_string (-k).toNat) ++ [0x2E, 0x30]) = _
    split_ifs with sign
    · rw [number_whole, Int.toNat_of_nonneg sign]
    · rw [number_negative_whole, Int.toNat_of_nonneg (by omega), Int.neg_neg]

/-- The same numbers without a point. -/
def integers : Floats (Option ℤ) where
  isfinite := Option.isSome
  format
    | none => ascii "nan"
    | some k => if 0 ≤ k then to_string k.toNat else 0x2D :: to_string (-k).toNat
  strtod := wholes.strtod

theorem integers_printed : integers.Printed := by
  have reads {text : Bytes} (grammatical : numeral text = true) : ∃ v, number integers text = some v := by
    rw [number, if_pos grammatical]
    split_ifs
    · exact ⟨_, rfl⟩
    · exact ⟨_, rfl⟩
    · exact ⟨_, rfl⟩
  constructor
  · intro d finite
    obtain ⟨k, rfl⟩ := Option.isSome_iff_exists.mp finite
    change (if 0 ≤ k then to_string k.toNat else 0x2D :: to_string (-k).toNat).all isNumberChar = true
    split_ifs
    · exact to_string_characters _
    · rw [List.all_cons, to_string_characters]
      rfl
  · intro d finite
    obtain ⟨k, rfl⟩ := Option.isSome_iff_exists.mp finite
    apply reads
    change numeral (if 0 ≤ k then to_string k.toNat else 0x2D :: to_string (-k).toNat) = true
    split_ifs
    · exact numeral_to_string _
    · have whole := magnitude_append (-k).toNat no_digit_follows
      rw [List.append_nil] at whole
      exact whole

end JsonText

end Illuminator
