import Illuminator.Model.StringUtil
import Illuminator.ToMathlib.Delimited

/-! # Lists of process ids

The loop looks at every text between commas once, and what it makes of one is what `std::stoul` makes of it. So the list
is exact unless this accepts a text that is no numeral of 32 bits: one with a sign or white space before its digits, with
anything behind them, or with too many.
-/

namespace Illuminator

namespace ParseCommaSeparated

/-- A text without the blanks on either side. -/
def trim (text : Bytes) : Bytes := (text.dropWhile isBlank).rdropWhile isBlank

/-- A string of decimal digits below 2^32. -/
def Decimal (text : Bytes) : Prop := text ≠ [] ∧ (∀ c ∈ text, isdigit c = true) ∧ of_decimal text < 2 ^ 32

instance (text : Bytes) : Decidable (Decimal text) := inferInstanceAs (Decidable (_ ∧ _ ∧ _))

/-- The values of the tokens that are numerals. -/
def exact (input : Bytes) : List UInt32 :=
  (input.splitOn 0x2C).filterMap fun text =>
    if Decimal (trim text) then some (UInt32.ofNat (of_decimal (trim text))) else none

theorem drop_skipBlanks (input : Bytes) (pos : ℕ) :
    input.drop (skipBlanks input pos) = (input.drop pos).dropWhile isBlank := by
  fun_induction skipBlanks input pos with
  | case1 pos inside blank ih => rw [ih, List.drop_eq_getElem_cons inside, List.dropWhile_cons_of_pos blank]
  | case2 pos inside solid => rw [List.drop_eq_getElem_cons inside, List.dropWhile_cons_of_neg solid]
  | case3 pos outside => rw [List.drop_eq_nil_of_le (by omega), List.dropWhile_nil]

theorem convert_nil : convert [] = none := by
  rw [convert, stoull]
  rfl

theorem push_eq (result : List UInt32) (token : Bytes) : push result token = result ++ (convert token).toList := by
  rw [push]
  split_ifs with empty
  · rw [List.isEmpty_iff.mp empty, convert_nil, Option.toList_none, List.append_nil]
  · cases convert token with
    | none => exact (List.append_nil _).symm
    | some value => rfl

/-- The text at a position up to the next comma, and what follows the comma. -/
theorem token_cut (input : Bytes) (pos : ℕ) : token input pos = ((input.drop pos).takeWhile (· != 0x2C)).rdropWhile isBlank ∧
    input.drop (next input pos) = ((input.drop pos).dropWhile (· != 0x2C)).tail := by
  have front : (input.drop pos).take ((input.drop pos).takeWhile (· != 0x2C)).length =
      (input.drop pos).takeWhile (· != 0x2C) := (List.prefix_iff_eq_take.mp (List.takeWhile_prefix _)).symm
  have back : (input.drop pos).drop ((input.drop pos).takeWhile (· != 0x2C)).length =
      (input.drop pos).dropWhile (· != 0x2C) := by
    generalize input.drop pos = text
    induction text with
    | nil => rfl
    | cons c rest ih =>
      by_cases other : (c != 0x2C) = true
      · rw [List.takeWhile_cons_of_pos (p := (· != 0x2C)) other, List.dropWhile_cons_of_pos (p := (· != 0x2C)) other]
        exact ih
      · rw [List.takeWhile_cons_of_neg (p := (· != 0x2C)) other, List.dropWhile_cons_of_neg (p := (· != 0x2C)) other]
        rfl
  constructor
  · rw [token, tokenEnd, Nat.add_sub_cancel_left, front]
  · rw [next, ← back, List.drop_drop, List.tail_drop]
    split_ifs with last
    · rw [tokenEnd] at last
      rw [tokenEnd, last, List.drop_length, List.drop_eq_nil_of_le (Nat.le_succ _)]
    · rfl

/-- Blanks are no commas, so it does not matter which are skipped first. -/
theorem skip_comma (text : Bytes) :
    (text.dropWhile isBlank).takeWhile (· != 0x2C) = (text.takeWhile (· != 0x2C)).dropWhile isBlank ∧
      (text.dropWhile isBlank).dropWhile (· != 0x2C) = text.dropWhile (· != 0x2C) := by
  induction text with
  | nil => exact ⟨rfl, rfl⟩
  | cons c rest ih =>
    by_cases blank : isBlank c = true
    · have other : (c != 0x2C) = true := by
        rw [isBlank, Bool.or_eq_true, beq_iff_eq, beq_iff_eq] at blank
        rcases blank with rfl | rfl
        · decide
        · decide
      rw [List.dropWhile_cons_of_pos blank, List.takeWhile_cons_of_pos (p := (· != 0x2C)) other, List.dropWhile_cons_of_pos (p := (· != 0x2C)) other,
        List.dropWhile_cons_of_pos blank]
      exact ih
    · rw [List.dropWhile_cons_of_neg blank]
      refine ⟨?_, rfl⟩
      by_cases comma : (c != 0x2C) = true
      · rw [List.takeWhile_cons_of_pos (p := (· != 0x2C)) comma, List.dropWhile_cons_of_neg blank]
      · rw [List.takeWhile_cons_of_neg (p := (· != 0x2C)) comma, List.dropWhile_nil]

theorem scan_eq (input : Bytes) (pos : ℕ) (result : List UInt32) : scan input pos result =
    result ++ ((input.drop pos).splitOn 0x2C).filterMap fun text => convert (trim text) := by
  have nothing : convert (trim []) = none := convert_nil
  fun_induction scan input pos result with
  | case1 pos result inside some ih =>
    obtain ⟨text, after⟩ := token_cut input (skipBlanks input pos)
    obtain ⟨front, back⟩ := skip_comma (input.drop pos)
    rw [drop_skipBlanks, front] at text
    rw [drop_skipBlanks, back] at after
    have contributes : convert (token input (skipBlanks input pos)) = convert (trim ((input.drop pos).takeWhile (· != 0x2C))) := by
      rw [text, trim]
    have rest : ((input.drop (next input (skipBlanks input pos))).splitOn 0x2C).filterMap (fun text => convert (trim text)) =
        (if (input.drop pos).dropWhile (· != 0x2C) = [] then []
          else ((input.drop pos).dropWhile (· != 0x2C)).tail.splitOn 0x2C).filterMap fun text => convert (trim text) := by
      rw [after]
      split_ifs with last
      · rw [last, List.tail_nil, List.splitOn_nil, List.filterMap_cons, nothing]
      · rfl
    rw [ih, push_eq, contributes, rest, List.append_assoc, Delimited.splitOn_first (input.drop pos), List.filterMap_cons]
    cases convert (trim ((input.drop pos).takeWhile (· != 0x2C))) <;> rfl
  | case2 pos result inside blanks =>
    obtain ⟨front, back⟩ := skip_comma (input.drop pos)
    have skipped : (input.drop pos).dropWhile isBlank = [] := by
      rw [← drop_skipBlanks]
      exact List.drop_eq_nil_of_le (by omega)
    rw [skipped, List.takeWhile_nil] at front
    rw [skipped, List.dropWhile_nil] at back
    rw [Delimited.splitOn_first, ← back, if_pos rfl, List.filterMap_cons, trim, ← front, List.rdropWhile_nil, convert_nil]
    exact (List.append_nil _).symm
  | case3 pos result outside =>
    rw [List.drop_eq_nil_of_le (by omega), List.splitOn_nil, List.filterMap_cons, nothing]
    exact (List.append_nil _).symm

/-- Each text between commas contributes what its conversion gives. -/
theorem parse_eq (input : Bytes) :
    ParseCommaSeparated input = (input.splitOn 0x2C).filterMap fun text => convert (trim text) :=
  scan_eq input 0 []

theorem convert_decimal {text : Bytes} (decimal : Decimal text) : convert text = some (UInt32.ofNat (of_decimal text)) := by
  obtain ⟨present, digits, small⟩ := decimal
  rw [convert, stoull_digits present digits, if_neg (by omega), Option.map_some]

/-- When one conversion only adds to another, they give the same list only if they agree on every item. -/
theorem filterMap_eq_iff {A B : Type} {wide narrow : A → Option B} {items : List A}
    (extends_ : ∀ item, narrow item = none ∨ wide item = narrow item) :
    items.filterMap wide = items.filterMap narrow ↔ ∀ item ∈ items, wide item = narrow item := by
  refine ⟨fun same => ?_, List.filterMap_congr⟩
  have fewer (rest : List A) : (rest.filterMap narrow).length ≤ (rest.filterMap wide).length := by
    induction rest with
    | nil => exact Nat.le_refl 0
    | cons item rest ih =>
      rw [List.filterMap_cons, List.filterMap_cons]
      rcases extends_ item with nothing | agree
      · rw [nothing]
        cases wide item with
        | none => exact ih
        | some b => exact Nat.le_succ_of_le ih
      · rw [agree]
        cases narrow item with
        | none => exact ih
        | some b => exact Nat.succ_le_succ ih
  induction items with
  | nil => exact fun item member => absurd member List.not_mem_nil
  | cons item rest ih =>
    rw [List.filterMap_cons, List.filterMap_cons] at same
    have agrees : wide item = narrow item := by
      rcases extends_ item with nothing | agree
      · rw [nothing] at same ⊢
        cases found : wide item with
        | none => rfl
        | some b =>
          rw [found] at same
          have longer : (rest.filterMap wide).length + 1 = (rest.filterMap narrow).length := congrArg List.length same
          have shorter := fewer rest
          omega
      · exact agree
    refine List.forall_mem_cons.mpr ⟨agrees, ih ?_⟩
    rw [agrees] at same
    cases found : narrow item with
    | none =>
      rw [found] at same
      exact same
    | some b =>
      rw [found] at same
      exact (List.cons.inj same).2

/-- The loop contributes one conversion for each text between commas, and the list is exact when every text is a numeral
of 32 bits or one that cannot be converted. -/
theorem pids_exact_iff (input : Bytes) :
    ParseCommaSeparated input = (input.splitOn 0x2C).filterMap (fun text => convert (trim text)) ∧
      (ParseCommaSeparated input = exact input ↔
        ∀ text ∈ input.splitOn 0x2C, Decimal (trim text) ∨ stoull (trim text) = none) := by
  refine ⟨parse_eq input, ?_⟩
  rw [parse_eq, exact, filterMap_eq_iff fun text => ?_]
  · refine forall₂_congr fun text _ => ?_
    split_ifs with decimal
    · exact iff_of_true (convert_decimal decimal) (Or.inl decimal)
    · rw [convert, Option.map_eq_none_iff]
      exact (or_iff_right decimal).symm
  · split_ifs with decimal
    · exact Or.inr (convert_decimal decimal)
    · exact Or.inl rfl

/-- `12abc` is taken for 12. -/
theorem letters_ignored : ParseCommaSeparated (ascii "12abc") = [12] ∧ exact (ascii "12abc") = [] := by
  rw [parse_eq]
  exact ⟨by decide +kernel, by decide +kernel⟩

end ParseCommaSeparated

end Illuminator
