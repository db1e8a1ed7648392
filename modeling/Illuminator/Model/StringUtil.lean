import Illuminator.Model.Strings
import Mathlib.Data.List.DropRight

/-! # Comma separated lists

`ParseCommaSeparated` for unsigned integers of 32 bits. Each turn of its loop skips blanks, takes the text up to the next
comma, drops its trailing blanks and converts what is left, unless that is empty.
-/

namespace Illuminator

namespace ParseCommaSeparated

def isBlank (c : UInt8) : Bool := c == 0x20 || c == 0x09

/-- The inner loop that skips blanks. -/
def skipBlanks (input : Bytes) (pos : ℕ) : ℕ :=
  if inside : pos < input.length then
    if isBlank input[pos] then skipBlanks input (pos + 1) else pos
  else pos
termination_by input.length - pos

/-- `input.find(',', pos)`, or the size of the input. -/
def tokenEnd (input : Bytes) (pos : ℕ) : ℕ := pos + ((input.drop pos).takeWhile (· != 0x2C)).length

def token (input : Bytes) (pos : ℕ) : Bytes := ((input.drop pos).take (tokenEnd input pos - pos)).rdropWhile isBlank

def next (input : Bytes) (pos : ℕ) : ℕ :=
  if tokenEnd input pos = input.length then tokenEnd input pos else tokenEnd input pos + 1

/-- `std::stoul` and the cast to 32 bits, or nothing where it throws. -/
def convert (token : Bytes) : Option UInt32 := (stoull token).map UInt32.ofNat

def push (result : List UInt32) (token : Bytes) : List UInt32 :=
  if token.isEmpty then result
  else
    match convert token with
    | some value => result ++ [value]
    | none => result

theorem le_skipBlanks (input : Bytes) (pos : ℕ) : pos ≤ skipBlanks input pos := by
  fun_induction skipBlanks input pos with
  | case1 pos inside blank ih => omega
  | case2 => exact Nat.le_refl _
  | case3 => exact Nat.le_refl _

theorem le_next (input : Bytes) (pos : ℕ) : min (pos + 1) input.length ≤ next input pos := by
  rw [next, tokenEnd]
  split_ifs <;> omega

/-- The loop from a position on. -/
def scan (input : Bytes) (pos : ℕ) (result : List UInt32) : List UInt32 :=
  if pos < input.length then
    if skipBlanks input pos < input.length then
      scan input (next input (skipBlanks input pos)) (push result (token input (skipBlanks input pos)))
    else result
  else result
termination_by input.length - pos
decreasing_by
  have skipped := le_skipBlanks input pos
  have moved := le_next input (skipBlanks input pos)
  omega

end ParseCommaSeparated

def ParseCommaSeparated (input : Bytes) : List UInt32 := ParseCommaSeparated.scan input 0 []

end Illuminator
