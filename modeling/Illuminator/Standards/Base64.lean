import Mathlib.Data.List.Basic
import Mathlib.Data.UInt

/-! # The base64 encoding

Three bytes are a number of 24 bits, written as four digits in base 64; a last group of one or two
bytes is filled with zero bits and its missing digits are marked by `=`. Equally long byte strings with
the same encoding are equal. A decoder gives the bytes back, and the bits that were filled in.
-/

namespace Base64

/-- `A` to `Z`, `a` to `z`, `0` to `9`, `+` and `/`. -/
def alphabet : List UInt8 :=
  (List.range 26).map (fun i => .ofNat (65 + i)) ++ (List.range 26).map (fun i => .ofNat (97 + i)) ++
    (List.range 10).map (fun i => .ofNat (48 + i)) ++ [43, 47]

/-- The character of a digit in base 64. -/
def symbol (digit : ℕ) : UInt8 := alphabet.getD digit 0

def padding : UInt8 := 61

/-- The number of 24 bits that a group denotes. -/
def group (a b c : UInt8) : ℕ := a.toNat * 65536 + b.toNat * 256 + c.toNat

def encode : List UInt8 → List UInt8
  | a :: b :: c :: rest =>
    [symbol (group a b c / 64 ^ 3), symbol (group a b c / 64 ^ 2 % 64), symbol (group a b c / 64 % 64),
      symbol (group a b c % 64)] ++ encode rest
  | [a, b] =>
    [symbol (group a b 0 / 64 ^ 3), symbol (group a b 0 / 64 ^ 2 % 64), symbol (group a b 0 / 64 % 64), padding]
  | [a] => [symbol (group a 0 0 / 64 ^ 3), symbol (group a 0 0 / 64 ^ 2 % 64), padding, padding]
  | [] => []

theorem symbol_injective {first second : ℕ} (left : first < 64) (right : second < 64)
    (same : symbol first = symbol second) : first = second := by
  have told : ∀ first : Fin 64, ∀ second : Fin 64, symbol first = symbol second → first = second := by decide
  exact congrArg Fin.val (told ⟨first, left⟩ ⟨second, right⟩ same)

private theorem group_lt (a b c : UInt8) : group a b c < 64 ^ 4 := by
  have bounds := And.intro a.toNat_lt (And.intro b.toNat_lt c.toNat_lt)
  unfold group
  omega

/-- The two leading digits tell the first byte, three the second and all four the third. -/
private theorem group_cut {a b c a' b' c' : UInt8}
    (first : symbol (group a b c / 64 ^ 3) = symbol (group a' b' c' / 64 ^ 3))
    (second : symbol (group a b c / 64 ^ 2 % 64) = symbol (group a' b' c' / 64 ^ 2 % 64)) :
    group a b c / 64 ^ 2 = group a' b' c' / 64 ^ 2 := by
  have left := group_lt a b c
  have right := group_lt a' b' c'
  have high := symbol_injective (by omega) (by omega) first
  have low := symbol_injective (by omega) (by omega) second
  omega

theorem encode_injective {left right : List UInt8} (long : left.length = right.length)
    (same : encode left = encode right) : left = right := by
  induction left using encode.induct generalizing right with
  | case1 a b c rest ih =>
    obtain ⟨a', b', c', rest', rfl⟩ : ∃ a' b' c' rest', right = a' :: b' :: c' :: rest' := by
      match right, long with
      | a' :: b' :: c' :: rest', _ => exact ⟨a', b', c', rest', rfl⟩
    simp only [encode, List.cons_append, List.nil_append, List.cons.injEq] at same
    obtain ⟨first, second, third, fourth, rests⟩ := same
    have high := group_cut first second
    have middle := symbol_injective (by omega) (by omega) third
    have low := symbol_injective (by omega) (by omega) fourth
    have whole : group a b c = group a' b' c' := by omega
    have bounds := And.intro (And.intro a.toNat_lt (And.intro b.toNat_lt c.toNat_lt))
      (And.intro a'.toNat_lt (And.intro b'.toNat_lt c'.toNat_lt))
    unfold group at whole
    rw [ih (by simpa using long) rests, UInt8.toNat_inj.mp (by omega : a.toNat = a'.toNat),
      UInt8.toNat_inj.mp (by omega : b.toNat = b'.toNat), UInt8.toNat_inj.mp (by omega : c.toNat = c'.toNat)]
  | case2 a b =>
    obtain ⟨a', b', rfl⟩ : ∃ a' b', right = [a', b'] := by
      match right, long with
      | [a', b'], _ => exact ⟨a', b', rfl⟩
    simp only [encode, List.cons.injEq, and_true] at same
    obtain ⟨first, second, third⟩ := same
    have high := group_cut first second
    have middle := symbol_injective (by omega) (by omega) third
    have bounds := And.intro (And.intro a.toNat_lt b.toNat_lt) (And.intro a'.toNat_lt b'.toNat_lt)
    simp only [group, UInt8.toNat_zero] at high middle
    rw [UInt8.toNat_inj.mp (by omega : a.toNat = a'.toNat), UInt8.toNat_inj.mp (by omega : b.toNat = b'.toNat)]
  | case3 a =>
    obtain ⟨a', rfl⟩ : ∃ a', right = [a'] := by
      match right, long with
      | [a'], _ => exact ⟨a', rfl⟩
    simp only [encode, List.cons.injEq, and_true] at same
    obtain ⟨first, second⟩ := same
    have high := group_cut first second
    have bounds := And.intro a.toNat_lt a'.toNat_lt
    simp only [group, UInt8.toNat_zero] at high
    rw [UInt8.toNat_inj.mp (by omega : a.toNat = a'.toNat)]
  | case4 => exact (List.eq_nil_of_length_eq_zero long.symm).symm

/-! ## Decoding -/

/-- The digit that a character stands for. -/
def digit (c : UInt8) : Option ℕ := if c ∈ alphabet then some (alphabet.idxOf c) else none

/-- The bytes that a text stands for and the number that the unused bits of its last digit make, if it is one. Padding may
only end the text. -/
def decode : List UInt8 → Option (List UInt8 × ℕ)
  | [] => some ([], 0)
  | first :: second :: third :: fourth :: rest =>
    if fourth = padding ∧ rest = [] then
      if third = padding then do
        let x ← digit first
        let y ← digit second
        some ([.ofNat (x * 4 + y / 16)], y % 16)
      else do
        let x ← digit first
        let y ← digit second
        let z ← digit third
        some ([.ofNat (x * 4 + y / 16), .ofNat (y % 16 * 16 + z / 4)], z % 4)
    else do
      let x ← digit first
      let y ← digit second
      let z ← digit third
      let w ← digit fourth
      let (bytes, unused) ← decode rest
      some (.ofNat (x * 4 + y / 16) :: .ofNat (y % 16 * 16 + z / 4) :: .ofNat (z % 4 * 64 + w) :: bytes, unused)
  | _ => none

theorem digit_symbol {n : ℕ} (small : n < 64) : digit (symbol n) = some n := by
  have told : ∀ n : Fin 64, digit (symbol n) = some n.val := by decide
  exact told ⟨n, small⟩

theorem symbol_mem {n : ℕ} (small : n < 64) : symbol n ∈ alphabet := by
  have told : ∀ n : Fin 64, symbol n ∈ alphabet := by decide
  exact told ⟨n, small⟩

theorem symbol_ne_padding {n : ℕ} (small : n < 64) : symbol n ≠ padding := fun same =>
  absurd (symbol_mem small) (same ▸ by decide)

/-- The digits of a group give its bytes back. -/
private theorem group_bytes (a b c : UInt8) :
    UInt8.ofNat (group a b c / 64 ^ 3 * 4 + group a b c / 64 ^ 2 % 64 / 16) = a ∧
      UInt8.ofNat (group a b c / 64 ^ 2 % 64 % 16 * 16 + group a b c / 64 % 64 / 4) = b ∧
      UInt8.ofNat (group a b c / 64 % 64 % 4 * 64 + group a b c % 64) = c := by
  have bounds := And.intro a.toNat_lt (And.intro b.toNat_lt c.toNat_lt)
  unfold group
  refine ⟨UInt8.toNat_inj.mp ?_, UInt8.toNat_inj.mp ?_, UInt8.toNat_inj.mp ?_⟩
  · rw [UInt8.toNat_ofNat']
    omega
  · rw [UInt8.toNat_ofNat']
    omega
  · rw [UInt8.toNat_ofNat']
    omega

/-- Decoding inverts encoding, and the bits filled in are zero. -/
theorem decode_encode (data : List UInt8) : decode (encode data) = some (data, 0) := by
  induction data using encode.induct with
  | case1 a b c rest ih =>
    have bound := group_lt a b c
    obtain ⟨first, second, third⟩ := group_bytes a b c
    rw [encode]
    change decode (symbol _ :: symbol _ :: symbol _ :: symbol _ :: encode rest) = _
    rw [decode, if_neg fun last => symbol_ne_padding (by omega) last.1, digit_symbol (by omega), digit_symbol (by omega),
      digit_symbol (by omega), digit_symbol (by omega), ih]
    simp only [Option.bind_eq_bind, Option.bind_some, first, second, third]
  | case2 a b =>
    have bound := group_lt a b 0
    obtain ⟨first, second, _⟩ := group_bytes a b 0
    have unused : group a b 0 / 64 % 64 % 4 = 0 := by
      unfold group
      rw [UInt8.toNat_zero]
      omega
    rw [encode, decode, if_pos ⟨rfl, rfl⟩, if_neg (symbol_ne_padding (by omega)), digit_symbol (by omega),
      digit_symbol (by omega), digit_symbol (by omega)]
    simp only [Option.bind_eq_bind, Option.bind_some, first, second, unused]
  | case3 a =>
    have bound := group_lt a 0 0
    obtain ⟨first, _, _⟩ := group_bytes a 0 0
    have unused : group a 0 0 / 64 ^ 2 % 64 % 16 = 0 := by
      unfold group
      rw [UInt8.toNat_zero]
      omega
    rw [encode, decode, if_pos ⟨rfl, rfl⟩, if_pos rfl, digit_symbol (by omega), digit_symbol (by omega)]
    simp only [Option.bind_eq_bind, Option.bind_some, first, unused]
  | case4 => rfl

/-- Characters of the alphabet come first, and as many padding characters as bytes are missing from the last group. -/
theorem encode_shape (data : List UInt8) :
    ∃ symbols, encode data = symbols ++ List.replicate ((3 - data.length % 3) % 3) padding ∧
      (∀ c ∈ symbols, c ∈ alphabet) ∧ (encode data).length = 4 * ((data.length + 2) / 3) := by
  induction data using encode.induct with
  | case1 a b c rest ih =>
    have bound := group_lt a b c
    obtain ⟨symbols, text, listed, long⟩ := ih
    refine ⟨[symbol (group a b c / 64 ^ 3), symbol (group a b c / 64 ^ 2 % 64), symbol (group a b c / 64 % 64),
      symbol (group a b c % 64)] ++ symbols, ?_, ?_, ?_⟩
    · have same : (3 - (a :: b :: c :: rest).length % 3) % 3 = (3 - rest.length % 3) % 3 := by
        simp only [List.length_cons]
        omega
      rw [encode, text, same, List.append_assoc]
    · simp only [List.mem_append, List.mem_cons, List.not_mem_nil, or_false]
      rintro c ((rfl | rfl | rfl | rfl) | later)
      · exact symbol_mem (by omega)
      · exact symbol_mem (by omega)
      · exact symbol_mem (by omega)
      · exact symbol_mem (by omega)
      · exact listed c later
    · rw [encode, List.length_append, long]
      simp only [List.length_cons, List.length_nil]
      omega
  | case2 a b =>
    have bound := group_lt a b 0
    refine ⟨[symbol (group a b 0 / 64 ^ 3), symbol (group a b 0 / 64 ^ 2 % 64), symbol (group a b 0 / 64 % 64)],
      rfl, ?_, by simp [encode]⟩
    simp only [List.mem_cons, List.not_mem_nil, or_false]
    rintro c (rfl | rfl | rfl)
    · exact symbol_mem (by omega)
    · exact symbol_mem (by omega)
    · exact symbol_mem (by omega)
  | case3 a =>
    have bound := group_lt a 0 0
    refine ⟨[symbol (group a 0 0 / 64 ^ 3), symbol (group a 0 0 / 64 ^ 2 % 64)], rfl, ?_, by simp [encode]⟩
    simp only [List.mem_cons, List.not_mem_nil, or_false]
    rintro c (rfl | rfl)
    · exact symbol_mem (by omega)
    · exact symbol_mem (by omega)
  | case4 => exact ⟨[], rfl, fun c member => absurd member List.not_mem_nil, rfl⟩

end Base64
