import Mathlib.Data.List.DropRight

/-! # The last entries of a list

A buffer of bounded length that drops its oldest entry keeps the last entries of what was put into it,
since the last entries of a list and of its own last entries are the same.
-/

namespace List

variable {α : Type*}

theorem rtake_append_rtake (l added : List α) (n : ℕ) : (l.rtake n ++ added).rtake n = (l ++ added).rtake n := by
  simp only [rtake_eq_reverse_take_reverse, reverse_append, reverse_reverse, take_append, take_take, length_reverse]
  rw [Nat.min_eq_left (Nat.sub_le ..)]

theorem rtake_rtake (l : List α) (m n : ℕ) : (l.rtake n).rtake m = l.rtake (min m n) := by
  simp only [rtake_eq_reverse_take_reverse, reverse_reverse, take_take]

theorem rtake_min_length (l : List α) (n : ℕ) : l.rtake (min n l.length) = l.rtake n := by
  have same : l.length - min n l.length = l.length - n := by omega
  rw [rtake, rtake, same]

theorem rtake_append (first second : List α) (n : ℕ) :
    (first ++ second).rtake n = first.rtake (n - second.length) ++ second.rtake n := by
  simp only [rtake_eq_reverse_take_reverse, reverse_append, take_append, length_reverse]

theorem mem_of_mem_rtake {a : α} {l : List α} {n : ℕ} (taken : a ∈ l.rtake n) : a ∈ l := mem_of_mem_drop taken

/-- Entries are dropped from the front while there are more than `n`. -/
def shed (n : ℕ) : List α → List α
  | [] => []
  | oldest :: rest => if n < rest.length + 1 then shed n rest else oldest :: rest

theorem shed_eq (n : ℕ) (l : List α) : shed n l = l.rtake n := by
  induction l with
  | nil => rw [shed, rtake_nil]
  | cons oldest rest ih =>
    rw [shed, rtake, length_cons]
    split_ifs with long
    · rw [ih, rtake, Nat.succ_sub (by omega), drop_succ_cons]
    · rw [Nat.sub_eq_zero_of_le (by omega), drop_zero]

theorem rtake_map {β : Type*} (f : α → β) (l : List α) (n : ℕ) : (l.map f).rtake n = (l.rtake n).map f := by
  rw [rtake, rtake, length_map, map_drop]

theorem getLast?_rtake (l : List α) {n : ℕ} (some_ : 1 ≤ n) : (l.rtake n).getLast? = l.getLast? := by
  rw [rtake_eq_reverse_take_reverse, getLast?_reverse, head?_take, if_neg (by omega), head?_reverse]

end List
