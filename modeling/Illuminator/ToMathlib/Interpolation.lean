import Mathlib.Algebra.BigOperators.Group.List.Basic
import Mathlib.Algebra.Order.BigOperators.Group.List
import Mathlib.Algebra.Order.Field.Basic
import Mathlib.Algebra.Order.Floor.Semiring
import Mathlib.Data.List.GetD
import Mathlib.Tactic.Linarith
import Mathlib.Tactic.Ring

/-! # Interpolation between the entries of a list

A rank that is no index lies between two of them, and the value at that rank between the two entries. In a sorted list
the value grows with the rank, from the first entry to the last, and between these two lies the mean.
-/

namespace Interpolation

variable {α : Type*} [Field α] [LinearOrder α] {values : List α}

/-- The entries of a sorted list grow with their index. -/
theorem getD_mono (sorted : values.Pairwise (· ≤ ·)) {i j : ℕ} (before : i ≤ j) (inside : j < values.length) :
    values.getD i 0 ≤ values.getD j 0 := by
  rw [List.getD_eq_getElem _ _ inside, List.getD_eq_getElem _ _ (lt_of_le_of_lt before inside)]
  rcases Nat.eq_or_lt_of_le before with rfl | earlier
  · exact le_refl _
  · exact List.pairwise_iff_getElem.mp sorted i j _ inside earlier

variable [IsStrictOrderedRing α]

/-- The mean of a sorted list lies between its first and its last entry. -/
theorem mean_bounds (sorted : values.Pairwise (· ≤ ·)) (nonempty : values ≠ []) :
    values.getD 0 0 ≤ values.sum / values.length ∧
      values.sum / values.length ≤ values.getD (values.length - 1) 0 := by
  have positive : (0 : α) < values.length := Nat.cast_pos.mpr (List.length_pos_iff.mpr nonempty)
  have entry {value : α} (member : value ∈ values) :
      values.getD 0 0 ≤ value ∧ value ≤ values.getD (values.length - 1) 0 := by
    obtain ⟨i, inside, rfl⟩ := List.getElem_of_mem member
    rw [← List.getD_eq_getElem values 0 inside]
    exact ⟨getD_mono sorted (Nat.zero_le i) inside, getD_mono sorted (by omega) (by omega)⟩
  constructor
  · rw [le_div_iff₀ positive, mul_comm, ← nsmul_eq_mul]
    exact List.card_nsmul_le_sum values _ fun value member => (entry member).1
  · rw [div_le_iff₀ positive, mul_comm, ← nsmul_eq_mul]
    exact List.sum_le_card_nsmul values _ fun value member => (entry member).2

variable [FloorSemiring α] {rank later : α}

/-- The value at a rank. -/
def interpolate (values : List α) (rank : α) : α :=
  values.getD ⌊rank⌋₊ 0 + (rank - ⌊rank⌋₊) * (values.getD (⌊rank⌋₊ + 1) 0 - values.getD ⌊rank⌋₊ 0)

@[simp] theorem interpolate_natCast (values : List α) (i : ℕ) : interpolate values i = values.getD i 0 := by
  rw [interpolate, Nat.floor_natCast, sub_self, zero_mul, add_zero]

/-- A rank up to the last index is that index, or has an entry on both sides. -/
theorem rank_cases (nonempty : values ≠ []) (nonnegative : 0 ≤ rank) (inside : rank ≤ (values.length - 1 : ℕ)) :
    ⌊rank⌋₊ + 1 < values.length ∨ rank = (values.length - 1 : ℕ) ∧ ⌊rank⌋₊ = values.length - 1 := by
  have floor : ⌊rank⌋₊ ≤ values.length - 1 := Nat.floor_le_of_le inside
  have positive := List.length_pos_iff.mpr nonempty
  rcases Nat.lt_or_ge (⌊rank⌋₊ + 1) values.length with between | last
  · exact Or.inl between
  · have same : ⌊rank⌋₊ = values.length - 1 := by omega
    refine Or.inr ⟨le_antisymm inside ?_, same⟩
    rw [← same]
    exact Nat.floor_le nonnegative

theorem le_interpolate (sorted : values.Pairwise (· ≤ ·)) (nonempty : values ≠ []) (nonnegative : 0 ≤ rank)
    (inside : rank ≤ (values.length - 1 : ℕ)) : values.getD ⌊rank⌋₊ 0 ≤ interpolate values rank := by
  rcases rank_cases nonempty nonnegative inside with between | ⟨last, floor⟩
  · have step := getD_mono sorted (Nat.le_succ ⌊rank⌋₊) between
    have part := Nat.floor_le nonnegative
    exact le_add_of_nonneg_right (mul_nonneg (sub_nonneg.mpr part) (sub_nonneg.mpr step))
  · rw [last, Nat.floor_natCast, interpolate_natCast]

theorem interpolate_le (sorted : values.Pairwise (· ≤ ·)) (between : ⌊rank⌋₊ + 1 < values.length) :
    interpolate values rank ≤ values.getD (⌊rank⌋₊ + 1) 0 := by
  have step := getD_mono sorted (Nat.le_succ ⌊rank⌋₊) between
  have part : rank - ⌊rank⌋₊ ≤ 1 := by
    have above := Nat.lt_floor_add_one rank
    linarith
  have most := mul_le_mul_of_nonneg_right part (sub_nonneg.mpr step)
  rw [interpolate]
  linarith

/-- The value grows with the rank. -/
theorem interpolate_mono (sorted : values.Pairwise (· ≤ ·)) (nonempty : values ≠ []) (nonnegative : 0 ≤ rank)
    (order : rank ≤ later) (inside : later ≤ (values.length - 1 : ℕ)) :
    interpolate values rank ≤ interpolate values later := by
  have below := order.trans inside
  have floors : ⌊rank⌋₊ ≤ ⌊later⌋₊ := Nat.floor_mono order
  rcases rank_cases nonempty nonnegative below with between | ⟨last, _⟩
  · rcases Nat.eq_or_lt_of_le floors with same | apart
    · have step := getD_mono sorted (Nat.le_succ ⌊rank⌋₊) between
      rw [interpolate, interpolate, ← same]
      have more := mul_le_mul_of_nonneg_right (sub_le_sub_right order (⌊rank⌋₊ : α)) (sub_nonneg.mpr step)
      linarith
    · have reached : ⌊later⌋₊ < values.length := by
        have floor : ⌊later⌋₊ ≤ values.length - 1 := Nat.floor_le_of_le inside
        omega
      calc interpolate values rank ≤ values.getD (⌊rank⌋₊ + 1) 0 := interpolate_le sorted between
        _ ≤ values.getD ⌊later⌋₊ 0 := getD_mono sorted apart reached
        _ ≤ interpolate values later := le_interpolate sorted nonempty (nonnegative.trans order) inside
  · rw [le_antisymm order (inside.trans last.ge)]

end Interpolation
