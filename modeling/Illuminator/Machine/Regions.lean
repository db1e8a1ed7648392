import Mathlib.Data.List.Range
import Mathlib.Data.Nat.Notation

/-! # Regions of memory

A region is a run of addresses. Regions with no address in common are apart, and writing into one leaves
what another holds. An empty region is apart from every region.
-/

namespace Regions

structure Region where
  start : ℕ
  size : ℕ
  deriving DecidableEq

instance : Membership ℕ Region := ⟨fun r a => r.start ≤ a ∧ a < r.start + r.size⟩

theorem mem_iff {r : Region} {a : ℕ} : a ∈ r ↔ r.start ≤ a ∧ a < r.start + r.size := Iff.rfl

/-- One region lies inside another, also where it is empty. -/
def Region.Within (r s : Region) : Prop := s.start ≤ r.start ∧ r.start + r.size ≤ s.start + s.size

/-- No address is in both. -/
def Region.Apart (r s : Region) : Prop := ∀ a, a ∈ r → a ∉ s

instance (r s : Region) : Decidable (r.Within s) := inferInstanceAs (Decidable (_ ∧ _))

variable {r s t : Region}

theorem Region.apart_iff : r.Apart s ↔
    r.size = 0 ∨ s.size = 0 ∨ r.start + r.size ≤ s.start ∨ s.start + s.size ≤ r.start := by
  constructor
  · intro apart
    by_contra meet
    refine apart (max r.start s.start) ?_ ?_ <;> rw [mem_iff] <;> omega
  · intro cases_ a left right
    rw [mem_iff] at left right
    omega

instance (r s : Region) : Decidable (r.Apart s) := decidable_of_iff _ Region.apart_iff.symm

theorem Region.Apart.symm (apart : r.Apart s) : s.Apart r := fun a left right => apart a right left

theorem Region.Within.mem (within : r.Within s) {a : ℕ} (member : a ∈ r) : a ∈ s := by
  obtain ⟨low, high⟩ := within
  rw [mem_iff] at member ⊢
  omega

theorem Region.Apart.within (apart : r.Apart s) (within : t.Within s) : r.Apart t :=
  fun a left right => apart a left (within.mem right)

/-! ## What regions hold -/

abbrev Memory (α : Type*) := ℕ → α

variable {α : Type*}

def Memory.read (memory : Memory α) (r : Region) : List α := (List.range r.size).map fun i => memory (r.start + i)

def Memory.write (memory : Memory α) (start : ℕ) (values : List α) : Memory α :=
  fun a => if start ≤ a then (values[a - start]?).getD (memory a) else memory a

theorem write_of_notMem (memory : Memory α) {start : ℕ} {values : List α} {a : ℕ}
    (outside : a ∉ (⟨start, values.length⟩ : Region)) : memory.write start values a = memory a := by
  unfold Memory.write
  split_ifs with after
  · rw [List.getElem?_eq_none, Option.getD_none]
    have beyond : ¬ a < start + values.length := fun below => outside ⟨after, below⟩
    omega
  · rfl

/-- Two memories agree on a region whose addresses they agree on. -/
theorem read_congr {memory later : Memory α} (same : ∀ a, a ∈ r → later a = memory a) :
    later.read r = memory.read r := by
  refine List.map_congr_left fun i inside => same _ ?_
  rw [List.mem_range] at inside
  exact ⟨Nat.le_add_right .., Nat.add_lt_add_left inside _⟩

theorem read_write_apart (memory : Memory α) {start : ℕ} {values : List α}
    (apart : r.Apart ⟨start, values.length⟩) : (memory.write start values).read r = memory.read r :=
  read_congr fun a member => write_of_notMem memory (apart a member)

theorem read_write (memory : Memory α) (start : ℕ) (values : List α) :
    (memory.write start values).read ⟨start, values.length⟩ = values := by
  refine List.ext_getElem (by rw [Memory.read, List.length_map, List.length_range]) fun i _ here => ?_
  simp only [Memory.read, List.getElem_map, List.getElem_range, Memory.write]
  rw [if_pos (Nat.le_add_right ..), Nat.add_sub_cancel_left, List.getElem?_eq_getElem here, Option.getD_some]

end Regions
