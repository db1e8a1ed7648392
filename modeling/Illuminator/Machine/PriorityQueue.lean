import Mathlib.Data.List.Perm.Basic
import Mathlib.Order.Lattice

/-! # Priority queues

A priority queue holds entries with a key, and its top is any of those with the least key. Entries are popped while
the top is due; what is popped comes in the order of the keys, and what stays is not due. Which of several entries
with the same key is on top is not determined.
-/

namespace PriorityQueue

variable {α β : Type*} [DecidableEq α] [LinearOrder β] {key : α → β} {limit : β} {queue popped rest : List α}

/-- The entry may be on top. -/
def IsTop (key : α → β) (queue : List α) (entry : α) : Prop := entry ∈ queue ∧ ∀ other ∈ queue, key entry ≤ key other

instance (key : α → β) (queue : List α) (entry : α) : Decidable (IsTop key queue entry) :=
  inferInstanceAs (Decidable (_ ∧ _))

/-- Pop the top again and again while it is due, given what is on top each time. -/
def popDue (key : α → β) (limit : β) : List α → List α → Option (List α)
  | queue, [] => if ∀ entry ∈ queue, limit < key entry then some queue else none
  | queue, entry :: later =>
    if IsTop key queue entry ∧ key entry ≤ limit then popDue key limit (queue.erase entry) later else none

theorem popDue_perm (success : popDue key limit queue popped = some rest) : queue.Perm (popped ++ rest) := by
  induction popped generalizing queue with
  | nil =>
    obtain ⟨_, same⟩ := Option.ite_none_right_eq_some.mp success
    cases same
    exact List.Perm.refl _
  | cons entry later ih =>
    obtain ⟨⟨top, _⟩, success⟩ := Option.ite_none_right_eq_some.mp success
    exact (List.perm_cons_erase top.1).trans ((ih success).cons entry)

theorem popDue_rest (success : popDue key limit queue popped = some rest) : ∀ entry ∈ rest, limit < key entry := by
  induction popped generalizing queue with
  | nil =>
    obtain ⟨waits, same⟩ := Option.ite_none_right_eq_some.mp success
    cases same
    exact waits
  | cons entry later ih =>
    obtain ⟨_, success⟩ := Option.ite_none_right_eq_some.mp success
    exact ih success

theorem popDue_due (success : popDue key limit queue popped = some rest) : ∀ entry ∈ popped, key entry ≤ limit := by
  induction popped generalizing queue with
  | nil => exact fun entry member => absurd member List.not_mem_nil
  | cons entry later ih =>
    obtain ⟨⟨_, due⟩, success⟩ := Option.ite_none_right_eq_some.mp success
    exact List.forall_mem_cons.mpr ⟨due, ih success⟩

theorem popDue_sorted (success : popDue key limit queue popped = some rest) :
    popped.Pairwise fun entry other => key entry ≤ key other := by
  induction popped generalizing queue with
  | nil => exact List.Pairwise.nil
  | cons entry later ih =>
    obtain ⟨⟨top, _⟩, success⟩ := Option.ite_none_right_eq_some.mp success
    refine List.Pairwise.cons (fun other member => top.2 other ?_) (ih success)
    have inside : other ∈ queue.erase entry :=
      (popDue_perm success).mem_iff.mpr (List.mem_append_left rest member)
    exact List.mem_of_mem_erase inside

omit [DecidableEq α] in
theorem exists_top (key : α → β) {queue : List α} (nonempty : queue ≠ []) : ∃ entry, IsTop key queue entry := by
  induction queue with
  | nil => exact absurd rfl nonempty
  | cons first others ih =>
    by_cases alone : others = []
    · subst alone
      exact ⟨first, List.mem_singleton_self first, fun other member => (List.mem_singleton.mp member) ▸ le_rfl⟩
    · obtain ⟨least, member, below⟩ := ih alone
      rcases le_total (key first) (key least) with before | after
      · exact ⟨first, List.mem_cons_self .., List.forall_mem_cons.mpr
          ⟨le_rfl, fun other inside => le_trans before (below other inside)⟩⟩
      · exact ⟨least, List.mem_cons_of_mem first member, List.forall_mem_cons.mpr ⟨after, below⟩⟩

/-- However the ties are broken, the due entries can be popped. -/
theorem exists_popDue (key : α → β) (limit : β) (queue : List α) :
    ∃ popped rest, popDue key limit queue popped = some rest := by
  induction size : queue.length generalizing queue with
  | zero =>
    rw [List.length_eq_zero_iff] at size
    exact ⟨[], queue, if_pos (size ▸ fun entry member => absurd member List.not_mem_nil)⟩
  | succ size ih =>
    obtain ⟨entry, top⟩ := exists_top key (List.ne_nil_of_length_eq_add_one ‹_›)
    rcases le_or_gt (key entry) limit with due | waits
    · obtain ⟨popped, rest, success⟩ := ih (queue.erase entry) (by rw [List.length_erase_of_mem top.1]; omega)
      exact ⟨entry :: popped, rest, (if_pos ⟨top, due⟩).trans success⟩
    · exact ⟨[], queue, if_pos fun other member => lt_of_lt_of_le waits (top.2 other member)⟩

end PriorityQueue
