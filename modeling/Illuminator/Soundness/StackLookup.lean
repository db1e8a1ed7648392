import Illuminator.Model.StackTraceUtil

/-! # Complete stacks

The kernel hands out hash buckets as ids of stacks, the first of which is 0. The lookup takes every id that is not
positive for a failure, so the stacks of this one bucket are never found. All others are complete.
-/

namespace Illuminator

open CpuProfilerSource (MAX_STACK_DEPTH)

namespace StackTraceUtil

/-- The addresses stored in an entry. -/
def Ips.stored (ips : Ips) : List UInt64 := ips.toList.takeWhile (· ≠ 0)

/-- The loop goes on to the first zero or to one of its bounds. -/
theorem frameLoop_eq (ips : Ips) (max_depth i : ℕ) (frames : List StackFrame) : frameLoop ips max_depth i frames =
    frames ++ (((ips.toList.drop i).take (max_depth - i)).takeWhile (· ≠ 0)).map fun ip => ⟨ip, [], [], 0, []⟩ := by
  fun_induction frameLoop ips max_depth i frames with
  | case1 i frames inside more ih =>
    have present : i < ips.toList.length := by rwa [Vector.length_toList]
    obtain ⟨rest, deeper⟩ : ∃ rest, max_depth - i = rest + 1 := ⟨max_depth - i - 1, by omega⟩
    have next : max_depth - (i + 1) = rest := by omega
    rw [ih, List.drop_eq_getElem_cons present, deeper, next, List.take_succ_cons, List.takeWhile_cons_of_pos,
      List.map_cons, List.append_assoc]
    · rfl
    · exact decide_eq_true more.2
  | case2 i frames inside stops =>
    have present : i < ips.toList.length := by rwa [Vector.length_toList]
    by_cases deeper : i < max_depth
    · have zero : ips[i] = 0 := by
        by_contra other
        exact stops ⟨deeper, other⟩
      obtain ⟨rest, more⟩ : ∃ rest, max_depth - i = rest + 1 := ⟨max_depth - i - 1, by omega⟩
      rw [List.drop_eq_getElem_cons present, more, List.take_succ_cons, List.takeWhile_cons_of_neg, List.map_nil,
        List.append_nil]
      simpa using zero
    · rw [Nat.sub_eq_zero_of_le (by omega), List.take_zero]
      exact (List.append_nil _).symm
  | case3 i frames outside =>
    rw [List.drop_eq_nil_of_le (by rw [Vector.length_toList]; omega), List.take_nil]
    exact (List.append_nil _).symm

/-- An entry becomes the addresses stored in it, as many as are asked for. -/
theorem frameLoop_stored (ips : Ips) (max_depth : ℕ) : frameLoop ips max_depth 0 [] =
    (ips.stored.take (min max_depth MAX_STACK_DEPTH)).map fun ip => ⟨ip, [], [], 0, []⟩ := by
  have bound : ips.toList.take max_depth = ips.toList.take (min max_depth MAX_STACK_DEPTH) := by
    rw [List.take_eq_take_iff, Vector.length_toList, Nat.min_assoc, Nat.min_self]
  rw [frameLoop_eq, List.nil_append, List.drop_zero, Nat.sub_zero, bound, Ips.stored, List.take_takeWhile]

/-- The samples of a batch carry what this lookup gives. -/
theorem lookup_eq (lookup : Int32 → Option Ips) (stacks_fd : ℤ) (stack_id : Int32) (max_depth : ℕ) :
    LookupBpfStackTrace lookup stacks_fd stack_id max_depth =
      CpuProfilerSource.LookupBpfStackTrace (fun id => (lookup id).map Vector.toList) stacks_fd stack_id max_depth := by
  rw [LookupBpfStackTrace, CpuProfilerSource.LookupBpfStackTrace]
  split_ifs
  · rfl
  · cases lookup stack_id with
    | none => rfl
    | some ips =>
      change frameLoop ips max_depth 0 [] = _
      rw [frameLoop_stored, Ips.stored, List.take_takeWhile]
      rfl

/-! ## Completeness -/

/-- There is no stack to return. -/
def Nothing (lookup : Int32 → Option Ips) (stack_id : Int32) : Prop :=
  stack_id < 0 ∨ lookup stack_id = none ∨ ∃ ips, lookup stack_id = some ips ∧ ips.stored = []

/-- The addresses that a lookup owes. -/
def owed (lookup : Int32 → Option Ips) (stack_id : Int32) (max_depth : ℕ) : List UInt64 :=
  if stack_id < 0 then []
  else
    match lookup stack_id with
    | none => []
    | some ips => ips.stored.take (min max_depth MAX_STACK_DEPTH)

/-- What is stored is returned, and nothing only if there is nothing. -/
structure Complete (lookup : Int32 → Option Ips) (stacks_fd : ℤ) (stack_id : Int32) (max_depth : ℕ) : Prop where
  addresses : (LookupBpfStackTrace lookup stacks_fd stack_id max_depth).map StackFrame.address =
    owed lookup stack_id max_depth
  empty : LookupBpfStackTrace lookup stacks_fd stack_id max_depth = [] → Nothing lookup stack_id

theorem lookup_failed {lookup : Int32 → Option Ips} {stacks_fd : ℤ} {stack_id : Int32}
    (failed : ¬ (0 < stack_id ∧ 0 ≤ stacks_fd)) (max_depth : ℕ) :
    LookupBpfStackTrace lookup stacks_fd stack_id max_depth = [] := by
  rw [not_and_or, Int32.not_lt, not_le] at failed
  rw [LookupBpfStackTrace, if_pos failed]

/-- For a positive id the loop gives what is owed. -/
theorem lookup_addresses (lookup : Int32 → Option Ips) {stacks_fd : ℤ} {stack_id : Int32} (positive : 0 < stack_id)
    (there : 0 ≤ stacks_fd) (max_depth : ℕ) :
    (LookupBpfStackTrace lookup stacks_fd stack_id max_depth).map StackFrame.address =
      owed lookup stack_id max_depth := by
  have valid : ¬ (stack_id ≤ 0 ∨ stacks_fd < 0) := by
    rw [not_or, Int32.not_le, not_lt]
    exact ⟨positive, there⟩
  rw [LookupBpfStackTrace, if_neg valid, owed, if_neg (Int32.lt_asymm positive)]
  cases lookup stack_id with
  | none => rfl
  | some ips =>
    change (frameLoop ips max_depth 0 []).map StackFrame.address = _
    rw [frameLoop_stored, List.map_map]
    exact List.map_id _

theorem owed_of_nothing {lookup : Int32 → Option Ips} {stack_id : Int32} (nothing : Nothing lookup stack_id)
    (max_depth : ℕ) : owed lookup stack_id max_depth = [] := by
  unfold owed
  split_ifs with negative
  · rfl
  · rcases nothing with below | missing | ⟨ips, held, zeros⟩
    · exact absurd below negative
    · rw [missing]
    · rw [held]
      change ips.stored.take _ = []
      rw [zeros, List.take_nil]

theorem nothing_of_owed {lookup : Int32 → Option Ips} {stack_id : Int32} {max_depth : ℕ} (deep : 0 < max_depth)
    (nothing : owed lookup stack_id max_depth = []) : Nothing lookup stack_id := by
  unfold owed at nothing
  split_ifs at nothing with negative
  · exact Or.inl negative
  · cases held : lookup stack_id with
    | none => exact Or.inr (Or.inl held)
    | some ips =>
      rw [held] at nothing
      have bound : 0 < min max_depth MAX_STACK_DEPTH := lt_min deep (by decide)
      have zeros := (List.take_eq_nil_iff.mp nothing).resolve_left (Nat.ne_of_gt bound)
      exact Or.inr (Or.inr ⟨ips, held, zeros⟩)

/-- A lookup is complete if there is nothing to return, or the id is positive, the map is there and some frames are asked
for. So it is not for the id 0. -/
theorem complete_iff (lookup : Int32 → Option Ips) (stacks_fd : ℤ) (stack_id : Int32) (max_depth : ℕ) :
    Complete lookup stacks_fd stack_id max_depth ↔
      Nothing lookup stack_id ∨ (0 < stack_id ∧ 0 ≤ stacks_fd ∧ 0 < max_depth) := by
  constructor
  · rintro ⟨addresses, empty⟩
    by_cases found : 0 < stack_id ∧ 0 ≤ stacks_fd
    · by_cases deep : 0 < max_depth
      · exact Or.inr ⟨found.1, found.2, deep⟩
      · have noFrames : owed lookup stack_id max_depth = [] := by
          unfold owed
          split_ifs
          · rfl
          · rw [Nat.eq_zero_of_not_pos deep, Nat.zero_min]
            cases lookup stack_id <;> rfl
        rw [noFrames, List.map_eq_nil_iff] at addresses
        exact Or.inl (empty addresses)
    · exact Or.inl (empty (lookup_failed found max_depth))
  · rintro (nothing | ⟨positive, there, deep⟩)
    · refine ⟨?_, fun _ => nothing⟩
      by_cases found : 0 < stack_id ∧ 0 ≤ stacks_fd
      · exact lookup_addresses lookup found.1 found.2 max_depth
      · rw [lookup_failed found, owed_of_nothing nothing, List.map_nil]
    · have addresses := lookup_addresses lookup positive there max_depth
      refine ⟨addresses, fun empty => nothing_of_owed deep ?_⟩
      rw [← addresses, empty, List.map_nil]

/-- A stack under the id 0. -/
def firstBucket (id : Int32) : Option Ips := if id = 0 then some (.replicate MAX_STACK_DEPTH 1) else none

theorem firstBucket_incomplete : ¬ Complete firstBucket 3 0 MAX_STACK_DEPTH := by
  intro complete
  rcases complete.empty rfl with negative | missing | ⟨ips, held, zeros⟩
  · exact absurd negative (by decide)
  · cases missing
  · cases held
    exact absurd zeros (by decide)

end StackTraceUtil

end Illuminator
