import Mathlib.Data.List.Nodup
import Mathlib.Logic.Function.Basic

/-! # Tables that follow a list of live entries

A table with one slot for each key follows a list of live entries when every slot holds exactly the
entries with its key. A slot has room for one entry, so this needs distinct keys, and as long as a new
entry has a new key, writing on arrival and clearing on departure keep it. An entry may have an
identity that is finer than its key; it is the keys that have to differ.
-/

namespace KeyedTable

variable {E K V : Type*} [DecidableEq K] {key : E → K} {value : E → V}

/-- Every slot holds the entries with its key. -/
def Tracks (key : E → K) (value : E → V) (table : K → Option V) (live : List E) : Prop :=
  ∀ k, (table k).toList = (live.filter fun e => key e = k).map value

variable {table : K → Option V} {live : List E}

theorem tracks_empty : Tracks key value (fun _ => none) [] := fun _ => rfl

/-- Two live entries with one key do not fit in one slot. -/
theorem Tracks.distinct (tracks : Tracks key value table live) : (live.map key).Nodup := by
  rw [List.nodup_iff_count_le_one]
  intro k
  have slot := congrArg List.length (tracks k)
  have small : (table k).toList.length ≤ 1 := by cases table k <;> simp
  rw [List.length_map, ← List.countP_eq_length_filter] at slot
  rw [List.count, List.countP_map]
  refine Nat.le_trans (Nat.le_of_eq (List.countP_congr fun e _ => ?_)) (slot ▸ small)
  simp

theorem Tracks.lookup (tracks : Tracks key value table live) {e : E} (member : e ∈ live) :
    table (key e) = some (value e) := by
  have slot := tracks (key e)
  have inside : value e ∈ (live.filter fun other => key other = key e).map value :=
    List.mem_map_of_mem (List.mem_filter.mpr ⟨member, by simp⟩)
  rw [← slot] at inside
  exact Option.mem_toList.mp inside

theorem Tracks.vacant (tracks : Tracks key value table live) {k : K} (free : k ∉ live.map key) : table k = none := by
  have slot := tracks k
  have nobody : (live.filter fun e => key e = k) = [] := by
    rw [List.filter_eq_nil_iff]
    intro e member same
    exact free (List.mem_map.mpr ⟨e, member, of_decide_eq_true same⟩)
  rw [nobody] at slot
  exact Option.toList_eq_nil_iff.mp slot

/-- An entry with a new key arrives. -/
theorem Tracks.arrive (tracks : Tracks key value table live) {e : E} (new : key e ∉ live.map key) :
    Tracks key value (Function.update table (key e) (some (value e))) (live ++ [e]) := by
  intro k
  by_cases same : key e = k
  · subst same
    have before := tracks (key e)
    rw [tracks.vacant new] at before
    rw [Function.update_self, List.filter_append, List.map_append, ← before]
    simp
  · rw [Function.update_of_ne (Ne.symm same), tracks k, List.filter_append]
    simp [same]

/-- The entries with one key depart. -/
theorem Tracks.depart (tracks : Tracks key value table live) {k : K} {stays : E → Bool}
    (leaving : ∀ e ∈ live, stays e = false ↔ key e = k) :
    Tracks key value (Function.update table k none) (live.filter stays) := by
  intro other
  rw [List.filter_filter]
  by_cases same : other = k
  · subst same
    have nobody : (live.filter fun e => decide (key e = other) && stays e) = [] := by
      rw [List.filter_eq_nil_iff]
      intro e member both
      rw [Bool.and_eq_true, decide_eq_true_eq] at both
      have gone := (leaving e member).mpr both.1
      rw [gone] at both
      exact absurd both.2 Bool.false_ne_true
    rw [Function.update_self, nobody]
    rfl
  · rw [Function.update_of_ne same, tracks other]
    refine congrArg (List.map value) (List.filter_congr fun e member => ?_)
    by_cases here : key e = other
    · have remains : stays e = true := by
        rw [← Bool.not_eq_false, leaving e member, here]
        exact same
      simp [here, remains]
    · simp [here]

end KeyedTable
