import Illuminator.Model.DiffView
import Illuminator.Soundness.FlameWeights
import Mathlib.Algebra.Order.BigOperators.Group.List
import Mathlib.Data.Rat.Cast.Order
import Mathlib.Tactic.NormNum

/-! # Comparisons of profiles

`aggregateFunctions` counts a sample for a name as often as the name is on its path, and the compared tree is the second
one's with changes by name. The comparison is right where every name is on a path once, no path has the page's own
`root`, the second profile has every path of the first, and the names change as their paths do.
-/

namespace Illuminator

namespace DiffView

open FlameGraph NamedTree

/-- The samples of a profile and which kind it is. -/
structure Profile where
  isOffCpu : Bool
  samples : List FlameGraph.StackSample

def Profile.tree (p : Profile) : FlameNode := convertToFlameNode (some p.samples) p.isOffCpu

/-- What the samples weigh whose path has the name, each of them once. -/
def Profile.owned (p : Profile) (name : JsString) : ℕ :=
  ((p.samples.filter fun sample => name ∈ frames sample).map (weight p.isOffCpu)).sum

/-- What the samples weigh for every place at which their path has the name. -/
def Profile.occurrences (p : Profile) (name : JsString) : ℕ :=
  (p.samples.map fun sample => weight p.isOffCpu sample * (frames sample).count name).sum

/-- What the samples weigh whose path begins with this one. -/
def Profile.at (p : Profile) (path : List JsString) : ℕ := weightThrough p.isOffCpu p.samples path

def Profile.Has (p : Profile) (name : JsString) : Prop := ∃ sample ∈ p.samples, name ∈ frames sample

def Profile.Leads (p : Profile) (path : List JsString) : Prop := ∃ sample ∈ p.samples, path <+: frames sample

/-- Every name of either profile is reported, with what is owed to it. -/
def ReportsNames (base comp : Profile) : Prop :=
  ∀ name, base.Has name ∨ comp.Has name →
    (∃ e ∈ computeDiff base.tree comp.tree, e.name = name) ∧
      ∀ e ∈ computeDiff base.tree comp.tree, e.name = name →
        e.baseValue = base.owned name ∧ e.compValue = comp.owned name

/-- Every path of either profile is in the compared tree, with the change of its own values. -/
def ComparesPaths (base comp : Profile) : Prop :=
  ∀ front last, base.Leads (front ++ [last]) ∨ comp.Leads (front ++ [last]) →
    (∃ node, (buildDiffFlame base.tree comp.tree).At (front ++ [last]) node) ∧
      ∀ node, (buildDiffFlame base.tree comp.tree).At (front ++ [last]) node →
        node.label.delta = change (base.at (front ++ [last])) (comp.at (front ++ [last]))

/-! ## Maps -/

theorem mapGet_mapSet (map : List (JsString × ℕ)) (key other : JsString) (value : ℕ) :
    mapGet (mapSet map key value) other = if key = other then value else mapGet map other := by
  induction map with
  | nil =>
    rw [mapSet, mapGet, List.find?_singleton]
    by_cases same : key = other
    · rw [if_pos same, if_pos (decide_eq_true same)]
      rfl
    · rw [if_neg same, if_neg (by rw [decide_eq_true_eq]; exact same)]
      rfl
  | cons entry rest ih =>
    rw [mapSet]
    by_cases here : entry.1 = key
    · rw [if_pos here, mapGet, mapGet, List.find?_cons, List.find?_cons, here]
      by_cases same : key = other
      · rw [if_pos same, decide_eq_true same]
        rfl
      · rw [if_neg same, decide_eq_false same]
    · rw [if_neg here, mapGet, mapGet, List.find?_cons, List.find?_cons]
      by_cases found : entry.1 = other
      · rw [decide_eq_true found, if_neg fun same => here (found.trans same.symm)]
      · rw [decide_eq_false found]
        exact ih

theorem mem_mapSet (map : List (JsString × ℕ)) (key other : JsString) (value : ℕ) :
    other ∈ (mapSet map key value).map Prod.fst ↔ other = key ∨ other ∈ map.map Prod.fst := by
  induction map with
  | nil =>
    rw [mapSet, List.map_singleton, List.mem_singleton]
    exact (or_iff_left List.not_mem_nil).symm
  | cons entry rest ih =>
    rw [mapSet]
    split_ifs with here
    · rw [List.map_cons, List.map_cons, List.mem_cons, List.mem_cons, here]
      tauto
    · rw [List.map_cons, List.map_cons, List.mem_cons, List.mem_cons, ih]
      tauto

/-- One node's turn. -/
def visit (map : List (JsString × ℕ)) (e : JsString × ℕ) : List (JsString × ℕ) :=
  mapSet map e.1 (mapGet map e.1 + e.2)

theorem walk_eq (t : FlameNode) : ∀ map, walk map t = (entries t).foldl visit map := by
  refine NamedTree.rec (motive_1 := fun t => ∀ map, walk map t = (entries t).foldl visit map)
    (motive_2 := fun ts => ∀ map, walkAll map ts = (entriesAll ts).foldl visit map) ?_ ?_ ?_ t
  · intro name value children ih map
    rw [walk, entries, List.foldl_cons, ih]
    rfl
  · intro map
    rw [walkAll, entriesAll, List.foldl_nil]
  · intro child rest first later map
    rw [walkAll, entriesAll, List.foldl_append, first, later]

theorem mapGet_visits (es : List (JsString × ℕ)) (map : List (JsString × ℕ)) (name : JsString) :
    mapGet (es.foldl visit map) name = mapGet map name + total name es := by
  induction es generalizing map with
  | nil => rfl
  | cons e rest ih =>
    rw [List.foldl_cons, ih, visit, mapGet_mapSet, total_cons]
    split_ifs with same
    · rw [same]
      omega
    · rw [Nat.zero_add]

theorem mem_visits (es : List (JsString × ℕ)) (map : List (JsString × ℕ)) (name : JsString) :
    name ∈ (es.foldl visit map).map Prod.fst ↔ name ∈ map.map Prod.fst ∨ Named name es := by
  induction es generalizing map with
  | nil => exact (or_iff_left (named_nil name)).symm
  | cons e rest ih =>
    rw [List.foldl_cons, ih, visit, mem_mapSet, named_cons, eq_comm (a := name)]
    tauto

theorem mapGet_aggregate (t : FlameNode) (name : JsString) :
    mapGet (aggregateFunctions t) name = total name (entries t) := by
  rw [aggregateFunctions, walk_eq, mapGet_visits]
  exact Nat.zero_add _

theorem mem_aggregate (t : FlameNode) (name : JsString) :
    name ∈ (aggregateFunctions t).map Prod.fst ↔ Named name (entries t) := by
  rw [aggregateFunctions, walk_eq, mem_visits]
  exact or_iff_right List.not_mem_nil

/-! ## Names in a profile's tree -/

theorem entries_tree (p : Profile) : ∃ whole, entries p.tree = (literal "root", whole) ::
    entriesAll (grown p.isOffCpu p.samples).children := by
  have named : (grown p.isOffCpu p.samples).name = literal "root" := name_insertAll _ _
  rw [Profile.tree, convertToFlameNode_eq, entries, named]
  exact ⟨_, rfl⟩

theorem entries_grown (p : Profile) : entries (grown p.isOffCpu p.samples) =
    (literal "root", 0) :: entriesAll (grown p.isOffCpu p.samples).children := by
  rw [entries_eq]
  exact congrArg (· :: _) (Prod.ext (name_insertAll _ _) (label_insertAll _ _))

theorem total_tree (p : Profile) {name : JsString} (other : name ≠ literal "root") :
    mapGet (aggregateFunctions p.tree) name = p.occurrences name := by
  obtain ⟨whole, split⟩ := entries_tree p
  have inserted := total_insertAll name (weighted p.isOffCpu p.samples) (.node (literal "root") 0 [])
  have leaf : total name (entries (.node (literal "root") 0 [] : FlameNode)) = 0 := by
    rw [entries, total_cons, if_neg (Ne.symm other), entriesAll, total_nil]
  rw [← grown, entries_grown, total_cons, if_neg (Ne.symm other), leaf, Nat.zero_add, Nat.zero_add, weighted,
    List.map_map] at inserted
  rw [mapGet_aggregate, split, total_cons, if_neg (Ne.symm other), Nat.zero_add, inserted]
  rfl

theorem named_tree (p : Profile) {name : JsString} (other : name ≠ literal "root") :
    name ∈ (aggregateFunctions p.tree).map Prod.fst ↔ p.Has name := by
  obtain ⟨whole, split⟩ := entries_tree p
  have inserted := named_insertAll name (weighted p.isOffCpu p.samples) (.node (literal "root") 0 [])
  have leaf : ¬ Named name (entries (.node (literal "root") 0 [] : FlameNode)) := by
    rw [entries, named_cons, entriesAll, not_or]
    exact ⟨Ne.symm other, named_nil name⟩
  rw [← grown, entries_grown, named_cons, or_iff_right (Ne.symm other), or_iff_right leaf] at inserted
  rw [mem_aggregate, split, named_cons, or_iff_right (Ne.symm other), inserted]
  constructor
  · rintro ⟨q, member, inside⟩
    obtain ⟨sample, known, rfl⟩ := List.mem_map.mp member
    exact ⟨sample, known, inside⟩
  · rintro ⟨sample, known, inside⟩
    exact ⟨_, List.mem_map_of_mem known, inside⟩

theorem mem_computeDiff (base comp : Profile) (e : DiffEntry) : e ∈ computeDiff base.tree comp.tree ↔
    e.name ≠ literal "root" ∧ (base.Has e.name ∨ comp.Has e.name) ∧ e.baseValue = base.occurrences e.name ∧
      e.compValue = comp.occurrences e.name := by
  rw [computeDiff]
  simp only [List.mem_map, List.mem_filter, List.mem_eraseDups, List.mem_append, decide_eq_true_eq]
  constructor
  · rintro ⟨name, ⟨known, other⟩, rfl⟩
    rw [← List.mem_map, ← List.mem_map, named_tree base other, named_tree comp other] at known
    exact ⟨other, known, total_tree base other, total_tree comp other⟩
  · rintro ⟨other, known, baseValue, compValue⟩
    refine ⟨e.name, ⟨?_, other⟩, ?_⟩
    · rw [← List.mem_map, ← List.mem_map, named_tree base other, named_tree comp other]
      exact known
    · rw [total_tree base other, total_tree comp other, ← baseValue, ← compValue]

/-! ## Reported names -/

/-- A name owns no more than its occurrences weigh, and as much if it is nowhere twice on a path. -/
theorem owned_occurrences (p : Profile) (name : JsString) : p.owned name ≤ p.occurrences name ∧
    (p.occurrences name = p.owned name ↔ ∀ sample ∈ p.samples, (frames sample).count name ≤ 1) := by
  obtain ⟨isOffCpu, samples⟩ := p
  rw [Profile.owned, Profile.occurrences]
  simp only
  induction samples with
  | nil => exact ⟨Nat.le_refl _, fun _ sample member => absurd member List.not_mem_nil, fun _ => rfl⟩
  | cons sample rest ih =>
    obtain ⟨le, iff⟩ := ih
    have positive := weight_pos isOffCpu sample
    rw [List.forall_mem_cons, List.map_cons, List.sum_cons, List.filter_cons]
    by_cases inside : name ∈ frames sample
    · have once := List.count_pos_iff.mpr inside
      have grows : weight isOffCpu sample ≤ weight isOffCpu sample * (frames sample).count name :=
        Nat.le_mul_of_pos_right _ once
      rw [if_pos (decide_eq_true inside), List.map_cons, List.sum_cons, ← iff]
      refine ⟨by omega, ?_⟩
      constructor
      · intro same
        have tight : weight isOffCpu sample * (frames sample).count name = weight isOffCpu sample * 1 := by omega
        exact ⟨(Nat.eq_of_mul_eq_mul_left positive tight).le, by omega⟩
      · rintro ⟨most, same⟩
        rw [show (frames sample).count name = 1 by omega]
        omega
    · rw [if_neg (by rw [decide_eq_true_eq]; exact inside), List.count_eq_zero.mpr inside, Nat.mul_zero, Nat.zero_add,
        ← iff]
      exact ⟨le, fun same => ⟨Nat.zero_le _, same⟩, And.right⟩

/-- No path has a name twice or the page's own name. -/
def Plain (base comp : Profile) : Prop :=
  ∀ sample ∈ base.samples ++ comp.samples, (frames sample).Nodup ∧ literal "root" ∉ frames sample

theorem Plain.occurrences {base comp : Profile} (plain : Plain base comp) (name : JsString) :
    base.occurrences name = base.owned name ∧ comp.occurrences name = comp.owned name := by
  refine ⟨(owned_occurrences base name).2.mpr ?_, (owned_occurrences comp name).2.mpr ?_⟩
  · exact fun sample member => List.nodup_iff_count_le_one.mp (plain sample (List.mem_append_left _ member)).1 name
  · exact fun sample member => List.nodup_iff_count_le_one.mp (plain sample (List.mem_append_right _ member)).1 name

theorem Plain.other {base comp : Profile} (plain : Plain base comp) {name : JsString}
    (known : base.Has name ∨ comp.Has name) : name ≠ literal "root" := by
  rintro rfl
  rcases known with ⟨sample, member, inside⟩ | ⟨sample, member, inside⟩
  · exact (plain sample (List.mem_append_left _ member)).2 inside
  · exact (plain sample (List.mem_append_right _ member)).2 inside

theorem reportsNames_iff (base comp : Profile) : ReportsNames base comp ↔ Plain base comp := by
  constructor
  · intro reports
    have known (sample : FlameGraph.StackSample) (member : sample ∈ base.samples ++ comp.samples) (name : JsString)
        (inside : name ∈ frames sample) : base.Has name ∨ comp.Has name :=
      (List.mem_append.mp member).imp (fun mine => ⟨sample, mine, inside⟩) fun mine => ⟨sample, mine, inside⟩
    have equal (name : JsString) (has : base.Has name ∨ comp.Has name) :
        base.occurrences name = base.owned name ∧ comp.occurrences name = comp.owned name := by
      obtain ⟨⟨e, member, rfl⟩, values⟩ := reports name has
      obtain ⟨_, _, baseValue, compValue⟩ := (mem_computeDiff base comp e).mp member
      obtain ⟨baseOwned, compOwned⟩ := values e member rfl
      exact ⟨baseValue.symm.trans baseOwned, compValue.symm.trans compOwned⟩
    intro sample member
    refine ⟨?_, ?_⟩
    · rw [List.nodup_iff_count_le_one]
      intro name
      by_cases inside : name ∈ frames sample
      · obtain ⟨first, second⟩ := equal name (known sample member name inside)
        rcases List.mem_append.mp member with mine | mine
        · exact (owned_occurrences base name).2.mp first sample mine
        · exact (owned_occurrences comp name).2.mp second sample mine
      · rw [List.count_eq_zero.mpr inside]
        exact Nat.zero_le 1
    · intro inside
      obtain ⟨⟨e, reported, same⟩, _⟩ := reports _ (known sample member _ inside)
      exact ((mem_computeDiff base comp e).mp reported).1 same
  · intro plain name known
    obtain ⟨first, second⟩ := plain.occurrences name
    refine ⟨⟨⟨name, base.occurrences name, comp.occurrences name⟩, ?_, rfl⟩, ?_⟩
    · exact (mem_computeDiff base comp _).mpr ⟨plain.other known, known, rfl, rfl⟩
    · rintro e member rfl
      obtain ⟨_, _, baseValue, compValue⟩ := (mem_computeDiff base comp e).mp member
      exact ⟨baseValue.trans first, compValue.trans second⟩

/-! ## Compared paths -/

/-- The totals `B` and `C` of a name change as the values `b` and `c` of a path do. -/
def SameChange (B C b c : ℕ) : Prop := if b = 0 then B = 0 ∨ C = 2 * B else c * B = C * b

theorem change_eq_iff {B C b c : ℕ} (some_ : 0 < c) (base : b ≤ B) (comp : c ≤ C) :
    change B C = change b c ↔ SameChange B C b c := by
  have someC : 0 < C := by omega
  by_cases new : b = 0
  · rw [SameChange, if_pos new, change, change, if_neg (by omega : ¬ 0 < b), if_pos some_]
    by_cases absent : B = 0
    · rw [if_neg (by omega), if_pos someC]
      exact ⟨fun _ => .inl absent, fun _ => rfl⟩
    · have positive : (B : ℚ) ≠ 0 := by exact_mod_cast absent
      rw [if_pos (by omega), div_eq_one_iff_eq positive, or_iff_right absent, sub_eq_iff_eq_add, ← two_mul]
      exact_mod_cast Iff.rfl
  · have positive : (B : ℚ) ≠ 0 := by exact_mod_cast (by omega : B ≠ 0)
    have own : (b : ℚ) ≠ 0 := by exact_mod_cast new
    rw [SameChange, if_neg new, change, change, if_pos (by omega), if_pos (by omega), sub_div, sub_div,
      div_self positive, div_self own, sub_left_inj, div_eq_div_iff positive own, eq_comm]
    exact_mod_cast Iff.rfl

theorem at_le_owned (p : Profile) (front : List JsString) (last : JsString) :
    p.at (front ++ [last]) ≤ p.owned last := by
  have sub : (p.samples.filter fun sample => front ++ [last] <+: frames sample).Sublist
      (p.samples.filter fun sample => last ∈ frames sample) := by
    refine List.monotone_filter_right _ ?_
    intro sample goes
    rw [decide_eq_true_eq] at goes ⊢
    exact goes.subset (List.mem_append_right _ List.mem_cons_self)
  exact (sub.map (weight p.isOffCpu)).sum_le_sum fun _ _ => Nat.zero_le _

theorem at_pos {p : Profile} {path : List JsString} (leads : p.Leads path) : 0 < p.at path := by
  obtain ⟨sample, member, goes⟩ := leads
  have inside : weight p.isOffCpu sample ∈
      (p.samples.filter fun sample => path <+: frames sample).map (weight p.isOffCpu) :=
    List.mem_map_of_mem (List.mem_filter.mpr ⟨member, decide_eq_true goes⟩)
  exact lt_of_lt_of_le (weight_pos p.isOffCpu sample) (List.single_le_sum (fun _ _ => Nat.zero_le _) _ inside)

/-- The compared tree's nodes are the second profile's, with the change of their name. -/
theorem merged_of_children (base comp : Profile) : (buildDiffFlame base.tree comp.tree).children =
    (comp.tree.map (annotate (aggregateFunctions base.tree) (aggregateFunctions comp.tree))).children :=
  (children_map comp.tree).symm

theorem comparesPaths_iff {base comp : Profile} (plain : Plain base comp) : ComparesPaths base comp ↔
    ∀ front last, base.Leads (front ++ [last]) ∨ comp.Leads (front ++ [last]) → comp.Leads (front ++ [last]) ∧
      SameChange (base.owned last) (comp.owned last) (base.at (front ++ [last])) (comp.at (front ++ [last])) := by
  refine forall₂_congr fun front last => imp_congr_right fun known => ?_
  have present : front ++ [last] ≠ [] := List.append_ne_nil_of_right_ne_nil _ (List.cons_ne_nil _ _)
  have has (p : Profile) (leads : p.Leads (front ++ [last])) : p.Has last := by
    obtain ⟨sample, member, goes⟩ := leads
    exact ⟨sample, member, goes.subset (List.mem_append_right _ List.mem_cons_self)⟩
  have other : last ≠ literal "root" := plain.other (known.imp (has base) (has comp))
  obtain ⟨baseOwned, compOwned⟩ := plain.occurrences last
  -- The nodes at the path, in the second profile's tree and in the compared one.
  have there : (∃ node, (buildDiffFlame base.tree comp.tree).At (front ++ [last]) node) ↔
      comp.Leads (front ++ [last]) := by
    rw [Profile.Leads, ← exists_at_iff comp.isOffCpu comp.samples present]
    constructor
    · rintro ⟨node, reached⟩
      obtain ⟨original, found, _⟩ := (reached.of_children present (merged_of_children base comp)).of_map
      exact ⟨original, found⟩
    · rintro ⟨original, found⟩
      exact ⟨_, found.map.of_children present (merged_of_children base comp).symm⟩
  have delta (node : DiffFlameNode) (reached : (buildDiffFlame base.tree comp.tree).At (front ++ [last]) node) :
      node.label.delta = change (base.owned last) (comp.owned last) := by
    obtain ⟨original, found, rfl⟩ := (reached.of_children present (merged_of_children base comp)).of_map
    rw [label_map, found.name_eq, annotate, total_tree base other, total_tree comp other, baseOwned, compOwned]
  rw [there]
  refine and_congr_right fun leads => ?_
  rw [← change_eq_iff (at_pos leads) (at_le_owned base front last) (at_le_owned comp front last)]
  constructor
  · intro every
    obtain ⟨node, reached⟩ := there.mpr leads
    exact (delta node reached).symm.trans (every node reached)
  · exact fun same node reached => (delta node reached).trans same

/-- The comparison is right if and only if no path has a name twice or the page's own name, the second profile has
every path, and every path's values change as the totals of its last name do. -/
theorem compares_iff (base comp : Profile) : ReportsNames base comp ∧ ComparesPaths base comp ↔
    Plain base comp ∧ ∀ front last, base.Leads (front ++ [last]) ∨ comp.Leads (front ++ [last]) →
      comp.Leads (front ++ [last]) ∧
        SameChange (base.owned last) (comp.owned last) (base.at (front ++ [last])) (comp.at (front ++ [last])) := by
  rw [reportsNames_iff]
  exact and_congr_right comparesPaths_iff

/-- A function that calls itself. -/
def recursion : FlameGraph.StackSample where
  comm := some (literal "app")
  user_stack := some [⟨some (literal "fib")⟩, ⟨some (literal "fib")⟩]
  count := some 1

theorem recursion_doubled : ¬ ∀ base comp : Profile, ReportsNames base comp ∧ ComparesPaths base comp := by
  intro right
  have plain := (reportsNames_iff _ _).mp (right ⟨false, [recursion]⟩ ⟨false, []⟩).1
  exact absurd (plain recursion List.mem_cons_self).1 (by decide)

end DiffView

end Illuminator
