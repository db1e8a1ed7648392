import Illuminator.Model.FlameGraph

/-! # Weights of a flame graph

A profile's tree has exactly the prefixes of its samples' paths as nodes, each with the weight of the samples through
it.
-/

namespace Illuminator

namespace FlameGraph

open NamedTree

/-- A profile by the paths of its samples and what they weigh. -/
def weighted (isOffCpu : Bool) (samples : List StackSample) : List (List JsString × ℕ) :=
  samples.map fun sample => (frames sample, weight isOffCpu sample)

/-- What the samples weigh whose path begins with this one. -/
def weightThrough (isOffCpu : Bool) (samples : List StackSample) (path : List JsString) : ℕ :=
  ((samples.filter fun sample => path <+: frames sample).map (weight isOffCpu)).sum

theorem through_weighted (isOffCpu : Bool) (samples : List StackSample) (path : List JsString) :
    through (weighted isOffCpu samples) path = weightThrough isOffCpu samples path := by
  rw [through, weighted, List.filter_map, List.map_map]
  rfl

/-- The root before it gets its value. -/
def grown (isOffCpu : Bool) (samples : List StackSample) : FlameNode :=
  insertAll (weighted isOffCpu samples) (.node (literal "root") 0 [])

theorem convertToFlameNode_eq (isOffCpu : Bool) (samples : List StackSample) :
    convertToFlameNode (some samples) isOffCpu = .node (grown isOffCpu samples).name
      ((grown isOffCpu samples).children.map label).sum (grown isOffCpu samples).children := by
  have same : samples.foldl (fun root sample => insertStack root (frames sample) (weight isOffCpu sample))
      (.node (literal "root") 0 []) = grown isOffCpu samples := by
    rw [grown, weighted, insertAll, List.foldl_map]
    rfl
  rw [convertToFlameNode, Option.getD_some]
  simp only [same]

theorem grown_forest (isOffCpu : Bool) (samples : List StackSample) : Forest (grown isOffCpu samples).children :=
  forest_insertAll _ ⟨List.nodup_nil, fun _ member => absurd member List.not_mem_nil⟩

theorem root_total (isOffCpu : Bool) (samples : List StackSample) :
    (convertToFlameNode (some samples) isOffCpu).label = (samples.map (weight isOffCpu)).sum := by
  have present : ∀ p ∈ weighted isOffCpu samples, p.1 ≠ [] := by
    intro p member
    obtain ⟨sample, _, rfl⟩ := List.mem_map.mp member
    exact frames_ne_nil sample
  rw [convertToFlameNode_eq, label_node, grown, labels_insertAll present, weighted, List.map_map]
  exact Nat.zero_add _

theorem tree_weighted (isOffCpu : Bool) (samples : List StackSample) :
    Weighted (convertToFlameNode (some samples) isOffCpu) := by
  rw [convertToFlameNode_eq, weighted_iff]
  exact ⟨grown_forest isOffCpu samples, Nat.le_refl _⟩

/-- What a path leads to. -/
theorem labelAt_tree (isOffCpu : Bool) (samples : List StackSample) {path : List JsString} (present : path ≠ []) :
    labelAt path (convertToFlameNode (some samples) isOffCpu) =
      if ∃ sample ∈ samples, path <+: frames sample then some (weightThrough isOffCpu samples path) else none := by
  have below : labelAt path (convertToFlameNode (some samples) isOffCpu) = labelAt path (grown isOffCpu samples) := by
    obtain ⟨name, rest, rfl⟩ := List.exists_cons_of_ne_nil present
    rw [convertToFlameNode_eq, labelAt, children_node, labelAt]
  have goes : (∃ p ∈ weighted isOffCpu samples, path <+: p.1) ↔ ∃ sample ∈ samples, path <+: frames sample := by
    constructor
    · rintro ⟨p, member, starts⟩
      obtain ⟨sample, inside, rfl⟩ := List.mem_map.mp member
      exact ⟨sample, inside, starts⟩
    · rintro ⟨sample, inside, starts⟩
      exact ⟨_, List.mem_map_of_mem inside, starts⟩
  rw [below, grown, labelAt_insertAll present, labelAt_leaf present, Option.getD_none, Nat.zero_add, through_weighted]
  simp only [goes]

/-- A path leads somewhere if it is the beginning of a sample's path. -/
theorem exists_at_iff (isOffCpu : Bool) (samples : List StackSample) {path : List JsString} (present : path ≠ []) :
    (∃ node, (convertToFlameNode (some samples) isOffCpu).At path node) ↔
      ∃ sample ∈ samples, path <+: frames sample := by
  have leads := labelAt_tree isOffCpu samples present
  constructor
  · rintro ⟨node, reached⟩
    by_contra nowhere
    rw [if_neg nowhere, labelAt_of_at (tree_weighted isOffCpu samples).distinct reached] at leads
    cases leads
  · intro goes
    rw [if_pos goes] at leads
    obtain ⟨node, reached, _⟩ := at_of_labelAt leads
    exact ⟨node, reached⟩

/-- The tree of a profile: its nodes are the prefixes of the samples' paths, each weighs what the samples through it
weigh and no less than its children, whose names differ, and the root weighs what all samples weigh. -/
theorem flame_weights (isOffCpu : Bool) (samples : List StackSample) :
    let root := convertToFlameNode (some samples) isOffCpu
    (∀ path node, root.At path node → node.label = weightThrough isOffCpu samples path) ∧
      (∀ path node, root.At path node → (node.children.map NamedTree.name).Nodup) ∧
      (∀ path, (∃ node, root.At path node) ↔ path = [] ∨ ∃ sample ∈ samples, path <+: frames sample) ∧
      (∀ path node, root.At path node → (node.children.map label).sum ≤ node.label) ∧
      root.label = (samples.map (weight isOffCpu)).sum := by
  intro root
  have weighted : root.Weighted := tree_weighted isOffCpu samples
  refine ⟨?_, ?_, ?_, ?_, root_total isOffCpu samples⟩
  · intro path node reached
    by_cases top : path = []
    · subst top
      rw [at_nil reached, root_total, weightThrough, List.filter_eq_self.mpr]
      exact fun sample _ => decide_eq_true List.nil_prefix
    · have label : labelAt path root = some node.label := labelAt_of_at weighted.distinct reached
      rw [labelAt_tree isOffCpu samples top] at label
      split_ifs at label
      exact (Option.some.inj label).symm
  · exact fun path node reached => (weighted_iff.mp (weighted.at reached)).1.1
  · intro path
    by_cases top : path = []
    · subst top
      exact ⟨fun _ => .inl rfl, fun _ => ⟨root, .root root⟩⟩
    · rw [or_iff_right top]
      exact exists_at_iff isOffCpu samples top
  · exact fun path node reached => (weighted_iff.mp (weighted.at reached)).2

end FlameGraph

end Illuminator
