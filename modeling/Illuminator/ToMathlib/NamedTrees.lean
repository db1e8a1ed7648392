import Mathlib.Algebra.BigOperators.Group.List.Basic
import Mathlib.Algebra.Order.Ring.Nat

/-! # Trees with names

Nodes have a name, a label and children in a row. A path gives the names from a child of the root down. Weighted paths
are inserted into trees of weights, where siblings keep different names and a node weighs what the paths through it
weigh.
-/

/-- A node with a name, a label and its children. -/
inductive NamedTree (N L : Type*) where
  | node (name : N) (label : L) (children : List (NamedTree N L))

namespace NamedTree

variable {N L K : Type*}

def name : NamedTree N L → N
  | node name _ _ => name

def label : NamedTree N L → L
  | node _ label _ => label

def children : NamedTree N L → List (NamedTree N L)
  | node _ _ children => children

@[simp] theorem name_node (n : N) (l : L) (cs : List (NamedTree N L)) : (node n l cs).name = n := rfl

@[simp] theorem label_node (n : N) (l : L) (cs : List (NamedTree N L)) : (node n l cs).label = l := rfl

@[simp] theorem children_node (n : N) (l : L) (cs : List (NamedTree N L)) : (node n l cs).children = cs := rfl

/-- The node that a path leads to. -/
inductive At : NamedTree N L → List N → NamedTree N L → Prop
  | root (t : NamedTree N L) : At t [] t
  | child {t child found : NamedTree N L} {path : List N} (member : child ∈ t.children)
      (below : At child path found) : At t (child.name :: path) found

theorem at_nil {t found : NamedTree N L} (found_ : At t [] found) : found = t := by
  cases found_
  rfl

theorem at_cons {t found : NamedTree N L} {name : N} {path : List N} (found_ : At t (name :: path) found) :
    ∃ child ∈ t.children, child.name = name ∧ At child path found := by
  cases found_ with
  | child member below => exact ⟨_, member, rfl, below⟩

/-! ## Labels -/

mutual

/-- New labels for every node. -/
def map (f : N → L → K) : NamedTree N L → NamedTree N K
  | node name label children => node name (f name label) (mapAll f children)

def mapAll (f : N → L → K) : List (NamedTree N L) → List (NamedTree N K)
  | [] => []
  | child :: rest => map f child :: mapAll f rest

end

section Map

variable {f : N → L → K}

theorem mapAll_eq (children : List (NamedTree N L)) : mapAll f children = children.map (map f) := by
  induction children with
  | nil => rfl
  | cons child rest ih => rw [mapAll, ih, List.map_cons]

@[simp] theorem name_map (t : NamedTree N L) : (t.map f).name = t.name := by
  cases t with
  | node name label children => rw [map, name_node, name_node]

@[simp] theorem label_map (t : NamedTree N L) : (t.map f).label = f t.name t.label := by
  cases t with
  | node name label children => rw [map, label_node, label_node, name_node]

@[simp] theorem children_map (t : NamedTree N L) : (t.map f).children = t.children.map (map f) := by
  cases t with
  | node name label children => rw [map, children_node, children_node, mapAll_eq]

theorem At.map {t found : NamedTree N L} {path : List N} (at_ : At t path found) : At (t.map f) path (found.map f) := by
  induction at_ with
  | root t => exact .root _
  | @child t child found path member below ih =>
    have inside : child.map f ∈ (t.map f).children := by
      rw [children_map]
      exact List.mem_map_of_mem member
    have reached := At.child inside ih
    rwa [name_map] at reached

theorem At.of_map {t : NamedTree N L} {path : List N} {found : NamedTree N K} (at_ : At (t.map f) path found) :
    ∃ original, At t path original ∧ found = original.map f := by
  induction path generalizing t with
  | nil => exact ⟨t, .root t, at_nil at_⟩
  | cons name path ih =>
    obtain ⟨child, member, rfl, below⟩ := at_cons at_
    rw [children_map] at member
    obtain ⟨source, inside, rfl⟩ := List.mem_map.mp member
    obtain ⟨original, reached, same⟩ := ih below
    exact ⟨original, name_map (f := f) source ▸ .child inside reached, same⟩

end Map

theorem At.name_eq {t found : NamedTree N L} {front : List N} {last : N} (at_ : At t (front ++ [last]) found) :
    found.name = last := by
  induction front generalizing t with
  | nil =>
    obtain ⟨child, _, named, below⟩ := at_cons at_
    rw [at_nil below, named]
  | cons first rest ih =>
    obtain ⟨child, _, _, below⟩ := at_cons at_
    exact ih below

/-- Only the children of a root play a part below it. -/
theorem At.of_children {t other found : NamedTree N L} {path : List N} (present : path ≠ [])
    (same : t.children = other.children) (at_ : At t path found) : At other path found := by
  obtain ⟨name, rest, rfl⟩ := List.exists_cons_of_ne_nil present
  obtain ⟨child, member, rfl, below⟩ := at_cons at_
  exact .child (same ▸ member) below

/-! ## Entries -/

mutual

/-- The names and labels of all nodes, a node before its children. -/
def entries : NamedTree N L → List (N × L)
  | node name label children => (name, label) :: entriesAll children

def entriesAll : List (NamedTree N L) → List (N × L)
  | [] => []
  | child :: rest => entries child ++ entriesAll rest

end

theorem entries_eq (t : NamedTree N L) : entries t = (t.name, t.label) :: entriesAll t.children := by
  cases t with
  | node name label children => rw [entries, name_node, label_node, children_node]

/-- A name that is somewhere in a tree. -/
def Named (name : N) (entries : List (N × L)) : Prop := ∃ e ∈ entries, e.1 = name

@[simp] theorem named_nil (name : N) : ¬ Named name ([] : List (N × L)) := by
  rintro ⟨e, member, _⟩
  exact absurd member List.not_mem_nil

@[simp] theorem named_cons (name : N) (e : N × L) (rest : List (N × L)) :
    Named name (e :: rest) ↔ e.1 = name ∨ Named name rest := by
  rw [Named, List.exists_mem_cons_iff]
  rfl

@[simp] theorem named_append (name : N) (front back : List (N × L)) :
    Named name (front ++ back) ↔ Named name front ∨ Named name back := by
  constructor
  · rintro ⟨e, member, same⟩
    exact (List.mem_append.mp member).imp (fun inside => ⟨e, inside, same⟩) fun inside => ⟨e, inside, same⟩
  · rintro (⟨e, member, same⟩ | ⟨e, member, same⟩)
    · exact ⟨e, List.mem_append_left _ member, same⟩
    · exact ⟨e, List.mem_append_right _ member, same⟩

/-! ## Looking up -/

section Lookup

variable [DecidableEq N]

/-- The label that a path leads to, by the first child of every name. -/
def labelAt : List N → NamedTree N L → Option L
  | [], t => some t.label
  | name :: path, t => (t.children.find? fun child => child.name = name).bind (labelAt path)

theorem at_of_labelAt {path : List N} {t : NamedTree N L} {label : L} (known : labelAt path t = some label) :
    ∃ found, At t path found ∧ found.label = label := by
  induction path generalizing t with
  | nil => exact ⟨t, .root t, Option.some.inj known⟩
  | cons name path ih =>
    rw [labelAt, Option.bind_eq_some_iff] at known
    obtain ⟨child, first, below⟩ := known
    obtain ⟨found, reached, same⟩ := ih below
    have named := List.find?_some first
    rw [decide_eq_true_eq] at named
    exact ⟨found, named ▸ .child (List.mem_of_find?_eq_some first) reached, same⟩

/-- Siblings have different names, at every node. -/
inductive Distinct : NamedTree N L → Prop
  | node {name : N} {label : L} {children : List (NamedTree N L)}
      (names : (children.map NamedTree.name).Nodup) (below : ∀ child ∈ children, Distinct child) :
      Distinct (node name label children)

omit [DecidableEq N] in
theorem distinct_iff {t : NamedTree N L} :
    t.Distinct ↔ (t.children.map NamedTree.name).Nodup ∧ ∀ child ∈ t.children, Distinct child := by
  constructor
  · rintro ⟨names, below⟩
    exact ⟨names, below⟩
  · cases t
    rintro ⟨names, below⟩
    exact ⟨names, below⟩

theorem find?_of_nodup {children : List (NamedTree N L)} (names : (children.map NamedTree.name).Nodup)
    {child : NamedTree N L} (member : child ∈ children) :
    (children.find? fun other => other.name = child.name) = some child := by
  induction children with
  | nil => exact absurd member List.not_mem_nil
  | cons first rest ih =>
    obtain ⟨fresh, others⟩ := List.nodup_cons.mp names
    rcases List.mem_cons.mp member with rfl | later
    · rw [List.find?_cons, decide_eq_true rfl]
    · have apart : first.name ≠ child.name := by
        intro same
        exact fresh (same ▸ List.mem_map_of_mem later)
      rw [List.find?_cons, decide_eq_false apart]
      exact ih others later

theorem labelAt_of_at {t found : NamedTree N L} {path : List N} (distinct : t.Distinct) (at_ : At t path found) :
    labelAt path t = some found.label := by
  induction at_ with
  | root t => rfl
  | child member below ih =>
    obtain ⟨names, others⟩ := distinct_iff.mp distinct
    rw [labelAt, find?_of_nodup names member, Option.bind_some]
    exact ih (others _ member)

end Lookup

/-! ## Weighted paths -/

section Weights

def gain (weight : ℕ) : NamedTree N ℕ → NamedTree N ℕ
  | node name label children => node name (label + weight) children

@[simp] theorem name_gain (weight : ℕ) (t : NamedTree N ℕ) : (gain weight t).name = t.name := by
  cases t
  rfl

@[simp] theorem label_gain (weight : ℕ) (t : NamedTree N ℕ) : (gain weight t).label = t.label + weight := by
  cases t
  rfl

@[simp] theorem children_gain (weight : ℕ) (t : NamedTree N ℕ) : (gain weight t).children = t.children := by
  cases t
  rfl

variable [DecidableEq N]

/-- The first child of a name grows, or a new one behind the others. -/
def alter (name : N) (grow : NamedTree N ℕ → NamedTree N ℕ) : List (NamedTree N ℕ) → List (NamedTree N ℕ)
  | [] => [grow (node name 0 [])]
  | child :: rest => if child.name = name then grow child :: rest else child :: alter name grow rest

/-- Every node on the path gains the weight. -/
def insert : List N → ℕ → NamedTree N ℕ → NamedTree N ℕ
  | [], _, t => t
  | name :: path, weight, t =>
    node t.name t.label (alter name (fun child => insert path weight (gain weight child)) t.children)

@[simp] theorem name_insert (path : List N) (weight : ℕ) (t : NamedTree N ℕ) : (insert path weight t).name = t.name := by
  cases path <;> rfl

@[simp] theorem label_insert (path : List N) (weight : ℕ) (t : NamedTree N ℕ) :
    (insert path weight t).label = t.label := by
  cases path <;> rfl

variable {grow : NamedTree N ℕ → NamedTree N ℕ} {name : N} {weight : ℕ}

theorem find?_alter (named : ∀ t, (grow t).name = t.name) (children : List (NamedTree N ℕ)) (other : N) :
    (alter name grow children).find? (fun child => child.name = other) =
      if name = other then some (grow ((children.find? fun child => child.name = name).getD (node name 0 [])))
      else children.find? fun child => child.name = other := by
  induction children with
  | nil =>
    rw [alter, List.find?_singleton, named, name_node, List.find?_nil, List.find?_nil, Option.getD_none]
    by_cases same : name = other
    · rw [if_pos same, if_pos (decide_eq_true same)]
    · rw [if_neg same, if_neg (by rw [decide_eq_true_eq]; exact same)]
  | cons child rest ih =>
    rw [alter]
    by_cases here : child.name = name
    · rw [if_pos here, List.find?_cons, named, here, List.find?_cons, here, List.find?_cons, here, decide_eq_true rfl]
      by_cases same : name = other
      · rw [if_pos same, decide_eq_true same]
        rfl
      · rw [if_neg same, decide_eq_false same]
    · rw [if_neg here, List.find?_cons, ih, List.find?_cons (a := child), List.find?_cons (a := child),
        decide_eq_false here]
      by_cases same : name = other
      · rw [if_pos same, if_pos same, decide_eq_false (same ▸ here)]
      · rw [if_neg same, if_neg same]

theorem mem_alter {children : List (NamedTree N ℕ)} {t : NamedTree N ℕ} (member : t ∈ alter name grow children) :
    t ∈ children ∨ ∃ old, (old ∈ children ∨ old = node name 0 []) ∧ t = grow old := by
  induction children with
  | nil => exact .inr ⟨_, .inr rfl, List.mem_singleton.mp member⟩
  | cons child rest ih =>
    rw [alter] at member
    split_ifs at member with here
    · rcases List.mem_cons.mp member with rfl | later
      · exact .inr ⟨child, .inl List.mem_cons_self, rfl⟩
      · exact .inl (List.mem_cons_of_mem _ later)
    · rcases List.mem_cons.mp member with rfl | later
      · exact .inl List.mem_cons_self
      · rcases ih later with old | ⟨old, origin, same⟩
        · exact .inl (List.mem_cons_of_mem _ old)
        · exact .inr ⟨old, origin.imp_left (List.mem_cons_of_mem _), same⟩

theorem names_alter (name : N) (named : ∀ t, (grow t).name = t.name) (children : List (NamedTree N ℕ)) :
    (alter name grow children).map NamedTree.name = children.map NamedTree.name ∨
      name ∉ children.map NamedTree.name ∧
        (alter name grow children).map NamedTree.name = children.map NamedTree.name ++ [name] := by
  induction children with
  | nil =>
    rw [alter, List.map_singleton, named]
    exact .inr ⟨List.not_mem_nil, rfl⟩
  | cons child rest ih =>
    rw [alter]
    by_cases here : child.name = name
    · rw [if_pos here, List.map_cons, named]
      exact .inl rfl
    · rw [if_neg here, List.map_cons, List.map_cons]
      rcases ih with same | ⟨absent, added⟩
      · exact .inl (by rw [same])
      · refine .inr ⟨?_, by rw [added]; rfl⟩
        rw [List.mem_cons, not_or]
        exact ⟨Ne.symm here, absent⟩

theorem labels_alter {weight : ℕ} (grown : ∀ t, (grow t).label = t.label + weight) (children : List (NamedTree N ℕ)) :
    ((alter name grow children).map label).sum = (children.map label).sum + weight := by
  induction children with
  | nil => rw [alter, List.map_singleton, List.sum_singleton, grown, label_node, List.map_nil, List.sum_nil]
  | cons child rest ih =>
    rw [alter]
    split_ifs
    · rw [List.map_cons, List.map_cons, List.sum_cons, List.sum_cons, grown]
      omega
    · rw [List.map_cons, List.map_cons, List.sum_cons, List.sum_cons, ih]
      omega

theorem labelAt_leaf {path : List N} (present : path ≠ []) (name : N) (l : L) :
    labelAt path (node name l []) = none := by
  cases path with
  | nil => exact absurd rfl present
  | cons first rest => rfl

theorem labelAt_gain {path : List N} (present : path ≠ []) (t : NamedTree N ℕ) :
    labelAt path (gain weight t) = labelAt path t := by
  cases path with
  | nil => exact absurd rfl present
  | cons first rest => rw [labelAt, labelAt, children_gain]

/-- A path into the inserted one gains the weight, and every other one leads where it led. -/
theorem labelAt_insert {path : List N} (present : path ≠ []) (inserted : List N) (t : NamedTree N ℕ) :
    labelAt path (insert inserted weight t) =
      if path <+: inserted then some ((labelAt path t).getD 0 + weight) else labelAt path t := by
  induction inserted generalizing path t with
  | nil => rw [insert, if_neg (by rw [List.prefix_nil]; exact present)]
  | cons first inserted ih =>
    obtain ⟨name, path, rfl⟩ := List.exists_cons_of_ne_nil present
    have named (t : NamedTree N ℕ) : (insert inserted weight (gain weight t)).name = t.name := by
      rw [name_insert, name_gain]
    rw [insert, labelAt, labelAt, children_node, find?_alter named]
    by_cases same : first = name
    · subst same
      set child := (t.children.find? fun child => child.name = first).getD (node first 0 []) with found
      rw [if_pos rfl, Option.bind_some]
      cases path with
      | nil =>
        have through : [first] <+: first :: inserted := ⟨inserted, rfl⟩
        rw [labelAt, label_insert, label_gain, if_pos through, found]
        cases t.children.find? fun child => child.name = first <;> rfl
      | cons second rest =>
        have more : second :: rest ≠ [] := List.cons_ne_nil _ _
        have below : labelAt (second :: rest) child =
            (t.children.find? fun child => child.name = first).bind (labelAt (second :: rest)) := by
          rw [found]
          cases t.children.find? fun child => child.name = first with
          | none => exact labelAt_leaf more first 0
          | some old => rfl
        rw [ih more, labelAt_gain more, below]
        simp only [List.prefix_cons_inj]
    · have apart : ¬ name :: path <+: first :: inserted := fun through =>
        same (List.cons_prefix_cons.mp through).1.symm
      rw [if_neg same, if_neg apart]

/-- What the paths through a path weigh. -/
def through (paths : List (List N × ℕ)) (path : List N) : ℕ :=
  ((paths.filter fun p => path <+: p.1).map Prod.snd).sum

theorem through_cons (p : List N × ℕ) (rest : List (List N × ℕ)) (path : List N) :
    through (p :: rest) path = (if path <+: p.1 then p.2 else 0) + through rest path := by
  rw [through, List.filter_cons]
  split_ifs with first goes goes
  · rw [List.map_cons, List.sum_cons, through]
  · exact absurd (of_decide_eq_true first) goes
  · exact absurd (decide_eq_true goes) first
  · rw [Nat.zero_add, through]

theorem through_eq_zero {paths : List (List N × ℕ)} {path : List N} (none_ : ¬ ∃ p ∈ paths, path <+: p.1) :
    through paths path = 0 := by
  have nothing : paths.filter (fun p => path <+: p.1) = [] := by
    rw [List.filter_eq_nil_iff]
    intro p member
    rw [decide_eq_true_eq]
    exact fun goes => none_ ⟨p, member, goes⟩
  rw [through, nothing, List.map_nil, List.sum_nil]

def insertAll (paths : List (List N × ℕ)) (t : NamedTree N ℕ) : NamedTree N ℕ :=
  paths.foldl (fun t p => insert p.1 p.2 t) t

/-- After all insertions a path leads somewhere new exactly if one of them went through it. -/
theorem labelAt_insertAll {path : List N} (present : path ≠ []) (paths : List (List N × ℕ)) (t : NamedTree N ℕ) :
    labelAt path (insertAll paths t) =
      if ∃ p ∈ paths, path <+: p.1 then some ((labelAt path t).getD 0 + through paths path) else labelAt path t := by
  induction paths generalizing t with
  | nil => rw [if_neg (by rintro ⟨p, member, _⟩; exact absurd member List.not_mem_nil)]; rfl
  | cons p rest ih =>
    rw [insertAll, List.foldl_cons]
    change labelAt path (insertAll rest (insert p.1 p.2 t)) = _
    rw [ih, labelAt_insert present, through_cons]
    by_cases here : path <+: p.1
    · have some_ : ∃ q ∈ p :: rest, path <+: q.1 := ⟨p, List.mem_cons_self, here⟩
      rw [if_pos here, if_pos some_, if_pos here, Option.getD_some]
      split_ifs with later
      · rw [Nat.add_assoc]
      · rw [through_eq_zero later, Nat.add_zero]
    · have same : (∃ q ∈ p :: rest, path <+: q.1) ↔ ∃ q ∈ rest, path <+: q.1 := by
        rw [List.exists_mem_cons_iff]
        exact or_iff_right here
      rw [if_neg here, if_neg here, Nat.zero_add]
      simp only [same]

/-! ## Weights of nodes -/

/-- Siblings have different names, and a node weighs no less than its children, at every node. -/
inductive Weighted : NamedTree N ℕ → Prop
  | node {name : N} {weight : ℕ} {children : List (NamedTree N ℕ)}
      (names : (children.map NamedTree.name).Nodup) (bounded : (children.map label).sum ≤ weight)
      (below : ∀ child ∈ children, Weighted child) : Weighted (node name weight children)

/-- Children with different names, each of them weighted. -/
def Forest (children : List (NamedTree N ℕ)) : Prop :=
  (children.map NamedTree.name).Nodup ∧ ∀ child ∈ children, Weighted child

omit [DecidableEq N] in
theorem weighted_iff {t : NamedTree N ℕ} : t.Weighted ↔ Forest t.children ∧ (t.children.map label).sum ≤ t.label := by
  constructor
  · rintro ⟨names, bounded, below⟩
    exact ⟨⟨names, below⟩, bounded⟩
  · cases t
    rintro ⟨⟨names, below⟩, bounded⟩
    exact ⟨names, bounded, below⟩

omit [DecidableEq N] in
theorem Weighted.distinct {t : NamedTree N ℕ} (weighted : t.Weighted) : t.Distinct := by
  induction weighted with
  | node names bounded below ih => exact ⟨names, ih⟩

omit [DecidableEq N] in
theorem Weighted.at {t found : NamedTree N ℕ} {path : List N} (weighted : t.Weighted) (at_ : At t path found) :
    found.Weighted := by
  induction at_ with
  | root t => exact weighted
  | child member below ih => exact ih ((weighted_iff.mp weighted).1.2 _ member)

omit [DecidableEq N] in
theorem weighted_leaf (name : N) (weight : ℕ) : Weighted (node name weight []) :=
  ⟨List.nodup_nil, Nat.zero_le _, fun _ member => absurd member List.not_mem_nil⟩

theorem forest_alter (named : ∀ t, (grow t).name = t.name) (grown : ∀ t, Weighted t → Weighted (grow t))
    {children : List (NamedTree N ℕ)} (forest : Forest children) : Forest (alter name grow children) := by
  obtain ⟨names, below⟩ := forest
  refine ⟨?_, ?_⟩
  · rcases names_alter name named children with same | ⟨absent, added⟩
    · rw [same]
      exact names
    · rw [added, List.nodup_append]
      refine ⟨names, List.pairwise_singleton _ _, ?_⟩
      rintro first inside last member rfl
      exact absent (List.mem_singleton.mp member ▸ inside)
  · intro child member
    rcases mem_alter member with old | ⟨old, origin, rfl⟩
    · exact below child old
    · rcases origin with inside | rfl
      · exact grown old (below old inside)
      · exact grown _ (weighted_leaf name 0)

theorem weighted_insert (path : List N) (weight : ℕ) {t : NamedTree N ℕ} (weighted : t.Weighted) :
    Weighted (insert path weight (gain weight t)) := by
  induction path generalizing t with
  | nil =>
    obtain ⟨forest, bounded⟩ := weighted_iff.mp weighted
    rw [insert, weighted_iff, children_gain, label_gain]
    exact ⟨forest, Nat.le_trans bounded (Nat.le_add_right _ _)⟩
  | cons first path ih =>
    obtain ⟨forest, bounded⟩ := weighted_iff.mp weighted
    have named (t : NamedTree N ℕ) : (insert path weight (gain weight t)).name = t.name := by
      rw [name_insert, name_gain]
    have grown (t : NamedTree N ℕ) : (insert path weight (gain weight t)).label = t.label + weight := by
      rw [label_insert, label_gain]
    rw [insert, weighted_iff, children_node, label_node, children_gain, labels_alter grown, label_gain]
    exact ⟨forest_alter named (fun t => ih) forest, Nat.add_le_add_right bounded weight⟩

/-- The children of a root stay a forest. -/
theorem forest_insert (path : List N) (weight : ℕ) {t : NamedTree N ℕ} (forest : Forest t.children) :
    Forest (insert path weight t).children := by
  cases path with
  | nil => exact forest
  | cons first path =>
    have named (t : NamedTree N ℕ) : (insert path weight (gain weight t)).name = t.name := by
      rw [name_insert, name_gain]
    exact forest_alter named (fun t => weighted_insert path weight) forest

theorem forest_insertAll (paths : List (List N × ℕ)) {t : NamedTree N ℕ} (forest : Forest t.children) :
    Forest (insertAll paths t).children := by
  induction paths generalizing t with
  | nil => exact forest
  | cons p rest ih => exact ih (forest_insert p.1 p.2 forest)

/-- The children of a root weigh what was inserted. -/
theorem labels_insertAll {paths : List (List N × ℕ)} (present : ∀ p ∈ paths, p.1 ≠ []) (t : NamedTree N ℕ) :
    ((insertAll paths t).children.map label).sum = (t.children.map label).sum + (paths.map Prod.snd).sum := by
  induction paths generalizing t with
  | nil => rfl
  | cons p rest ih =>
    obtain ⟨first, others⟩ := List.forall_mem_cons.mp present
    obtain ⟨name, path, split⟩ := List.exists_cons_of_ne_nil first
    have grown (t : NamedTree N ℕ) : (insert path p.2 (gain p.2 t)).label = t.label + p.2 := by
      rw [label_insert, label_gain]
    rw [insertAll, List.foldl_cons]
    change ((insertAll rest (insert p.1 p.2 t)).children.map label).sum = _
    rw [ih others, split, insert, children_node, labels_alter grown, List.map_cons, List.sum_cons]
    omega

/-! ## Totals of a name -/

/-- What the nodes of a name weigh together. -/
def total (name : N) (entries : List (N × ℕ)) : ℕ := ((entries.filter fun e => e.1 = name).map Prod.snd).sum

@[simp] theorem total_nil (name : N) : total name [] = 0 := rfl

theorem total_cons (name : N) (e : N × ℕ) (rest : List (N × ℕ)) :
    total name (e :: rest) = (if e.1 = name then e.2 else 0) + total name rest := by
  rw [total, List.filter_cons]
  by_cases same : e.1 = name
  · rw [if_pos (decide_eq_true same), if_pos same, List.map_cons, List.sum_cons, total]
  · rw [if_neg (by rw [decide_eq_true_eq]; exact same), if_neg same, Nat.zero_add, total]

theorem total_append (name : N) (front back : List (N × ℕ)) :
    total name (front ++ back) = total name front + total name back := by
  rw [total, List.filter_append, List.map_append, List.sum_append, total, total]

theorem total_alter {f : N} {g : ℕ}
    (grown : ∀ t, t.name = name → total f (entries (grow t)) = total f (entries t) + g)
    (children : List (NamedTree N ℕ)) :
    total f (entriesAll (alter name grow children)) = total f (entriesAll children) + g := by
  induction children with
  | nil =>
    have leaf : total f (entries (node name 0 [])) = 0 := by
      rw [entries, total_cons, entriesAll, total_nil]
      split_ifs <;> rfl
    simp only [alter, entriesAll, List.append_nil]
    rw [grown _ rfl, leaf, total_nil]
  | cons child rest ih =>
    rw [alter]
    split_ifs with here
    · rw [entriesAll, entriesAll, total_append, total_append, grown child here]
      omega
    · rw [entriesAll, entriesAll, total_append, total_append, ih]
      omega

/-- A name gains the weight as often as it is on the path. -/
theorem total_insert [BEq N] [LawfulBEq N] (f : N) (path : List N) (weight : ℕ) (t : NamedTree N ℕ) :
    total f (entries (insert path weight t)) = total f (entries t) + weight * path.count f := by
  induction path generalizing t with
  | nil => rw [insert, List.count_nil, Nat.mul_zero, Nat.add_zero]
  | cons first path ih =>
    have grown (t : NamedTree N ℕ) (named : t.name = first) :
        total f (entries (insert path weight (gain weight t))) =
          total f (entries t) + weight * (first :: path).count f := by
      rw [ih, entries_eq, entries_eq t, total_cons, total_cons, name_gain, label_gain, children_gain, named,
        List.count_cons]
      by_cases same : first = f
      · rw [if_pos same, if_pos same, if_pos (beq_iff_eq.mpr same), Nat.mul_add]
        omega
      · rw [if_neg same, if_neg same, if_neg (by rw [beq_iff_eq]; exact same)]
        rfl
    rw [insert, entries, total_cons, total_alter grown, entries_eq t, total_cons]
    omega

theorem named_alter {f : N} {goes : Prop}
    (grown : ∀ t, t.name = name → (Named f (entries (grow t)) ↔ Named f (entries t) ∨ goes)) (here : f = name → goes)
    (children : List (NamedTree N ℕ)) :
    Named f (entriesAll (alter name grow children)) ↔ Named f (entriesAll children) ∨ goes := by
  induction children with
  | nil =>
    have leaf : Named f (entries (node name 0 [])) ↔ f = name := by
      rw [entries, named_cons, entriesAll, eq_comm]
      exact or_iff_left (named_nil f)
    rw [alter, entriesAll, entriesAll, named_append, grown _ rfl, leaf]
    constructor
    · rintro ((same | through) | absent)
      · exact .inr (here same)
      · exact .inr through
      · exact .inl absent
    · exact fun known => .inl (.inr (known.resolve_left (named_nil f)))
  | cons child rest ih =>
    rw [alter]
    split_ifs with same
    · rw [entriesAll, entriesAll, named_append, named_append, grown child same]
      tauto
    · rw [entriesAll, entriesAll, named_append, named_append, ih, or_assoc]

theorem named_insert (f : N) (path : List N) (weight : ℕ) (t : NamedTree N ℕ) :
    Named f (entries (insert path weight t)) ↔ Named f (entries t) ∨ f ∈ path := by
  induction path generalizing t with
  | nil => rw [insert, or_iff_left List.not_mem_nil]
  | cons first path ih =>
    have grown (t : NamedTree N ℕ) (named : t.name = first) :
        Named f (entries (insert path weight (gain weight t))) ↔ Named f (entries t) ∨ f ∈ first :: path := by
      rw [ih, entries_eq, entries_eq t, named_cons, named_cons, name_gain, children_gain, named, List.mem_cons]
      tauto
    rw [insert, entries, named_cons, named_alter grown (fun same => same ▸ List.mem_cons_self), entries_eq t, named_cons,
      or_assoc]

theorem label_insertAll (paths : List (List N × ℕ)) (t : NamedTree N ℕ) : (insertAll paths t).label = t.label := by
  induction paths generalizing t with
  | nil => rfl
  | cons p rest ih => exact (ih _).trans (label_insert p.1 p.2 t)

theorem name_insertAll (paths : List (List N × ℕ)) (t : NamedTree N ℕ) : (insertAll paths t).name = t.name := by
  induction paths generalizing t with
  | nil => rfl
  | cons p rest ih => exact (ih _).trans (name_insert p.1 p.2 t)

theorem total_insertAll [BEq N] [LawfulBEq N] (f : N) (paths : List (List N × ℕ)) (t : NamedTree N ℕ) :
    total f (entries (insertAll paths t)) =
      total f (entries t) + (paths.map fun p => p.2 * p.1.count f).sum := by
  induction paths generalizing t with
  | nil => rfl
  | cons p rest ih =>
    rw [insertAll, List.foldl_cons]
    change total f (entries (insertAll rest (insert p.1 p.2 t))) = _
    rw [ih, total_insert, List.map_cons, List.sum_cons]
    omega

theorem named_insertAll (f : N) (paths : List (List N × ℕ)) (t : NamedTree N ℕ) :
    Named f (entries (insertAll paths t)) ↔ Named f (entries t) ∨ ∃ p ∈ paths, f ∈ p.1 := by
  induction paths generalizing t with
  | nil => exact (or_iff_left (by rintro ⟨p, member, _⟩; exact absurd member List.not_mem_nil)).symm
  | cons p rest ih =>
    rw [insertAll, List.foldl_cons]
    change Named f (entries (insertAll rest (insert p.1 p.2 t))) ↔ _
    rw [ih, named_insert, List.exists_mem_cons_iff, or_assoc]

end Weights

end NamedTree
