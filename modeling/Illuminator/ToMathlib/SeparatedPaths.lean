import Mathlib.Data.List.Basic

/-! # Paths written with a separator

A path is a list of parts, written by joining the parts with a separator. A store keyed by such
texts holds a tree of values when each text is looked up at the path it spells. Writing at a path,
grafting a second store below it and reading below it are then operations on the tree.
-/

namespace SeparatedPaths

section Texts

variable {S : Type*} {separator : S}

/-- A part that the separator delimits. -/
def Part (separator : S) (part : List S) : Prop := part ≠ [] ∧ separator ∉ part

/-- The text of a path. -/
def joined (separator : S) (path : List (List S)) : List S := [separator].intercalate path

/-- A text followed by another one below it, which may be empty. -/
def extend (separator : S) (text rest : List S) : List S := if rest = [] then text else text ++ separator :: rest

@[simp] theorem joined_nil : joined separator [] = [] := rfl

@[simp] theorem joined_singleton (part : List S) : joined separator [part] = part := List.intercalate_singleton

theorem joined_cons (part : List S) {path : List (List S)} (more : path ≠ []) :
    joined separator (part :: path) = part ++ separator :: joined separator path := by
  rw [joined, List.intercalate_cons_of_ne_nil more, List.append_assoc, joined, List.singleton_append]

theorem joined_append {front back : List (List S)} (first : front ≠ []) (second : back ≠ []) :
    joined separator (front ++ back) = joined separator front ++ separator :: joined separator back := by
  induction front with
  | nil => exact absurd rfl first
  | cons part rest ih =>
    cases rest with
    | nil =>
      rw [List.singleton_append, joined_cons part second, joined_singleton]
    | cons next others =>
      rw [List.cons_append, joined_cons part (by simp), joined_cons part (List.cons_ne_nil _ _),
        ih (List.cons_ne_nil _ _), List.append_assoc, List.cons_append]

theorem joined_ne_nil {path : List (List S)} (some : path ≠ []) (clean : [] ∉ path) : joined separator path ≠ [] := by
  cases path with
  | nil => exact absurd rfl some
  | cons part rest =>
    have present : part ≠ [] := fun nothing => clean (nothing ▸ List.mem_cons_self)
    cases rest with
    | nil => rwa [joined_singleton]
    | cons next others =>
      rw [joined_cons part (List.cons_ne_nil _ _)]
      exact List.append_ne_nil_of_left_ne_nil present _

theorem nil_notMem_of_parts {path : List (List S)} (parts : ∀ part ∈ path, Part separator part) : [] ∉ path :=
  fun inside => (parts [] inside).1 rfl

theorem extend_injective (text : List S) : Function.Injective (extend separator text) := by
  intro left right same
  unfold extend at same
  split_ifs at same with first second
  · rw [first, second]
  · simp at same
  · simp at same
  · exact (List.cons.inj (List.append_cancel_left same)).2

end Texts

variable {S V : Type*} [DecidableEq S] {separator : S}

/-- The path that a text spells; the empty text spells the path without parts. -/
def segments (separator : S) (text : List S) : List (List S) := if text = [] then [] else text.splitOn separator

@[simp] theorem segments_nil : segments separator [] = [] := rfl

@[simp] theorem joined_segments (text : List S) : joined separator (segments separator text) = text := by
  unfold segments
  split_ifs with empty
  · rw [joined_nil, empty]
  · exact List.intercalate_splitOn separator

theorem segments_joined {path : List (List S)} (parts : ∀ part ∈ path, Part separator part) :
    segments separator (joined separator path) = path := by
  by_cases empty : path = []
  · rw [empty, joined_nil, segments_nil]
  · rw [segments, if_neg (joined_ne_nil empty (nil_notMem_of_parts parts))]
    exact List.splitOn_intercalate separator (fun part member => (parts part member).2) empty

theorem eq_joined_iff {path : List (List S)} (parts : ∀ part ∈ path, Part separator part) (text : List S) :
    text = joined separator path ↔ segments separator text = path := by
  constructor
  · rintro rfl
    exact segments_joined parts
  · rintro rfl
    exact (joined_segments text).symm

theorem segments_of_part {part : List S} (clean : Part separator part) : segments separator part = [part] := by
  rw [segments, if_neg clean.1, List.splitOn_eq_singleton clean.2]

theorem segments_append {text : List S} (present : text ≠ []) (rest : List S) :
    segments separator (text ++ separator :: rest) = segments separator text ++ rest.splitOn separator := by
  rw [segments, if_neg (List.append_ne_nil_of_left_ne_nil present _), segments, if_neg present]
  exact List.splitOn_append_cons_self text rest

/-- Extending the text of a path extends the path. -/
theorem segments_extend {path : List (List S)} (some : path ≠ []) (parts : ∀ part ∈ path, Part separator part)
    (rest : List S) :
    segments separator (extend separator (joined separator path) rest) = path ++ segments separator rest := by
  unfold extend
  split_ifs with empty
  · rw [segments_joined parts, empty, segments_nil, List.append_nil]
  · rw [segments_append (joined_ne_nil some (nil_notMem_of_parts parts)), segments_joined parts, segments, if_neg empty]

/-- A text that spells an extension of a path, without an empty part below it, extends the text of the path. -/
theorem exists_extend {path rest : List (List S)} {text : List S} (some : path ≠ [])
    (parts : ∀ part ∈ path, Part separator part) (clean : [] ∉ rest)
    (spelled : segments separator text = path ++ rest) :
    ∃ tail, extend separator (joined separator path) tail = text ∧ segments separator tail = rest := by
  have written : joined separator (path ++ rest) = text := by rw [← spelled, joined_segments]
  have extended : extend separator (joined separator path) (joined separator rest) = text := by
    by_cases empty : rest = []
    · rw [← written, empty, List.append_nil, joined_nil, extend, if_pos rfl]
    · rw [extend, if_neg (joined_ne_nil empty clean), ← joined_append some empty, written]
  have spelling := segments_extend some parts (joined separator rest)
  rw [extended, spelled] at spelling
  exact ⟨joined separator rest, extended, (List.append_cancel_left spelling).symm⟩

/-- The text of a path does not end with a separator. -/
theorem getLast?_joined {path : List (List S)} (parts : ∀ part ∈ path, Part separator part) :
    (joined separator path).getLast? ≠ some separator := by
  intro ends
  obtain ⟨front, text⟩ := List.getLast?_eq_some_iff.mp ends
  have spelled : path = front.splitOn separator ++ [[]] := by
    rw [← segments_joined parts, text, segments, if_neg (by simp), List.splitOn_append_cons_self]
    rfl
  exact nil_notMem_of_parts parts (spelled ▸ List.mem_append_right _ List.mem_cons_self)

/-- One text starts with the other and a separator just when its path leads below the other's. -/
theorem joined_prefix_iff {path whole : List (List S)} (some : path ≠ []) (parts : ∀ part ∈ path, Part separator part)
    (wholeParts : ∀ part ∈ whole, Part separator part) :
    joined separator path ++ [separator] <+: joined separator whole ↔ path <+: whole ∧ path ≠ whole := by
  constructor
  · rintro ⟨rest, text⟩
    have spelled : whole = path ++ rest.splitOn separator := by
      rw [← segments_joined wholeParts, ← text, List.append_assoc, List.singleton_append,
        segments_append (joined_ne_nil some (nil_notMem_of_parts parts)), segments_joined parts]
    refine ⟨spelled ▸ List.prefix_append _ _, fun same => List.splitOn_ne_nil separator rest ?_⟩
    exact List.self_eq_append_right.mp (same.trans spelled)
  · rintro ⟨⟨more, rfl⟩, apart⟩
    have below : more ≠ [] := fun nothing => apart (by rw [nothing, List.append_nil])
    refine ⟨joined separator more, ?_⟩
    rw [joined_append some below, List.append_assoc, List.singleton_append]

section Trees

variable {P : Type*} [DecidableEq P]

/-- A tree of values moved below a path. -/
def under (path : List P) (tree : List P → Option V) (whole : List P) : Option V :=
  (whole.dropPrefix? path).bind tree

@[simp] theorem under_append (path rest : List P) (tree : List P → Option V) :
    under path tree (path ++ rest) = tree rest := by
  rw [under, List.dropPrefix?_append_of_beq rest (beq_self_eq_true path), Option.bind_some]

@[simp] theorem under_nil (tree : List P → Option V) (whole : List P) : under [] tree whole = tree whole :=
  under_append [] whole tree

theorem under_eq_some {path whole : List P} {tree : List P → Option V} {value : V} :
    under path tree whole = some value ↔ ∃ rest, whole = path ++ rest ∧ tree rest = some value := by
  constructor
  · intro found
    obtain ⟨rest, dropped, inside⟩ := Option.bind_eq_some_iff.mp found
    obtain ⟨front, split, same⟩ := List.dropPrefix?_eq_some_iff.mp dropped
    exact ⟨rest, by rw [split, eq_of_beq same], inside⟩
  · rintro ⟨rest, rfl, inside⟩
    rw [under_append, inside]

theorem under_eq_none {path whole : List P} {tree : List P → Option V} (outside : ¬ path <+: whole) :
    under path tree whole = none := by
  rw [Option.eq_none_iff_forall_ne_some]
  intro value found
  obtain ⟨rest, split, _⟩ := under_eq_some.mp found
  exact outside ⟨rest, split.symm⟩

theorem under_under (outer inner : List P) (tree : List P → Option V) :
    under outer (under inner tree) = under (outer ++ inner) tree := by
  funext whole
  refine Option.ext fun value => ?_
  rw [under_eq_some, under_eq_some]
  constructor
  · rintro ⟨rest, rfl, found⟩
    obtain ⟨last, rfl, inside⟩ := under_eq_some.mp found
    exact ⟨last, (List.append_assoc ..).symm, inside⟩
  · rintro ⟨last, rfl, inside⟩
    exact ⟨inner ++ last, List.append_assoc .., under_eq_some.mpr ⟨last, rfl, inside⟩⟩

theorem under_or (path whole : List P) (tree other : List P → Option V) :
    (under path other whole).or (under path tree whole) =
      under path (fun rest => (other rest).or (tree rest)) whole := by
  unfold under
  cases whole.dropPrefix? path <;> rfl

end Trees

/-- A tree without an empty part on the path of any value. -/
def Clean (tree : List (List S) → Option V) : Prop := ∀ path, tree path ≠ none → [] ∉ path

/-- A store keyed by texts holds a tree: every text is found at the path it spells. -/
def Holds (separator : S) (lookup : List S → Option V) (tree : List (List S) → Option V) : Prop :=
  ∀ text, lookup text = tree (segments separator text)

section Stores

variable {lookup after nested : List S → Option V} {tree subtree : List (List S) → Option V} {path : List (List S)}

/-- Writing one text writes the value at its path. -/
theorem Holds.write (holds : Holds separator lookup tree) (parts : ∀ part ∈ path, Part separator part) {value : V}
    (written : ∀ text, after text = if text = joined separator path then some value else lookup text) :
    Holds separator after fun whole => if whole = path then some value else tree whole := by
  intro text
  simp only [written, eq_joined_iff parts, holds text]

/-- Copying a second store to the extensions of a path puts its tree below the path. -/
theorem Holds.graft (holds : Holds separator lookup tree) (inner : Holds separator nested subtree)
    (clean : Clean subtree) (below : path ≠ []) (parts : ∀ part ∈ path, Part separator part)
    (written : ∀ tail, after (extend separator (joined separator path) tail) =
      (nested tail).or (lookup (extend separator (joined separator path) tail)))
    (kept : ∀ text, (∀ tail, extend separator (joined separator path) tail ≠ text) → after text = lookup text) :
    Holds separator after fun whole => (under path subtree whole).or (tree whole) := by
  intro text
  change after text = (under path subtree (segments separator text)).or (tree (segments separator text))
  by_cases image : ∃ tail, extend separator (joined separator path) tail = text
  · obtain ⟨tail, rfl⟩ := image
    rw [written, inner, holds, segments_extend below parts, under_append]
  · have elsewhere : under path subtree (segments separator text) = none := by
      rw [Option.eq_none_iff_forall_ne_some]
      intro value found
      obtain ⟨rest, spelled, inside⟩ := under_eq_some.mp found
      obtain ⟨tail, extended, _⟩ := exists_extend below parts (clean rest (by simp [inside])) spelled
      exact image ⟨tail, extended⟩
    rw [kept text (not_exists.mp image), holds, elsewhere, Option.none_or]

/-- Reading the extensions of a path reads the tree below it; a text that ends in the separator spells no path of
the tree. -/
theorem Holds.below (holds : Holds separator lookup tree) (clean : Clean tree) (below : path ≠ [])
    (parts : ∀ part ∈ path, Part separator part)
    (selected : ∀ tail, after tail = (if tail = [] then lookup (joined separator path ++ [separator]) else none).or
      (lookup (extend separator (joined separator path) tail))) :
    Holds separator after fun rest => tree (path ++ rest) := by
  intro tail
  have dangling : lookup (joined separator path ++ [separator]) = none := by
    have present : joined separator path ≠ [] := joined_ne_nil below (nil_notMem_of_parts parts)
    rw [holds, segments_append present, List.splitOn_nil]
    by_contra found
    exact clean _ found (by simp)
  rw [selected, dangling, ite_self, Option.none_or, holds, segments_extend below parts]

end Stores

end SeparatedPaths
