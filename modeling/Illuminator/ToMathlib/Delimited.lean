import Mathlib.Data.List.Basic

/-! # Delimited text

A piece of text that ends at the first occurrence of a delimiter can be cut off again, and so can a
list of pieces that ends at a second delimiter. Reading back needs only that the delimiters do not
occur inside the pieces. What splitting gives is free of the separator, whatever the text.
-/

namespace Delimited

variable {A S : Type*}

/-- Text up to the first delimiter determines itself and what follows. -/
theorem cut {delimiter : S} {left right leftRest rightRest : List S} (leftClean : delimiter ∉ left)
    (rightClean : delimiter ∉ right) (same : left ++ delimiter :: leftRest = right ++ delimiter :: rightRest) :
    left = right ∧ leftRest = rightRest := by
  induction left generalizing right with
  | nil =>
    cases right with
    | nil => exact ⟨rfl, (List.cons.inj same).2⟩
    | cons first rest =>
      have clash : delimiter = first := (List.cons.inj same).1
      exact absurd (clash ▸ List.mem_cons_self ..) rightClean
  | cons head tail ih =>
    cases right with
    | nil =>
      have clash : head = delimiter := (List.cons.inj same).1
      exact absurd (clash ▸ List.mem_cons_self ..) leftClean
    | cons first rest =>
      obtain ⟨heads, tails⟩ := List.cons.inj same
      obtain ⟨texts, rests⟩ := ih (fun inside => leftClean (List.mem_cons_of_mem _ inside))
        (fun inside => rightClean (List.mem_cons_of_mem _ inside)) tails
      exact ⟨by rw [heads, texts], rests⟩

/-- Every piece followed by a separator. -/
def pieces (separator : S) (render : A → List S) (items : List A) : List S :=
  items.flatMap fun item => render item ++ [separator]

@[simp] theorem pieces_nil (separator : S) (render : A → List S) : pieces separator render [] = [] := rfl

@[simp] theorem pieces_cons (separator : S) (render : A → List S) (item : A) (rest : List A) :
    pieces separator render (item :: rest) = render item ++ separator :: pieces separator render rest := by
  simp [pieces]

theorem notMem_pieces {separator stop : S} {render : A → List S} (different : stop ≠ separator) {items : List A}
    (clean : ∀ item ∈ items, stop ∉ render item) : stop ∉ pieces separator render items := by
  simp only [pieces, List.mem_flatMap, List.mem_append, List.mem_singleton, not_exists, not_and, not_or]
  exact fun item member => ⟨clean item member, different⟩

theorem notMem_intercalate {separator stop : S} (different : stop ≠ separator) {parts : List (List S)}
    (clean : ∀ part ∈ parts, stop ∉ part) : stop ∉ [separator].intercalate parts := by
  induction parts with
  | nil => exact List.not_mem_nil
  | cons part rest ih =>
    obtain ⟨first, others⟩ := List.forall_mem_cons.mp clean
    cases rest with
    | nil =>
      rw [List.intercalate_singleton]
      exact first
    | cons next rest =>
      rw [List.intercalate_cons_cons, List.mem_append, List.mem_append, List.mem_singleton, not_or, not_or]
      exact ⟨⟨first, different⟩, ih others⟩

/-- A list of good items is determined by the concatenation of its pieces. -/
theorem pieces_injOn {separator : S} {render : A → List S} {good : A → Prop}
    (injective : ∀ left right, good left → good right → render left = render right → left = right)
    (clean : ∀ item, good item → separator ∉ render item) {left right : List A} (lefts : ∀ item ∈ left, good item)
    (rights : ∀ item ∈ right, good item) (same : pieces separator render left = pieces separator render right) :
    left = right := by
  induction left generalizing right with
  | nil =>
    cases right with
    | nil => rfl
    | cons first rest => simp at same
  | cons head tail ih =>
    cases right with
    | nil => simp at same
    | cons first rest =>
      rw [List.forall_mem_cons] at lefts rights
      rw [pieces_cons, pieces_cons] at same
      obtain ⟨texts, rests⟩ := cut (clean head lefts.1) (clean first rights.1) same
      rw [injective head first lefts.1 rights.1 texts, ih lefts.2 rights.2 rests]

theorem pieces_injective {separator : S} {render : A → List S} (injective : Function.Injective render)
    (clean : ∀ item, separator ∉ render item) : Function.Injective (pieces separator render) := by
  intro left right same
  exact pieces_injOn (fun _ _ _ _ texts => injective texts) (fun item _ => clean item)
    (fun _ _ => trivial) (fun _ _ => trivial) same

/-! ## Splitting -/

section Splitting

variable [DecidableEq S] {separator : S}

/-- Splitting splits every piece, and gives what follows the last separator. -/
theorem splitOn_pieces (render : A → List S) (items : List A) : (pieces separator render items).splitOn separator =
    (items.flatMap fun item => (render item).splitOn separator) ++ [[]] := by
  induction items with
  | nil => rfl
  | cons item rest ih =>
    rw [pieces_cons, List.splitOn_append_cons_self, ih, List.flatMap_cons, List.append_assoc]

/-- Splitting gives clean pieces back. -/
theorem splitOn_pieces_of_clean {render : A → List S} {items : List A}
    (clean : ∀ item ∈ items, separator ∉ render item) :
    (pieces separator render items).splitOn separator = items.map render ++ [[]] := by
  rw [splitOn_pieces, List.flatMap_congr fun item member => List.splitOn_eq_singleton (clean item member)]
  congr 1
  exact List.flatMap_pure_eq_map render items

/-- The start of clean pieces is some of the pieces and the start of the next one. -/
theorem splitOn_prefix_pieces {render : A → List S} {items : List A} (clean : ∀ item ∈ items, separator ∉ render item)
    {front : List S} (starts : front <+: pieces separator render items) :
    ∃ m torn, m ≤ items.length ∧ front.splitOn separator = (items.take m).map render ++ [torn] ∧
      torn <+: (items[m]?.map render).getD [] ∧ front = pieces separator render (items.take m) ++ torn := by
  induction items generalizing front with
  | nil =>
    obtain rfl := List.prefix_nil.mp starts
    exact ⟨0, [], Nat.le_refl _, rfl, List.nil_prefix, rfl⟩
  | cons item rest ih =>
    obtain ⟨first, others⟩ := List.forall_mem_cons.mp clean
    rw [pieces_cons] at starts
    rcases List.prefix_or_prefix_of_prefix starts (List.prefix_append _ _) with inside | ⟨later, rfl⟩
    · refine ⟨0, front, Nat.zero_le _, ?_, inside, rfl⟩
      exact List.splitOn_eq_singleton fun found => first (inside.subset found)
    · cases later with
      | nil =>
        rw [List.append_nil]
        exact ⟨0, render item, Nat.zero_le _, List.splitOn_eq_singleton first, List.prefix_rfl, rfl⟩
      | cons stop later =>
        obtain ⟨rfl, continues⟩ := List.cons_prefix_cons.mp ((List.prefix_append_right_inj _).mp starts)
        obtain ⟨m, torn, short, parts, begins, whole⟩ := ih others continues
        refine ⟨m + 1, torn, Nat.succ_le_succ short, ?_, ?_, ?_⟩
        · rw [List.splitOn_append_cons_self_of_not_mem first, parts]
          rfl
        · rw [List.getElem?_cons_succ]
          exact begins
        · rw [List.take_succ_cons, pieces_cons, whole, List.append_assoc, List.cons_append]

/-- A text is split at its first separator. -/
theorem splitOn_first (text : List S) : text.splitOn separator = text.takeWhile (· != separator) ::
    if text.dropWhile (· != separator) = [] then [] else (text.dropWhile (· != separator)).tail.splitOn separator := by
  have front : separator ∉ text.takeWhile (· != separator) := fun member => by
    simpa using List.all_eq_true.mp List.all_takeWhile _ member
  have parts : text.takeWhile (· != separator) ++ text.dropWhile (· != separator) = text :=
    List.takeWhile_append_dropWhile
  split_ifs with whole
  · rw [whole, List.append_nil] at parts
    rw [parts] at front ⊢
    exact List.splitOn_eq_singleton front
  · obtain ⟨stop, rest, back⟩ := List.exists_cons_of_ne_nil whole
    have stops : stop = separator := by
      have first := List.head?_dropWhile_not (· != separator) text
      rw [back] at first
      simpa using first
    rw [back, List.tail_cons]
    conv_lhs => rw [← parts, back, stops]
    exact List.splitOn_append_cons_self_of_not_mem front rest

theorem mem_splitOn {text part : List S} (member : part ∈ text.splitOn separator) :
    separator ∉ part ∧ part ⊆ text := by
  induction text generalizing part with
  | nil =>
    obtain rfl := List.mem_singleton.mp member
    exact ⟨List.not_mem_nil, List.nil_subset _⟩
  | cons first rest ih =>
    rw [List.splitOn_cons_eq_if_modifyHead] at member
    split_ifs at member with same
    · rcases List.mem_cons.mp member with rfl | later
      · exact ⟨List.not_mem_nil, List.nil_subset _⟩
      · exact ⟨(ih later).1, List.subset_cons_of_subset _ (ih later).2⟩
    · cases split : rest.splitOn separator with
      | nil => exact absurd split (List.splitOn_ne_nil _ _)
      | cons head tail =>
        rw [split] at member ih
        rcases List.mem_cons.mp member with rfl | later
        · obtain ⟨clean, inside⟩ := ih List.mem_cons_self
          refine ⟨fun found => ?_, List.cons_subset_cons _ inside⟩
          rcases List.mem_cons.mp found with rfl | deeper
          · exact same (beq_self_eq_true _)
          · exact clean deeper
        · obtain ⟨clean, inside⟩ := ih (List.mem_cons_of_mem _ later)
          exact ⟨clean, List.subset_cons_of_subset _ inside⟩

/-- Cut a text at the last separator, which belongs to neither side. -/
def cutLast (separator : S) : List S → Option (List S × List S)
  | [] => none
  | first :: rest =>
    match cutLast separator rest with
    | some (front, back) => some (first :: front, back)
    | none => if first = separator then some ([], rest) else none

theorem cutLast_of_notMem {text : List S} (clean : separator ∉ text) : cutLast separator text = none := by
  induction text with
  | nil => rfl
  | cons first rest ih =>
    rw [List.mem_cons, not_or] at clean
    rw [cutLast, ih clean.2]
    exact if_neg (Ne.symm clean.1)

theorem cutLast_append (front : List S) {back : List S} (clean : separator ∉ back) :
    cutLast separator (front ++ separator :: back) = some (front, back) := by
  induction front with
  | nil =>
    rw [List.nil_append, cutLast, cutLast_of_notMem clean]
    exact if_pos rfl
  | cons first rest ih => rw [List.cons_append, cutLast, ih]

theorem eq_of_cutLast {text front back : List S} (cut : cutLast separator text = some (front, back)) :
    text = front ++ separator :: back := by
  induction text generalizing front with
  | nil => cases cut
  | cons first rest ih =>
    rw [cutLast] at cut
    split at cut
    · rename_i inner found
      obtain ⟨rfl, rfl⟩ := Prod.mk.inj (Option.some.inj cut)
      rw [ih found, List.cons_append]
    · split_ifs at cut with same
      obtain ⟨rfl, rfl⟩ := Prod.mk.inj (Option.some.inj cut)
      rw [same, List.nil_append]

end Splitting

end Delimited
