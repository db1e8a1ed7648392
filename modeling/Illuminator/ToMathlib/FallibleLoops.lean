import Mathlib.Data.List.Basic

/-! # Loops with effects

A loop whose turns may fail gives something exactly when each turn does, and what it gives comes turn by turn from the
items. A loop over a state gives for each item what its turn gives in every state that the other turns lead to.
-/

namespace List

variable {α β γ : Type} {turn : α → Option β}

theorem isSome_mapM (turn : α → Option β) (items : List α) :
    (items.mapM turn).isSome = true ↔ ∀ item ∈ items, (turn item).isSome = true := by
  induction items with
  | nil => simp
  | cons item rest ih =>
    rw [mapM_cons, forall_mem_cons, ← ih]
    cases turn item with
    | none => simp
    | some first => cases rest.mapM turn <;> simp

/-- What a loop gives comes from one of its items. -/
theorem exists_of_mem_mapM {items : List α} {results : List β} (finished : items.mapM turn = some results) {result : β}
    (member : result ∈ results) : ∃ item ∈ items, turn item = some result := by
  induction items generalizing results with
  | nil =>
    obtain rfl : [] = results := by simpa using finished
    exact absurd member not_mem_nil
  | cons item rest ih =>
    rw [mapM_cons] at finished
    obtain ⟨first, turned, finished⟩ := Option.bind_eq_some_iff.mp finished
    obtain ⟨others, looped, finished⟩ := Option.bind_eq_some_iff.mp finished
    obtain rfl := Option.some.inj finished
    rcases mem_cons.mp member with rfl | later
    · exact ⟨item, mem_cons_self, turned⟩
    · obtain ⟨source, inside, found⟩ := ih looped later
      exact ⟨source, mem_cons_of_mem _ inside, found⟩

/-- What a turn gives is among what the loop gives. -/
theorem mem_of_mapM {items : List α} {results : List β} (finished : items.mapM turn = some results) {item : α}
    (inside : item ∈ items) {result : β} (turned : turn item = some result) : result ∈ results := by
  induction items generalizing results with
  | nil => exact absurd inside not_mem_nil
  | cons first rest ih =>
    rw [mapM_cons] at finished
    obtain ⟨head, turnedFirst, finished⟩ := Option.bind_eq_some_iff.mp finished
    obtain ⟨others, looped, finished⟩ := Option.bind_eq_some_iff.mp finished
    obtain rfl := Option.some.inj finished
    rcases mem_cons.mp inside with rfl | later
    · rw [turnedFirst] at turned
      rw [Option.some.inj turned]
      exact mem_cons_self
    · exact mem_cons_of_mem _ (ih looped later)

/-- A loop over several rows for each item. -/
theorem mapM_flatMap_eq_some {f : γ → List α} {g : γ → List β} {items : List γ}
    (read : ∀ item ∈ items, (f item).mapM turn = some (g item)) :
    (items.flatMap f).mapM turn = some (items.flatMap g) := by
  induction items with
  | nil => rfl
  | cons item rest ih =>
    rw [flatMap_cons, mapM_append, read item mem_cons_self, ih fun other member => read other (mem_cons_of_mem _ member)]
    rfl

/-- A loop over one row for each item. -/
theorem mapM_map_eq_some {f : γ → α} {g : γ → β} {items : List γ}
    (read : ∀ item ∈ items, turn (f item) = some (g item)) : (items.map f).mapM turn = some (items.map g) := by
  induction items with
  | nil => rfl
  | cons item rest ih =>
    rw [map_cons, mapM_cons, read item mem_cons_self, ih fun other member => read other (mem_cons_of_mem _ member)]
    rfl

/-- A loop over a state, when what a turn gives is the same in every state that the loop passes. -/
theorem mapM_state {σ : Type} (holds : σ → Prop) {turn : α → StateM σ β} {value : α → β}
    (each : ∀ item s, holds s → (turn item s).1 = value item ∧ holds (turn item s).2) (items : List α) {s : σ}
    (initial : holds s) : (items.mapM turn s).1 = items.map value ∧ holds (items.mapM turn s).2 := by
  induction items generalizing s with
  | nil => exact ⟨rfl, initial⟩
  | cons item rest ih =>
    obtain ⟨first, kept⟩ := each item s initial
    obtain ⟨others, last⟩ := ih kept
    rw [mapM_cons, map_cons, ← first, ← others]
    exact ⟨rfl, last⟩

end List
