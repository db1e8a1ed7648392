import Mathlib.Data.List.Basic
import Mathlib.Data.List.Infix

/-! # Arenas and views

A memory is a family of arenas. An arena only grows while it lives, and is given back as a whole. A
view names an arena, an offset and a length, and does not keep the arena alive: what it shows is what
it showed before exactly as long as it lies inside an arena that lives. An empty view shows nothing
whatever it names.
-/

namespace Arenas

variable {α : Type*}

/-- What each arena holds, by its number. -/
abbrev Memory (α : Type*) := List (List α)

structure View where
  arena : ℕ
  offset : ℕ
  length : ℕ
  deriving DecidableEq

def View.null : View := ⟨0, 0, 0⟩

/-- What an arena holds. -/
def Memory.bytes (memory : Memory α) (arena : ℕ) : List α := memory.getD arena []

/-- What a view shows. -/
def Memory.read (memory : Memory α) (view : View) : List α :=
  ((memory.bytes view.arena).drop view.offset).take view.length

/-- A view that is empty, or lies inside an arena. -/
def OwnedBy (memory : Memory α) (arena : ℕ) (view : View) : Prop :=
  view.length = 0 ∨ (view.arena = arena ∧ view.offset + view.length ≤ (memory.bytes arena).length)

instance (memory : Memory α) (arena : ℕ) (view : View) : Decidable (OwnedBy memory arena view) :=
  inferInstanceAs (Decidable (_ ∨ _))

/-- A later memory has the same arenas and more in them. -/
structure Grows (memory later : Memory α) : Prop where
  same : later.length = memory.length
  more : ∀ arena, memory.bytes arena <+: later.bytes arena

/-- Put something at an arena's end. -/
def Memory.append (memory : Memory α) (arena : ℕ) (bytes : List α) : Memory α := memory.modify arena (· ++ bytes)

/-- Give an arena back. -/
def Memory.release (memory : Memory α) (arena : ℕ) : Memory α := memory.set arena []

variable {memory later final : Memory α} {arena : ℕ} {view : View}

theorem Grows.refl (memory : Memory α) : Grows memory memory := ⟨rfl, fun _ => List.prefix_rfl⟩

theorem Grows.trans (first : Grows memory later) (second : Grows later final) : Grows memory final :=
  ⟨second.same.trans first.same, fun arena => (first.more arena).trans (second.more arena)⟩

theorem bytes_append (memory : Memory α) {arena : ℕ} (present : arena < memory.length) (bytes : List α) (other : ℕ) :
    (memory.append arena bytes).bytes other =
      if other = arena then memory.bytes arena ++ bytes else memory.bytes other := by
  simp only [Memory.bytes, Memory.append, List.getD_eq_getElem?_getD, List.getElem?_modify]
  split_ifs with same swapped swapped
  · rw [swapped, List.getElem?_eq_getElem present]
    rfl
  · exact absurd same.symm swapped
  · exact absurd swapped.symm same
  · cases memory[other]? <;> rfl

theorem grows_append (memory : Memory α) {arena : ℕ} (present : arena < memory.length) (bytes : List α) :
    Grows memory (memory.append arena bytes) := by
  refine ⟨List.length_modify .., fun other => ?_⟩
  rw [bytes_append memory present]
  split_ifs with same
  · rw [same]
    exact List.prefix_append ..
  · exact List.prefix_rfl

/-- An owned view stays owned as its arena grows, and shows what it showed. -/
theorem OwnedBy.grows (owned : OwnedBy memory arena view) (grown : Grows memory later) : OwnedBy later arena view :=
  owned.imp_right fun ⟨here, inside⟩ => ⟨here, inside.trans (grown.more arena).length_le⟩

theorem OwnedBy.read_grows (owned : OwnedBy memory arena view) (grown : Grows memory later) :
    later.read view = memory.read view := by
  rcases owned with empty | ⟨here, inside⟩
  · rw [Memory.read, Memory.read, empty, List.take_zero, List.take_zero]
  · obtain ⟨rest, same⟩ := grown.more arena
    subst here
    rw [Memory.read, Memory.read, ← same, List.drop_append_of_le_length (by omega),
      List.take_append_of_le_length (by rw [List.length_drop]; omega)]

/-- A view of what has just been put at an arena's end. -/
theorem ownedBy_append (memory : Memory α) {arena : ℕ} (present : arena < memory.length) (bytes : List α) :
    OwnedBy (memory.append arena bytes) arena ⟨arena, (memory.bytes arena).length, bytes.length⟩ := by
  refine Or.inr ⟨rfl, ?_⟩
  rw [bytes_append memory present, if_pos rfl, List.length_append]

theorem read_append (memory : Memory α) {arena : ℕ} (present : arena < memory.length) (bytes : List α) :
    (memory.append arena bytes).read ⟨arena, (memory.bytes arena).length, bytes.length⟩ = bytes := by
  rw [Memory.read, bytes_append memory present, if_pos rfl, List.drop_left, List.take_length]

/-- What an owned view shows outlives every other arena. -/
theorem OwnedBy.read_release (owned : OwnedBy memory arena view) {other : ℕ} (different : other ≠ arena) :
    (memory.release other).read view = memory.read view := by
  rcases owned with empty | ⟨here, _⟩
  · rw [Memory.read, Memory.read, empty, List.take_zero, List.take_zero]
  · subst here
    simp only [Memory.read, Memory.bytes, Memory.release, List.getD_eq_getElem?_getD, List.getElem?_set_ne different]

/-- A view inside one arena is owned by another only when it is empty. -/
theorem OwnedBy.empty_of_ne (owned : OwnedBy memory arena view) {other : ℕ} (different : other ≠ arena)
    (elsewhere : OwnedBy later other view) : view.length = 0 := by
  rcases owned with empty | ⟨here, _⟩
  · exact empty
  · rcases elsewhere with empty | ⟨there, _⟩
    · exact empty
    · exact absurd (there.symm.trans here) different

end Arenas
