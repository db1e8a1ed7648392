import Illuminator.Model.ElfSymbolCache
import Mathlib.Data.List.TakeWhile
import Mathlib.Tactic.Tauto

/-! # Looking symbols up

A lookup owes the name of a symbol that covers the address, or else of the nearest symbol without a size before it, if
no sized one lies between. The program looks at a single candidate, the last symbol that does not begin after the
address. Symbols that begin later hide the ones that enclose them, and at one value it is the order that the sorting
has left which decides.
-/

namespace Illuminator

namespace ElfSymbolCache

/-- The address lies in the symbol. The symbol's end is not bounded by 64 bits. -/
def Covers (s : Sym) (a : UInt64) : Prop := s.value ≤ a ∧ a.toNat < s.value.toNat + s.size.toNat

instance (s : Sym) (a : UInt64) : Decidable (Covers s a) := inferInstanceAs (Decidable (_ ∧ _))

/-- The nearest symbol without a size before an address, with no sized symbol between the two. -/
structure Marks (symbols : List Sym) (a : UInt64) (z : Sym) : Prop where
  member : z ∈ symbols
  plain : z.size = 0
  before : z.value ≤ a
  nearest : ∀ s ∈ symbols, s.size = 0 → s.value ≤ a → s.value ≤ z.value
  clear : ∀ s ∈ symbols, s.size ≠ 0 → ¬ (z.value < s.value ∧ s.value ≤ a)

/-- What a lookup owes to the symbols. -/
structure Owed (symbols : List Sym) (a : UInt64) (name : Bytes) : Prop where
  covered : (∃ s ∈ symbols, Covers s a) → ∃ s ∈ symbols, Covers s a ∧ s.name = name
  marked : (¬ ∃ s ∈ symbols, Covers s a) → (∃ z, Marks symbols a z) → ∃ z, Marks symbols a z ∧ z.name = name
  unknown : (¬ ∃ s ∈ symbols, Covers s a) → (¬ ∃ z, Marks symbols a z) → name = []

/-- The last symbol that does not begin after the address. -/
def Last (symbols_ : List Sym) (a : UInt64) (c : Sym) : Prop :=
  ∃ earlier later, symbols_ = earlier ++ c :: later ∧ c.value ≤ a ∧ ∀ s ∈ later, a < s.value

/-- When looking at this symbol alone is enough. Under an address that is covered it covers the address, and ends
within 64 bits, or has no size but the name of one that does. Under one that is not it has no size either, or no symbol
without a size shares its value. -/
def Suffices (symbols : List Sym) (a : UInt64) (c : Sym) : Prop :=
  ((∃ s ∈ symbols, Covers s a) → Covers c a ∧ c.value.toNat + c.size.toNat < 2 ^ 64 ∨
    c.size = 0 ∧ ∃ s ∈ symbols, Covers s a ∧ s.name = c.name) ∧
  ((¬ ∃ s ∈ symbols, Covers s a) → c.size = 0 ∨ ∀ z ∈ symbols, z.size = 0 → z.value ≠ c.value)

variable {symbols symbols_ : List Sym} {a : UInt64} {c : Sym}

/-! ## The candidate -/

theorem Last.member (last : Last symbols_ a c) : c ∈ symbols_ := by
  obtain ⟨earlier, later, rfl, _⟩ := last
  exact List.mem_append_right _ List.mem_cons_self

/-- No symbol up to the address begins after the last one. -/
theorem Last.greatest (ordered : symbols_.Pairwise fun first second => first.value ≤ second.value)
    (last : Last symbols_ a c) {s : Sym} (member : s ∈ symbols_) (before : s.value ≤ a) : s.value ≤ c.value := by
  obtain ⟨earlier, later, rfl, _, after⟩ := last
  rcases List.mem_append.mp member with first | second
  · exact (List.pairwise_append.mp ordered).2.2 s first c List.mem_cons_self
  · rcases List.mem_cons.mp second with rfl | second
    · exact UInt64.le_refl _
    · exact absurd (after s second) (UInt64.not_lt.mpr before)

/-- The symbols up to the address come first. -/
theorem takeWhile_of_split {earlier later : List Sym} (before : ∀ s ∈ earlier, s.value ≤ a)
    (after : ∀ s ∈ later, a < s.value) :
    (earlier ++ later).takeWhile (fun s => !decide (a < s.value)) = earlier := by
  have kept : ∀ s ∈ earlier, (!decide (a < s.value)) = true := by
    intro s member
    rw [decide_eq_false (UInt64.not_lt.mpr (before s member)), Bool.not_false]
  rw [List.takeWhile_append_of_pos kept]
  cases later with
  | nil => rw [List.takeWhile_nil, List.append_nil]
  | cons s rest => rw [List.takeWhile_cons, decide_eq_true (after s List.mem_cons_self), Bool.not_true,
      if_neg Bool.false_ne_true, List.append_nil]

theorem candidate_of_last (ordered : symbols_.Pairwise fun first second => first.value ≤ second.value)
    (last : Last symbols_ a c) : candidate symbols_ a = some c := by
  obtain ⟨earlier, later, rfl, before, after⟩ := last
  have upTo : ∀ s ∈ earlier ++ [c], s.value ≤ a := by
    intro s member
    rcases List.mem_append.mp member with first | same
    · exact UInt64.le_trans ((List.pairwise_append.mp ordered).2.2 s first c List.mem_cons_self) before
    · rwa [List.mem_singleton.mp same]
  rw [candidate, List.append_cons, takeWhile_of_split upTo after, List.getLast?_concat]

/-- Either every symbol begins after the address, or there is a last one that does not. -/
theorem last_cases (ordered : symbols_.Pairwise fun first second => first.value ≤ second.value) (a : UInt64) :
    (∀ s ∈ symbols_, a < s.value) ∨ ∃ c, Last symbols_ a c := by
  induction symbols_ with
  | nil => exact Or.inl fun _ member => absurd member List.not_mem_nil
  | cons s rest ih =>
    obtain ⟨first, others⟩ := List.pairwise_cons.mp ordered
    rcases ih others with after | ⟨c, earlier, later, split, before, after⟩
    · by_cases begins : a < s.value
      · exact Or.inl (List.forall_mem_cons.mpr ⟨begins, after⟩)
      · exact Or.inr ⟨s, [], rest, rfl, UInt64.not_lt.mp begins, after⟩
    · exact Or.inr ⟨c, s :: earlier, later, by rw [split, List.cons_append], before, after⟩

/-- What `Resolve` answers from the last symbol. -/
theorem resolve_of_last (ordered : symbols_.Pairwise fun first second => first.value ≤ second.value)
    (last : Last symbols_ a c) : Resolve symbols_ a =
      if c.size = 0 ∨ (Covers c a ∧ c.value.toNat + c.size.toNat < 2 ^ 64) then c.name else [] := by
  have before : c.value.toNat ≤ a.toNat := by
    obtain ⟨_, _, _, before, _⟩ := last
    exact UInt64.le_iff_toNat_le.mp before
  have size : c.size = 0 ↔ c.size.toNat = 0 := UInt64.toNat_inj.symm
  have bound := c.value.toNat_lt
  have width := c.size.toNat_lt
  have address := a.toNat_lt
  have ends : c.value + c.size ≤ a ↔ (c.value.toNat + c.size.toNat) % 2 ^ 64 ≤ a.toNat := by
    rw [UInt64.le_iff_toNat_le, UInt64.toNat_add]
  rw [Resolve, candidate_of_last ordered last]
  simp only [Covers, ne_eq, ends, size, UInt64.le_iff_toNat_le]
  split_ifs
  all_goals first
    | rfl
    | omega

theorem resolve_of_none (after : ∀ s ∈ symbols_, a < s.value) : Resolve symbols_ a = [] := by
  have none : ∀ s ∈ ([] : List Sym), s.value ≤ a := fun _ member => absurd member List.not_mem_nil
  rw [Resolve, candidate, ← List.nil_append symbols_, takeWhile_of_split none after]
  rfl

/-! ## What is owed -/

/-- Under an uncovered address a symbol without a size marks it where it begins with the last one. -/
theorem marks_iff (greatest : ∀ s ∈ symbols, s.value ≤ a → s.value ≤ c.value) (member : c ∈ symbols)
    (before : c.value ≤ a) (sized : c.size ≠ 0) (z : Sym) :
    Marks symbols a z ↔ z ∈ symbols ∧ z.size = 0 ∧ z.value = c.value := by
  constructor
  · intro marks
    refine ⟨marks.member, marks.plain, ?_⟩
    apply UInt64.le_antisymm (greatest z marks.member marks.before)
    exact UInt64.not_lt.mp fun between => marks.clear c member sized ⟨between, before⟩
  · rintro ⟨inside, plain, same⟩
    refine ⟨inside, plain, same ▸ before, fun s other _ upTo => same ▸ greatest s other upTo, ?_⟩
    rintro s other _ ⟨between, upTo⟩
    exact UInt64.not_lt.mpr (greatest s other upTo) (same ▸ between)

theorem owed_iff_suffices (sorts : Sorts symbols symbols_) (last : Last symbols_ a c) :
    Owed symbols a (Resolve symbols_ a) ↔ Suffices symbols a c := by
  have member : c ∈ symbols := sorts.perm.mem_iff.mp last.member
  have greatest : ∀ s ∈ symbols, s.value ≤ a → s.value ≤ c.value := fun s inside upTo =>
    last.greatest sorts.ordered (sorts.perm.mem_iff.mpr inside) upTo
  have before : c.value ≤ a := by
    obtain ⟨_, _, _, before, _⟩ := last
    exact before
  rw [resolve_of_last sorts.ordered last]
  by_cases covered : ∃ s ∈ symbols, Covers s a
  · have owed (name : Bytes) : Owed symbols a name ↔ ∃ s ∈ symbols, Covers s a ∧ s.name = name :=
      ⟨fun owed => owed.covered covered, fun found => ⟨fun _ => found, absurd covered, absurd covered⟩⟩
    rw [owed, Suffices, imp_iff_right covered, and_iff_left (absurd covered)]
    split_ifs with found
    · constructor
      · intro named
        rcases found with plain | inside
        · exact Or.inr ⟨plain, named⟩
        · exact Or.inl inside
      · rintro (⟨inside, _⟩ | ⟨_, named⟩)
        · exact ⟨c, member, inside, rfl⟩
        · exact named
    · constructor
      · rintro ⟨s, _, _, unnamed⟩
        exact absurd unnamed s.named
      · rintro (inside | ⟨plain, _⟩)
        · exact absurd (Or.inr inside) found
        · exact absurd (Or.inl plain) found
  · rw [Suffices, imp_iff_right covered, and_iff_right fun other => absurd other covered]
    split_ifs with found
    · have plain : c.size = 0 := found.resolve_right fun inside => covered ⟨c, member, inside.1⟩
      have marks : Marks symbols a c := by
        refine ⟨member, plain, before, fun s inside _ => greatest s inside, ?_⟩
        rintro s inside _ ⟨between, upTo⟩
        exact UInt64.not_lt.mpr (greatest s inside upTo) between
      exact ⟨fun _ => Or.inl plain, fun _ => ⟨fun other => absurd other covered, fun _ _ => ⟨c, marks, rfl⟩,
        fun _ unmarked => absurd ⟨c, marks⟩ unmarked⟩⟩
    · have sized : c.size ≠ 0 := fun plain => found (Or.inl plain)
      have marks := marks_iff greatest member before sized
      rw [or_iff_right sized]
      constructor
      · intro owed z inside plain same
        obtain ⟨other, _, unnamed⟩ := owed.marked covered ⟨z, (marks z).mpr ⟨inside, plain, same⟩⟩
        exact absurd unnamed other.named
      · intro apart
        have unmarked : ¬ ∃ z, Marks symbols a z := by
          rintro ⟨z, marked⟩
          obtain ⟨inside, plain, same⟩ := (marks z).mp marked
          exact apart z inside plain same
        exact ⟨fun other => absurd other covered, fun _ marked => absurd marked unmarked, fun _ _ => rfl⟩

/-- **When a lookup finds the right symbol.** Whatever order the sorting has left, `Resolve` gives the name that the
symbols owe to an address exactly when looking at the last symbol that does not begin after it is enough. -/
theorem resolve_owed_iff (sorts : Sorts symbols symbols_) (a : UInt64) :
    Owed symbols a (Resolve symbols_ a) ↔ ∀ c, Last symbols_ a c → Suffices symbols a c := by
  rcases last_cases sorts.ordered a with after | ⟨c, last⟩
  · have none {s : Sym} (member : s ∈ symbols) : ¬ s.value ≤ a :=
      UInt64.not_le.mpr (after s (sorts.perm.mem_iff.mpr member))
    rw [resolve_of_none after]
    refine ⟨fun _ c last => ?_, fun _ => ⟨?_, ?_, fun _ _ => rfl⟩⟩
    · have late := after c last.member
      obtain ⟨_, _, _, before, _⟩ := last
      exact absurd late (UInt64.not_lt.mpr before)
    · rintro ⟨s, member, covers⟩
      exact absurd covers.1 (none member)
    · rintro _ ⟨z, marks⟩
      exact absurd marks.before (none marks.member)
  · rw [owed_iff_suffices sorts last]
    constructor
    · intro suffices_ other otherLast
      have same := (candidate_of_last sorts.ordered otherLast).symm.trans (candidate_of_last sorts.ordered last)
      rwa [Option.some.inj same]
    · intro all
      exact all c last

/-- A function of 32 bytes with a label inside, and a smaller function after it. -/
def outer : Sym := ⟨0x1000, [0x66], 0x20, by decide⟩
def inner : Sym := ⟨0x1008, [0x67], 0x8, by decide⟩

theorem resolve_owed_iff_outer : Owed [inner, outer] 0x1004 (Resolve [outer, inner] 0x1004) := by
  refine (resolve_owed_iff ⟨List.Perm.swap _ _ _, by decide⟩ 0x1004).mpr ?_
  intro c last
  have first : candidate [outer, inner] 0x1004 = some outer := by decide
  obtain rfl := Option.some.inj (first.symm.trans (candidate_of_last (by decide) last))
  exact ⟨fun _ => Or.inl (by decide), absurd ⟨outer, List.mem_cons_of_mem _ List.mem_cons_self, by decide⟩⟩

/-- Behind the inner symbol the outer one is not found, although it covers the address. -/
theorem nested_hidden : ¬ ∀ (symbols symbols_ : List Sym) (a : UInt64), Sorts symbols symbols_ →
    Owed symbols a (Resolve symbols_ a) := by
  intro owed
  obtain ⟨s, _, _, unnamed⟩ := (owed [outer, inner] [outer, inner] 0x1018 ⟨List.Perm.refl _, by decide⟩).covered
    ⟨outer, List.mem_cons_self, by decide⟩
  exact s.named unnamed

end ElfSymbolCache

end Illuminator
