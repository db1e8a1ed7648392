import Illuminator.Model.ElfSymbolCache
import Illuminator.ToMathlib.FallibleLoops

/-! # Reads of an ELF file

The program takes every offset, size, count and link from the file and checks none of them against the file's length.
Which reads it makes depends on what it has read before: the types of all sections, the header of the section with the
symbols and that of its strings, and of each symbol as much as it takes to tell that it is not kept. `Load` stays
inside the buffer exactly when all of these lie inside.
-/

namespace Illuminator

open BoundedReads ElfSymbolCache

variable (buf : Bytes)

/-- A file whose section headers the program goes through. -/
structure Sectioned : Prop where
  length : 64 ≤ buf.length
  magic : buf.take 5 = ident
  headers : number buf 0x28 8 ≠ 0
  entsize : number buf 0x3A 2 = 64

def headersAt : UInt64 := .ofNat (number buf 0x28 8)

def sections : List ℕ := List.range (number buf 0x3C 2)

def sectionType (i : ℕ) : ℕ := number buf (shdr (headersAt buf) i + 4) 4

/-- The section with the symbols: the first `.symtab`, or else the first `.dynsym`. -/
def symbolSection : Option ℕ :=
  ((sections buf).find? (sectionType buf · = SHT_SYMTAB)).or ((sections buf).find? (sectionType buf · = SHT_DYNSYM))

/-- The table that a section's header describes. -/
def tableOf (i : ℕ) : SymbolTable where
  symtab := .ofNat (number buf (shdr (headersAt buf) i + 24) 8)
  sym_count := number buf (shdr (headersAt buf) i + 32) 8 / 24
  strtab := .ofNat (number buf (shdr (headersAt buf) (number buf (shdr (headersAt buf) i + 40) 4) + 24) 8)

/-- The fields of a section's header that are read, and the one of the header it links to. -/
structure TableInside (i : ℕ) : Prop where
  offset : Inside buf (shdr (headersAt buf) i + 24) 8
  size : Inside buf (shdr (headersAt buf) i + 32) 8
  link : Inside buf (shdr (headersAt buf) i + 40) 4
  strings : Inside buf (shdr (headersAt buf) (number buf (shdr (headersAt buf) i + 40) 4) + 24) 8

/-- A symbol with a name, of a type that is kept. -/
def Considered (sym : UInt64) : Prop :=
  number buf sym 4 ≠ 0 ∧ number buf (sym + 4) 1 % 16 ∈ [STT_FUNC, STT_GNU_IFUNC, STT_OBJECT]

/-- The fields of a symbol that are read, and its name up to the NUL. -/
structure SymbolInside (table : SymbolTable) (sym : UInt64) : Prop where
  info : Inside buf (sym + 4) 1
  name : Inside buf sym 4
  value : Considered buf sym → Inside buf (sym + 8) 8
  size : Considered buf sym → number buf (sym + 8) 8 = 0 → Inside buf (sym + 16) 8
  string : Considered buf sym → number buf (sym + 8) 8 ≠ 0 ∨ number buf (sym + 16) 8 ≠ 0 →
    Terminated buf (table.strtab + .ofNat (number buf sym 4)) ∧
      (text buf (table.strtab + .ofNat (number buf sym 4)) ≠ [] → Inside buf (sym + 16) 8)

/-- Everything that the program reads lies in the file. -/
structure ReadsInside : Prop where
  types : ∀ i ∈ sections buf, Inside buf (shdr (headersAt buf) i + 4) 4
  table : ∀ i ∈ symbolSection buf, TableInside buf i
  symbols : ∀ i ∈ symbolSection buf, ∀ j < (tableOf buf i).sym_count,
    SymbolInside buf (tableOf buf i) (entry (tableOf buf i).symtab j)

variable {buf}

/-! ## One read after another -/

/-- A table is read when its header's fields lie inside. -/
theorem readTable_eq (i : ℕ) [Decidable (TableInside buf i)] : readTable buf (headersAt buf) i =
    if TableInside buf i then some (tableOf buf i) else none := by
  split_ifs with inside
  · obtain ⟨offset, size, link, strings⟩ := inside
    simp only [readTable, readNumber, if_pos offset, if_pos size, if_pos link, if_pos strings, Option.bind_eq_bind,
      Option.bind_some]
    rfl
  · rw [← Option.not_isSome_iff_eq_none]
    intro found
    simp only [readTable, isSome_readNumber_bind] at found
    exact inside ⟨found.1, found.2.1, found.2.2.1, found.2.2.2.1⟩

/-- The loop for `.symtab` finds the first one, if the types of all sections can be read. -/
theorem findSymtab_eq {items : List ℕ} (inside : ∀ i ∈ items, Inside buf (shdr (headersAt buf) i + 4) 4)
    (found : Option SymbolTable) : findSymtab buf (headersAt buf) items found =
      if found = none then (items.find? (sectionType buf · = SHT_SYMTAB)).elim (some none) fun i =>
        (readTable buf (headersAt buf) i).map some
      else some found := by
  induction items generalizing found with
  | nil => split_ifs with missing <;> simp [findSymtab, missing]
  | cons i rest ih =>
    obtain ⟨first, later⟩ := List.forall_mem_cons.mp inside
    rw [findSymtab, readNumber, if_pos first, Option.bind_eq_bind, Option.bind_some, List.find?_cons]
    change (if sectionType buf i = SHT_SYMTAB ∧ found = none then _ else _) = _
    by_cases missing : found = none
    · by_cases matching : sectionType buf i = SHT_SYMTAB
      · rw [if_pos ⟨matching, missing⟩, if_pos missing]
        simp only [matching, decide_true, Option.elim_some]
        cases readTable buf (headersAt buf) i with
        | none => rfl
        | some table => exact ih later (some table)
      · rw [if_neg (fun both => matching both.1), ih later, if_pos missing, if_pos missing]
        simp only [matching, decide_false]
    · rw [if_neg (fun both => missing both.2), ih later, if_neg missing, if_neg missing]

/-- The loop for `.dynsym` finds the first one. -/
theorem findDynsym_eq {items : List ℕ} (inside : ∀ i ∈ items, Inside buf (shdr (headersAt buf) i + 4) 4) :
    findDynsym buf (headersAt buf) items = (items.find? (sectionType buf · = SHT_DYNSYM)).elim (some none) fun i =>
      (readTable buf (headersAt buf) i).map some := by
  induction items with
  | nil => rfl
  | cons i rest ih =>
    obtain ⟨first, later⟩ := List.forall_mem_cons.mp inside
    rw [findDynsym, readNumber, if_pos first, Option.bind_eq_bind, Option.bind_some, List.find?_cons]
    change (if sectionType buf i = SHT_DYNSYM then _ else _) = _
    by_cases matching : sectionType buf i = SHT_DYNSYM
    · rw [if_pos matching]
      simp only [matching, decide_true, Option.elim_some]
      cases readTable buf (headersAt buf) i <;> rfl
    · rw [if_neg matching, ih later]
      simp only [matching, decide_false]

/-- Without the types of all sections neither loop comes to an end. -/
theorem types_of_findSymtab {items : List ℕ} {found : Option SymbolTable}
    (finished : (findSymtab buf (headersAt buf) items found).isSome = true) :
    ∀ i ∈ items, Inside buf (shdr (headersAt buf) i + 4) 4 := by
  induction items generalizing found with
  | nil => exact fun _ member => absurd member List.not_mem_nil
  | cons i rest ih =>
    rw [findSymtab, isSome_readNumber_bind] at finished
    obtain ⟨first, finished⟩ := finished
    refine List.forall_mem_cons.mpr ⟨first, ?_⟩
    split_ifs at finished
    · cases read : readTable buf (headersAt buf) i with
      | none =>
        rw [read] at finished
        cases finished
      | some table =>
        rw [read] at finished
        exact ih finished
    · exact ih finished

/-- The section with the symbols is found where all types lie inside, and its table read where that does. -/
theorem findTable_eq (types : ∀ i ∈ sections buf, Inside buf (shdr (headersAt buf) i + 4) 4) :
    findTable buf (headersAt buf) (number buf 0x3C 2) =
      (symbolSection buf).elim (some none) fun i => (readTable buf (headersAt buf) i).map some := by
  rw [findTable]
  change (findSymtab buf (headersAt buf) (sections buf) none >>= _) = _
  rw [findSymtab_eq types, if_pos rfl, symbolSection]
  cases (sections buf).find? (sectionType buf · = SHT_SYMTAB) with
  | none => exact findDynsym_eq types
  | some i =>
    change (do let symtab ← (readTable buf (headersAt buf) i).map some; _) = (readTable buf (headersAt buf) i).map some
    cases readTable buf (headersAt buf) i <;> rfl

/-- The name of a symbol is read up to its NUL, and the size of one with a name. -/
private theorem isSome_keep (void : Bool) (value : ℕ) (name size : UInt64) :
    (if void then pure none
      else do
        let name ← readString buf name
        if named : name = [] then pure none
        else
          let st_size ← readNumber buf size 8
          pure (some ⟨.ofNat value, name, .ofNat st_size, named⟩) : Option (Option Sym)).isSome = true ↔
      (void = false → Terminated buf name ∧ (text buf name ≠ [] → Inside buf size 8)) := by
  cases void with
  | true => exact ⟨fun _ => fun kept => Bool.noConfusion kept, fun _ => rfl⟩
  | false =>
    rw [if_neg Bool.false_ne_true, isSome_readString_bind]
    split_ifs with named
    · simp [named]
    · rw [isSome_readNumber_bind]
      simp [named]

/-- A turn of the loop stays inside when what it reads of the symbol does. -/
theorem isSome_readSymbol (table : SymbolTable) (j : ℕ) : (readSymbol buf table j).isSome = true ↔
    SymbolInside buf table (entry table.symtab j) := by
  unfold readSymbol
  rw [isSome_readNumber_bind, isSome_readNumber_bind]
  split_ifs with unnamed other
  · have passed : ¬ Considered buf (entry table.symtab j) := fun considered => considered.1 unnamed
    exact ⟨fun ⟨info, name, _⟩ => ⟨info, name, (absurd · passed), (absurd · passed), (absurd · passed)⟩,
      fun inside => ⟨inside.info, inside.name, rfl⟩⟩
  · have passed : ¬ Considered buf (entry table.symtab j) := by
      rintro ⟨_, kept⟩
      simp only [List.mem_cons, List.not_mem_nil, or_false] at kept
      tauto
    exact ⟨fun ⟨info, name, _⟩ => ⟨info, name, (absurd · passed), (absurd · passed), (absurd · passed)⟩,
      fun inside => ⟨inside.info, inside.name, rfl⟩⟩
  · have considered : Considered buf (entry table.symtab j) := by
      refine ⟨unnamed, ?_⟩
      simp only [List.mem_cons, List.not_mem_nil, or_false]
      tauto
    rw [isSome_readNumber_bind]
    split_ifs with zero
    · rw [isSome_map_readNumber_bind]
      change _ ∧ _ ∧ _ ∧ _ ∧ (if _ then _ else _ : Option (Option Sym)).isSome = true ↔ _
      rw [isSome_keep, beq_eq_false_iff_ne]
      constructor
      · rintro ⟨info, name, value, size, string⟩
        exact ⟨info, name, fun _ => value, fun _ _ => size, fun _ kept => string (kept.resolve_left (absurd zero))⟩
      · intro inside
        exact ⟨inside.info, inside.name, inside.value considered, inside.size considered zero,
          fun kept => inside.string considered (Or.inr kept)⟩
    · rw [pure_bind, isSome_keep]
      constructor
      · rintro ⟨info, name, value, string⟩
        exact ⟨info, name, fun _ => value, fun _ none => absurd none zero, fun _ _ => string rfl⟩
      · intro inside
        exact ⟨inside.info, inside.name, inside.value considered, fun _ => inside.string considered (Or.inl zero)⟩

/-- Loading goes on behind the file's header only where it has section headers. -/
theorem load_eq (long : 64 ≤ buf.length) [Decidable (Sectioned buf)] : Load (some buf) =
    if Sectioned buf then
      findTable buf (headersAt buf) (number buf 0x3C 2) >>= fun found =>
        match found with
        | none => pure []
        | some table =>
          (List.range table.sym_count).mapM (readSymbol buf table) >>= fun symbols => pure symbols.reduceOption
    else some [] := by
  have shoff : readNumber buf 0x28 8 = some (number buf 0x28 8) := if_pos (show 40 + 8 ≤ buf.length by omega)
  have shentsize : readNumber buf 0x3A 2 = some (number buf 0x3A 2) := if_pos (show 58 + 2 ≤ buf.length by omega)
  have shnum : readNumber buf 0x3C 2 = some (number buf 0x3C 2) := if_pos (show 60 + 2 ≤ buf.length by omega)
  rw [Load, if_neg (not_lt.mpr long), shoff, shentsize, shnum]
  change (if _ then _ else _) = _
  split_ifs with other sectioned sectioned
  · obtain ⟨_, magic, headers, entsize⟩ := sectioned
    exact absurd other (by simp [magic, headers, entsize])
  · rfl
  · rfl
  · simp only [not_or, not_not] at other
    exact absurd ⟨long, other.1, other.2.1, other.2.2⟩ sectioned

theorem isSome_load_of_sectioned (sectioned : Sectioned buf) : (Load (some buf)).isSome = true ↔ ReadsInside buf := by
  classical
  rw [load_eq sectioned.length, if_pos sectioned]
  have symbols (table : SymbolTable) : ((List.range table.sym_count).mapM (readSymbol buf table) >>=
      fun symbols => pure symbols.reduceOption).isSome = true ↔
      ∀ j < table.sym_count, SymbolInside buf table (entry table.symtab j) := by
    rw [bind_pure_comp, Option.map_eq_map, Option.isSome_map, List.isSome_mapM]
    simp only [List.mem_range, isSome_readSymbol]
  constructor
  · intro finished
    have types : ∀ i ∈ sections buf, Inside buf (shdr (headersAt buf) i + 4) 4 := by
      refine types_of_findSymtab (?_ : (findSymtab buf (headersAt buf) (sections buf) none).isSome = true)
      by_contra stuck
      change (findSymtab buf (headersAt buf) (sections buf) none >>= _ >>= _).isSome = true at finished
      rw [Option.not_isSome_iff_eq_none.mp stuck] at finished
      cases finished
    rw [findTable_eq types] at finished
    refine ⟨types, ?_, ?_⟩
    all_goals
      intro i chosen
      rw [Option.mem_def.mp chosen, Option.elim_some, readTable_eq] at finished
      split_ifs at finished with inside
    · exact inside
    · cases finished
    · exact (symbols (tableOf buf i)).mp finished
    · cases finished
  · rintro ⟨types, table, listed⟩
    rw [findTable_eq types]
    cases chosen : symbolSection buf with
    | none => rfl
    | some i =>
      rw [Option.elim_some, readTable_eq, if_pos (table i chosen)]
      exact (symbols (tableOf buf i)).mpr (listed i chosen)

/-- **When loading a file stays inside its buffer.** `Load` reads only what lies in the file exactly when the file
cannot be opened, has no section headers to go through, or has everything inside that is read on the way: the types of
its sections, the headers of its symbols and of their strings, and the symbols and names as far as they are looked at. -/
theorem load_isSome_iff (file : Option Bytes) : (Load file).isSome = true ↔
    ∀ buf ∈ file, Sectioned buf → ReadsInside buf := by
  classical
  cases file with
  | none => exact ⟨fun _ buf opened => absurd opened (Option.not_mem_none buf), fun _ => rfl⟩
  | some buf =>
    simp only [Option.mem_def, Option.some.injEq, forall_eq']
    by_cases sectioned : Sectioned buf
    · rw [isSome_load_of_sectioned sectioned]
      exact ⟨fun inside _ => inside, fun inside => inside sectioned⟩
    · refine ⟨fun _ other => absurd other sectioned, fun _ => ?_⟩
      rcases Nat.lt_or_ge buf.length 64 with short | long
      · rw [Load, if_pos short]
        rfl
      · rw [load_eq long, if_neg sectioned]
        rfl

/-- A file of a header alone, which says that one section header follows. -/
def headerOnly : Bytes :=
  ident ++ List.replicate 35 0 ++ [64, 0, 0, 0, 0, 0, 0, 0] ++ List.replicate 10 0 ++ [64, 0] ++ [1, 0] ++ [0, 0]

/-- The type of the section is read behind the end of the file. -/
theorem headerOnly_leaves : headerOnly.length = 64 ∧ ¬ ∀ file : Option Bytes, (Load file).isSome = true :=
  ⟨by decide, fun inside => absurd (inside (some headerOnly)) (by decide)⟩

end Illuminator
