import Illuminator.Model.KernelSymbols
import Illuminator.Soundness.MapsLines
import Illuminator.Soundness.SymbolFreshness

/-! # Names of kernel frames

The file that the kernel prints gives the symbols of its code, whichever modules they are from. A frame of a kernel
stack gets the name of the nearest of them that does not begin after its address.
-/

namespace Illuminator

namespace KernelSymbolResolver

open Scanf ProcMaps Processors StackSymbolizerProcessor

/-! ## The file -/

/-- A symbol of the kernel, with the module it belongs to. -/
structure Kallsym where
  address : UInt64
  type : UInt8
  name : Bytes
  module : Option Bytes
  letter : isspace type = false ∧ type ≠ 0
  named : name ≠ []
  short : name.length ≤ 511
  solid : ∀ c ∈ name, isspace c = false ∧ c ≠ 0
  oneLine : ∀ m ∈ module, ∀ c ∈ m, c ≠ 0x0A ∧ c ≠ 0

/-- What stands behind the name. -/
def Kallsym.behind (s : Kallsym) : Bytes := s.module.elim [] fun m => 0x09 :: 0x5B :: (m ++ [0x5D])

/-- The line that the kernel prints, without its line break. -/
def Kallsym.line (s : Kallsym) : Bytes :=
  put_hex 16 s.address.toNat ++ 0x20 :: s.type :: 0x20 :: (s.name ++ s.behind)

def file (symbols : List Kallsym) : Bytes := Delimited.pieces 0x0A Kallsym.line symbols

/-- A symbol of code, local or not, or a weak one. -/
def Kallsym.Code (s : Kallsym) : Prop := s.type = 0x74 ∨ s.type = 0x54 ∨ s.type = 0x77 ∨ s.type = 0x57

instance (s : Kallsym) : Decidable s.Code := by unfold Kallsym.Code; infer_instance

theorem put_hex_solid (width n : ℕ) : ∀ c ∈ put_hex width n, c ≠ 0x0A ∧ c ≠ 0 := by
  intro c member
  have range := hexValue_range (digit_hexValue (put_hex_digits width n c member))
  constructor
  · rintro rfl
    exact absurd range (by decide)
  · rintro rfl
    exact absurd range (by decide)

/-- A line has neither a line break nor a NUL in it. -/
theorem line_solid (s : Kallsym) : ∀ c ∈ s.line, c ≠ 0x0A ∧ c ≠ 0 := by
  have breaks : isspace 0x0A = true := by decide
  have letter : s.type ≠ 0x0A ∧ s.type ≠ 0 := ⟨fun same => absurd (same ▸ s.letter.1) (by decide), s.letter.2⟩
  have name : ∀ c ∈ s.name, c ≠ 0x0A ∧ c ≠ 0 := fun c member =>
    ⟨fun same => absurd (same ▸ (s.solid c member).1) (by decide), (s.solid c member).2⟩
  have behind : ∀ c ∈ s.behind, c ≠ 0x0A ∧ c ≠ 0 := by
    unfold Kallsym.behind
    cases inside : s.module with
    | none => exact List.forall_mem_nil _
    | some m =>
      simp only [Option.elim_some, List.forall_mem_cons, List.forall_mem_append]
      exact ⟨by decide, by decide, s.oneLine m inside, by decide, List.forall_mem_nil _⟩
  rw [Kallsym.line]
  simp only [List.forall_mem_append, List.forall_mem_cons]
  exact ⟨put_hex_solid 16 _, by decide, letter, by decide, name, behind⟩

/-- A word that white space or the end of the text follows. -/
theorem word_ends {width : ℕ} {text rest : Bytes} (present : text ≠ []) (short : text.length ≤ width)
    (solid : ∀ c ∈ text, isspace c = false) (ends : ∀ c ∈ rest.head?, isspace c = true) :
    word width (0x20 :: (text ++ rest)) = some (text, rest) := by
  have skipped : skip (0x20 :: (text ++ rest)) = text ++ rest := by
    obtain ⟨first, others, rfl⟩ := List.exists_cons_of_ne_nil present
    change skip (first :: (others ++ rest)) = _
    exact List.dropWhile_cons_of_neg (by rw [solid first List.mem_cons_self]; exact Bool.false_ne_true)
  have read : (text ++ rest).takeWhile (!isspace ·) = text := by
    rw [List.takeWhile_append_of_pos fun c member => by rw [solid c member]; rfl]
    cases rest with
    | nil => rw [List.takeWhile_nil, List.append_nil]
    | cons c later =>
      rw [List.takeWhile_cons_of_neg (by rw [ends c rfl]; exact Bool.false_ne_true), List.append_nil]
  rw [word]
  simp only [skipped, read, List.take_of_length_le short, present, if_false, List.drop_left']

theorem parseLine_line (s : Kallsym) : parseLine s.line = if s.Code then some (s.address, s.name) else none := by
  have whole : s.line.takeWhile (· != 0) = s.line := by
    rw [List.takeWhile_eq_self_iff]
    exact fun c member => bne_iff_ne.mpr (line_solid s c member).2
  have address : number 16 s.line = some (s.address, 0x20 :: s.type :: 0x20 :: (s.name ++ s.behind)) :=
    number_put_hex 16 (stops_cons (by decide))
  have letter : skip (0x20 :: s.type :: 0x20 :: (s.name ++ s.behind)) = s.type :: 0x20 :: (s.name ++ s.behind) := by
    change skip (s.type :: 0x20 :: (s.name ++ s.behind)) = _
    exact List.dropWhile_cons_of_neg (by rw [s.letter.1]; exact Bool.false_ne_true)
  have ends : ∀ c ∈ s.behind.head?, isspace c = true := by
    unfold Kallsym.behind
    cases s.module with
    | none => exact fun c absent => absurd absent (by simp)
    | some m =>
      intro c first
      obtain rfl : 0x09 = c := Option.some.inj first
      decide
  have name := word_ends s.named s.short (fun c member => (s.solid c member).1) ends
  have kept : (s.type ≠ 0x74 ∧ s.type ≠ 0x54 ∧ s.type ≠ 0x77 ∧ s.type ≠ 0x57) ↔ ¬ s.Code := by
    simp only [Kallsym.Code, not_or, ne_eq]
  simp only [parseLine, whole, address, Option.bind_eq_bind, Option.bind_some, letter, character, name, kept, ite_not]

/-- The symbols that are kept. -/
def code (symbols : List Kallsym) : List (UInt64 × Bytes) :=
  (symbols.filter fun s => s.Code).map fun s => (s.address, s.name)

theorem filterMap_lines (symbols : List Kallsym) : (symbols.map Kallsym.line).filterMap parseLine = code symbols := by
  induction symbols with
  | nil => rfl
  | cons s rest ih =>
    rw [List.map_cons, List.filterMap_cons, parseLine_line, ih, code, code]
    by_cases kept : s.Code
    · simp [kept]
    · simp [kept]

/-- The file gives back the symbols of code. -/
theorem Load_file (symbols : List Kallsym) : Load (some (file symbols)) = (.Ok, code symbols) := by
  have split : lines (file symbols) = symbols.map Kallsym.line := by
    rw [lines, file, Delimited.splitOn_pieces_of_clean fun s _ inside => (line_solid s _ inside).1 rfl]
    simp
  rw [Load, split, filterMap_lines]

/-! ## Lookups -/

/-- The name of a symbol of code that begins at the address or before it, and after which no other does. -/
def Nearest (symbols : List Kallsym) (addr : UInt64) (name : Bytes) : Prop :=
  ∃ s ∈ symbols, s.Code ∧ s.address ≤ addr ∧ s.name = name ∧
    ∀ t ∈ symbols, t.Code → t.address ≤ addr → t.address ≤ s.address

theorem mem_code {symbols : List Kallsym} {entry : UInt64 × Bytes} :
    entry ∈ code symbols ↔ ∃ s ∈ symbols, s.Code ∧ (s.address, s.name) = entry := by
  simp only [code, List.mem_map, List.mem_filter, decide_eq_true_eq, and_assoc]

/-- The entries up to an address are the first ones. -/
theorem mem_takeWhile {addrs_ : List (UInt64 × Bytes)} (ordered : addrs_.Pairwise fun first second => first.1 ≤ second.1)
    {addr : UInt64} {entry : UInt64 × Bytes} :
    entry ∈ addrs_.takeWhile (fun b => !decide (addr < b.1)) ↔ entry ∈ addrs_ ∧ entry.1 ≤ addr := by
  induction addrs_ with
  | nil => simp
  | cons first rest ih =>
    obtain ⟨least, later⟩ := List.pairwise_cons.mp ordered
    by_cases after : addr < first.1
    · rw [List.takeWhile_cons_of_neg (by simp [after])]
      refine ⟨fun absent => absurd absent List.not_mem_nil, fun ⟨member, before⟩ => ?_⟩
      rcases List.mem_cons.mp member with rfl | other
      · exact absurd before (UInt64.not_le.mpr after)
      · exact absurd (UInt64.le_trans (least entry other) before) (UInt64.not_le.mpr after)
    · rw [List.takeWhile_cons_of_pos (by simp [after]), List.mem_cons, List.mem_cons, ih later]
      have before : first.1 ≤ addr := UInt64.not_lt.mp after
      constructor
      · rintro (rfl | ⟨other, upTo⟩)
        · exact ⟨Or.inl rfl, before⟩
        · exact ⟨Or.inr other, upTo⟩
      · rintro ⟨rfl | other, upTo⟩
        · exact Or.inl rfl
        · exact Or.inr ⟨other, upTo⟩

/-- Either every symbol of code begins after the address, or the answer is the name of the nearest. -/
theorem Resolve_cases {symbols : List Kallsym} {addrs_ : List (UInt64 × Bytes)} (sorts : Sorts (code symbols) addrs_)
    (addr : UInt64) :
    ((∀ s ∈ symbols, s.Code → addr < s.address) ∧ Resolve addrs_ addr = []) ∨
      Nearest symbols addr (Resolve addrs_ addr) := by
  have upTo {entry : UInt64 × Bytes} := @mem_takeWhile addrs_ sorts.ordered addr entry
  cases last : (addrs_.takeWhile fun b => !decide (addr < b.1)).getLast? with
  | none =>
    left
    refine ⟨fun s member kept => UInt64.not_le.mp fun before => ?_, by rw [Resolve, last]⟩
    have inside := upTo.mpr ⟨sorts.perm.mem_iff.mpr (mem_code.mpr ⟨s, member, kept, rfl⟩), before⟩
    rw [List.getLast?_eq_none_iff.mp last] at inside
    exact absurd inside List.not_mem_nil
  | some it =>
    right
    obtain ⟨earlier, split⟩ := List.getLast?_eq_some_iff.mp last
    have here : it ∈ addrs_.takeWhile fun b => !decide (addr < b.1) := by
      rw [split]
      exact List.mem_append_right _ (List.mem_singleton.mpr rfl)
    obtain ⟨member, before⟩ := upTo.mp here
    obtain ⟨s, inside, kept, rfl⟩ := mem_code.mp (sorts.perm.mem_iff.mp member)
    refine ⟨s, inside, kept, before, by rw [Resolve, last], fun t other coded below => ?_⟩
    have among := upTo.mpr ⟨sorts.perm.mem_iff.mpr (mem_code.mpr ⟨t, other, coded, rfl⟩), below⟩
    have ordered := sorts.ordered.sublist (List.takeWhile_prefix fun b => !decide (addr < b.1)).sublist
    rw [split] at among ordered
    rcases List.mem_append.mp among with first | same
    · exact (List.pairwise_append.mp ordered).2.2 _ first _ (List.mem_singleton.mpr rfl)
    · rw [(Prod.mk.inj (List.mem_singleton.mp same)).1]
      exact UInt64.le_refl _

/-! ## Frames -/

/-- How a frame of a kernel stack comes out: it has the name of the nearest symbol, or its address where there is none,
and what has no address stays as it is. -/
structure Named (symbols : List Kallsym) (demangled : Bytes → Bytes) (frame out : StackFrame) : Prop where
  void : frame.address = 0 → out = frame
  symbol : frame.address ≠ 0 → (∃ s ∈ symbols, s.Code ∧ s.address ≤ frame.address) →
    ∃ name, Nearest symbols frame.address name ∧ out = { frame with function_name := demangled name }
  address : frame.address ≠ 0 → (¬ ∃ s ∈ symbols, s.Code ∧ s.address ≤ frame.address) →
    out = { frame with function_name := demangled (ascii "[kernel 0x" ++ hex frame.address ++ ascii "]") }

variable {S D : Type}

theorem named_of_sorts {symbols : List Kallsym} {addrs_ : List (UInt64 × Bytes)} (sorts : Sorts (code symbols) addrs_)
    (s : StackSymbolizerProcessor S) (loaded : s.kernelName = Resolve addrs_) (frame : StackFrame) :
    Named symbols s.DemangleMaybe frame (s.named "[kernel 0x" s.kernelName frame) := by
  unfold StackSymbolizerProcessor.named
  rw [loaded]
  by_cases zero : frame.address = 0
  · rw [if_pos zero]
    exact ⟨fun _ => rfl, fun some_ => absurd zero some_, fun some_ => absurd zero some_⟩
  · rw [if_neg zero]
    refine ⟨fun none_ => absurd none_ zero, fun _ begins => ?_, fun _ nowhere => ?_⟩
    · rcases Resolve_cases sorts frame.address with ⟨after, _⟩ | nearest
      · obtain ⟨t, member, kept, before⟩ := begins
        exact absurd before (UInt64.not_le.mpr (after t member kept))
      · refine ⟨_, nearest, ?_⟩
        obtain ⟨t, _, _, _, same, _⟩ := nearest
        rw [← same]
        simp only [List.isEmpty_iff, t.named, if_false]
    · rcases Resolve_cases sorts frame.address with ⟨_, none_⟩ | ⟨t, member, kept, before, _⟩
      · simp only [none_, List.isEmpty_nil, if_true]
      · exact absurd ⟨t, member, kept, before⟩ nowhere

/-- **Kernel frames are named by the kernel's own table.** Whatever order the sorting gives to symbols of one address
and whatever calls came before, `Process` names every frame of a kernel stack so. -/
theorem kernel_frames_named {symbols : List Kallsym} {addrs_ : List (UInt64 × Bytes)}
    (sorts : Sorts (Load (some (file symbols))).2 addrs_) (demangle : Bool) (cache_ttl_sec : Int64)
    (cxa_demangle : Bytes → Option Bytes) {calls : List (Call S D)} (timely : ∀ call ∈ calls, Timely call.world) :
    ∀ before call after, calls = before ++ call :: after →
      List.Forall₂ (fun sample out => List.Forall₂
          (Named symbols (Init (S := S) demangle true cache_ttl_sec cxa_demangle addrs_).DemangleMaybe)
          sample.kernel_stack out.kernel_stack) call.input.stack_samples
        (Process call.world (afterCalls (Init demangle true cache_ttl_sec cxa_demangle addrs_) before)
          call.input).1.stack_samples := by
  intro before call after split
  rw [Load_file] at sorts
  obtain ⟨maps, files, _, processed⟩ := names_fresh (s := Init demangle true cache_ttl_sec cxa_demangle addrs_)
    (fun _ => rfl) (fun _ => rfl) timely before call after split
  rw [processed, List.forall₂_map_right_iff, List.forall₂_same]
  intro sample _
  change List.Forall₂ _ sample.kernel_stack (sample.kernel_stack.map _)
  rw [List.forall₂_map_right_iff, List.forall₂_same]
  exact fun frame _ => named_of_sorts sorts _ rfl frame

/-- Two functions, an object between them, and one of a module. -/
def kallsyms : List Kallsym := [
  ⟨0x2000, 0x54, ascii "schedule", none, by decide, by decide, by decide, by decide, by simp⟩,
  ⟨0x1000, 0x74, ascii "entry", none, by decide, by decide, by decide, by decide, by simp⟩,
  ⟨0x1800, 0x44, ascii "jiffies", none, by decide, by decide, by decide, by decide, by simp⟩,
  ⟨0x9000, 0x74, ascii "ext4_sync", some (ascii "ext4"), by decide, by decide, by decide, by decide, by decide⟩]

def kernelFrames : DataBatch ℚ :=
  { type := .kProfile
    stack_samples := [{ timestamp := 0, kernel_stack := [⟨0x1900, [], [], 0, []⟩, ⟨0x800, [], [], 0, []⟩] }] }

/-- The symbols of code in their order. -/
def sortedKallsyms : List (UInt64 × Bytes) :=
  [(0x1000, ascii "entry"), (0x2000, ascii "schedule"), (0x9000, ascii "ext4_sync")]

theorem kernel_frames_named_kallsyms : List.Forall₂ (fun sample out => List.Forall₂
      (Named kallsyms (Init (S := Bytes) true true 30 (fun _ => none) sortedKallsyms).DemangleMaybe)
      sample.kernel_stack out.kernel_stack) kernelFrames.stack_samples
    (Process (mapped 0 (ascii "/bin/a")) (Init true true 30 (fun _ => none) sortedKallsyms)
      kernelFrames).1.stack_samples := by
  have sorts : Sorts (Load (some (file kallsyms))).2 sortedKallsyms := by
    rw [Load_file]
    exact ⟨by decide, by decide⟩
  have timely : ∀ call ∈ [(⟨mapped 0 (ascii "/bin/a"), kernelFrames⟩ : Call Bytes ℚ)], Timely call.world := by
    intro call member pid entry loaded
    obtain rfl := List.mem_singleton.mp member
    cases loaded
    decide
  exact kernel_frames_named sorts true 30 (fun _ => none) timely [] _ [] rfl

end KernelSymbolResolver

end Illuminator
