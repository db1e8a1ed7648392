import Illuminator.Soundness.ElfReads
import Illuminator.Soundness.MapsLines
import Illuminator.Soundness.SymbolLookup
import Mathlib.Data.List.ReduceOption

/-! # User addresses

The kernel maps the segments of a file at a load bias, whole pages at a time, and prints where. From an address the
program gets back the offset in the file that is mapped there, and looks it up among symbols whose values are addresses
before the bias. The two differ by what the segment's offset and its address differ.
-/

namespace Illuminator

namespace UserAddresses

open BoundedReads ElfSymbolCache Processors
open Processors.StackSymbolizerProcessor

/-! ## Files and processes -/

/-- The maps of the processes and the files, with what `Load` leaves of a file's symbols. -/
structure Disk where
  maps : UInt32 → Option Bytes
  files : Bytes → Option Bytes
  symbols_ : Bytes → Option (List Sym)
  loads : ∀ path symbols, Load (files path) = some symbols →
    ∃ sorted, Sorts symbols sorted ∧ symbols_ path = if sorted.isEmpty then none else some sorted
  ordered : ∀ path sorted, symbols_ path = some sorted →
    sorted.Pairwise fun first second => first.value ≤ second.value

def Disk.world (disk : Disk) (now : Instant) : World (List Sym) where
  now := now
  LoadMaps pid := ProcMaps.LoadMaps now (disk.maps pid)
  Load := disk.symbols_
  Resolve := ElfSymbolCache.Resolve

def PT_LOAD : ℕ := 1

/-- A program header of 56 bytes. -/
def phdr (buf : Bytes) (i : ℕ) : UInt64 := .ofNat (number buf 0x20 8) + 56 * .ofNat i

structure Segment where
  p_offset : UInt64
  p_vaddr : UInt64
  p_filesz : UInt64
  deriving DecidableEq

def segmentAt (buf : Bytes) (i : ℕ) : Segment where
  p_offset := .ofNat (number buf (phdr buf i + 8) 8)
  p_vaddr := .ofNat (number buf (phdr buf i + 16) 8)
  p_filesz := .ofNat (number buf (phdr buf i + 32) 8)

/-- An executable segment of a file. -/
def Executable (buf : Bytes) (segment : Segment) : Prop :=
  ∃ i < number buf 0x38 2, number buf (phdr buf i) 4 = PT_LOAD ∧ number buf (phdr buf i + 4) 4 % 2 = 1 ∧
    segmentAt buf i = segment

/-- A function of a file's symbol table. -/
def IsFunction (buf : Bytes) (f : Sym) : Prop :=
  ∃ i ∈ symbolSection buf, ∃ j < (tableOf buf i).sym_count,
    number buf (entry (tableOf buf i).symtab j + 4) 1 % 16 ∈ [STT_FUNC, STT_GNU_IFUNC] ∧
    readSymbol buf (tableOf buf i) j = some (some f)

/-- The address lies in the symbol of a file that is loaded at this bias. -/
def CoversAt (bias : ℤ) (f : Sym) (a : UInt64) : Prop :=
  f.value.toNat + bias ≤ a.toNat ∧ a.toNat < f.value.toNat + f.size.toNat + bias

/-- What the kernel prints for a mapping. The path may be of any length. -/
structure Region where
  start : UInt64
  end_ : UInt64
  perms : Vector UInt8 4
  letters : ∀ c ∈ perms.toList, 0x20 < c
  offset : UInt64
  major : BitVec 12
  minor : BitVec 20
  inode : UInt64
  path : Bytes
  oneLine : 0x0A ∉ path
  solid : 0 ∉ path
  unspaced : ∀ c ∈ path.head?, isspace c = false

namespace Region

/-- The fields before the path. -/
def numbers (r : Region) : ProcMaps.Mapping where
  start := r.start
  end_ := r.end_
  perms := r.perms
  letters := r.letters
  offset := r.offset
  major := r.major
  minor := r.minor
  inode := r.inode
  path := []
  short := Nat.zero_le _
  oneLine := List.not_mem_nil
  unblanked := by
    intro c absent
    cases absent

def line (r : Region) (padding : ℕ) : Bytes := r.numbers.fields padding r.path

/-- The entry that is kept of a line. -/
def entry (r : Region) : ProcMapEntry := ⟨r.start, r.end_, r.offset, r.path.take 1023⟩

def Contains (r : Region) (a : UInt64) : Prop := r.start ≤ a ∧ a < r.end_

theorem parses (r : Region) (padding : ℕ) : ProcMaps.ParseProcMapsLine (r.line padding) = some r.entry := by
  have whole : r.path.takeWhile (· != 0) = r.path := by
    refine List.takeWhile_eq_self_iff.mpr fun c member => bne_iff_ne.mpr ?_
    rintro rfl
    exact r.solid member
  have skipped : Scanf.skip r.path = r.path := by
    cases named : r.path with
    | nil => rfl
    | cons c rest =>
      have first := r.unspaced
      rw [named] at first
      exact List.dropWhile_cons_of_neg (by rw [first c rfl]; exact Bool.false_ne_true)
  rw [line, ProcMaps.parses_fields r.numbers padding r.oneLine, whole, skipped]
  rfl

end Region

/-- The last boundary of a page at or before an address. -/
def floor (page x : ℤ) : ℤ := x - x % page

/-- The kernel has mapped a segment at a bias, and this is the mapping or, where protections differ later, a part of
it. -/
structure Maps (page bias : ℤ) (segment : Segment) (r : Region) : Prop where
  congruent : (segment.p_offset.toNat : ℤ) % page = segment.p_vaddr.toNat % page
  aligned : page ∣ bias
  offset : r.offset.toNat - floor page segment.p_offset.toNat =
    r.start.toNat - floor page (segment.p_vaddr.toNat + bias)
  start : floor page (segment.p_vaddr.toNat + bias) ≤ r.start.toNat
  end_ : r.end_.toNat ≤ floor page (segment.p_vaddr.toNat + bias + segment.p_filesz.toNat + page - 1)

/-- An address of a process that lies in an executable segment of a file and in exactly one function of it. -/
structure Sample (disk : Disk) (pid : UInt32) (a : UInt64) where
  printed : List (Region × ℕ)
  map : disk.maps pid = some (Delimited.pieces 0x0A (fun m => m.1.line m.2) printed)
  disjoint : (printed.map Prod.fst).Pairwise fun r later => r.end_ ≤ later.start
  region : Region
  listed : region ∈ printed.map Prod.fst
  absolute : region.path.head? = some 0x2F
  inside : region.Contains a
  buf : Bytes
  opened : disk.files region.path = some buf
  symbols : List Sym
  loaded : Load (some buf) = some symbols
  segment : Segment
  executable : Executable buf segment
  page : ℤ
  bias : ℤ
  mapped : Maps page bias segment region
  f : Sym
  function : IsFunction buf f
  covers : CoversAt bias f a
  only : ∀ g, IsFunction buf g → CoversAt bias g a → g = f

variable {disk : Disk} {s : StackSymbolizerProcessor (List Sym)} {pid : UInt32} {a : UInt64}

/-! ## The map of a process -/

/-- Only one region contains an address. -/
theorem region_unique {regions : List Region} (disjoint : regions.Pairwise fun r later => r.end_ ≤ later.start)
    {r r' : Region} (member : r ∈ regions) (contains : r.Contains a) (member' : r' ∈ regions)
    (contains' : r'.Contains a) : r = r' := by
  have apart : regions.Pairwise fun r later => ¬ (r.Contains a ∧ later.Contains a) := by
    refine disjoint.imp fun {r later} ordered both => ?_
    exact absurd (UInt64.lt_of_lt_of_le both.1.2 (UInt64.le_trans ordered both.2.1)) (UInt64.lt_irrefl a)
  have symmetric : Std.Symm fun r later : Region => ¬ (r.Contains a ∧ later.Contains a) :=
    ⟨fun r later apart both => apart both.symm⟩
  by_contra different
  exact apart.forall member member' different ⟨contains, contains'⟩

theorem Sample.loadMaps (sample : Sample disk pid a) (now : Instant) : ProcMaps.LoadMaps now (disk.maps pid) = some {
    maps := (sample.printed.map fun m => m.1.entry).filter fun m => m.path.head? == some 0x2F
    loaded_at := now } := by
  rw [sample.map]
  exact ProcMaps.LoadMaps_lines now (fun m _ => ProcMaps.fields_oneLine m.1.numbers m.2 m.1.oneLine)
    fun m _ => m.1.parses m.2

/-- The loop over the maps stops at the region of the address. -/
theorem Sample.find (sample : Sample disk pid a) :
    ((sample.printed.map fun m => m.1.entry).filter fun m => m.path.head? == some 0x2F).find?
      (fun m => m.start ≤ a && a < m.end_) = some sample.region.entry := by
  have isAbsolute : (sample.region.entry.path.head? == some 0x2F) = true := by
    obtain ⟨rest, path⟩ := List.head?_eq_some_iff.mp sample.absolute
    rw [Region.entry, path]
    rfl
  have kept : sample.region.entry ∈
      (sample.printed.map fun m => m.1.entry).filter fun m => m.path.head? == some 0x2F := by
    obtain ⟨line, inside, same⟩ := List.mem_map.mp sample.listed
    exact List.mem_filter.mpr ⟨List.mem_map.mpr ⟨line, inside, by rw [same]⟩, isAbsolute⟩
  have containing : (sample.region.entry.start ≤ a && a < sample.region.entry.end_) = true := by
    simp only [Region.entry, sample.inside.1, sample.inside.2, decide_true, Bool.and_self]
  have some_ : (((sample.printed.map fun m => m.1.entry).filter fun m => m.path.head? == some 0x2F).find?
      fun m => m.start ≤ a && a < m.end_).isSome := List.find?_isSome.mpr ⟨_, kept, containing⟩
  obtain ⟨found, first⟩ := Option.isSome_iff_exists.mp some_
  obtain ⟨listed, _⟩ := List.mem_filter.mp (List.mem_of_find?_eq_some first)
  obtain ⟨line, inside, rfl⟩ := List.mem_map.mp listed
  have contains := List.find?_some first
  simp only [Bool.and_eq_true, decide_eq_true_eq] at contains
  rw [first, region_unique sample.disjoint (List.mem_map_of_mem inside) contains sample.listed sample.inside]

/-! ## What the program remembers -/

/-- What is cached came from the disk. -/
structure Knows (disk : Disk) (s : StackSymbolizerProcessor (List Sym)) : Prop where
  maps : ∀ pid entry, s.maps_cache_ pid = some entry → ∃ now, ProcMaps.LoadMaps now (disk.maps pid) = some entry
  symbols : ∀ path sorted, s.elf_cache_ path = some sorted → disk.symbols_ path = some sorted

theorem Knows.addSymbols (knows : Knows disk s) {path : Bytes} {sorted : List Sym}
    (loaded : disk.symbols_ path = some sorted) :
    Knows disk { s with elf_cache_ := Function.update s.elf_cache_ path (some sorted) } := by
  refine ⟨knows.maps, fun other cache found => ?_⟩
  change Function.update s.elf_cache_ path (some sorted) other = some cache at found
  by_cases same : other = path
  · subst same
    rw [Function.update_self] at found
    rw [loaded, found]
  · rw [Function.update_of_ne same] at found
    exact knows.symbols other cache found

theorem Knows.addMaps (knows : Knows disk s) {now : Instant} {pid : UInt32} {entry : MapsCacheEntry}
    (loaded : ProcMaps.LoadMaps now (disk.maps pid) = some entry) :
    Knows disk { s with maps_cache_ := Function.update s.maps_cache_ pid (some entry) } := by
  refine ⟨fun other cache found => ?_, knows.symbols⟩
  change Function.update s.maps_cache_ pid (some entry) other = some cache at found
  by_cases same : other = pid
  · subst same
    rw [Function.update_self] at found
    exact ⟨now, by rw [loaded, found]⟩
  · rw [Function.update_of_ne same] at found
    exact knows.maps other cache found

theorem Knows.purge (knows : Knows disk s) (now : Instant) : Knows disk (PurgeExpiredMapsCaches s now) :=
  ⟨fun pid entry kept => knows.maps pid entry (Option.filter_eq_some_iff.mp kept).1, knows.symbols⟩

theorem getElfCache_knows (knows : Knows disk s) (now : Instant) (path : Bytes) :
    (GetElfCache (disk.world now) s path).1 = disk.symbols_ path ∧
      Knows disk (GetElfCache (disk.world now) s path).2 := by
  unfold GetElfCache
  split
  · rename_i sorted cached
    exact ⟨(knows.symbols path sorted cached).symm, knows⟩
  · split
    · rename_i missing
      exact ⟨missing.symm, knows⟩
    · rename_i sorted loaded
      exact ⟨loaded.symm, knows.addSymbols loaded⟩

/-- What `resolveIn` answers when its loop stops at an entry. -/
def answer (disk : Disk) (m : ProcMapEntry) (a : UInt64) : Bytes :=
  match disk.symbols_ m.path with
  | none => []
  | some sorted =>
    let sym := Resolve sorted (a - m.start + m.offset)
    if sym.isEmpty then ([0x5B] ++ m.path ++ [0x2B, 0x30, 0x78] ++ hex (a - m.start) ++ [0x5D]).take 95 else sym

theorem resolveIn_knows (knows : Knows disk s) (now : Instant) (maps : List ProcMapEntry) (a : UInt64) :
    (resolveIn (disk.world now) s maps a).1 =
        ((maps.find? fun m => m.start ≤ a && a < m.end_).map fun m => answer disk m a).getD [] ∧
      Knows disk (resolveIn (disk.world now) s maps a).2 := by
  unfold resolveIn
  split
  · rename_i nothing
    rw [nothing]
    exact ⟨rfl, knows⟩
  · rename_i m first
    rw [first, Option.map_some, Option.getD_some, answer]
    obtain ⟨cached, kept⟩ := getElfCache_knows knows now m.path
    split
    · rename_i after loaded
      rw [loaded] at cached kept
      rw [← cached]
      exact ⟨rfl, kept⟩
    · rename_i sorted after loaded
      rw [loaded] at cached kept
      rw [← cached]
      have resolves : (disk.world now).Resolve = Resolve := rfl
      rw [resolves]
      dsimp only
      split_ifs with unnamed
      · exact ⟨rfl, kept⟩
      · exact ⟨rfl, kept⟩

/-- The maps that are loaded do not depend on the time. -/
theorem maps_timeless (now earlier : Instant) (file : Option Bytes) :
    (ProcMaps.LoadMaps now file).map MapsCacheEntry.maps = (ProcMaps.LoadMaps earlier file).map MapsCacheEntry.maps := by
  cases file <;> rfl

/-- Whatever is cached, the answer is the one that the disk gives. -/
theorem resolveUser_knows (knows : Knows disk s) (now : Instant) (pid : UInt32) (a : UInt64) :
    (ResolveUser (disk.world now) s pid a).1 =
        ((((ProcMaps.LoadMaps now (disk.maps pid)).map MapsCacheEntry.maps).bind fun maps =>
          maps.find? fun m => m.start ≤ a && a < m.end_).map fun m => answer disk m a).getD [] ∧
      Knows disk (ResolveUser (disk.world now) s pid a).2 := by
  unfold ResolveUser
  split
  · split
    · rename_i missing
      change ProcMaps.LoadMaps now (disk.maps pid) = none at missing
      rw [missing]
      exact ⟨rfl, knows⟩
    · rename_i fresh loaded
      change ProcMaps.LoadMaps now (disk.maps pid) = some fresh at loaded
      rw [loaded]
      exact resolveIn_knows (knows.addMaps loaded) now fresh.maps a
  · rename_i entry cached
    obtain ⟨earlier, loaded⟩ := knows.maps pid entry cached
    split_ifs with expired
    · have reloaded : ProcMaps.LoadMaps now (disk.maps pid) =
          some (StackSymbolizerProcessor.reload (disk.world now) pid entry) := by
        obtain ⟨content, opened, _⟩ := Option.map_eq_some_iff.mp loaded
        change _ = some ((ProcMaps.LoadMaps now (disk.maps pid)).getD _)
        rw [opened]
        rfl
      rw [reloaded]
      exact resolveIn_knows (knows.addMaps reloaded) now _ a
    · rw [maps_timeless now earlier, loaded]
      exact resolveIn_knows knows now entry.maps a

/-- The states that calls reach from empty caches while the disk stays as it is. -/
inductive Reached (disk : Disk) : StackSymbolizerProcessor (List Sym) → Prop where
  | empty (s : StackSymbolizerProcessor (List Sym)) (maps : ∀ pid, s.maps_cache_ pid = none)
      (symbols : ∀ path, s.elf_cache_ path = none) : Reached disk s
  | purge (s : StackSymbolizerProcessor (List Sym)) (now : Instant) (reached : Reached disk s) :
      Reached disk (PurgeExpiredMapsCaches s now)
  | resolve (s : StackSymbolizerProcessor (List Sym)) (now : Instant) (pid : UInt32) (a : UInt64)
      (reached : Reached disk s) : Reached disk (ResolveUser (disk.world now) s pid a).2

theorem Reached.knows (reached : Reached disk s) : Knows disk s := by
  induction reached with
  | empty s maps symbols =>
    refine ⟨fun pid entry cached => ?_, fun path sorted cached => ?_⟩
    · rw [maps] at cached
      cases cached
    · rw [symbols] at cached
      cases cached
  | purge s now reached ih => exact ih.purge now
  | resolve s now pid a reached ih => exact (resolveUser_knows ih now pid a).2

/-- A step leads from reached states to reached states. -/
def Keeps {A : Type} (disk : Disk) (step : StateM (StackSymbolizerProcessor (List Sym)) A) : Prop :=
  ∀ s, Reached disk s → Reached disk (step s).2

theorem Keeps.mapM {A B : Type} {step : A → StateM (StackSymbolizerProcessor (List Sym)) B}
    (keeps : ∀ item, Keeps disk (step item)) (items : List A) : Keeps disk (items.mapM step) := by
  induction items with
  | nil => exact fun s reached => reached
  | cons item rest ih =>
    intro s reached
    rw [List.mapM_cons]
    exact ih _ (keeps item s reached)

theorem symbolizeKernel_keeps (frame : StackFrame) : Keeps disk (symbolizeKernel frame) := by
  intro s reached
  unfold symbolizeKernel
  split_ifs
  · exact reached
  · exact reached

theorem symbolizeUser_keeps (now : Instant) (pid : UInt32) (frame : StackFrame) :
    Keeps disk (symbolizeUser (disk.world now) pid frame) := by
  intro s reached
  unfold symbolizeUser
  split_ifs
  · exact reached
  · exact Reached.resolve s now pid frame.address reached

theorem symbolizeSample_keeps (now : Instant) (sample : StackSample) :
    Keeps disk (symbolizeSample (disk.world now) sample) := by
  intro s reached
  have kernel : Reached disk ((sample.kernel_stack.mapM symbolizeKernel) s).2 :=
    Keeps.mapM symbolizeKernel_keeps sample.kernel_stack s reached
  exact Keeps.mapM (symbolizeUser_keeps now sample.pid) sample.user_stack _ kernel

/-- A whole batch leads from reached states to reached states. -/
theorem Reached.process {D : Type} (reached : Reached disk s) (now : Instant) (input : DataBatch D) :
    Reached disk (Process (disk.world now) s input).2 :=
  Keeps.mapM (symbolizeSample_keeps now) input.stack_samples _ (Reached.purge s now reached)

/-! ## The offset that is looked up -/

/-- The offset in the file that an address was mapped from. -/
def Sample.fileOffset (sample : Sample disk pid a) : UInt64 :=
  UInt64.ofInt (a.toNat - sample.bias - sample.segment.p_vaddr.toNat + sample.segment.p_offset.toNat)

theorem Maps.distance {page bias : ℤ} {segment : Segment} {r : Region} (maps : Maps page bias segment r) :
    (r.offset.toNat : ℤ) - r.start.toNat = segment.p_offset.toNat - segment.p_vaddr.toNat - bias := by
  have offset := maps.offset
  have same : ((segment.p_vaddr.toNat : ℤ) + bias) % page = segment.p_offset.toNat % page := by
    rw [maps.congruent, Int.add_emod, Int.emod_eq_zero_of_dvd maps.aligned, Int.add_zero, Int.emod_emod_of_dvd _ dvd_rfl]
  rw [floor, floor, same] at offset
  omega

theorem Sample.looked_up (sample : Sample disk pid a) :
    a - sample.region.entry.start + sample.region.entry.offset = sample.fileOffset := by
  have distance := sample.mapped.distance
  have lower := UInt64.le_iff_toNat_le.mp sample.inside.1
  change a - sample.region.start + sample.region.offset = _
  rw [← UInt64.toNat_inj, UInt64.toNat_add, UInt64.toNat_sub_of_le _ _ sample.inside.1, Sample.fileOffset, UInt64.ofInt,
    UInt64.toNat_ofNat']
  omega

/-- Looking up an offset finds this name: the last symbol that does not begin after it has the name, and has no size, or
covers the offset and ends within 64 bits. -/
def Found (sorted : List Sym) (v : UInt64) (name : Bytes) : Prop :=
  ∃ c, Last sorted v c ∧ (c.size = 0 ∨ Covers c v ∧ c.value.toNat + c.size.toNat < 2 ^ 64) ∧ c.name = name

theorem resolve_found {sorted : List Sym} (ordered : sorted.Pairwise fun first second => first.value ≤ second.value)
    {v : UInt64} {name : Bytes} (named : name ≠ []) : Resolve sorted v = name ↔ Found sorted v name := by
  rcases last_cases ordered v with after | ⟨c, last⟩
  · rw [resolve_of_none after]
    refine ⟨fun same => absurd same.symm named, ?_⟩
    rintro ⟨c, ⟨earlier, later, rfl, before, _⟩, _⟩
    exact absurd (after c (List.mem_append_right _ List.mem_cons_self)) (UInt64.not_lt.mpr before)
  · have only {other : Sym} (otherLast : Last sorted v other) : other = c :=
      Option.some.inj ((candidate_of_last ordered otherLast).symm.trans (candidate_of_last ordered last))
    rw [resolve_of_last ordered last]
    split_ifs with found
    · refine ⟨fun same => ⟨c, last, found, same⟩, ?_⟩
      rintro ⟨other, otherLast, _, rfl⟩
      rw [only otherLast]
    · refine ⟨fun same => absurd same.symm named, ?_⟩
      rintro ⟨other, otherLast, finds, _⟩
      rw [only otherLast] at finds
      exact absurd finds found

theorem resolve_nothing {sorted : List Sym} (ordered : sorted.Pairwise fun first second => first.value ≤ second.value)
    {v : UInt64} : Resolve sorted v = [] ↔ ¬ ∃ name, Found sorted v name := by
  have owned {c : Sym} : c.name ≠ [] := c.named
  constructor
  · rintro empty ⟨name, found⟩
    have named : name ≠ [] := by
      obtain ⟨c, _, _, rfl⟩ := found
      exact owned
    exact named ((((resolve_found ordered named).mpr found).symm.trans empty))
  · intro nothing
    by_contra named
    exact nothing ⟨_, (resolve_found ordered named).mp rfl⟩

/-- What is answered where nothing is found. -/
def Sample.fallback (sample : Sample disk pid a) : Bytes :=
  ([0x5B] ++ sample.region.path.take 1023 ++ [0x2B, 0x30, 0x78] ++ hex (a - sample.region.start) ++ [0x5D]).take 95

/-- Among the symbols of the file that the cut off path names, looking up the file offset finds the function's name, or
finds nothing and the name happens to be the text for that. -/
def Sample.Hit (sample : Sample disk pid a) : Prop :=
  ∃ sorted, disk.symbols_ (sample.region.path.take 1023) = some sorted ∧
    (Found sorted sample.fileOffset sample.f.name ∨
      (¬ ∃ name, Found sorted sample.fileOffset name) ∧ sample.f.name = sample.fallback)

/-- A function of a file is among the symbols that are loaded. -/
theorem IsFunction.loaded {buf : Bytes} {symbols : List Sym} {f : Sym} (function : IsFunction buf f)
    (sectioned : Sectioned buf) (loaded : Load (some buf) = some symbols) : f ∈ symbols := by
  classical
  obtain ⟨i, chosen, j, listed, _, read⟩ := function
  have inside : ReadsInside buf := (isSome_load_of_sectioned sectioned).mp (by rw [loaded]; rfl)
  rw [load_eq sectioned.length, if_pos sectioned, findTable_eq inside.types, Option.mem_def.mp chosen, Option.elim_some,
    readTable_eq, if_pos (inside.table i chosen)] at loaded
  change ((List.range (tableOf buf i).sym_count).mapM (readSymbol buf (tableOf buf i)) >>= fun symbols =>
    pure symbols.reduceOption) = some symbols at loaded
  obtain ⟨results, looped, kept⟩ := Option.bind_eq_some_iff.mp loaded
  obtain rfl := Option.some.inj kept
  rw [List.reduceOption_mem_iff]
  exact List.mem_of_mapM looped (List.mem_range.mpr listed) read

/-- Where a segment is mapped at its own offset, and no other symbol begins between a function and the address, the
function's name is found. -/
theorem Sample.hit_of_unmoved (sample : Sample disk pid a) (sectioned : Sectioned sample.buf)
    (short : sample.region.path.length ≤ 1023) (unmoved : sample.segment.p_offset = sample.segment.p_vaddr)
    (fits : sample.f.value.toNat + sample.f.size.toNat < 2 ^ 64)
    (nearest : ∀ g ∈ sample.symbols, g.value ≤ sample.fileOffset → g = sample.f ∨ g.value < sample.f.value) :
    sample.Hit := by
  have whole : sample.region.path.take 1023 = sample.region.path := List.take_of_length_le short
  have member : sample.f ∈ sample.symbols := sample.function.loaded sectioned sample.loaded
  obtain ⟨sorted, sorts, kept⟩ := disk.loads sample.region.path sample.symbols (by rw [sample.opened, sample.loaded])
  have inside : sample.f ∈ sorted := sorts.perm.mem_iff.mpr member
  rw [if_neg (by rw [List.isEmpty_iff]; exact List.ne_nil_of_mem inside)] at kept
  have covers : Covers sample.f sample.fileOffset := by
    obtain ⟨lower, upper⟩ := sample.covers
    have offset : sample.fileOffset.toNat = a.toNat - sample.bias := by
      rw [Sample.fileOffset, unmoved, UInt64.ofInt, UInt64.toNat_ofNat']
      omega
    refine ⟨UInt64.le_iff_toNat_le.mpr ?_, ?_⟩
    · omega
    · omega
  refine ⟨sorted, by rw [whole, kept], Or.inl ⟨sample.f, ?_, Or.inr ⟨covers, fits⟩, rfl⟩⟩
  rcases last_cases sorts.ordered sample.fileOffset with after | ⟨c, last⟩
  · exact absurd (after _ inside) (UInt64.not_lt.mpr covers.1)
  · have greatest := last.greatest sorts.ordered inside covers.1
    obtain ⟨_, _, _, before, _⟩ := id last
    rcases nearest c (sorts.perm.mem_iff.mp last.member) before with rfl | less
    · exact last
    · exact absurd less (UInt64.not_lt.mpr greatest)

/-- **When a user address resolves to its function.** In every state that calls reach, the answer is the function's name
exactly if looking up the offset in the file finds that name. -/
theorem resolves_iff (reached : Reached disk s) (now : Instant) (sample : Sample disk pid a) :
    (ResolveUser (disk.world now) s pid a).1 = sample.f.name ↔ sample.Hit := by
  have answered : (ResolveUser (disk.world now) s pid a).1 = answer disk sample.region.entry a := by
    rw [(resolveUser_knows reached.knows now pid a).1, sample.loadMaps now, Option.map_some, Option.bind_some,
      sample.find, Option.map_some, Option.getD_some]
  rw [answered, answer, Sample.Hit]
  change (match disk.symbols_ (sample.region.path.take 1023) with | none => _ | some sorted => _) = _ ↔ _
  cases loaded : disk.symbols_ (sample.region.path.take 1023) with
  | none =>
    constructor
    · exact fun empty => absurd empty.symm sample.f.named
    · rintro ⟨sorted, found, _⟩
      cases found
  | some sorted =>
    have ordered := disk.ordered _ sorted loaded
    have named := sample.f.named
    change (if List.isEmpty (Resolve sorted (a - sample.region.entry.start + sample.region.entry.offset)) then
      sample.fallback else Resolve sorted (a - sample.region.entry.start + sample.region.entry.offset)) = _ ↔ _
    rw [sample.looked_up]
    constructor
    · intro same
      refine ⟨sorted, rfl, ?_⟩
      split_ifs at same with empty
      · exact Or.inr ⟨(resolve_nothing ordered).mp (List.isEmpty_iff.mp empty), same.symm⟩
      · exact Or.inl ((resolve_found ordered named).mp same)
    · rintro ⟨other, same, either⟩
      obtain rfl := Option.some.inj same
      rcases either with found | ⟨nothing, same⟩
      · have resolved := (resolve_found ordered named).mpr found
        rw [resolved, if_neg (fun empty => named (List.isEmpty_iff.mp empty))]
      · rw [(resolve_nothing ordered).mpr nothing]
        exact same.symm

/-! ## A file with one function -/

def littleEndian (width n : ℕ) : Bytes := (List.range width).map fun i => UInt8.ofNat (n / 256 ^ i)

/-- A header, a segment that is mapped from the beginning of the file, three section headers, two symbols and their
names. -/
def oneFunction (vaddr : ℕ) : Bytes :=
  ident ++ List.replicate 27 0 ++ littleEndian 8 64 ++ littleEndian 8 120 ++ List.replicate 6 0 ++
    littleEndian 2 56 ++ littleEndian 2 1 ++ littleEndian 2 64 ++ littleEndian 2 3 ++ littleEndian 2 0 ++
  littleEndian 4 PT_LOAD ++ littleEndian 4 5 ++ littleEndian 8 0 ++ littleEndian 8 vaddr ++ littleEndian 8 vaddr ++
    littleEndian 8 363 ++ littleEndian 8 363 ++ littleEndian 8 0x1000 ++
  List.replicate 64 0 ++
  littleEndian 4 0 ++ littleEndian 4 SHT_SYMTAB ++ List.replicate 16 0 ++ littleEndian 8 312 ++ littleEndian 8 48 ++
    littleEndian 4 2 ++ List.replicate 20 0 ++
  littleEndian 4 0 ++ littleEndian 4 3 ++ List.replicate 16 0 ++ littleEndian 8 360 ++ littleEndian 8 3 ++
    List.replicate 24 0 ++
  List.replicate 24 0 ++ littleEndian 4 1 ++ [2, 0, 0, 0] ++ littleEndian 8 (vaddr + 0x100) ++ littleEndian 8 0x10 ++
  [0, 0x66, 0]

def theFunction (vaddr : ℕ) : Sym := ⟨.ofNat (vaddr + 0x100), ascii "f", 0x10, by decide⟩

/-- What the file holds. -/
structure Holds (vaddr : ℕ) : Prop where
  sectioned : Sectioned (oneFunction vaddr)
  loaded : Load (some (oneFunction vaddr)) = some [theFunction vaddr]
  executable : Executable (oneFunction vaddr) ⟨0, .ofNat vaddr, 363⟩
  function : IsFunction (oneFunction vaddr) (theFunction vaddr)

theorem holds_zero : Holds 0 where
  sectioned := ⟨by decide +kernel, by decide +kernel, by decide +kernel, by decide +kernel⟩
  loaded := by decide +kernel
  executable := ⟨0, by decide +kernel, by decide +kernel, by decide +kernel, by decide +kernel⟩
  function := ⟨1, by decide +kernel, 1, by decide +kernel, by decide +kernel, by decide +kernel⟩

theorem holds_moved : Holds 0x400000 where
  sectioned := ⟨by decide +kernel, by decide +kernel, by decide +kernel, by decide +kernel⟩
  loaded := by decide +kernel
  executable := ⟨0, by decide +kernel, by decide +kernel, by decide +kernel, by decide +kernel⟩
  function := ⟨1, by decide +kernel, 1, by decide +kernel, by decide +kernel, by decide +kernel⟩

/-- The page where the file is mapped. -/
def onePage : Region where
  start := 0x400000
  end_ := 0x401000
  perms := #v[0x72, 0x77, 0x78, 0x70]
  letters := by decide
  offset := 0
  major := 8
  minor := 1
  inode := 7
  path := ascii "/a"
  oneLine := by decide
  solid := by decide
  unspaced := by decide

def oneDisk {vaddr : ℕ} (holds : Holds vaddr) : Disk where
  maps _ := some (Delimited.pieces 0x0A (fun m => m.1.line m.2) [(onePage, 0)])
  files path := if path = ascii "/a" then some (oneFunction vaddr) else none
  symbols_ path := if path = ascii "/a" then some [theFunction vaddr] else none
  loads path symbols loaded := by
    split_ifs at loaded with here
    · rw [holds.loaded] at loaded
      obtain rfl := Option.some.inj loaded
      exact ⟨_, ⟨List.Perm.refl _, List.pairwise_singleton ..⟩, if_pos here⟩
    · obtain rfl := Option.some.inj loaded
      exact ⟨[], ⟨List.Perm.refl _, List.Pairwise.nil⟩, if_neg here⟩
  ordered path sorted found := by
    split_ifs at found
    obtain rfl := Option.some.inj found
    exact List.pairwise_singleton ..

/-- An address in the function, for any address of the segment before the bias. -/
def oneSample {vaddr : ℕ} {bias : ℤ} (holds : Holds vaddr) (mapped : Maps 0x1000 bias ⟨0, .ofNat vaddr, 363⟩ onePage)
    (covers : CoversAt bias (theFunction vaddr) 0x400104) : Sample (oneDisk holds) 1 0x400104 where
  printed := [(onePage, 0)]
  map := rfl
  disjoint := List.pairwise_singleton ..
  region := onePage
  listed := List.mem_singleton.mpr rfl
  absolute := by decide
  inside := ⟨by decide, by decide⟩
  buf := oneFunction vaddr
  opened := by
    simp [oneDisk, onePage]
  symbols := [theFunction vaddr]
  loaded := holds.loaded
  segment := ⟨0, .ofNat vaddr, 363⟩
  executable := holds.executable
  page := 0x1000
  bias := bias
  mapped := mapped
  f := theFunction vaddr
  function := holds.function
  covers := covers
  only g function _ := List.mem_singleton.mp (function.loaded holds.sectioned holds.loaded)

def fresh : StackSymbolizerProcessor (List Sym) where
  kernel_resolver_ _ := []
  cxa_demangle _ := none

theorem fresh_reached (disk : Disk) : Reached disk fresh := Reached.empty fresh (fun _ => rfl) fun _ => rfl

def unmoved : Sample (oneDisk holds_zero) 1 0x400104 :=
  @oneSample 0 0x400000 holds_zero ⟨by decide, by decide, by decide, by decide, by decide⟩ ⟨by decide, by decide⟩

def moved : Sample (oneDisk holds_moved) 1 0x400104 :=
  @oneSample 0x400000 0 holds_moved ⟨by decide, by decide, by decide, by decide, by decide⟩ ⟨by decide, by decide⟩

/-- With the segment at its own offset the function is found. -/
theorem resolves_unmoved :
    (ResolveUser ((oneDisk holds_zero).world 0) fresh 1 0x400104).1 = (theFunction 0).name := by
  refine (resolves_iff (fresh_reached _) 0 unmoved).mpr (unmoved.hit_of_unmoved holds_zero.sectioned ?_ rfl ?_ ?_)
  · decide
  · decide
  · intro g member _
    exact Or.inl (List.mem_singleton.mp member)

/-- With the file linked to its address it is not. -/
theorem moved_unresolved : ¬ ∀ (disk : Disk) (s : StackSymbolizerProcessor (List Sym)) (now : Instant) (pid : UInt32)
    (a : UInt64) (sample : Sample disk pid a), Reached disk s →
    (ResolveUser (disk.world now) s pid a).1 = sample.f.name := by
  intro resolved
  exact absurd (resolved (oneDisk holds_moved) fresh 0 1 0x400104 moved (fresh_reached _)) (by decide +kernel)

end UserAddresses

end Illuminator

