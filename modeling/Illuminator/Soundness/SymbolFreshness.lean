import Illuminator.Model.Processors
import Illuminator.ToMathlib.FallibleLoops
import Mathlib.Tactic.Linarith

/-! # What a symbolizer's caches may hold

A call of `Process` names every frame of its batch from one view of the processes and the files: what the caches held
when it began, and what it finds where they held nothing. A view of a process was read by an earlier call, no longer ago
than the configuration allows, or by this one; what a file's symbols are was read once and for all.
-/

namespace Illuminator

namespace Processors

namespace StackSymbolizerProcessor

variable {S D : Type}

/-! ## Names without caches -/

/-- The name of an address, given the maps of its process and the symbols of files. -/
def userName (Resolve : S → UInt64 → Bytes) (symbols : Bytes → Option S) (maps : Option (List ProcMapEntry))
    (addr : UInt64) : Bytes :=
  match (maps.getD []).find? fun m => m.start ≤ addr && addr < m.end_ with
  | none => []
  | some m =>
    match symbols m.path with
    | none => []
    | some elf =>
      let sym := Resolve elf (addr - m.start + m.offset)
      if sym.isEmpty then ([0x5B] ++ m.path ++ [0x2B, 0x30, 0x78] ++ hex (addr - m.start) ++ [0x5D]).take 95 else sym

/-- A frame with its name, or with its address where it has none. -/
def named (s : StackSymbolizerProcessor S) (mark : String) (name : UInt64 → Bytes) (frame : StackFrame) : StackFrame :=
  if frame.address = 0 then frame
  else
    let sym := name frame.address
    { frame with
      function_name := s.DemangleMaybe (if sym.isEmpty then ascii mark ++ hex frame.address ++ ascii "]" else sym) }

def kernelName (s : StackSymbolizerProcessor S) (addr : UInt64) : Bytes :=
  if s.kernel_symbols_ then s.kernel_resolver_ addr else []

/-- A sample whose frames are named from one view of the processes and the files. -/
def namedSample (s : StackSymbolizerProcessor S) (Resolve : S → UInt64 → Bytes) (symbols : Bytes → Option S)
    (maps : UInt32 → Option (List ProcMapEntry)) (sample : StackSample) : StackSample :=
  { sample with
    kernel_stack := sample.kernel_stack.map (s.named "[kernel 0x" s.kernelName)
    user_stack := sample.user_stack.map (s.named "[0x" (userName Resolve symbols (maps sample.pid))) }

/-! ## One call -/

/-- The settings are the same, which no call changes. -/
structure SameSettings (s t : StackSymbolizerProcessor S) : Prop where
  demangle_ : t.demangle_ = s.demangle_
  kernel_symbols_ : t.kernel_symbols_ = s.kernel_symbols_
  cache_ttl_sec_ : t.cache_ttl_sec_ = s.cache_ttl_sec_
  kernel_resolver_ : t.kernel_resolver_ = s.kernel_resolver_
  cxa_demangle : t.cxa_demangle = s.cxa_demangle

/-- The symbols of a file that a call goes by. -/
def symbolsAt (world : World S) (s : StackSymbolizerProcessor S) (path : Bytes) : Option S :=
  (s.elf_cache_ path).or (world.Load path)

def entryAt (world : World S) (s : StackSymbolizerProcessor S) (pid : UInt32) : Option MapsCacheEntry :=
  (s.maps_cache_ pid).or (world.LoadMaps pid)

/-- What is read during a call is read after it has begun. -/
def Timely (world : World S) : Prop := ∀ pid entry, world.LoadMaps pid = some entry → world.now ≤ entry.loaded_at

/-- A state that a call reaches: the view is that of the call's first state, and nothing in it has expired. -/
structure During (world : World S) (s t : StackSymbolizerProcessor S) : Prop where
  settings : SameSettings s t
  symbols : ∀ path, symbolsAt world t path = symbolsAt world s path
  entries : ∀ pid, entryAt world t pid = entryAt world s pid
  young : ∀ pid entry, t.maps_cache_ pid = some entry → s.expired world.now entry = false

variable {world : World S} {s t : StackSymbolizerProcessor S}

theorem SameSettings.caches (same : SameSettings s t) (elf_cache_ : Bytes → Option S)
    (maps_cache_ : UInt32 → Option MapsCacheEntry) : SameSettings s { t with elf_cache_, maps_cache_ } :=
  ⟨same.demangle_, same.kernel_symbols_, same.cache_ttl_sec_, same.kernel_resolver_, same.cxa_demangle⟩

theorem SameSettings.expired (same : SameSettings s t) (now : Instant) (entry : MapsCacheEntry) :
    t.expired now entry = s.expired now entry := by
  rw [StackSymbolizerProcessor.expired, StackSymbolizerProcessor.expired, same.cache_ttl_sec_]

theorem SameSettings.demangle (same : SameSettings s t) (sym : Bytes) : t.DemangleMaybe sym = s.DemangleMaybe sym := by
  rw [DemangleMaybe, DemangleMaybe, same.demangle_, same.cxa_demangle]

/-- What is read during the call has not expired in it. -/
theorem expired_timely (timely : Timely world) {pid : UInt32} {entry : MapsCacheEntry}
    (loaded : world.LoadMaps pid = some entry) : s.expired world.now entry = false := by
  have after := timely pid entry loaded
  have past : Int.tdiv (world.now - entry.loaded_at) 1000000000 ≤ 0 :=
    Int.tdiv_le_tdiv (b := 0) (by decide) (Int.sub_nonpos_of_le after)
  have positive : (0 : ℤ) ≤ s.cache_ttl_sec_.toNat := Int.natCast_nonneg _
  rw [StackSymbolizerProcessor.expired, Bool.and_eq_false_iff]
  exact Or.inr (decide_eq_false (by omega))

theorem getElfCache_during (during : During world s t) (path : Bytes) :
    (GetElfCache world t path).1 = symbolsAt world s path ∧ During world s (GetElfCache world t path).2 := by
  rw [← during.symbols path]
  unfold GetElfCache symbolsAt
  cases cached : t.elf_cache_ path with
  | some cache => exact ⟨rfl, during⟩
  | none =>
    cases loaded : world.Load path with
    | none => exact ⟨rfl, during⟩
    | some cache =>
      change _ ∧ During world s { t with elf_cache_ := Function.update t.elf_cache_ path (some cache) }
      refine ⟨rfl, during.settings.caches _ _, fun other => ?_, during.entries, during.young⟩
      rw [← during.symbols other]
      unfold symbolsAt
      by_cases same : other = path
      · subst same
        change (Function.update t.elf_cache_ other (some cache) other).or _ = _
        rw [Function.update_self, cached, loaded]
        rfl
      · change (Function.update t.elf_cache_ path (some cache) other).or _ = _
        rw [Function.update_of_ne same]

theorem resolveIn_during (during : During world s t) (maps : List ProcMapEntry) (addr : UInt64) :
    (resolveIn world t maps addr).1 = userName world.Resolve (symbolsAt world s) (some maps) addr ∧
      During world s (resolveIn world t maps addr).2 := by
  unfold resolveIn userName
  rw [Option.getD_some]
  cases found : maps.find? fun m => m.start ≤ addr && addr < m.end_ with
  | none => exact ⟨rfl, during⟩
  | some m =>
    obtain ⟨known, kept⟩ := getElfCache_during during m.path
    dsimp only
    rw [← known]
    generalize GetElfCache world t m.path = got at kept ⊢
    obtain ⟨elf, u⟩ := got
    cases elf with
    | none => exact ⟨rfl, kept⟩
    | some elf =>
      dsimp only at kept ⊢
      split_ifs
      · exact ⟨rfl, kept⟩
      · exact ⟨rfl, kept⟩

theorem resolveUser_during (timely : Timely world) (during : During world s t) (pid : UInt32) (addr : UInt64) :
    (ResolveUser world t pid addr).1 = userName world.Resolve (symbolsAt world s)
        ((entryAt world s pid).map MapsCacheEntry.maps) addr ∧ During world s (ResolveUser world t pid addr).2 := by
  rw [← during.entries pid]
  unfold ResolveUser entryAt
  cases cached : t.maps_cache_ pid with
  | some entry =>
    have young : t.expired world.now entry = false := by
      rw [during.settings.expired]
      exact during.young pid entry cached
    simp only [young, Bool.false_eq_true, if_false]
    exact resolveIn_during during entry.maps addr
  | none =>
    cases loaded : world.LoadMaps pid with
    | none => exact ⟨rfl, during⟩
    | some fresh =>
      have kept : During world s { t with maps_cache_ := Function.update t.maps_cache_ pid (some fresh) } := by
        refine ⟨during.settings.caches _ _, during.symbols, fun other => ?_, fun other entry held => ?_⟩
        · rw [← during.entries other]
          unfold entryAt
          by_cases same : other = pid
          · subst same
            change (Function.update t.maps_cache_ other (some fresh) other).or _ = _
            rw [Function.update_self, cached, loaded]
            rfl
          · change (Function.update t.maps_cache_ pid (some fresh) other).or _ = _
            rw [Function.update_of_ne same]
        · change Function.update t.maps_cache_ pid (some fresh) other = some entry at held
          by_cases same : other = pid
          · subst same
            rw [Function.update_self] at held
            cases held
            exact expired_timely timely loaded
          · rw [Function.update_of_ne same] at held
            exact during.young other entry held
      exact resolveIn_during kept fresh.maps addr

theorem symbolizeKernel_during (during : During world s t) (frame : StackFrame) :
    (symbolizeKernel frame t).1 = s.named "[kernel 0x" s.kernelName frame ∧
      During world s (symbolizeKernel frame t).2 := by
  have name : s.kernelName frame.address = if t.kernel_symbols_ then t.kernel_resolver_ frame.address else [] := by
    rw [kernelName, during.settings.kernel_symbols_, during.settings.kernel_resolver_]
  unfold symbolizeKernel named
  by_cases zero : frame.address = 0
  · simp only [zero, if_true]
    exact ⟨rfl, during⟩
  · simp only [zero, if_false, name, ← during.settings.demangle]
    exact ⟨rfl, during⟩

theorem symbolizeUser_during (timely : Timely world) (during : During world s t) (pid : UInt32) (frame : StackFrame) :
    (symbolizeUser world pid frame t).1 =
        s.named "[0x" (userName world.Resolve (symbolsAt world s) ((entryAt world s pid).map MapsCacheEntry.maps)) frame ∧
      During world s (symbolizeUser world pid frame t).2 := by
  obtain ⟨answered, kept⟩ := resolveUser_during timely during pid frame.address
  unfold symbolizeUser named
  by_cases zero : frame.address = 0
  · simp only [zero, if_true]
    exact ⟨rfl, during⟩
  · simp only [zero, if_false, ← answered, ← kept.settings.demangle]
    exact ⟨rfl, kept⟩

theorem symbolizeSample_during (timely : Timely world) (during : During world s t) (sample : StackSample) :
    (symbolizeSample world sample t).1 = s.namedSample world.Resolve (symbolsAt world s)
        (fun pid => (entryAt world s pid).map MapsCacheEntry.maps) sample ∧
      During world s (symbolizeSample world sample t).2 := by
  obtain ⟨kernel, between⟩ := List.mapM_state (During world s)
    (fun frame _ during => symbolizeKernel_during during frame) sample.kernel_stack during
  obtain ⟨user, after⟩ := List.mapM_state (During world s)
    (fun frame _ during => symbolizeUser_during timely during sample.pid frame) sample.user_stack between
  refine ⟨?_, after⟩
  rw [namedSample, ← kernel, ← user]
  rfl

theorem purge_same (s : StackSymbolizerProcessor S) (now : Instant) : SameSettings s (s.PurgeExpiredMapsCaches now) :=
  ⟨rfl, rfl, rfl, rfl, rfl⟩

theorem SameSettings.namedSample (same : SameSettings s t) : t.namedSample (S := S) = s.namedSample := by
  have each (mark : String) : StackSymbolizerProcessor.named t mark = StackSymbolizerProcessor.named s mark := by
    funext name frame
    unfold StackSymbolizerProcessor.named
    simp only [same.demangle]
  have kernel : t.kernelName = s.kernelName := by
    funext addr
    rw [kernelName, kernelName, same.kernel_symbols_, same.kernel_resolver_]
  funext Resolve symbols maps sample
  rw [StackSymbolizerProcessor.namedSample, StackSymbolizerProcessor.namedSample, each, each, kernel]

/-- Right after purging, nothing has expired. -/
theorem During.purge (world : World S) (s : StackSymbolizerProcessor S) :
    During world (s.PurgeExpiredMapsCaches world.now) (s.PurgeExpiredMapsCaches world.now) := by
  refine ⟨⟨rfl, rfl, rfl, rfl, rfl⟩, fun _ => rfl, fun _ => rfl, fun pid entry held => ?_⟩
  have kept := (Option.filter_eq_some_iff.mp held).2
  rw [Bool.not_eq_true'] at kept
  exact kept

/-- A call names its batch from one view. -/
theorem process_during (timely : Timely world) (s : StackSymbolizerProcessor S) (input : DataBatch D) :
    (Process world s input).1 = { input with
        stack_samples := input.stack_samples.map (s.namedSample world.Resolve
          (symbolsAt world (s.PurgeExpiredMapsCaches world.now))
          fun pid => (entryAt world (s.PurgeExpiredMapsCaches world.now) pid).map MapsCacheEntry.maps) } ∧
      During world (s.PurgeExpiredMapsCaches world.now) (Process world s input).2 := by
  obtain ⟨samples, after⟩ := List.mapM_state (During world (s.PurgeExpiredMapsCaches world.now))
    (fun sample _ during => symbolizeSample_during timely during sample) input.stack_samples (During.purge world s)
  refine ⟨?_, after⟩
  rw [← (purge_same s world.now).namedSample, ← samples]
  rfl

/-! ## Runs of calls -/

/-- A call of `Process`: what it finds, and its batch. -/
structure Call (S D : Type) where
  world : World S
  input : DataBatch D

/-- The symbolizer after some calls. -/
def afterCalls (s : StackSymbolizerProcessor S) (calls : List (Call S D)) : StackSymbolizerProcessor S :=
  calls.foldl (fun s call => (Process call.world s call.input).2) s

theorem afterCalls_snoc (s : StackSymbolizerProcessor S) (calls : List (Call S D)) (call : Call S D) :
    afterCalls s (calls ++ [call]) = (Process call.world (afterCalls s calls) call.input).2 :=
  List.foldl_concat ..

/-- What the caches hold was found by one of the calls. -/
structure Remembers (s : StackSymbolizerProcessor S) (calls : List (Call S D)) (t : StackSymbolizerProcessor S) :
    Prop where
  settings : SameSettings s t
  maps : ∀ pid entry, t.maps_cache_ pid = some entry → ∃ call ∈ calls, call.world.LoadMaps pid = some entry
  symbols : ∀ path elf, t.elf_cache_ path = some elf → ∃ call ∈ calls, call.world.Load path = some elf

theorem Remembers.purge {calls : List (Call S D)} (remembers : Remembers s calls t) (now : Instant) :
    Remembers s calls (t.PurgeExpiredMapsCaches now) := by
  have settings := remembers.settings
  refine ⟨⟨settings.1, settings.2, settings.3, settings.4, settings.5⟩, fun pid entry held => ?_, remembers.symbols⟩
  exact remembers.maps pid entry (Option.filter_eq_some_iff.mp held).1

/-- What a call goes by was found by it or by one before. -/
theorem Remembers.entryAt {calls : List (Call S D)} (remembers : Remembers s calls t) (call : Call S D) {pid : UInt32}
    {entry : MapsCacheEntry} (held : StackSymbolizerProcessor.entryAt call.world t pid = some entry) :
    ∃ c ∈ calls ++ [call], c.world.LoadMaps pid = some entry := by
  rcases Option.or_eq_some_iff.mp held with cached | ⟨_, loaded⟩
  · obtain ⟨c, member, found⟩ := remembers.maps pid entry cached
    exact ⟨c, List.mem_append_left _ member, found⟩
  · exact ⟨call, List.mem_append_right _ (List.mem_singleton.mpr rfl), loaded⟩

theorem Remembers.symbolsAt {calls : List (Call S D)} (remembers : Remembers s calls t) (call : Call S D) {path : Bytes}
    {elf : S} (held : StackSymbolizerProcessor.symbolsAt call.world t path = some elf) :
    ∃ c ∈ calls ++ [call], c.world.Load path = some elf := by
  rcases Option.or_eq_some_iff.mp held with cached | ⟨_, loaded⟩
  · obtain ⟨c, member, found⟩ := remembers.symbols path elf cached
    exact ⟨c, List.mem_append_left _ member, found⟩
  · exact ⟨call, List.mem_append_right _ (List.mem_singleton.mpr rfl), loaded⟩

theorem Remembers.process {calls : List (Call S D)} (remembers : Remembers s calls t) {call : Call S D}
    (timely : Timely call.world) : Remembers s (calls ++ [call]) (Process call.world t call.input).2 := by
  have purged := remembers.purge call.world.now
  have during := (process_during timely t call.input).2
  have settings := during.settings
  have before := purged.settings
  refine ⟨⟨settings.1.trans before.1, settings.2.trans before.2, settings.3.trans before.3, settings.4.trans before.4,
    settings.5.trans before.5⟩, fun pid entry held => ?_, fun path elf held => ?_⟩
  · refine purged.entryAt call ?_
    rw [← during.entries pid, StackSymbolizerProcessor.entryAt, held]
    rfl
  · refine purged.symbolsAt call ?_
    rw [← during.symbols path, StackSymbolizerProcessor.symbolsAt, held]
    rfl

theorem remembers_of_calls (maps : ∀ pid, s.maps_cache_ pid = none) (symbols : ∀ path, s.elf_cache_ path = none)
    {calls : List (Call S D)} (timely : ∀ call ∈ calls, Timely call.world) :
    Remembers s calls (afterCalls s calls) := by
  induction calls using List.reverseRecOn with
  | nil =>
    refine ⟨⟨rfl, rfl, rfl, rfl, rfl⟩, fun pid entry held => ?_, fun path elf held => ?_⟩
    · exact absurd (held.symm.trans (maps pid)) (Option.some_ne_none entry)
    · exact absurd (held.symm.trans (symbols path)) (Option.some_ne_none elf)
  | append_singleton calls call ih =>
    rw [afterCalls_snoc]
    exact (ih fun c member => timely c (List.mem_append_left _ member)).process
      (timely call (List.mem_append_right _ (List.mem_singleton.mpr rfl)))

/-- A view of the processes and the files that a call may go by: the maps of a process were read by a call up to this
one, and not longer ago than `cache_ttl_sec_` full seconds unless that is zero; a file's symbols were read by a call up
to this one; and what is not known cannot be read now. -/
structure Fresh (s : StackSymbolizerProcessor S) (before : List (Call S D)) (call : Call S D)
    (maps : UInt32 → Option (List ProcMapEntry)) (symbols : Bytes → Option S) : Prop where
  unread : ∀ pid, maps pid = none → call.world.LoadMaps pid = none
  read : ∀ pid list, maps pid = some list → ∃ c ∈ before ++ [call], ∃ entry, c.world.LoadMaps pid = some entry ∧
    entry.maps = list ∧ (0 < s.cache_ttl_sec_ →
      call.world.now - entry.loaded_at < (s.cache_ttl_sec_.toNat + 1 : ℤ) * 1000000000)
  unloaded : ∀ path, symbols path = none → call.world.Load path = none
  loaded : ∀ path elf, symbols path = some elf → ∃ c ∈ before ++ [call], c.world.Load path = some elf

private theorem lt_of_tdiv_le {age : ℤ} {seconds : ℕ} (young : Int.tdiv age 1000000000 ≤ seconds) :
    age < (seconds + 1 : ℤ) * 1000000000 := by
  rcases Int.le_total 0 age with late | early
  · rw [Int.tdiv_eq_ediv_of_nonneg late] at young
    omega
  · omega

/-- The age of what has not expired. -/
theorem age_of_young {now : Instant} {entry : MapsCacheEntry} (young : s.expired now entry = false)
    (limited : 0 < s.cache_ttl_sec_) : now - entry.loaded_at < (s.cache_ttl_sec_.toNat + 1 : ℤ) * 1000000000 := by
  rw [StackSymbolizerProcessor.expired, decide_eq_true limited, Bool.true_and, decide_eq_false_iff_not, not_lt] at young
  exact lt_of_tdiv_le young

/-- **Caches are fresh.** Whatever changes between the calls, each call names all frames of its batch from one view
that is fresh. -/
theorem names_fresh (maps : ∀ pid, s.maps_cache_ pid = none) (symbols : ∀ path, s.elf_cache_ path = none)
    {calls : List (Call S D)} (timely : ∀ call ∈ calls, Timely call.world) :
    ∀ before call after, calls = before ++ call :: after →
      ∃ maps symbols, Fresh s before call maps symbols ∧
        (Process call.world (afterCalls s before) call.input).1 = { call.input with
          stack_samples := call.input.stack_samples.map (s.namedSample call.world.Resolve symbols maps) } := by
  rintro before call after rfl
  have earlier := remembers_of_calls maps symbols fun c member => timely c (List.mem_append_left _ member)
  have now := timely call (List.mem_append_right _ List.mem_cons_self)
  have purged := earlier.purge call.world.now
  refine ⟨_, _, ⟨?_, ?_, ?_, ?_⟩, by rw [← earlier.settings.namedSample]; exact (process_during now _ call.input).1⟩
  · intro pid none_
    exact (Option.or_eq_none_iff.mp (Option.map_eq_none_iff.mp none_)).2
  · intro pid list held
    obtain ⟨entry, there, rfl⟩ := Option.map_eq_some_iff.mp held
    obtain ⟨c, member, found⟩ := purged.entryAt call there
    refine ⟨c, member, entry, found, rfl, age_of_young ?_⟩
    rcases Option.or_eq_some_iff.mp there with cached | ⟨_, loaded⟩
    · rw [← earlier.settings.expired]
      exact (During.purge call.world (afterCalls s before)).young pid entry cached
    · exact expired_timely now loaded
  · intro path none_
    exact (Option.or_eq_none_iff.mp none_).2
  · intro path elf held
    exact purged.symbolsAt call held

/-! ## Two calls -/

/-- The maps of every process have one entry, with the file of this name. -/
def mapped (now : Instant) (path : Bytes) : World Bytes where
  now := now
  LoadMaps _ := some ⟨[⟨0x1000, 0x2000, 0, path⟩], now + 5⟩
  Load path := some path
  Resolve name _ := name

def oneFrame : DataBatch ℚ :=
  { type := .kProfile, stack_samples := [{ timestamp := 0, pid := 7, user_stack := [⟨0x1234, [], [], 0, []⟩] }] }

def emptyCaches : StackSymbolizerProcessor Bytes :=
  { kernel_resolver_ := fun _ => [], cxa_demangle := fun _ => none }

/-- Another program is run in the process, and the second call comes after a minute. -/
def twoCalls : List (Call Bytes ℚ) :=
  [⟨mapped 0 (ascii "/bin/a"), oneFrame⟩, ⟨mapped 60000000000 (ascii "/bin/b"), oneFrame⟩]

theorem names_fresh_twoCalls : ∃ maps symbols,
    Fresh emptyCaches [⟨mapped 0 (ascii "/bin/a"), oneFrame⟩] ⟨mapped 60000000000 (ascii "/bin/b"), oneFrame⟩
      maps symbols ∧
      (Process (mapped 60000000000 (ascii "/bin/b")) (afterCalls emptyCaches [⟨mapped 0 (ascii "/bin/a"), oneFrame⟩])
        oneFrame).1 = { oneFrame with
          stack_samples := oneFrame.stack_samples.map (emptyCaches.namedSample (fun name _ => name) symbols maps) } := by
  have timely : ∀ call ∈ twoCalls, Timely call.world := by
    intro call member pid entry loaded
    rcases List.mem_cons.mp member with rfl | member
    · cases loaded
      decide
    · obtain rfl := List.mem_singleton.mp member
      cases loaded
      decide
  exact names_fresh (fun _ => rfl) (fun _ => rfl) timely [_] _ [] rfl

end StackSymbolizerProcessor

end Processors

end Illuminator
