import Illuminator.Model.Interning
import Illuminator.Soundness.ArenaRegions
import Mathlib.Data.List.Nodup

/-! # Interned strings

`Clear` resets the arena of its batch also when another batch that shares the arena still holds views in it.
Where no other batch does, every key of every cache keeps the string it was inserted with, and what a
batch has returned since its own `Clear` is what its cache holds.
-/

namespace Illuminator

open Regions

/-- `malloc` returns no block larger than `PTRDIFF_MAX`. -/
def Malloc.Limited (malloc : Malloc) (size : UInt64) : Prop :=
  ∀ data, malloc.data = some data ∨ malloc.again = some data → size.toNat < 2 ^ 63

namespace Interning

open Arena (View Used Takes)

variable {A B : Type*}

/-! ## Runs -/

/-- A call takes a string of a size that a `std::string_view` can have, and `malloc` answers with memory that
is apart from every live block. -/
def World.Admissible (w : World A B) (malloc : Malloc) : Operation B → Prop
  | .InternString b s =>
    let size := (w.arenas (w.batches b).arena_).new_block_size (UInt64.ofNat s.length) Arena.max_align
    s.length < 2 ^ 62 ∧ malloc.Limited size ∧ ∀ a, malloc.Fresh size (w.arenas a).blocks_
  | .Clear _ => True

/-- Every arena has just been constructed, and so has every batch. -/
structure World.Start (w : World A B) : Prop where
  made : ∀ a, ∃ block_size malloc, Arena.make block_size malloc = some (w.arenas a) ∧
    malloc.Fresh block_size [] ∧ malloc.Limited block_size
  apart : ∀ a other, other ≠ a → ∀ block ∈ (w.arenas a).blocks_, ∀ far ∈ (w.arenas other).blocks_,
    block.region.Apart far.region
  batches : ∀ b, (w.batches b).intern_cache_ = [] ∧ w.returned b = [] ∧ w.copied b = []

section

variable [DecidableEq A] [DecidableEq B]

/-- The states that calls reach when each of them is `allowed` in the state before it. -/
inductive World.Reachable (allowed : World A B → Operation B → Prop) : World A B → Prop where
  | start {w : World A B} (start : w.Start) : Reachable allowed w
  | step {w next : World A B} (reachable : Reachable allowed w) (malloc : Malloc) (undefined : Undefined)
      (op : Operation B) (admissible : w.Admissible malloc op) (permitted : allowed w op)
      (stepped : w.step malloc undefined op = some next) : Reachable allowed next

end

/-- What callers rely on for the views of one batch. -/
structure World.Kept (w : World A B) (b : B) : Prop where
  reads : ∀ r ∈ w.returned b, w.memory.read r.view = r.source
  same : ∀ r ∈ w.returned b, ∀ t ∈ w.returned b, r.source = t.source → r.view = t.view
  once : ∀ r ∈ w.returned b, r.source ≠ [] → (w.copied b).count r.source = 1

/-- No other batch on the arena that is reset has a string in its cache. -/
def World.Alone (w : World A B) : Operation B → Prop
  | .InternString _ _ => True
  | .Clear b => ∀ other ≠ b, (w.batches other).arena_ = (w.batches b).arena_ → (w.batches other).intern_cache_ = []

/-! ## The cache -/

theorem find_intact {memory : Memory UInt8} {cache : List Entry} {s : Bytes} {undefined : Undefined}
    (intact : Intact memory cache) {view : View} (found : find memory cache s undefined = some view) :
    ⟨view, s⟩ ∈ cache := by
  rw [find, if_pos intact] at found
  obtain ⟨e, first, rfl⟩ := Option.map_eq_some_iff.mp found
  have reads : memory.read e.interned = s := by simpa using List.find?_some first
  have member := List.mem_of_find?_eq_some first
  rw [intact e member] at reads
  rw [← reads]
  exact member

theorem find_none {memory : Memory UInt8} {cache : List Entry} {s : Bytes} {undefined : Undefined}
    (intact : Intact memory cache) (missing : find memory cache s undefined = none) : s ∉ cache.map Entry.hashed := by
  rw [find, if_pos intact, Option.map_eq_none_iff, List.find?_eq_none] at missing
  intro present
  obtain ⟨e, member, rfl⟩ := List.mem_map.mp present
  exact missing e member (decide_eq_true (intact e member))

theorem emplace_intact {memory : Memory UInt8} {cache : List Entry} {view : View} {undefined : Undefined}
    (intact : Intact memory cache) (fresh : memory.read view ∉ cache.map Entry.hashed) :
    emplace memory cache view undefined = ⟨view, memory.read view⟩ :: cache := by
  rw [emplace, if_pos intact, if_neg]
  intro found
  obtain ⟨e, member, equal⟩ := List.any_eq_true.mp found
  refine fresh (List.mem_map.mpr ⟨e, member, ?_⟩)
  rw [← intact e member]
  exact of_decide_eq_true equal

/-! ## The invariant -/

/-- The arenas are sound and apart. -/
structure Arenas (arenas : A → Arena) : Prop where
  sound : ∀ a, (arenas a).Sound
  limited : ∀ a, ∀ block ∈ (arenas a).blocks_, block.capacity.toNat < 2 ^ 63
  apart : ∀ a other, other ≠ a → ∀ block ∈ (arenas a).blocks_, ∀ far ∈ (arenas other).blocks_,
    block.region.Apart far.region

/-- The cache of a batch is intact in used memory, and it holds what the batch has returned and copied. -/
structure Cached (memory : Memory UInt8) (arenas : A → Arena) (batch : Batch A) (returned : List Returned)
    (copied : List Bytes) : Prop where
  used : ∀ e ∈ batch.intern_cache_, ∀ x, x ∈ e.interned → (arenas batch.arena_).Used x
  intact : Intact memory batch.intern_cache_
  copies : copied = batch.intern_cache_.map Entry.hashed
  nodup : copied.Nodup
  returned : ∀ r ∈ returned, if r.source = [] then r.view = ⟨0, 0⟩ else ⟨r.view, r.source⟩ ∈ batch.intern_cache_

structure World.Invariant (w : World A B) : Prop where
  arenas : Arenas w.arenas
  cached : ∀ b, Cached w.memory w.arenas (w.batches b) (w.returned b) (w.copied b)

theorem World.Invariant.kept {w : World A B} (invariant : w.Invariant) (b : B) : w.Kept b := by
  have cached := invariant.cached b
  refine ⟨fun r earlier => ?_, fun r earlier t other equal => ?_, fun r earlier nonempty => ?_⟩
  · have held := cached.returned r earlier
    split_ifs at held with empty
    · rw [held, empty]
      rfl
    · exact cached.intact _ held
  · have first := cached.returned r earlier
    have second := cached.returned t other
    rw [← equal] at second
    split_ifs at first second with empty
    · rw [first, second]
    · have nodup := cached.nodup
      rw [cached.copies] at nodup
      exact congrArg Entry.interned (List.inj_on_of_nodup_map nodup first second rfl)
  · have held := cached.returned r earlier
    rw [if_neg nonempty] at held
    refine List.count_eq_one_of_mem cached.nodup ?_
    rw [cached.copies]
    exact List.mem_map_of_mem held

section Cached

variable {memory later : Memory UInt8} {arenas grown : A → Arena} {batch : Batch A} {returned : List Returned}
  {copied : List Bytes}

/-- Memory that is in use keeps its bytes and stays in use. -/
theorem Cached.frame (cached : Cached memory arenas batch returned copied)
    (same : ∀ x, (arenas batch.arena_).Used x → later x = memory x)
    (kept : ∀ x, (arenas batch.arena_).Used x → (grown batch.arena_).Used x) :
    Cached later grown batch returned copied := by
  refine { cached with used := fun e member x inside => kept x (cached.used e member x inside), intact := ?_ }
  intro e member
  rw [← cached.intact e member]
  exact read_congr fun x inside => same x (cached.used e member x inside)

/-- A batch with an empty cache does not depend on the arenas. -/
theorem Cached.empty (cached : Cached memory arenas batch returned copied) (none : batch.intern_cache_ = []) :
    Cached later grown batch returned copied := by
  refine { cached with used := ?_, intact := ?_ }
  · rw [none]
    exact nofun
  · rw [none]
    exact nofun

/-- A view that is in the cache, or the empty one, is returned. -/
theorem Cached.answer (cached : Cached memory arenas batch returned copied) {s : Bytes} {view : View}
    (held : if s = [] then view = ⟨0, 0⟩ else ⟨view, s⟩ ∈ batch.intern_cache_) :
    Cached memory arenas batch (⟨s, view⟩ :: returned) copied :=
  { cached with returned := List.forall_mem_cons.mpr ⟨held, cached.returned⟩ }

/-- A string that the cache lacks is copied and inserted. -/
theorem Cached.insert (cached : Cached memory arenas batch returned copied) {s : Bytes} {view : View}
    (undefined : Undefined) (reads : memory.read view = s) (taken : ∀ x, x ∈ view → (arenas batch.arena_).Used x)
    (fresh : s ∉ batch.intern_cache_.map Entry.hashed) :
    ⟨view, s⟩ ∈ emplace memory batch.intern_cache_ view undefined ∧
      Cached memory arenas { batch with intern_cache_ := emplace memory batch.intern_cache_ view undefined } returned
        (s :: copied) := by
  have inserted : emplace memory batch.intern_cache_ view undefined = ⟨view, s⟩ :: batch.intern_cache_ := by
    rw [← reads] at fresh ⊢
    exact emplace_intact cached.intact fresh
  rw [inserted]
  refine ⟨List.mem_cons_self .., ?_, ?_, ?_, ?_, ?_⟩
  · exact List.forall_mem_cons.mpr ⟨taken, cached.used⟩
  · exact List.forall_mem_cons.mpr ⟨reads, cached.intact⟩
  · rw [cached.copies, List.map_cons]
  · rw [← cached.copies] at fresh
    exact List.nodup_cons.mpr ⟨fresh, cached.nodup⟩
  · intro r earlier
    have held := cached.returned r earlier
    split_ifs at held ⊢ with empty
    · exact held
    · exact List.mem_cons_of_mem _ held

end Cached

/-! ## Steps -/

section

variable [DecidableEq A] [DecidableEq B]

/-- A string is put into memory that no arena uses. -/
structure Copies (arenas : A → Arena) (memory : Memory UInt8) (a : A) (s : Bytes) (view : View)
    (later : Memory UInt8) (grown : A → Arena) : Prop where
  sound : Arenas grown
  reads : later.read view = s
  same : ∀ c x, (arenas c).Used x → later x = memory x
  kept : ∀ c x, (arenas c).Used x → (grown c).Used x
  taken : ∀ x, x ∈ view → (grown a).Used x

omit [DecidableEq A] in
/-- Blocks that `malloc` can return leave room below `2 ^ 64` for a string. -/
theorem Arenas.noOverflow {arenas : A → Arena} (sound : Arenas arenas) (a : A) {size : UInt64}
    (short : size.toNat < 2 ^ 62) : (arenas a).NoOverflow size Arena.max_align := by
  have inside := (sound.sound a).inside
  have small := sound.limited a _ (arenas a).back_mem
  have alignment : Arena.max_align.toNat = 16 := rfl
  have fits : (arenas a).current_offset_.toNat + (Arena.max_align.toNat - 1) < 2 ^ 64 := by omega
  obtain ⟨-, below, -⟩ := Arena.AlignUp_spec ⟨4, le_rfl, rfl⟩ fits
  exact ⟨fits, by omega, by omega⟩

theorem Arenas.copy {arenas : A → Arena} (sound : Arenas arenas) {memory later : Memory UInt8} {a : A} {s : Bytes}
    {malloc : Malloc} {view : View} {next : Arena} (nonempty : s ≠ []) (short : s.length < 2 ^ 62)
    (limited : malloc.Limited ((arenas a).new_block_size (UInt64.ofNat s.length) Arena.max_align))
    (fresh : ∀ c, malloc.Fresh ((arenas a).new_block_size (UInt64.ofNat s.length) Arena.max_align) (arenas c).blocks_)
    (copied : (arenas a).CopyString memory s malloc = some (view, later, next)) :
    Copies arenas memory a s view later (Function.update arenas a next) := by
  rw [Arena.CopyString, if_neg (by rwa [List.isEmpty_iff])] at copied
  obtain ⟨⟨dst, arena⟩, allocated, rest⟩ := Option.map_eq_some_iff.mp copied
  cases rest
  have length : (UInt64.ofNat s.length).toNat = s.length := UInt64.toNat_ofNat_of_lt' (by change _ < 2 ^ 64; omega)
  have bounded := sound.noOverflow a (length.symm ▸ short)
  have takes := Arena.Allocate_takes (sound.sound a) ⟨4, le_rfl, rfl⟩ bounded (fresh a) allocated
  have blocks := @Arena.Allocate_blocks _ _ _ _ _ _ allocated
  rw [length] at takes
  have apart : ∀ c, c ≠ a → ∀ block ∈ next.blocks_, ∀ far ∈ (arenas c).blocks_, block.region.Apart far.region := by
    intro c other block live far distant
    rcases blocks live with earlier | ⟨capacity, answered⟩
    · exact sound.apart a c other block earlier far distant
    · have new := (fresh c block.data answered).2 far distant
      rw [← capacity] at new
      exact new.symm
  have unused : ∀ c x, (arenas c).Used x → x ∉ (⟨dst, s.length⟩ : Region) := by
    intro c x used inside
    by_cases same : c = a
    · subst same
      exact takes.fresh x inside used
    · obtain ⟨far, distant, there⟩ := used.block (sound.sound c)
      obtain ⟨block, live, within⟩ := takes.within
      exact apart c same block live far distant x (within.mem inside) there
  refine ⟨⟨?_, ?_, ?_⟩, read_write .., fun c x used => write_of_notMem _ (unused c x used), ?_, ?_⟩
  · exact (Function.forall_update_iff _ fun _ (arena : Arena) => arena.Sound).mpr ⟨takes.sound, fun c _ => sound.sound c⟩
  · refine (Function.forall_update_iff _ fun _ (arena : Arena) => ∀ block ∈ arena.blocks_,
      block.capacity.toNat < 2 ^ 63).mpr
      ⟨fun block live => ?_, fun c _ => sound.limited c⟩
    rcases blocks live with earlier | ⟨capacity, answered⟩
    · exact sound.limited a block earlier
    · rw [capacity]
      exact limited block.data answered
  · intro c other different block live far distant
    by_cases first : c = a
    · subst first
      rw [Function.update_self] at live
      rw [Function.update_of_ne different] at distant
      exact apart other different block live far distant
    · rw [Function.update_of_ne first] at live
      by_cases second : other = a
      · subst second
        rw [Function.update_self] at distant
        exact (apart c first far distant block live).symm
      · rw [Function.update_of_ne second] at distant
        exact sound.apart c other different block live far distant
  · exact (Function.forall_update_iff _ fun c (arena : Arena) => ∀ x, (arenas c).Used x → arena.Used x).mpr
      ⟨takes.kept, fun _ _ _ => id⟩
  · rw [Function.update_self]
    exact takes.taken

theorem World.Invariant.InternString {w next : World A B} {malloc : Malloc} {undefined : Undefined} {b : B} {s : Bytes}
    (invariant : w.Invariant) (admissible : w.Admissible malloc (.InternString b s))
    (stepped : w.step malloc undefined (.InternString b s) = some next) : next.Invariant := by
  obtain ⟨⟨view, after⟩, interned, rfl⟩ := Option.map_eq_some_iff.mp stepped
  obtain ⟨short, limited, fresh⟩ := admissible
  have cached := invariant.cached
  -- The answer is listed last: the state before that, and what the cache of `b` holds in it.
  suffices before : after.Invariant ∧
      if s = [] then view = ⟨0, 0⟩ else ⟨view, s⟩ ∈ (after.batches b).intern_cache_ by
    obtain ⟨⟨arenas, holds⟩, held⟩ := before
    refine ⟨arenas, fun c => ?_⟩
    by_cases other : c = b
    · subst other
      simp only [Function.update_self]
      exact (holds c).answer held
    · simp only [Function.update_of_ne other]
      exact holds c
  simp only [Interning.InternString] at interned
  split_ifs at interned with empty
  · cases interned
    exact ⟨invariant, by rw [if_pos (List.isEmpty_iff.mp empty)]⟩
  · rw [List.isEmpty_iff] at empty
    rw [if_neg empty]
    split at interned
    next it found =>
      cases interned
      exact ⟨invariant, find_intact (cached b).intact found⟩
    next missing =>
      obtain ⟨⟨dst, later, arena⟩, copied, rest⟩ := Option.map_eq_some_iff.mp interned
      cases rest
      have copies := invariant.arenas.copy empty short limited fresh copied
      have framed (c : B) := (cached c).frame (copies.same _) (copies.kept _)
      obtain ⟨held, inserted⟩ := (framed b).insert undefined copies.reads copies.taken
        (find_none (cached b).intact missing)
      simp only [Function.update_self]
      refine ⟨⟨copies.sound, fun c => ?_⟩, held⟩
      by_cases other : c = b
      · subst other
        simp only [Function.update_self]
        exact inserted
      · simp only [Function.update_of_ne other]
        exact framed c

omit [DecidableEq A] in
/-- Blocks are freed, and none is added. -/
theorem Arenas.shrink {arenas fewer : A → Arena} (sound : Arenas arenas) (still : ∀ a, (fewer a).Sound)
    (subset : ∀ a, (fewer a).blocks_ ⊆ (arenas a).blocks_) : Arenas fewer := by
  refine ⟨still, fun a block live => sound.limited a block (subset a live), ?_⟩
  intro a other different block live far distant
  exact sound.apart a other different block (subset a live) far (subset other distant)

theorem World.Invariant.Clear {w : World A B} {b : B} (invariant : w.Invariant) (alone : w.Alone (.Clear b)) :
    (Interning.Clear w b).Invariant := by
  obtain ⟨arenas, cached⟩ := invariant
  refine ⟨arenas.shrink ?_ ?_, fun c => ?_⟩
  · refine (Function.forall_update_iff _ fun _ (arena : Arena) => arena.Sound).mpr ⟨?_, fun a _ => arenas.sound a⟩
    exact Arena.Reset_sound (arenas.sound _)
  · refine (Function.forall_update_iff _ fun a (arena : Arena) => arena.blocks_ ⊆ (w.arenas a).blocks_).mpr
      ⟨?_, fun _ _ _ => id⟩
    exact Arena.Reset_blocks _
  · simp only [Interning.Clear]
    by_cases other : c = b
    · subst other
      simp only [Function.update_self]
      exact ⟨nofun, nofun, rfl, List.nodup_nil, nofun⟩
    · simp only [Function.update_of_ne other]
      by_cases shared : (w.batches c).arena_ = (w.batches b).arena_
      · exact (cached c).empty (alone c other shared)
      · refine (cached c).frame (fun _ _ => rfl) ?_
        rw [Function.update_of_ne shared]
        exact fun _ => id

omit [DecidableEq A] [DecidableEq B] in
theorem World.Start.invariant {w : World A B} (start : w.Start) : w.Invariant := by
  have single (a : A) : ∃ block, (w.arenas a).blocks_ = [block] ∧ block.capacity.toNat < 2 ^ 63 := by
    obtain ⟨block_size, malloc, made, -, limited⟩ := start.made a
    obtain ⟨data, answered, same⟩ := Option.map_eq_some_iff.mp made
    refine ⟨⟨data, block_size⟩, ?_, limited data (Malloc.answered answered)⟩
    rw [← same]
  refine ⟨⟨fun a => ?_, fun a block live => ?_, start.apart⟩, fun b => ?_⟩
  · obtain ⟨block_size, malloc, made, fresh, -⟩ := start.made a
    exact Arena.make_sound fresh made
  · obtain ⟨only, blocks, small⟩ := single a
    rw [blocks, List.mem_singleton] at live
    rw [live]
    exact small
  · obtain ⟨cache, returned, copied⟩ := start.batches b
    rw [returned, copied]
    refine ⟨?_, ?_, ?_, List.nodup_nil, nofun⟩
    · rw [cache]
      exact nofun
    · rw [cache]
      exact nofun
    · rw [cache]
      rfl

theorem World.Reachable.invariant {w : World A B} (reachable : Reachable World.Alone w) : w.Invariant := by
  induction reachable with
  | start start => exact start.invariant
  | step _ malloc undefined op admissible alone stepped invariant =>
    cases op with
    | InternString b s => exact invariant.InternString admissible stepped
    | Clear b =>
      cases stepped
      exact invariant.Clear alone

/-- While each `Clear` finds no string in the other caches on its arena, every batch keeps its views. -/
theorem World.kept_of_alone {w : World A B} (reachable : Reachable World.Alone w) (b : B) : w.Kept b :=
  reachable.invariant.kept b

end

/-! ## A shared arena -/

/-- Two batches on one arena. -/
def sharing : World Unit Bool where
  memory := fun _ => 0
  arenas := fun _ =>
    { blocks_ := [⟨1024, 65536⟩], block_size_ := 65536, nonempty := List.cons_ne_nil _ _ }
  batches := fun _ => { arena_ := () }
  returned := fun _ => []
  copied := fun _ => []

theorem sharing_start : sharing.Start := by
  refine ⟨fun _ => ⟨65536, ⟨some 1024, none⟩, rfl, ?_, ?_⟩, fun _ _ different => absurd rfl different,
    fun _ => ⟨rfl, rfl, rfl⟩⟩
  · rintro _ (answer | answer)
    · cases answer
      exact ⟨by decide, nofun⟩
    · exact absurd answer.symm (Option.some_ne_none _)
  · exact fun _ _ => by decide

/-- A call that has room in the arena needs nothing of `malloc`. -/
theorem World.Reachable.quiet [DecidableEq A] [DecidableEq B] {allowed : World A B → Operation B → Prop}
    {w next : World A B} (reachable : Reachable allowed w) {b : B} {s : Bytes} (short : s.length < 2 ^ 62)
    (permitted : allowed w (.InternString b s)) (stepped : w.step ⟨none, none⟩ {} (.InternString b s) = some next) :
    Reachable allowed next := by
  refine reachable.step ⟨none, none⟩ {} (.InternString b s) ⟨short, ?_, fun _ => ?_⟩ permitted stepped
  · rintro _ (answer | answer) <;> exact absurd answer.symm (Option.some_ne_none _)
  · rintro _ (answer | answer) <;> exact absurd answer.symm (Option.some_ne_none _)

/-- The second batch is cleared and interns into what the first batch still holds. -/
theorem World.kept_overwritten :
    ¬ ∀ w : World Unit Bool, Reachable (fun _ _ => True) w → ∀ b, w.Kept b := by
  intro claim
  have start : Reachable (fun _ _ => True) sharing := .start sharing_start
  have first := start.quiet (b := false) (s := [97, 97, 97]) (by decide) trivial rfl
  have cleared := first.step ⟨none, none⟩ {} (.Clear true) trivial trivial rfl
  have second := cleared.quiet (b := true) (s := [98, 98, 98]) (by decide) trivial rfl
  have reads := (claim _ second false).reads ⟨[97, 97, 97], ⟨1024, 3⟩⟩ (List.mem_singleton.mpr rfl)
  exact absurd reads (by decide)

/-- The first batch is cleared before the second one is used. -/
theorem World.kept_of_alone_sharing : ∃ w : World Unit Bool, Reachable World.Alone w ∧
    w.returned true = [⟨[98, 98, 98], ⟨1024, 3⟩⟩, ⟨[98, 98, 98], ⟨1024, 3⟩⟩] ∧ w.Kept true := by
  have start : Reachable World.Alone sharing := .start sharing_start
  have first := start.quiet (b := false) (s := [97, 97, 97]) (by decide) trivial rfl
  have cleared := first.step ⟨none, none⟩ {} (.Clear false) trivial
    (Bool.forall_bool.mpr ⟨fun different => absurd rfl different, fun _ _ => rfl⟩) rfl
  have second := cleared.quiet (b := true) (s := [98, 98, 98]) (by decide) trivial rfl
  have again := second.quiet (b := true) (s := [98, 98, 98]) (by decide) trivial rfl
  exact ⟨_, again, by decide, World.kept_of_alone again true⟩

end Interning

end Illuminator
