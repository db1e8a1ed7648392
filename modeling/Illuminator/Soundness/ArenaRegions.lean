import Illuminator.Model.Arena
import Mathlib.Data.Nat.Bitwise

/-! # Regions of the arena

Every address below the bump offset of the block at the back, or in another block, counts as used. A call
takes a region that is not used yet and uses it, so the regions returned since the last `Reset` are apart,
and what is copied into one of them stays.
-/

namespace Illuminator

open Regions

/-- What `malloc` returns for a size is aligned to 16 and apart from the live blocks. -/
def Malloc.Fresh (malloc : Malloc) (size : UInt64) (live : List Block) : Prop :=
  ∀ data, malloc.data = some data ∨ malloc.again = some data →
    16 ∣ data ∧ ∀ block ∈ live, block.region.Apart ⟨data, size.toNat⟩

theorem Malloc.answered {malloc : Malloc} {handler : Bool} {data : ℕ} (answer : malloc.block handler = some data) :
    malloc.data = some data ∨ malloc.again = some data := by
  rcases Option.or_eq_some_iff.mp answer with first | ⟨-, second⟩
  · exact Or.inl first
  · split_ifs at second
    exact Or.inr second

namespace Arena

/-! ## Alignment -/

/-- Clearing the low bits rounds down. -/
theorem and_high (n : ℕ) {k : ℕ} (small : k ≤ 64) (fits : n < 2 ^ 64) : n &&& (2 ^ 64 - 2 ^ k) = n / 2 ^ k * 2 ^ k := by
  have high : 2 ^ 64 - 2 ^ k = (2 ^ (64 - k) - 1) * 2 ^ k := by
    rw [Nat.sub_mul, Nat.one_mul, ← Nat.pow_add, Nat.sub_add_cancel small]
  refine Nat.eq_of_testBit_eq fun i => ?_
  rw [high, Nat.testBit_and, Nat.testBit_mul_two_pow, Nat.testBit_mul_two_pow, Nat.testBit_two_pow_sub_one,
    Nat.testBit_div_two_pow]
  by_cases above : k ≤ i
  · rw [Nat.sub_add_cancel above]
    by_cases inside : i < 64
    · simp [above, show i - k < 64 - k by omega]
    · have clear : n.testBit i = false :=
        Nat.testBit_lt_two_pow (fits.trans_le (Nat.pow_le_pow_right (by omega) (by omega)))
      simp [clear]
  · simp [above]

/-- An alignment that callers ask for: a power of two up to 16. -/
def Alignment (alignment : UInt64) : Prop := ∃ k ≤ 4, alignment.toNat = 2 ^ k

theorem Alignment.dvd {alignment : UInt64} (asked : Alignment alignment) : alignment.toNat ∣ 16 := by
  obtain ⟨k, small, same⟩ := asked
  rw [same]
  exact Nat.pow_dvd_pow 2 small

theorem AlignUp_spec {offset alignment : UInt64} (asked : Alignment alignment)
    (fits : offset.toNat + (alignment.toNat - 1) < 2 ^ 64) :
    offset.toNat ≤ (AlignUp offset alignment).toNat ∧
      (AlignUp offset alignment).toNat ≤ offset.toNat + (alignment.toNat - 1) ∧
      alignment.toNat ∣ (AlignUp offset alignment).toNat := by
  obtain ⟨k, small, same⟩ := asked
  have positive : 0 < 2 ^ k := Nat.two_pow_pos k
  have bounded : 2 ^ k ≤ 2 ^ 4 := Nat.pow_le_pow_right (by omega) small
  have one : (1 : UInt64).toNat = 1 := rfl
  have top : (offset + alignment - 1).toNat = offset.toNat + (2 ^ k - 1) := by
    rw [UInt64.toNat_sub, UInt64.toNat_add, same, one]
    omega
  have mask : (~~~(alignment - 1)).toNat = 2 ^ 64 - 2 ^ k := by
    rw [UInt64.toNat_not, UInt64.toNat_sub, same, one]
    change 2 ^ 64 - 1 - _ = _
    omega
  have value : (AlignUp offset alignment).toNat = (offset.toNat + (2 ^ k - 1)) / 2 ^ k * 2 ^ k := by
    rw [AlignUp, UInt64.toNat_and, top, mask]
    exact and_high _ (by omega) (by rwa [same] at fits)
  rw [value, same]
  refine ⟨?_, Nat.div_mul_le_self .., Nat.dvd_mul_left ..⟩
  have rest := Nat.mod_lt (offset.toNat + (2 ^ k - 1)) positive
  have parts := Nat.div_add_mod (offset.toNat + (2 ^ k - 1)) (2 ^ k)
  rw [Nat.mul_comm] at parts
  omega

theorem AlignUp_zero {alignment : UInt64} (asked : Alignment alignment) : (AlignUp 0 alignment).toNat = 0 := by
  obtain ⟨k, small, same⟩ := id asked
  have bounded : 2 ^ k ≤ 2 ^ 4 := Nat.pow_le_pow_right (by omega) small
  have zero : (0 : UInt64).toNat = 0 := rfl
  have fits : (0 : UInt64).toNat + (alignment.toNat - 1) < 2 ^ 64 := by
    rw [zero, same]
    omega
  obtain ⟨-, below, multiple⟩ := AlignUp_spec asked fits
  rw [zero, same] at below
  rw [same] at multiple
  exact Nat.eq_zero_of_dvd_of_lt multiple (by have := Nat.two_pow_pos k; omega)

/-! ## What a call takes -/

/-- An address of a block, below the bump offset if the block is at the back. -/
def Used (arena : Arena) (a : ℕ) : Prop :=
  (∃ block ∈ arena.blocks_.tail, a ∈ block.region) ∨ a ∈ (⟨arena.back.data, arena.current_offset_.toNat⟩ : Region)

/-- The blocks are aligned and apart, and the bump offset is inside the one at the back. -/
structure Sound (arena : Arena) : Prop where
  apart : arena.blocks_.Pairwise fun b c => b.region.Apart c.region
  aligned : ∀ block ∈ arena.blocks_, 16 ∣ block.data
  inside : arena.current_offset_.toNat ≤ arena.back.capacity.toNat

/-- No size wraps in a call of `Allocate`. -/
structure NoOverflow (arena : Arena) (size alignment : UInt64) : Prop where
  offset : arena.current_offset_.toNat + (alignment.toNat - 1) < 2 ^ 64
  end_ : (AlignUp arena.current_offset_ alignment).toNat + size.toNat < 2 ^ 64
  block : size.toNat + alignment.toNat < 2 ^ 64

/-- A region taken from an arena. -/
structure Takes (arena : Arena) (region : Region) (alignment : UInt64) (next : Arena) : Prop where
  sound : next.Sound
  fresh : ∀ a, a ∈ region → ¬ arena.Used a
  taken : ∀ a, a ∈ region → next.Used a
  kept : ∀ a, arena.Used a → next.Used a
  blocks : arena.blocks_ ⊆ next.blocks_
  within : ∃ block ∈ next.blocks_, region.Within block.region
  aligned : alignment.toNat ∣ region.start

theorem blocks_eq (arena : Arena) : arena.blocks_ = arena.back :: arena.blocks_.tail :=
  (List.cons_head_tail arena.nonempty).symm

theorem back_mem (arena : Arena) : arena.back ∈ arena.blocks_ := List.head_mem _

/-- The block at the back is apart from the others. -/
theorem Sound.back_apart {arena : Arena} (sound : arena.Sound) {block : Block} (other : block ∈ arena.blocks_.tail) :
    arena.back.region.Apart block.region := by
  have apart := sound.apart
  rw [blocks_eq, List.pairwise_cons] at apart
  exact apart.1 block other

theorem Used.block {arena : Arena} (sound : arena.Sound) {a : ℕ} (used : arena.Used a) :
    ∃ block ∈ arena.blocks_, a ∈ block.region := by
  rcases used with ⟨block, other, inside⟩ | below
  · exact ⟨block, List.mem_of_mem_tail other, inside⟩
  · refine ⟨arena.back, arena.back_mem, below.1, below.2.trans_le ?_⟩
    exact Nat.add_le_add_left sound.inside _

section Allocate

variable {arena next : Arena} {size alignment : UInt64} {malloc : Malloc} {ptr : ℕ}

/-- A region above the bump offset of the block at the back. -/
theorem bump_takes (sound : arena.Sound) (asked : Alignment alignment) {offset : UInt64}
    (above : arena.current_offset_.toNat ≤ offset.toNat) (multiple : alignment.toNat ∣ offset.toNat)
    (room : offset.toNat + size.toNat ≤ arena.back.capacity.toNat) (bumped : arena.bump offset size = (ptr, next)) :
    Takes arena ⟨ptr, size.toNat⟩ alignment next := by
  cases bumped
  have capacity := UInt64.toNat_lt arena.back.capacity
  have moved : (offset + size).toNat = offset.toNat + size.toNat := by
    rw [UInt64.toNat_add]
    omega
  have within : (⟨arena.back.data + offset.toNat, size.toNat⟩ : Region).Within arena.back.region := by
    refine ⟨Nat.le_add_right .., ?_⟩
    change arena.back.data + offset.toNat + size.toNat ≤ arena.back.data + arena.back.capacity.toNat
    omega
  refine ⟨⟨sound.apart, sound.aligned, ?_⟩, ?_, ?_, ?_, fun _ => id, ⟨_, arena.back_mem, within⟩, ?_⟩
  · change (offset + size).toNat ≤ arena.back.capacity.toNat
    omega
  · rintro a member (⟨block, other, inside⟩ | below)
    · exact sound.back_apart other a (within.mem member) inside
    · rw [mem_iff] at member below
      simp only at member below
      omega
  · intro a member
    refine Or.inr ?_
    change arena.back.data ≤ a ∧ a < arena.back.data + (offset + size).toNat
    rw [mem_iff] at member
    simp only at member
    omega
  · rintro a (other | below)
    · exact Or.inl other
    · refine Or.inr ?_
      change arena.back.data ≤ a ∧ a < arena.back.data + (offset + size).toNat
      rw [mem_iff] at below
      simp only at below
      omega
  · exact Nat.dvd_add (asked.dvd.trans (sound.aligned _ arena.back_mem)) multiple

/-- A block from `malloc` goes to the back, and what was used stays so. -/
theorem AllocateBlock_sound (sound : arena.Sound) (fresh : malloc.Fresh size arena.blocks_)
    (allocated : arena.AllocateBlock size malloc = some next) :
    next.Sound ∧ (∀ a, arena.Used a → next.Used a) ∧ arena.blocks_ ⊆ next.blocks_ ∧ next.current_offset_ = 0 ∧
      next.back.capacity = size := by
  obtain ⟨data, answered, rfl⟩ := Option.map_eq_some_iff.mp allocated
  obtain ⟨multiple, apart⟩ := fresh data (Malloc.answered answered)
  refine ⟨⟨?_, ?_, Nat.zero_le _⟩, ?_, List.subset_cons_self .., rfl, rfl⟩
  · exact List.pairwise_cons.mpr ⟨fun block live => (apart block live).symm, sound.apart⟩
  · exact List.forall_mem_cons.mpr ⟨multiple, sound.aligned⟩
  · exact fun a used => Or.inl (used.block sound)

theorem Allocate_takes (sound : arena.Sound) (asked : Alignment alignment)
    (bounded : arena.NoOverflow size alignment)
    (fresh : malloc.Fresh (arena.new_block_size size alignment) arena.blocks_)
    (allocated : arena.Allocate size alignment malloc = some (ptr, next)) :
    Takes arena ⟨ptr, size.toNat⟩ alignment next := by
  have moved : (AlignUp arena.current_offset_ alignment + size).toNat =
      (AlignUp arena.current_offset_ alignment).toNat + size.toNat := by
    have := bounded.end_
    rw [UInt64.toNat_add]
    omega
  simp only [Allocate] at allocated
  split_ifs at allocated with full
  · obtain ⟨grown, pushed, bumped⟩ := Option.map_eq_some_iff.mp allocated
    obtain ⟨sound_, used, blocks, start, capacity⟩ := AllocateBlock_sound sound fresh pushed
    have zero := AlignUp_zero asked
    have room : size.toNat ≤ grown.back.capacity.toNat := by
      have sum : (size + alignment).toNat = size.toNat + alignment.toNat := by
        have := bounded.block
        rw [UInt64.toNat_add]
        omega
      have larger : size + alignment ≤ arena.new_block_size size alignment := by
        change _ ≤ if arena.block_size_ ≤ size + alignment then _ else _
        split_ifs with default
        · exact UInt64.le_refl _
        · exact UInt64.le_of_lt (UInt64.not_le.mp default)
      rw [UInt64.le_iff_toNat_le] at larger
      rw [capacity]
      omega
    have takes : Takes grown ⟨ptr, size.toNat⟩ alignment next := by
      refine bump_takes sound_ asked ?_ ?_ ?_ bumped
      · rw [start, zero]
        exact le_rfl
      · rw [zero]
        exact Nat.dvd_zero _
      · rw [zero]
        omega
    refine { takes with fresh := ?_, kept := ?_, blocks := ?_ }
    · exact fun a member already => takes.fresh a member (used a already)
    · exact fun a already => takes.kept a (used a already)
    · exact fun block live => takes.blocks (blocks live)
  · obtain ⟨above, -, multiple⟩ := AlignUp_spec asked bounded.offset
    rw [UInt64.not_lt, UInt64.le_iff_toNat_le, moved] at full
    exact bump_takes sound asked above multiple full (Option.some.inj allocated)

theorem Allocate_total (allocated : arena.Allocate size alignment malloc = some (ptr, next)) :
    next.total_allocated_ = arena.total_allocated_ + size := by
  simp only [Allocate] at allocated
  split_ifs at allocated
  · obtain ⟨grown, pushed, bumped⟩ := Option.map_eq_some_iff.mp allocated
    obtain ⟨data, -, rfl⟩ := Option.map_eq_some_iff.mp pushed
    cases bumped
    rfl
  · cases allocated
    rfl

/-- The blocks after a call: those before it, and one of the size asked of `malloc` if it was asked. -/
theorem Allocate_blocks (allocated : arena.Allocate size alignment malloc = some (ptr, next)) {block : Block}
    (live : block ∈ next.blocks_) : block ∈ arena.blocks_ ∨
      block.capacity = arena.new_block_size size alignment ∧
        (malloc.data = some block.data ∨ malloc.again = some block.data) := by
  simp only [Allocate] at allocated
  split_ifs at allocated
  · obtain ⟨grown, pushed, bumped⟩ := Option.map_eq_some_iff.mp allocated
    obtain ⟨data, answered, rfl⟩ := Option.map_eq_some_iff.mp pushed
    cases bumped
    rcases List.mem_cons.mp live with rfl | earlier
    · exact Or.inr ⟨rfl, Malloc.answered answered⟩
    · exact Or.inl earlier
  · cases allocated
    exact Or.inl live

end Allocate

theorem Reset_blocks (arena : Arena) : arena.Reset.blocks_ ⊆ arena.blocks_ := by
  intro block live
  rw [List.mem_singleton.mp live]
  exact List.getLast_mem _

theorem Reset_sound {arena : Arena} (sound : arena.Sound) : arena.Reset.Sound := by
  refine ⟨List.pairwise_singleton .., ?_, Nat.zero_le _⟩
  exact List.forall_mem_singleton.mpr (sound.aligned _ (List.getLast_mem _))

theorem make_sound {block_size : UInt64} {malloc : Malloc} {arena : Arena} (fresh : malloc.Fresh block_size [])
    (made : make block_size malloc = some arena) : arena.Sound := by
  obtain ⟨data, answered, rfl⟩ := Option.map_eq_some_iff.mp made
  refine ⟨List.pairwise_singleton .., ?_, Nat.zero_le _⟩
  exact List.forall_mem_singleton.mpr (fresh data (Malloc.answered answered)).1

/-! ## Runs of calls -/

/-- What a program and `malloc` may do: no size overflows, and no write reaches a copied string. -/
def Session.Admissible (s : Session) (malloc : Malloc) : Operation → Prop
  | .Allocate size alignment =>
    Alignment alignment ∧ s.arena.NoOverflow size alignment ∧ s.arena.total_allocated_.toNat + size.toNat < 2 ^ 64 ∧
      malloc.Fresh (s.arena.new_block_size size alignment) s.arena.blocks_
  | .CopyString src =>
    s.arena.total_allocated_.toNat + src.length < 2 ^ 64 ∧
      (src ≠ [] → s.arena.NoOverflow (UInt64.ofNat src.length) max_align ∧
        malloc.Fresh (s.arena.new_block_size (UInt64.ofNat src.length) max_align) s.arena.blocks_)
  | .write start values => ∀ r ∈ s.returned, r.copied ≠ none → r.region.Apart ⟨start, values.length⟩
  | .Reset => True
  | .SetOomHandler _ => True

/-- The sessions of an arena whose constructor was given `block_size`. -/
inductive Session.Reachable (block_size : UInt64) : Session → Prop where
  | make (malloc : Malloc) (memory : Memory UInt8) {arena : Arena} (fresh : malloc.Fresh block_size [])
      (made : make block_size malloc = some arena) : Reachable block_size ⟨arena, memory, []⟩
  | step {s t : Session} (reachable : Reachable block_size s) (malloc : Malloc) (op : Operation)
      (admissible : s.Admissible malloc op) (stepped : s.step malloc op = some t) : Reachable block_size t

/-- Where the regions returned since the last `Reset` are, and what they hold. -/
structure Session.Placed (s : Session) : Prop where
  within : ∀ r ∈ s.returned, ∃ block ∈ s.arena.blocks_, r.region.Within block.region
  aligned : ∀ r ∈ s.returned, r.alignment.toNat ∣ r.region.start
  apart : s.returned.Pairwise fun r t => r.region.Apart t.region
  kept : ∀ r ∈ s.returned, ∀ src, r.copied = some src → s.memory.read r.region = src
  total : s.arena.TotalAllocated.toNat = (s.returned.map fun r => r.region.size).sum

/-- The regions are placed, and the arena counts their addresses as used. -/
structure Session.Invariant (s : Session) : Prop where
  sound : s.arena.Sound
  placed : s.Placed
  used : ∀ r ∈ s.returned, ∀ a, a ∈ r.region → s.arena.Used a

/-- A region is taken, and the memory changes nowhere else. -/
theorem Session.Invariant.takes {s : Session} (invariant : s.Invariant) {region : Region} {alignment : UInt64}
    {next : Arena} (takes : Takes s.arena region alignment next)
    (total : next.total_allocated_.toNat = s.arena.total_allocated_.toNat + region.size)
    {memory : Memory UInt8} {copied : Option Bytes} (same : ∀ a, a ∉ region → memory a = s.memory a) (holds : ∀ src, copied = some src → memory.read region = src) :
    Session.Invariant ⟨next, memory, ⟨region, alignment, copied⟩ :: s.returned⟩ := by
  obtain ⟨sound, placed, used⟩ := invariant
  have apart : ∀ r ∈ s.returned, region.Apart r.region := fun r earlier a inside already =>
    takes.fresh a inside (used r earlier a already)
  refine ⟨takes.sound, ⟨?_, ?_, ?_, ?_, ?_⟩, ?_⟩
  · refine List.forall_mem_cons.mpr ⟨takes.within, fun r earlier => ?_⟩
    obtain ⟨block, live, inside⟩ := placed.within r earlier
    exact ⟨block, takes.blocks live, inside⟩
  · exact List.forall_mem_cons.mpr ⟨takes.aligned, placed.aligned⟩
  · exact List.pairwise_cons.mpr ⟨apart, placed.apart⟩
  · refine List.forall_mem_cons.mpr ⟨holds, fun r earlier src put => ?_⟩
    rw [← placed.kept r earlier src put]
    exact read_congr fun a member => same a fun inside => apart r earlier a inside member
  · rw [List.map_cons, List.sum_cons, ← placed.total, Nat.add_comm]
    exact total
  · refine List.forall_mem_cons.mpr ⟨takes.taken, fun r earlier a member => takes.kept a ?_⟩
    exact used r earlier a member

theorem Session.Invariant.step {s t : Session} {malloc : Malloc} {op : Operation} (invariant : s.Invariant)
    (admissible : s.Admissible malloc op) (stepped : s.step malloc op = some t) : t.Invariant := by
  cases op with
  | Allocate size alignment =>
    obtain ⟨⟨ptr, next⟩, allocated, rfl⟩ := Option.map_eq_some_iff.mp stepped
    obtain ⟨asked, bounded, below, fresh⟩ := admissible
    refine invariant.takes (Allocate_takes invariant.sound asked bounded fresh allocated) ?_ (fun _ _ => rfl) nofun
    rw [Allocate_total allocated, UInt64.toNat_add]
    exact Nat.mod_eq_of_lt below
  | CopyString src =>
    obtain ⟨⟨view, memory, next⟩, copied, rfl⟩ := Option.map_eq_some_iff.mp stepped
    obtain ⟨below, requested⟩ := admissible
    unfold CopyString at copied
    split_ifs at copied with empty
    · cases copied
      simp only [if_pos empty]
      exact invariant
    · obtain ⟨⟨dst, arena⟩, allocated, rest⟩ := Option.map_eq_some_iff.mp copied
      cases rest
      obtain ⟨bounded, fresh⟩ := requested fun none => empty (List.isEmpty_iff.mpr none)
      have takes := Allocate_takes invariant.sound ⟨4, le_rfl, rfl⟩ bounded fresh allocated
      have length : (UInt64.ofNat src.length).toNat = src.length :=
        UInt64.toNat_ofNat_of_lt' ((Nat.le_add_left ..).trans_lt below)
      rw [length] at takes
      simp only [if_neg empty]
      refine invariant.takes takes ?_ (fun a outside => write_of_notMem _ outside) fun _ put => ?_
      · rw [Allocate_total allocated, UInt64.toNat_add, length]
        exact Nat.mod_eq_of_lt below
      · cases put
        exact read_write ..
  | write start values =>
    cases stepped
    refine ⟨invariant.sound, { invariant.placed with kept := fun r earlier src put => ?_ }, invariant.used⟩
    rw [← invariant.placed.kept r earlier src put]
    refine read_write_apart _ (admissible r earlier ?_)
    rw [put]
    exact Option.some_ne_none _
  | Reset =>
    cases stepped
    exact ⟨Reset_sound invariant.sound, ⟨nofun, nofun, List.Pairwise.nil, nofun, rfl⟩, nofun⟩
  | SetOomHandler handler =>
    cases stepped
    exact ⟨⟨invariant.sound.1, invariant.sound.2, invariant.sound.3⟩,
      ⟨invariant.placed.1, invariant.placed.2, invariant.placed.3, invariant.placed.4, invariant.placed.5⟩,
      invariant.used⟩

theorem Session.Reachable.invariant {block_size : UInt64} {s : Session} (reachable : Reachable block_size s) :
    s.Invariant := by
  induction reachable with
  | make malloc memory fresh made =>
    refine ⟨make_sound fresh made, ⟨nofun, nofun, List.Pairwise.nil, nofun, ?_⟩, nofun⟩
    obtain ⟨data, -, rfl⟩ := Option.map_eq_some_iff.mp made
    rfl
  | step _ malloc op admissible stepped invariant => exact invariant.step admissible stepped

/-- The regions returned since the last `Reset` are in live blocks, aligned, apart and kept, and their sizes
are the total. -/
theorem Session.regions_placed {block_size : UInt64} {s : Session} (reachable : Reachable block_size s) : s.Placed :=
  reachable.invariant.placed

/-- A string is copied into the first block, and a region that does not fit goes to a second one. -/
theorem Session.regions_placed_switched : ∃ s : Session,
    Reachable 32 s ∧ s.returned.map (fun r => r.region) = [⟨2048, 40⟩, ⟨1024, 3⟩] ∧ s.Placed := by
  have fresh (data : ℕ) (size : UInt64) (live : List Block) (multiple : 16 ∣ data)
      (apart : ∀ block ∈ live, block.region.Apart ⟨data, size.toNat⟩) :
      Malloc.Fresh ⟨some data, none⟩ size live := by
    rintro _ (answer | answer)
    · cases answer
      exact ⟨multiple, apart⟩
    · exact absurd answer.symm (Option.some_ne_none _)
  have start := Reachable.make ⟨some 1024, none⟩ (fun _ => 0) (fresh 1024 32 [] (by decide) nofun) rfl
  have copied := start.step ⟨none, none⟩ (.CopyString [97, 98, 99])
    ⟨by decide, fun _ => ⟨⟨by decide, by decide, by decide⟩, nofun⟩⟩ rfl
  have switched := copied.step ⟨some 2048, none⟩ (.Allocate 40 8)
    ⟨⟨3, by decide, rfl⟩, ⟨by decide, by decide, by decide⟩, by decide, fresh _ _ _ (by decide) (by decide)⟩ rfl
  exact ⟨_, switched, rfl, Session.regions_placed switched⟩

end Arena

end Illuminator
