import Illuminator.Machine.Histories
import Illuminator.Machine.KeyedTable
import Illuminator.Model.MemTracer

/-! # The table of live allocations

An allocation is live from the return of `malloc` until the call of `free`, and belongs to the process
that made it. `allocs` has one slot for each address, whatever the process, and an allocation whose
event finds no room in the ring buffer is never entered. It holds exactly the live allocations as long
as no return finds the ring buffer full and live allocations have distinct addresses.
-/

namespace Illuminator

namespace MemTracer

open Histories KeyedTable

structure Allocation where
  pid : UInt32
  addr : UInt64
  size : UInt64
  deriving DecidableEq

/-- The sizes that threads inside `malloc` have asked for, and the live allocations. -/
structure Heap where
  calls : UInt64 → Option UInt64
  live : List Allocation

def Heap.owns (heap : Heap) (task : Task) (addr : UInt64) : Prop :=
  ∃ allocation ∈ heap.live, allocation.pid = task.pid ∧ allocation.addr = addr

instance (heap : Heap) (task : Task) (addr : UInt64) : Decidable (heap.owns task addr) :=
  inferInstanceAs (Decidable (∃ allocation ∈ heap.live, allocation.pid = task.pid ∧ allocation.addr = addr))

def Heap.returned (heap : Heap) (task : Task) (addr : UInt64) : List Allocation :=
  match heap.calls task.pid_tgid with
  | none => heap.live
  | some size => if addr = 0 then heap.live else heap.live ++ [⟨task.pid, addr, size⟩]

theorem returned_null (heap : Heap) (task : Task) : heap.returned task 0 = heap.live := by
  unfold Heap.returned
  cases heap.calls task.pid_tgid <;> rfl

theorem returned_real {heap : Heap} {task : Task} {addr size : UInt64} (called : heap.calls task.pid_tgid = some size)
    (real : addr ≠ 0) : heap.returned task addr = heap.live ++ [⟨task.pid, addr, size⟩] := by
  rw [Heap.returned, called]
  exact if_neg real

def follow (heap : Heap) : Event → Heap
  | .mallocEntry task size => { heap with calls := Function.update heap.calls task.pid_tgid (some size) }
  | .mallocReturn task addr _ _ =>
    { calls := Function.update heap.calls task.pid_tgid none, live := heap.returned task addr }
  | .free task addr _ _ =>
    if addr = 0 then heap
    else { heap with live := heap.live.filter fun allocation => ¬ (allocation.pid = task.pid ∧ allocation.addr = addr) }

/-- What the traced processes have done after some events. -/
def heapAfter (events : List Event) : Heap := events.foldl follow ⟨fun _ => none, []⟩

/-- A thread calls one function at a time; `malloc` returns NULL or an address that is not live in its process, and a
process frees NULL or an address that it has live. -/
def Admissible (heap : Heap) : Event → Prop
  | .mallocEntry task _ => heap.calls task.pid_tgid = none
  | .mallocReturn task addr _ _ => (heap.calls task.pid_tgid).isSome ∧ ¬ heap.owns task addr
  | .free task addr _ _ => heap.calls task.pid_tgid = none ∧ (addr = 0 ∨ heap.owns task addr)

instance (heap : Heap) : DecidablePred (Admissible heap)
  | .mallocEntry task _ => inferInstanceAs (Decidable (heap.calls task.pid_tgid = none))
  | .mallocReturn task addr _ _ =>
    inferInstanceAs (Decidable ((heap.calls task.pid_tgid).isSome ∧ ¬ heap.owns task addr))
  | .free task addr _ _ =>
    inferInstanceAs (Decidable (heap.calls task.pid_tgid = none ∧ (addr = 0 ∨ heap.owns task addr)))

def WellFormed (events : List Event) : Prop :=
  ∀ before event, before ++ [event] <+: events → Admissible (heapAfter before) event

/-- The owner, the address and the size of an entry of the table. -/
def IlMemEvent.allocation (entry : IlMemEvent) : Allocation := ⟨entry.pid, entry.addr, entry.size⟩

/-- The table holds exactly the live allocations, each with its own process and size. -/
def Matches (m : Maps) (heap : Heap) : Prop :=
  Tracks Allocation.addr id (Option.map IlMemEvent.allocation ∘ m.allocs) heap.live

def Exact (events : List Event) : Prop := Matches (run events) (heapAfter events)

/-- Live allocations have distinct addresses, across all processes. -/
def Separate (events : List Event) : Prop := ((heapAfter events).live.map Allocation.addr).Nodup

/-- Every `malloc` that returns an address finds room in the ring buffer. -/
def RoomOnReturn (events : List Event) : Prop :=
  ∀ before task addr now reserved, before ++ [.mallocReturn task addr now reserved] <+: events → addr ≠ 0 →
    reserved = true

theorem heapAfter_snoc (events : List Event) (event : Event) :
    heapAfter (events ++ [event]) = follow (heapAfter events) event := List.foldl_concat ..

theorem run_snoc (events : List Event) (event : Event) : run (events ++ [event]) = step (run events) event :=
  List.foldl_concat ..

theorem RoomOnReturn.initial {before events : List Event} (room : RoomOnReturn events) (earlier : before <+: events) :
    RoomOnReturn before :=
  fun first task addr now reserved within => room first task addr now reserved (within.trans earlier)

/-- What a probe does to the sizes of the calls under way, which have a slot for each thread. -/
theorem sizes_step {m : Maps} {heap : Heap} {event : Event} (sizes : m.alloc_sizes = heap.calls)
    (admissible : Admissible heap event) : (step m event).alloc_sizes = (follow heap event).calls := by
  cases event with
  | mallocEntry task size =>
    change Function.update m.alloc_sizes _ _ = Function.update heap.calls _ _
    rw [sizes]
  | mallocReturn task addr now reserved =>
    obtain ⟨size, called⟩ := Option.isSome_iff_exists.mp admissible.1
    have noted : m.alloc_sizes task.pid_tgid = some size := by rw [sizes, called]
    change (uretprobe_malloc m task addr now reserved).alloc_sizes = Function.update heap.calls _ _
    rw [← sizes]
    by_cases null : addr = 0
    · rw [null, uretprobe_malloc_null noted]
    · cases reserved with
      | true => rw [uretprobe_malloc_room noted null]
      | false => rw [uretprobe_malloc_full noted null]
  | free task addr now reserved =>
    change (uprobe_free m task addr now reserved).alloc_sizes = (follow heap (.free task addr now reserved)).calls
    rw [follow, apply_ite Heap.calls, ite_self, ← sizes]
    by_cases null : addr = 0
    · rw [uprobe_free, if_pos null]
    · cases found : m.allocs addr with
      | none => rw [uprobe_free, if_neg null, found]
      | some alloc => exact (uprobe_free_allocs null found reserved).2

theorem sizes_after {events : List Event} (wellFormed : WellFormed events) :
    (run events).alloc_sizes = (heapAfter events).calls := by
  refine Throughout.invariant wellFormed (fun events => (run events).alloc_sizes = (heapAfter events).calls) rfl ?_
  intro before event _ same admissible
  rw [run_snoc, heapAfter_snoc]
  exact sizes_step same admissible

section Steps

variable {m : Maps} {heap : Heap} {task : Task} {addr size now : UInt64}

theorem matches_malloc (same : Matches m heap) (noted : m.alloc_sizes task.pid_tgid = some size)
    (called : heap.calls task.pid_tgid = some size) (real : addr ≠ 0)
    (new : addr ∉ heap.live.map Allocation.addr) :
    Matches (step m (.mallocReturn task addr now true)) (follow heap (.mallocReturn task addr now true)) := by
  have entered : (step m (.mallocReturn task addr now true)).allocs =
      Function.update m.allocs addr (some (memEvent task addr size now 1)) := by
    rw [step, uretprobe_malloc_room noted real]
  have live : (follow heap (.mallocReturn task addr now true)).live = heap.live ++ [⟨task.pid, addr, size⟩] :=
    returned_real called real
  unfold Matches
  rw [entered, live, Function.comp_update]
  exact Tracks.arrive same (e := ⟨task.pid, addr, size⟩) new

/-- A return that finds the ring buffer full makes an allocation live that is not entered. -/
theorem not_matches_full (same : Matches m heap) (noted : m.alloc_sizes task.pid_tgid = some size)
    (called : heap.calls task.pid_tgid = some size) (real : addr ≠ 0) :
    ¬ Matches (step m (.mallocReturn task addr now false)) (follow heap (.mallocReturn task addr now false)) := by
  intro later
  have kept : (step m (.mallocReturn task addr now false)).allocs = m.allocs := by
    rw [step, uretprobe_malloc_full noted real]
  have live : (follow heap (.mallocReturn task addr now false)).live = heap.live ++ [⟨task.pid, addr, size⟩] :=
    returned_real called real
  unfold Matches at same later
  rw [kept, live] at later
  have slot := (same addr).symm.trans (later addr)
  simp at slot

theorem matches_free (same : Matches m heap) (separate : (heap.live.map Allocation.addr).Nodup)
    (owned : addr = 0 ∨ heap.owns task addr) (reserved : Bool) :
    Matches (step m (.free task addr now reserved)) (follow heap (.free task addr now reserved)) := by
  by_cases null : addr = 0
  · have kept : step m (.free task addr now reserved) = m := by rw [step, uprobe_free, if_pos null]
    rw [kept, follow, if_pos null]
    exact same
  · obtain ⟨own, member, process, rfl⟩ := owned.resolve_left null
    have slot := Tracks.lookup same member
    obtain ⟨entry, found, -⟩ := Option.map_eq_some_iff.mp slot
    unfold Matches
    rw [step, (uprobe_free_allocs null found reserved).1, follow, if_neg null, Function.comp_update]
    refine Tracks.depart same fun allocation here => ?_
    rw [decide_eq_false_iff_not, not_not]
    constructor
    · exact And.right
    · intro equal
      rw [List.inj_on_of_nodup_map separate here member equal]
      exact ⟨process, rfl⟩

end Steps

theorem exact_of_separate {events : List Event} (wellFormed : WellFormed events) (room : RoomOnReturn events)
    (separate : ∀ before, before <+: events → Separate before) : Exact events := by
  induction events using List.reverseRecOn with
  | nil => exact tracks_empty
  | append_singleton before event ih =>
    have earlier : before <+: before ++ [event] := List.prefix_append ..
    have kept := ih (Throughout.initial wellFormed earlier) (room.initial earlier)
      fun first within => separate first (within.trans earlier)
    have admissible : Admissible (heapAfter before) event := Throughout.last wellFormed
    have after := separate _ (List.prefix_refl _)
    unfold Separate at after
    unfold Exact
    rw [heapAfter_snoc] at after ⊢
    rw [run_snoc]
    cases event with
    | mallocEntry task size => exact kept
    | mallocReturn task addr now reserved =>
      obtain ⟨size, called⟩ := Option.isSome_iff_exists.mp admissible.1
      have noted : (run before).alloc_sizes task.pid_tgid = some size := by
        rw [sizes_after (Throughout.initial wellFormed earlier), called]
      by_cases null : addr = 0
      · subst null
        have live : (follow (heapAfter before) (.mallocReturn task 0 now reserved)).live = (heapAfter before).live :=
          returned_null ..
        unfold Matches
        rw [live, step, uretprobe_malloc_null noted]
        exact kept
      · obtain rfl := room before task addr now reserved (List.prefix_refl _) null
        refine matches_malloc kept noted called null fun inside => ?_
        have live : (follow (heapAfter before) (.mallocReturn task addr now true)).live =
            (heapAfter before).live ++ [⟨task.pid, addr, size⟩] := returned_real called null
        rw [live, List.map_append, List.nodup_append] at after
        exact after.2.2 _ inside _ (List.mem_singleton.mpr rfl) rfl
    | free task addr now reserved => exact matches_free kept (separate before earlier) admissible.2 reserved

/-- In a run of calls as programs make them, the table holds exactly the live allocations after every probe if and only
if every `malloc` that returns an address finds room in the ring buffer and live allocations always have distinct
addresses. -/
theorem exact_iff (events : List Event) (wellFormed : WellFormed events) :
    (∀ before, before <+: events → Exact before) ↔
      RoomOnReturn events ∧ ∀ before, before <+: events → Separate before := by
  constructor
  · intro each
    refine ⟨?_, fun before within => Tracks.distinct (each before within)⟩
    intro before task addr now reserved within real
    have earlier : before <+: events := (List.prefix_append ..).trans within
    obtain ⟨size, called⟩ := Option.isSome_iff_exists.mp (wellFormed before _ within).1
    have noted : (run before).alloc_sizes task.pid_tgid = some size := by
      rw [sizes_after (Throughout.initial wellFormed earlier), called]
    cases reserved with
    | true => rfl
    | false =>
      have after := each _ within
      unfold Exact at after
      rw [run_snoc, heapAfter_snoc] at after
      exact absurd after (not_matches_full (each before earlier) noted called real)
  · rintro ⟨room, separate⟩ before within
    exact exact_of_separate (Throughout.initial wellFormed within) (room.initial within) fun first earlier =>
      separate first (earlier.trans within)

/-- Two processes that `malloc` gives the same address. -/
def sameAddress : List Event :=
  [.mallocEntry ⟨0x1000000010, ascii "a"⟩ 64, .mallocReturn ⟨0x1000000010, ascii "a"⟩ 0x5000 1 true,
    .mallocEntry ⟨0x2000000020, ascii "b"⟩ 32, .mallocReturn ⟨0x2000000020, ascii "b"⟩ 0x5000 2 true]

theorem sameAddress_wellFormed : WellFormed sameAddress :=
  (((throughout_nil.snoc (by decide)).snoc (by decide)).snoc (by decide)).snoc (by decide)

/-- The second process's allocation replaces the first one's. -/
theorem sameAddress_inexact : WellFormed sameAddress ∧ ¬ ∀ before, before <+: sameAddress → Exact before := by
  refine ⟨sameAddress_wellFormed, fun each => ?_⟩
  have slot := each sameAddress (List.prefix_refl _) 0x5000
  exact absurd slot (by decide)

theorem exact_iff_sameAddress : (∀ before, before <+: sameAddress → Exact before) ↔
    RoomOnReturn sameAddress ∧ ∀ before, before <+: sameAddress → Separate before :=
  exact_iff sameAddress sameAddress_wellFormed

end MemTracer

end Illuminator
