import Illuminator.Model.Strings
import Mathlib.Logic.Function.Basic

/-! # Allocation tracing

`mem_tracer.bpf.c` keeps the size that a thread has asked `malloc` for until the call returns, and then
the allocation, under its address, until `free` is called with that address. A probe is one step, on
behalf of any thread of any traced process. The maps are never full; whether the ring buffer has room
is the kernel's answer.
-/

namespace Illuminator

namespace MemTracer

/-- The task that a probe runs in: the process in the upper half of `pid_tgid`, the thread in the lower. -/
structure Task where
  pid_tgid : UInt64
  comm : Bytes
  deriving DecidableEq

def Task.pid (task : Task) : UInt32 := (task.pid_tgid >>> 32).toUInt32

def Task.tid (task : Task) : UInt32 := task.pid_tgid.toUInt32

/-- `struct il_mem_event`. -/
structure IlMemEvent where
  timestamp_ns : UInt64
  pid : UInt32
  tid : UInt32
  addr : UInt64
  size : UInt64
  comm : Bytes
  alloc : UInt8
  deriving DecidableEq

structure Maps where
  allocs : UInt64 → Option IlMemEvent
  alloc_sizes : UInt64 → Option UInt64
  mem_events : List IlMemEvent

def Maps.fresh : Maps := ⟨fun _ => none, fun _ => none, []⟩

def uprobe_malloc (m : Maps) (task : Task) (size : UInt64) : Maps :=
  { m with alloc_sizes := Function.update m.alloc_sizes task.pid_tgid (some size) }

def memEvent (task : Task) (addr size now : UInt64) (alloc : UInt8) : IlMemEvent :=
  ⟨now, task.pid, task.tid, addr, size, task.comm, alloc⟩

def uretprobe_malloc (m : Maps) (task : Task) (addr now : UInt64) (reserved : Bool) : Maps :=
  match m.alloc_sizes task.pid_tgid with
  | none => m
  | some size =>
    if addr = 0 then { m with alloc_sizes := Function.update m.alloc_sizes task.pid_tgid none }
    else if reserved then
      { allocs := Function.update m.allocs addr (some (memEvent task addr size now 1))
        alloc_sizes := Function.update m.alloc_sizes task.pid_tgid none
        mem_events := m.mem_events ++ [memEvent task addr size now 1] }
    -- without room in the ring buffer the allocation is not entered either
    else { m with alloc_sizes := Function.update m.alloc_sizes task.pid_tgid none }

def uprobe_free (m : Maps) (task : Task) (addr now : UInt64) (reserved : Bool) : Maps :=
  if addr = 0 then m
  else match m.allocs addr with
    | none => m
    | some alloc =>
      if reserved then
        { m with
          allocs := Function.update m.allocs addr none
          mem_events := m.mem_events ++ [memEvent task addr alloc.size now 0] }
      else { m with allocs := Function.update m.allocs addr none }

inductive Event where
  | mallocEntry (task : Task) (size : UInt64)
  | mallocReturn (task : Task) (addr now : UInt64) (reserved : Bool)
  | free (task : Task) (addr now : UInt64) (reserved : Bool)

def step (m : Maps) : Event → Maps
  | .mallocEntry task size => uprobe_malloc m task size
  | .mallocReturn task addr now reserved => uretprobe_malloc m task addr now reserved
  | .free task addr now reserved => uprobe_free m task addr now reserved

def run (events : List Event) : Maps := events.foldl step .fresh

section

variable {m : Maps} {task : Task} {addr size now : UInt64}

theorem uretprobe_malloc_null (called : m.alloc_sizes task.pid_tgid = some size) (reserved : Bool) :
    uretprobe_malloc m task 0 now reserved =
      { m with alloc_sizes := Function.update m.alloc_sizes task.pid_tgid none } := by
  rw [uretprobe_malloc, called]
  rfl

theorem uretprobe_malloc_room (called : m.alloc_sizes task.pid_tgid = some size) (real : addr ≠ 0) :
    uretprobe_malloc m task addr now true =
      { allocs := Function.update m.allocs addr (some (memEvent task addr size now 1))
        alloc_sizes := Function.update m.alloc_sizes task.pid_tgid none
        mem_events := m.mem_events ++ [memEvent task addr size now 1] } := by
  rw [uretprobe_malloc, called]
  simp only [if_neg real, if_true]

theorem uretprobe_malloc_full (called : m.alloc_sizes task.pid_tgid = some size) (real : addr ≠ 0) :
    uretprobe_malloc m task addr now false =
      { m with alloc_sizes := Function.update m.alloc_sizes task.pid_tgid none } := by
  rw [uretprobe_malloc, called]
  simp only [if_neg real, Bool.false_eq_true, if_false]

/-- The entry is deleted whether or not the ring buffer has room. -/
theorem uprobe_free_allocs {alloc : IlMemEvent} (real : addr ≠ 0) (found : m.allocs addr = some alloc)
    (reserved : Bool) :
    (uprobe_free m task addr now reserved).allocs = Function.update m.allocs addr none ∧
      (uprobe_free m task addr now reserved).alloc_sizes = m.alloc_sizes := by
  rw [uprobe_free, if_neg real, found]
  cases reserved <;> exact ⟨rfl, rfl⟩

end

end MemTracer

end Illuminator
