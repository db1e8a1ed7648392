import Illuminator.Machine.Regions
import Illuminator.Model.Strings
import Mathlib.Data.UInt

/-! # The arena

A bump allocator over blocks from `malloc`. Addresses are natural numbers and sizes are of 64 bits. What
`malloc` answers is an input of the call, and `none` stands for `std::abort`.
-/

namespace Illuminator

open Regions

structure Block where
  data : ℕ
  capacity : UInt64
  deriving DecidableEq

def Block.region (block : Block) : Region := ⟨block.data, block.capacity.toNat⟩

/-- The blocks are listed from the back, the newest first. The constructor allocates one. -/
structure Arena where
  oom_handler_ : Bool := false
  blocks_ : List Block
  current_offset_ : UInt64 := 0
  block_size_ : UInt64
  total_allocated_ : UInt64 := 0
  nonempty : blocks_ ≠ []

/-- What `malloc` answers, and what it answers when it is asked again after `oom_handler_`. -/
structure Malloc where
  data : Option ℕ
  again : Option ℕ := none
  deriving DecidableEq

/-- The address of a block of the size asked for. -/
def Malloc.block (malloc : Malloc) (oom_handler_ : Bool) : Option ℕ :=
  malloc.data.or (if oom_handler_ then malloc.again else none)

namespace Arena

/-- The constructor, which leaves the handler unset. -/
def make (block_size : UInt64) (malloc : Malloc) : Option Arena :=
  (malloc.block false).map fun data =>
    { blocks_ := [⟨data, block_size⟩], block_size_ := block_size, nonempty := List.cons_ne_nil _ _ }

/-- `blocks_.back()`. -/
def back (arena : Arena) : Block := arena.blocks_.head arena.nonempty

def AlignUp (offset alignment : UInt64) : UInt64 := (offset + alignment - 1) &&& ~~~(alignment - 1)

def AllocateBlock (arena : Arena) (size : UInt64) (malloc : Malloc) : Option Arena :=
  (malloc.block arena.oom_handler_).map fun data =>
    { arena with
      blocks_ := ⟨data, size⟩ :: arena.blocks_
      current_offset_ := 0
      nonempty := List.cons_ne_nil _ _ }

/-- The end of `Allocate`, in the block at the back. -/
def bump (arena : Arena) (aligned_offset size : UInt64) : ℕ × Arena :=
  (arena.back.data + aligned_offset.toNat,
    { arena with
      current_offset_ := aligned_offset + size
      total_allocated_ := arena.total_allocated_ + size })

def new_block_size (arena : Arena) (size alignment : UInt64) : UInt64 := max arena.block_size_ (size + alignment)

def Allocate (arena : Arena) (size alignment : UInt64) (malloc : Malloc) : Option (ℕ × Arena) :=
  let aligned_offset := AlignUp arena.current_offset_ alignment
  if arena.back.capacity < aligned_offset + size then
    (arena.AllocateBlock (arena.new_block_size size alignment) malloc).map fun arena =>
      arena.bump (AlignUp 0 alignment) size
  else some (arena.bump aligned_offset size)

/-- `alignof(std::max_align_t)`. -/
def max_align : UInt64 := 16

/-- A `std::string_view` is the region that it covers; `{}` has no data. -/
abbrev View := Region

def CopyString (arena : Arena) (memory : Memory UInt8) (src : Bytes) (malloc : Malloc) :
    Option (View × Memory UInt8 × Arena) :=
  if src.isEmpty then some (⟨0, 0⟩, memory, arena)
  else
    (arena.Allocate (UInt64.ofNat src.length) max_align malloc).map fun (dst, arena) =>
      (⟨dst, src.length⟩, memory.write dst src, arena)

/-- The first block is kept, and the others are freed. -/
def Reset (arena : Arena) : Arena :=
  { arena with
    blocks_ := [arena.blocks_.getLast arena.nonempty]
    current_offset_ := 0
    total_allocated_ := 0
    nonempty := List.cons_ne_nil _ _ }

def TotalAllocated (arena : Arena) : UInt64 := arena.total_allocated_

def SetOomHandler (arena : Arena) (handler : Bool) : Arena := { arena with oom_handler_ := handler }

/-! ## Calls on one arena -/

/-- A region that a call has returned, with the string copied into it if there is one. -/
structure Returned where
  region : Region
  alignment : UInt64
  copied : Option Bytes
  deriving DecidableEq

/-- An arena in memory, with what has been returned since the last `Reset`. -/
structure Session where
  arena : Arena
  memory : Memory UInt8
  returned : List Returned

/-- The calls, and the program's own writes. -/
inductive Operation where
  | Allocate (size alignment : UInt64)
  | CopyString (src : Bytes)
  | write (start : ℕ) (values : Bytes)
  | Reset
  | SetOomHandler (handler : Bool)
  deriving DecidableEq

def Session.step (s : Session) (malloc : Malloc) : Operation → Option Session
  | .Allocate size alignment =>
    (s.arena.Allocate size alignment malloc).map fun (ptr, arena) =>
      { s with arena, returned := ⟨⟨ptr, size.toNat⟩, alignment, none⟩ :: s.returned }
  | .CopyString src =>
    (s.arena.CopyString s.memory src malloc).map fun (view, memory, arena) =>
      ⟨arena, memory, if src.isEmpty then s.returned else ⟨view, max_align, some src⟩ :: s.returned⟩
  | .write start values => some { s with memory := s.memory.write start values }
  | .Reset => some { s with arena := s.arena.Reset, returned := [] }
  | .SetOomHandler handler => some { s with arena := s.arena.SetOomHandler handler }

end Arena

end Illuminator
