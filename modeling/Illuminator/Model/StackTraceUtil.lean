import Illuminator.Model.PushSource

/-! # Looking up a stack trace

`LookupBpfStackTrace` reads one entry of the kernel's map of stacks, an array of addresses that is filled up with zeros,
and makes a frame of each address before the first zero.
-/

namespace Illuminator

open CpuProfilerSource (MAX_STACK_DEPTH)

namespace StackTraceUtil

/-- An entry of the map. -/
abbrev Ips : Type := Vector UInt64 MAX_STACK_DEPTH

/-- The loop from an index on, with the frames that it has made. -/
def frameLoop (ips : Ips) (max_depth i : ℕ) (frames : List StackFrame) : List StackFrame :=
  if inside : i < MAX_STACK_DEPTH then
    if i < max_depth ∧ ips[i] ≠ 0 then frameLoop ips max_depth (i + 1) (frames ++ [⟨ips[i], [], [], 0, []⟩]) else frames
  else frames
termination_by MAX_STACK_DEPTH - i

/-- `lookup` is the content of the map, which is there if `stacks_fd` is not negative. -/
def LookupBpfStackTrace (lookup : Int32 → Option Ips) (stacks_fd : ℤ) (stack_id : Int32) (max_depth : ℕ) :
    List StackFrame :=
  if stack_id ≤ 0 ∨ stacks_fd < 0 then []
  else
    match lookup stack_id with
    | none => []
    | some ips => frameLoop ips max_depth 0 []

end StackTraceUtil

end Illuminator
