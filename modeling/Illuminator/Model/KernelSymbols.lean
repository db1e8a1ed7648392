import Illuminator.Model.Processors
import Illuminator.Model.Scanf
import Illuminator.Model.Status
import Illuminator.Model.Streams

/-! # The symbols of the kernel

`KernelSymbolResolver` reads `/proc/kallsyms` when the symbolizer is initialised, keeps the symbols of code, sorts them
by their addresses and looks addresses up among them.
-/

namespace Illuminator

namespace KernelSymbolResolver

open Scanf Processors

/-- `%c`. -/
def character : Bytes → Option (UInt8 × Bytes)
  | [] => none
  | c :: rest => some (c, rest)

/-- One turn of the loop over the lines. `sscanf` sees the line up to its first NUL. -/
def parseLine (line : Bytes) : Option (UInt64 × Bytes) := do
  let (addr, text) ← number 16 (line.takeWhile (· != 0))
  let (t, text) ← character (skip text)
  let (name, _rest) ← word 511 text
  if t ≠ 0x74 ∧ t ≠ 0x54 ∧ t ≠ 0x77 ∧ t ≠ 0x57 then none else some (addr, name)

/-- `Load` up to its sorting. The file is `none` if it cannot be opened. -/
def Load (file : Option Bytes) : Status × List (UInt64 × Bytes) :=
  match file with
  | none => (.Error .kInternal "cannot open /proc/kallsyms", [])
  | some content => (.Ok, (lines content).filterMap parseLine)

/-- What `std::sort` may leave. Symbols of one address stand in any order. -/
structure Sorts (addrs addrs_ : List (UInt64 × Bytes)) : Prop where
  perm : addrs_.Perm addrs
  ordered : addrs_.Pairwise fun first second => first.1 ≤ second.1

/-- The name before the address that `std::upper_bound` finds. -/
def Resolve (addrs_ : List (UInt64 × Bytes)) (addr : UInt64) : Bytes :=
  match (addrs_.takeWhile fun b => !decide (addr < b.1)).getLast? with
  | none => []
  | some it => it.2

/-- What `Init` makes of its configuration and of the symbols that `Load` has left. -/
def Init {S : Type} (demangle kernel_symbols : Bool) (cache_ttl_sec : Int64) (cxa_demangle : Bytes → Option Bytes)
    (addrs_ : List (UInt64 × Bytes)) : StackSymbolizerProcessor S where
  demangle_ := demangle
  kernel_symbols_ := kernel_symbols
  cache_ttl_sec_ := cache_ttl_sec.toUInt64.toUInt32
  kernel_resolver_ := Resolve (if kernel_symbols then addrs_ else [])
  cxa_demangle := cxa_demangle

end KernelSymbolResolver

end Illuminator
