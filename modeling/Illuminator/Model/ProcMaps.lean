import Illuminator.Model.Processors
import Illuminator.Model.Scanf
import Illuminator.Model.Streams

/-! # The maps file of a process

`ParseProcMapsLine` scans a line with one format, and `LoadMaps` keeps the lines that name a file.
-/

namespace Illuminator

namespace ProcMaps

open Processors (Instant MapsCacheEntry ProcMapEntry)
open Scanf

/-- `sscanf` sees the line up to its first NUL. Only the path may be missing. -/
def ParseProcMapsLine (line : Bytes) : Option ProcMapEntry := do
  let text := line.takeWhile (· != 0)
  let (start, text) ← number 16 text
  let text ← literal 0x2D text
  let (end_, text) ← number 16 text
  let (_perms, text) ← word 7 text
  let (offset, text) ← number 16 text
  let (_dev, text) ← word 15 text
  let (_inode, text) ← number 10 text
  let path := ((restOfLine 1023 (skip text)).map Prod.fst).getD []
  some { start, end_, offset, path := path.dropWhile fun c => c == 0x20 || c == 0x09 }

/-- The file is `none` if it cannot be opened. -/
def LoadMaps (now : Instant) (file : Option Bytes) : Option MapsCacheEntry :=
  file.map fun content => {
    maps := ((lines content).filterMap ParseProcMapsLine).filter fun m => m.path.head? == some 0x2F
    loaded_at := now }

end ProcMaps

end Illuminator
