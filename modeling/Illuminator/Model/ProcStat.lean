import Illuminator.Model.CpuUtilization
import Illuminator.Model.Streams

/-! # The readers of `/proc/stat`

`ReadCpuSnapshot` takes the named columns of every cpu line, `ReadTotalCpuJiffies` all columns of the first line. A file
that cannot be opened is `none`.
-/

namespace Illuminator

namespace ProcStat

open CpuUtilization

/-- `line.compare(0, n, prefix) == 0`. -/
def startsWith (line start : Bytes) : Bool := line.take start.length == start

/-- A `cpu` line: the total, or one of the cores. -/
def isCpuLine (text : Bytes) : Bool :=
  startsWith text (ascii "cpu") && (text[3]? == some 0x20 || text[3]?.any isdigit)

/-- The extractions from a `cpu` line. -/
def readCore (line : Bytes) : CoreJiffies :=
  let (name, iss) := IStream.word ⟨line, false⟩
  let (user, iss) := iss.uint64
  let (nice, iss) := iss.uint64
  let (system, iss) := iss.uint64
  let (idle, iss) := iss.uint64
  let (iowait, iss) := iss.uint64
  let (irq, iss) := iss.uint64
  let (softirq, iss) := iss.uint64
  let (steal, _) := iss.uint64
  { name, user, nice, system, idle, iowait, irq, softirq, steal }

/-- The number after a prefix. -/
def afterPrefix (line start : Bytes) : IStream := ⟨line.drop start.length, false⟩

def readLine (snap : CpuSnapshot) (line : Bytes) : CpuSnapshot :=
  if isCpuLine line then { snap with cores := snap.cores ++ [readCore line] }
  else if startsWith line (ascii "ctxt ") then { snap with ctxt := (afterPrefix line (ascii "ctxt ")).uint64.1 }
  else if startsWith line (ascii "intr ") then { snap with intr := (afterPrefix line (ascii "intr ")).uint64.1 }
  else if startsWith line (ascii "procs_running ") then
    { snap with procs_running := (afterPrefix line (ascii "procs_running ")).uint32.1 }
  else if startsWith line (ascii "procs_blocked ") then
    { snap with procs_blocked := (afterPrefix line (ascii "procs_blocked ")).uint32.1 }
  else snap

def ReadCpuSnapshot (file : Option Bytes) : CpuSnapshot :=
  match file with
  | none => {}
  | some content => (lines content).foldl readLine {}

/-- `while (iss >> v) total += v`, for so many turns at most. -/
def sumUp : ℕ → IStream → UInt64 → UInt64
  | 0, _, total => total
  | turns + 1, iss, total =>
    let (v, next) := iss.uint64
    if next.fail then total else sumUp turns next (total + v)

/-- Every turn of the loop takes a character. -/
def ReadTotalCpuJiffies (file : Option Bytes) : UInt64 :=
  match file with
  | none => 0
  | some content =>
    match lines content with
    | [] => 0
    | line :: _ =>
      if startsWith line (ascii "cpu ") then
        let (_, iss) := IStream.word ⟨line, false⟩
        sumUp (iss.rest.length + 1) iss 0
      else 0

end ProcStat

end Illuminator
