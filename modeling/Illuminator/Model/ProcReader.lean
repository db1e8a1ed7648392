import Illuminator.Model.ProcessCpu
import Illuminator.Model.Streams
import Illuminator.ToMathlib.Delimited

/-! # The stat file of a process

`ParseProcStat` takes the name of a process from between the first opening and the last closing parenthesis, and the
columns behind it one after the other.
-/

namespace Illuminator

namespace ProcReader

open ProcessCpu (ProcessStat)

/-- `substr` throws, the function returns `false`, or it has filled in its argument. -/
inductive StatResult where
  | throws
  | refused
  | parsed (out : ProcessStat)
  deriving DecidableEq

/-- `content.rfind(c)`. -/
def rfind (content : Bytes) (c : UInt8) : Option ℕ := (Delimited.cutLast c content).map fun cut => cut.1.length

/-- `content.substr(open + 1, close - open - 1)`, whose count wraps around when `close` comes first. -/
def between (content : Bytes) (first last : ℕ) : Bytes :=
  if first < last then (content.drop (first + 1)).take (last - first - 1) else content.drop (first + 1)

/-- The extractions from the text after the name. -/
def readColumns (iss : IStream) (out : ProcessStat) : ProcessStat :=
  let (state_str, iss) := iss.word
  let (_ppid, iss) := iss.int64
  let (_pgrp, iss) := iss.int64
  let (_session, iss) := iss.int64
  let (_tty_nr, iss) := iss.int64
  let (_tpgid, iss) := iss.int64
  let (_flags, iss) := iss.uint64
  let (_minflt, iss) := iss.uint64
  let (_cminflt, iss) := iss.uint64
  let (_majflt, iss) := iss.uint64
  let (_cmajflt, iss) := iss.uint64
  let (utime, iss) := iss.uint64
  let (stime, iss) := iss.uint64
  let (_cutime, iss) := iss.uint64
  let (_cstime, iss) := iss.uint64
  let (_priority, iss) := iss.int64
  let (_nice_val, iss) := iss.int64
  let (num_threads, iss) := iss.uint32
  let (_itrealvalue, iss) := iss.int64
  let (starttime, iss) := iss.uint64
  let (vsize, iss) := iss.uint64
  let (rss_pages, _) := iss.int64
  { out with
    utime, stime, num_threads, starttime, vsize, rss_pages
    state := state_str.head?.getD out.state }

/-- The file is `none` if it cannot be opened, and `out` is fresh but for its `pid`. -/
def ParseProcStat (file : Option Bytes) (pid : UInt32) : StatResult :=
  match file with
  | none => .refused
  | some content =>
    match content.findIdx? (· == 0x28), rfind content 0x29 with
    | some first, some last =>
      if content.length < last + 2 then .throws
      else .parsed (readColumns ⟨content.drop (last + 2), false⟩ { pid, comm := between content first last })
    | _, _ => .refused

end ProcReader

end Illuminator
