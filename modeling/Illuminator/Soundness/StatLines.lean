import Illuminator.Model.ProcReader

/-! # Stat lines of the kernel

The kernel prints the pid, the name in parentheses as it is, the state's letter and the columns as decimal numbers. No
column has a parenthesis, so the last one closes the name whatever the name is.
-/

namespace Illuminator

namespace ProcReader

open ProcessCpu (ProcessStat)
open IStream

/-- What the kernel prints for a process: columns have the kernel's types, and more of them follow the named ones. -/
structure TaskStat where
  pid : UInt32
  comm : Bytes
  state : UInt8
  letter : 0x41 ≤ state ∧ state ≤ 0x5A ∨ 0x61 ≤ state ∧ state ≤ 0x7A
  ppid : Int32
  pgrp : Int32
  session : Int32
  tty_nr : Int32
  tpgid : Int32
  flags : UInt32
  minflt : UInt64
  cminflt : UInt64
  majflt : UInt64
  cmajflt : UInt64
  utime : UInt64
  stime : UInt64
  cutime : Int64
  cstime : Int64
  priority : Int64
  nice : Int64
  num_threads : UInt32
  itrealvalue : Int64
  starttime : UInt64
  vsize : UInt64
  rss : Int64
  more : List ℤ

def TaskStat.columns (t : TaskStat) : List ℤ :=
  [t.ppid.toInt, t.pgrp.toInt, t.session.toInt, t.tty_nr.toInt, t.tpgid.toInt, t.flags.toNat, t.minflt.toNat,
    t.cminflt.toNat, t.majflt.toNat, t.cmajflt.toNat, t.utime.toNat, t.stime.toNat, t.cutime.toInt, t.cstime.toInt,
    t.priority.toInt, t.nice.toInt, t.num_threads.toNat, t.itrealvalue.toInt, t.starttime.toNat, t.vsize.toNat,
    t.rss.toInt] ++ t.more

/-- Columns, each after a blank, and the end of the line. -/
def columnsText (columns : List ℤ) : Bytes := (columns.flatMap fun z => 0x20 :: decimal z) ++ [0x0A]

/-- The line that the kernel prints. -/
def TaskStat.line (t : TaskStat) : Bytes :=
  to_string t.pid.toNat ++ 0x20 :: 0x28 :: (t.comm ++ 0x29 :: 0x20 :: t.state :: columnsText t.columns)

/-! ## Columns -/

theorem columnsText_cons (z : ℤ) (rest : List ℤ) :
    columnsText (z :: rest) = 0x20 :: (decimal z ++ columnsText rest) := by
  rw [columnsText, List.flatMap_cons, List.cons_append, List.cons_append, List.append_assoc]
  rfl

theorem columnsText_stops (rest : List ℤ) : Stops (columnsText rest) := by
  intro c first
  cases rest with
  | nil =>
    obtain rfl : (0x0A : UInt8) = c := Option.some.inj first
    decide
  | cons z others =>
    rw [columnsText_cons] at first
    obtain rfl : (0x20 : UInt8) = c := Option.some.inj first
    decide

section Extractions

variable {rest : List ℤ}

theorem uint64_columns (x : UInt64) :
    uint64 ⟨columnsText (x.toNat :: rest), false⟩ = (x, ⟨columnsText rest, false⟩) := by
  have small := x.toNat_lt
  have same : UInt64.ofInt x.toNat = x := by
    have value : ((x.toNat : ℤ) % 2 ^ 64).toNat = x.toNat := by omega
    rw [UInt64.ofInt, value, UInt64.ofNat_toNat]
  rw [columnsText_cons, uint64_decimal (columnsText_stops rest) (by omega), same]

theorem uint64_columns_signed (x : Int64) :
    uint64 ⟨columnsText (x.toInt :: rest), false⟩ = (UInt64.ofInt x.toInt, ⟨columnsText rest, false⟩) := by
  have least := x.le_toInt
  have greatest := x.toInt_lt
  rw [columnsText_cons, uint64_decimal (columnsText_stops rest) (by omega)]

theorem uint64_columns_short (x : UInt32) :
    uint64 ⟨columnsText (x.toNat :: rest), false⟩ = (UInt64.ofInt x.toNat, ⟨columnsText rest, false⟩) := by
  have small := x.toNat_lt
  rw [columnsText_cons, uint64_decimal (columnsText_stops rest) (by omega)]

theorem uint32_columns (x : UInt32) :
    uint32 ⟨columnsText (x.toNat :: rest), false⟩ = (x, ⟨columnsText rest, false⟩) := by
  have small := x.toNat_lt
  have same : UInt32.ofInt x.toNat = x := by
    have value : ((x.toNat : ℤ) % 2 ^ 32).toNat = x.toNat := by omega
    rw [UInt32.ofInt, value, UInt32.ofNat_toNat]
  rw [columnsText_cons, uint32_decimal (columnsText_stops rest) (by omega), same]

theorem int64_columns (x : Int64) :
    int64 ⟨columnsText (x.toInt :: rest), false⟩ = (x, ⟨columnsText rest, false⟩) := by
  rw [columnsText_cons, int64_decimal (columnsText_stops rest) x.le_toInt x.toInt_lt, Int64.ofInt_toInt]

theorem int64_columns_short (x : Int32) :
    int64 ⟨columnsText (x.toInt :: rest), false⟩ = (Int64.ofInt x.toInt, ⟨columnsText rest, false⟩) := by
  have least := x.le_toInt
  have greatest := x.toInt_lt
  rw [columnsText_cons, int64_decimal (columnsText_stops rest) (by omega) (by omega)]

end Extractions

/-- The letter is a word of its own. -/
theorem word_state (t : TaskStat) :
    word ⟨t.state :: columnsText t.columns, false⟩ = ([t.state], ⟨columnsText t.columns, false⟩) := by
  have solid : isspace t.state = false := by
    have letter := t.letter
    simp only [isspace, Bool.or_eq_false_iff, Bool.and_eq_false_iff, decide_eq_false_iff_not, beq_eq_false_iff_ne,
      ne_eq, UInt8.le_iff_toNat_le, ← UInt8.toNat_inj, UInt8.reduceToNat] at letter ⊢
    omega
  have blank : columnsText t.columns = 0x20 :: (columnsText t.columns).tail := by
    rw [TaskStat.columns, List.cons_append, columnsText_cons, List.tail_cons]
  rw [word, List.dropWhile_cons_of_neg (by rw [solid]; exact Bool.false_ne_true), List.isEmpty_cons, Bool.or_false,
    if_neg Bool.false_ne_true, List.takeWhile_cons_of_pos (by rw [solid]; rfl),
    List.dropWhile_cons_of_pos (by rw [solid]; rfl), blank]
  rfl

theorem readColumns_line (t : TaskStat) (out : ProcessStat) :
    readColumns ⟨t.state :: columnsText t.columns, false⟩ out = { out with
      state := t.state, utime := t.utime, stime := t.stime, num_threads := t.num_threads, starttime := t.starttime,
      vsize := t.vsize, rss_pages := t.rss } := by
  rw [readColumns, word_state, TaskStat.columns]
  simp only [List.cons_append, List.nil_append, int64_columns_short, uint64_columns_short, uint64_columns,
    uint64_columns_signed, int64_columns, uint32_columns, List.head?_cons, Option.getD_some]

/-! ## Lines -/

/-- Behind the name there is no parenthesis. -/
theorem columnsText_clean (columns : List ℤ) : 0x29 ∉ columnsText columns := by
  have digits (n : ℕ) : 0x29 ∉ to_string n := notMem_to_string (by decide)
  have others : (0x29 : UInt8) ≠ 0x20 ∧ (0x29 : UInt8) ≠ 0x2D ∧ (0x29 : UInt8) ≠ 0x0A := by decide
  have column (z : ℤ) : 0x29 ∉ decimal z := by
    rw [decimal]
    split_ifs
    · exact List.not_mem_cons_of_ne_of_not_mem others.2.1 (digits _)
    · exact digits _
  rw [columnsText, List.mem_append, List.mem_singleton, not_or, List.mem_flatMap]
  refine ⟨?_, others.2.2⟩
  rintro ⟨z, _, inside⟩
  rcases List.mem_cons.mp inside with blank | digit
  · exact others.1 blank
  · exact column z digit

/-- A text between the first opening and the last closing parenthesis is cut out, and what follows is left. -/
theorem between_parentheses {front back : Bytes} (middle : Bytes) (before : 0x28 ∉ front) (after : 0x29 ∉ back) :
    let content := front ++ 0x28 :: (middle ++ 0x29 :: back)
    content.findIdx? (· == 0x28) = some front.length ∧
      rfind content 0x29 = some (front.length + 1 + middle.length) ∧
      between content front.length (front.length + 1 + middle.length) = middle ∧
      content.drop (front.length + 1 + middle.length + 1) = back := by
  intro content
  have last : content = (front ++ 0x28 :: middle) ++ 0x29 :: back := by
    rw [List.append_assoc, List.cons_append]
  have width : (front ++ 0x28 :: middle).length = front.length + 1 + middle.length := by
    rw [List.length_append, List.length_cons]
    omega
  refine ⟨?_, ?_, ?_, ?_⟩
  · have absent : front.findIdx? (· == 0x28) = none := by
      rw [List.findIdx?_eq_none_iff]
      exact fun c inside => beq_eq_false_iff_ne.mpr fun same => before (same ▸ inside)
    rw [List.findIdx?_append, absent, List.findIdx?_cons]
    simp
  · rw [rfind, last, Delimited.cutLast_append _ after]
    exact congrArg some width
  · have count : front.length + 1 + middle.length - front.length - 1 = middle.length := by omega
    rw [between, if_pos (by omega), count, List.drop_append, List.drop_of_length_le (by omega)]
    simp
  · rw [last, ← width, List.drop_append, List.drop_of_length_le (by omega)]
    simp

/-- The kernel's line gives back what it was printed from. -/
theorem parses_line (t : TaskStat) : ParseProcStat (some t.line) t.pid = .parsed {
    pid := t.pid, comm := t.comm, state := t.state, utime := t.utime, stime := t.stime, starttime := t.starttime,
    num_threads := t.num_threads, vsize := t.vsize, rss_pages := t.rss } := by
  have whole : t.line = (to_string t.pid.toNat ++ [0x20]) ++
      0x28 :: (t.comm ++ 0x29 :: (0x20 :: t.state :: columnsText t.columns)) := by
    rw [TaskStat.line, List.append_assoc]
    rfl
  have before : (0x28 : UInt8) ∉ to_string t.pid.toNat ++ [0x20] := by
    rw [List.mem_append, List.mem_singleton, not_or]
    exact ⟨notMem_to_string (by decide), by decide⟩
  have after : (0x29 : UInt8) ∉ 0x20 :: t.state :: columnsText t.columns := by
    have letter := t.letter
    rw [List.mem_cons, List.mem_cons, not_or, not_or]
    refine ⟨by decide, ?_, columnsText_clean _⟩
    intro same
    rw [← same] at letter
    revert letter
    decide
  obtain ⟨opening, closing, name, rest⟩ := between_parentheses t.comm before after
  rw [← whole] at opening closing name rest
  have columns : t.line.drop ((to_string t.pid.toNat ++ [0x20]).length + 1 + t.comm.length + 2) =
      t.state :: columnsText t.columns := by
    rw [← List.drop_drop (i := 1), rest]
    rfl
  have long : ¬ t.line.length < (to_string t.pid.toNat ++ [0x20]).length + 1 + t.comm.length + 2 := by
    intro short
    rw [List.drop_of_length_le short.le] at columns
    exact List.cons_ne_nil _ _ columns.symm
  rw [ParseProcStat]
  simp only [opening, closing, long, if_false, name, columns]
  rw [readColumns_line]

end ProcReader

end Illuminator
