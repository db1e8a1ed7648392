import Illuminator.Model.ProcStat
import Mathlib.Algebra.BigOperators.Group.List.Basic
import Mathlib.Algebra.Ring.Nat
import Mathlib.Data.UInt

/-! # The total of `/proc/stat`

The loop of `ReadTotalCpuJiffies` adds up every column of the first line, the snapshot keeps the first eight. What the
two differ by are the columns after the eighth.
-/

namespace Illuminator

namespace ProcStat

open CpuUtilization

/-- The numbers that can be extracted one after the other. -/
def counters : ℕ → IStream → List UInt64
  | 0, _ => []
  | turns + 1, iss => if iss.uint64.2.fail then [] else iss.uint64.1 :: counters turns iss.uint64.2

/-- The columns of a line of `/proc/stat`, after its tag. -/
def columns (line : Bytes) : List UInt64 :=
  counters ((IStream.word ⟨line, false⟩).2.rest.length + 1) (IStream.word ⟨line, false⟩).2

private theorem numeral_shorter {digits : Bytes} (nonempty : digits.takeWhile isdigit ≠ []) :
    (digits.dropWhile isdigit).length < digits.length := by
  have whole := congrArg List.length (@List.takeWhile_append_dropWhile _ isdigit digits)
  rw [List.length_append] at whole
  have some_digit := List.length_pos_iff.mpr nonempty
  omega

/-- An extraction that succeeds takes a character. -/
theorem uint64_shorter {iss : IStream} (success : iss.uint64.2.fail = false) :
    iss.uint64.2.rest.length < iss.rest.length := by
  unfold IStream.uint64 IStream.unsigned at *
  dsimp only at *
  have spaces := (List.dropWhile_suffix (l := iss.rest) isspace).length_le
  generalize iss.rest.dropWhile isspace = text at *
  have signs : (if (text.head? == some 0x2D || text.head? == some 0x2B) = true then text.tail else text).length ≤
      text.length := by
    split_ifs
    · rw [List.length_tail]
      omega
    · exact le_refl _
  generalize (if (text.head? == some 0x2D || text.head? == some 0x2B) = true then text.tail else text) = digits at *
  split_ifs at * with ended empty large
  all_goals have shorter := numeral_shorter empty
  all_goals exact lt_of_lt_of_le shorter (signs.trans spaces)

/-- The loop is over before its turns are. -/
theorem counters_turns {iss : IStream} {turns more : ℕ} (enough : iss.rest.length < turns)
    (also : iss.rest.length < more) : counters turns iss = counters more iss := by
  induction turns generalizing iss more with
  | zero => exact absurd enough (Nat.not_lt_zero _)
  | succ turns ih =>
    cases more with
    | zero => exact absurd also (Nat.not_lt_zero _)
    | succ more =>
      unfold counters
      cases failed : iss.uint64.2.fail with
      | true => rfl
      | false =>
        have shorter := uint64_shorter failed
        rw [if_neg Bool.false_ne_true, if_neg Bool.false_ne_true]
        exact congrArg (iss.uint64.1 :: ·) (ih (by omega) (by omega))

theorem sumUp_eq (turns : ℕ) (iss : IStream) (total : UInt64) : sumUp turns iss total = total + (counters turns iss).sum := by
  induction turns generalizing iss total with
  | zero => exact (add_zero total).symm
  | succ turns ih =>
    unfold sumUp counters
    dsimp only
    split_ifs with failed
    · exact (add_zero total).symm
    · rw [ih, List.sum_cons, add_assoc]

/-- So many extractions, whether they fail or not. -/
def extractions : ℕ → IStream → List UInt64
  | 0, _ => []
  | n + 1, iss => iss.uint64.1 :: extractions n iss.uint64.2

/-- As many extractions as there are columns do not fail. -/
theorem extractions_eq {n turns : ℕ} {iss : IStream} (enough : n ≤ (counters turns iss).length) :
    extractions n iss = (counters turns iss).take n := by
  induction n generalizing iss turns with
  | zero => rfl
  | succ n ih =>
    cases turns with
    | zero => exact absurd enough (Nat.not_succ_le_zero n)
    | succ turns =>
      unfold counters at enough ⊢
      split_ifs at enough ⊢ with failed
      · exact absurd enough (Nat.not_succ_le_zero n)
      · rw [List.take_succ_cons, ← ih (Nat.le_of_succ_le_succ enough)]
        rfl

/-- The named columns are the first eight. -/
theorem readCore_total {line : Bytes} (eight : 8 ≤ (columns line).length) :
    (readCore line).Total = ((columns line).take 8).sum := by
  have named : (readCore line).Total = (extractions 8 (IStream.word ⟨line, false⟩).2).sum := by
    simp only [extractions, List.sum_cons, List.sum_nil, add_zero, ← add_assoc]
    rfl
  rw [named, extractions_eq eight]
  rfl

/-! ## The two readers -/

variable {content line : Bytes} {later : List Bytes}

/-- The tag of the first line. -/
theorem word_of_tagged (tagged : startsWith line (ascii "cpu ") = true) :
    isCpuLine line = true ∧ (readCore line).name = ascii "cpu" := by
  obtain ⟨rest, rfl⟩ : ∃ rest, line = 0x63 :: 0x70 :: 0x75 :: 0x20 :: rest := by
    refine ⟨line.drop 4, ?_⟩
    have start : line.take 4 = ascii "cpu " := beq_iff_eq.mp tagged
    exact (List.take_append_drop 4 line).symm.trans (congrArg (· ++ line.drop 4) start)
  exact ⟨rfl, rfl⟩

theorem readLine_cores (snap : CpuSnapshot) (line : Bytes) : ∃ more, (readLine snap line).cores = snap.cores ++ more := by
  unfold readLine
  split_ifs
  · exact ⟨_, rfl⟩
  all_goals exact ⟨[], (List.append_nil _).symm⟩

theorem foldl_cores (snap : CpuSnapshot) (later : List Bytes) :
    ∃ more, (later.foldl readLine snap).cores = snap.cores ++ more := by
  induction later generalizing snap with
  | nil => exact ⟨[], (List.append_nil _).symm⟩
  | cons line later ih =>
    obtain ⟨first, one⟩ := readLine_cores snap line
    obtain ⟨rest, others⟩ := ih (readLine snap line)
    refine ⟨first ++ rest, ?_⟩
    rw [List.foldl_cons, others, one, List.append_assoc]

/-- The entry of the snapshot for all cores. -/
def totalEntry (snap : CpuSnapshot) : Option CoreJiffies := snap.cores.find? fun c => c.name == ascii "cpu"

theorem totalEntry_first (first : lines content = line :: later) (tagged : startsWith line (ascii "cpu ") = true) :
    totalEntry (ReadCpuSnapshot (some content)) = some (readCore line) := by
  obtain ⟨cpu, named⟩ := word_of_tagged tagged
  obtain ⟨more, cores⟩ := foldl_cores (readLine {} line) later
  have begun : (readLine {} line).cores = [readCore line] := by
    rw [readLine, if_pos cpu]
    rfl
  rw [totalEntry, ReadCpuSnapshot, first, List.foldl_cons, cores, begun, List.singleton_append, List.find?_cons_of_pos]
  exact beq_iff_eq.mpr named

theorem ReadTotalCpuJiffies_eq (first : lines content = line :: later)
    (tagged : startsWith line (ascii "cpu ") = true) : ReadTotalCpuJiffies (some content) = (columns line).sum := by
  rw [ReadTotalCpuJiffies, first]
  dsimp only
  rw [if_pos tagged, sumUp_eq, zero_add]
  rfl

/-- The readers agree exactly when the columns after the eighth add up to nothing. -/
theorem readers_agree_iff (content line : Bytes) (later : List Bytes) (first : lines content = line :: later)
    (tagged : startsWith line (ascii "cpu ") = true) (eight : 8 ≤ (columns line).length) :
    some (ReadTotalCpuJiffies (some content)) = (totalEntry (ReadCpuSnapshot (some content))).map CoreJiffies.Total ↔
      ((columns line).drop 8).sum = 0 := by
  rw [totalEntry_first first tagged, ReadTotalCpuJiffies_eq first tagged, Option.map_some, Option.some.injEq,
    readCore_total eight]
  nth_rewrite 1 [← List.take_append_drop 8 (columns line)]
  rw [List.sum_append, add_eq_left]

/-- A host without guests. -/
private def unshared : Bytes := ascii "cpu  10 0 5 90 0 0 0 0 0 0\ncpu0 10 0 5 90 0 0 0 0 0 0\n"

theorem readers_agree_unshared : some (ReadTotalCpuJiffies (some unshared)) =
    (totalEntry (ReadCpuSnapshot (some unshared))).map CoreJiffies.Total :=
  (readers_agree_iff unshared (ascii "cpu  10 0 5 90 0 0 0 0 0 0") [ascii "cpu0 10 0 5 90 0 0 0 0 0 0"] (by decide)
    (by decide) (by decide)).mpr (by decide)

/-- Five of the ten jiffies of user time were spent in a guest, and are counted twice. -/
theorem guest_counted_twice : ¬ ∀ content line later, lines content = line :: later →
    startsWith line (ascii "cpu ") = true → 8 ≤ (columns line).length →
    some (ReadTotalCpuJiffies (some content)) =
      (totalEntry (ReadCpuSnapshot (some content))).map CoreJiffies.Total := by
  intro agree
  have same := agree (ascii "cpu  10 0 0 90 0 0 0 0 5 0\n") (ascii "cpu  10 0 0 90 0 0 0 0 5 0") [] (by decide)
    (by decide) (by decide)
  exact absurd same (by decide)

end ProcStat

end Illuminator
