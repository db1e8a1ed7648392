import Illuminator.Model.PprofExportSink
import Illuminator.Model.Streams
import Illuminator.ToMathlib.FallibleLoops
import Mathlib.Algebra.BigOperators.Group.List.Basic
import Mathlib.Algebra.GroupWithZero.Nat

/-! # Folded stacks

A folded file is read back line by line: the last space separates the stack from its count, and semicolons the frames
from each other. A process name and frame labels without semicolons and line breaks survive the way there and back, and
a count does when it fits into 64 bits. Names may contain either character, a sample without both name and frames has
no line, and a flush does not notice that its bytes have not reached the file.
-/

namespace Illuminator

open PprofExportSink Delimited

/-- The process name and the frame labels from root to leaf. -/
def framesOf (sample : StackSample) : List Bytes := sample.comm :: sample.user_stack.reverse.map frameLabel

/-- A line of the file: the frames and their count. -/
def parseLine (line : Bytes) : Option (List Bytes × ℕ) :=
  (cutLast 0x20 line).bind fun (stack, numeral) =>
    if numeral ≠ [] ∧ ∀ byte ∈ numeral, isdigit byte = true then some (stack.splitOn 0x3B, of_decimal numeral) else none

def parseFolded (file : Bytes) : Option (List (List Bytes × ℕ)) := (lines file).mapM parseLine

/-- The count that samples with these frames add up to. -/
def totalOf (pending : List StackSample) (frames : List Bytes) : ℕ :=
  ((pending.filter fun sample => framesOf sample = frames).map fun sample => sample.count.toNat).sum

/-- What a file owes to the samples: one line for each process name and stack, with their sum, and no other. -/
def Faithful (pending : List StackSample) (file : Bytes) : Prop :=
  ∃ entries, parseFolded file = some entries ∧ (entries.map Prod.fst).Nodup ∧ ∀ frames n, (frames, n) ∈ entries ↔
    (∃ sample ∈ pending, framesOf sample = frames) ∧ n = totalOf pending frames

/-- Samples that a folded file can show: with a name or frames, free of the format's separators, and with counts whose
sum fits. -/
def Foldable (pending : List StackSample) : Prop :=
  ∀ sample ∈ pending, framesOf sample ≠ [[]] ∧ (∀ frame ∈ framesOf sample, 0x3B ∉ frame ∧ 0x0A ∉ frame) ∧
    totalOf pending (framesOf sample) < 2 ^ 64

/-! ## Keys -/

variable {pending : List StackSample}

theorem buildFoldedStack_eq (sample : StackSample) :
    BuildFoldedStack sample = [(0x3B : UInt8)].intercalate (framesOf sample) := by
  have tail (first : Bytes) (labels : List Bytes) :
      [(0x3B : UInt8)].intercalate (first :: labels) = first ++ labels.flatMap (0x3B :: ·) := by
    induction labels generalizing first with
    | nil => simp
    | cons label rest ih =>
      rw [List.intercalate_cons_of_ne_nil (List.cons_ne_nil _ _), ih, List.flatMap_cons]
      simp
  rw [framesOf, tail, BuildFoldedStack, List.flatMap_map]

theorem framesOf_ne_nil (sample : StackSample) : framesOf sample ≠ [] := List.cons_ne_nil _ _

/-- A key tells its frames when they are free of semicolons. -/
theorem splitOn_key {sample : StackSample} (clean : ∀ frame ∈ framesOf sample, 0x3B ∉ frame) :
    (BuildFoldedStack sample).splitOn 0x3B = framesOf sample := by
  rw [buildFoldedStack_eq]
  exact List.splitOn_intercalate _ clean (framesOf_ne_nil sample)

theorem key_eq_nil_iff (sample : StackSample) : BuildFoldedStack sample = [] ↔ framesOf sample = [[]] := by
  rw [BuildFoldedStack, framesOf]
  cases sample.user_stack.reverse with
  | nil => simp
  | cons f rest => simp

theorem notMem_key {sample : StackSample} (clean : ∀ frame ∈ framesOf sample, 0x0A ∉ frame) :
    0x0A ∉ BuildFoldedStack sample := by
  rw [framesOf, List.forall_mem_cons, List.forall_mem_map] at clean
  rw [BuildFoldedStack, List.mem_append, List.mem_flatMap, not_or]
  refine ⟨clean.1, ?_⟩
  rintro ⟨f, member, found⟩
  rcases List.mem_cons.mp found with same | inside
  · exact absurd same (by decide)
  · exact clean.2 f member inside

/-! ## Lines -/

theorem mem_lines {content line : Bytes} (member : line ∈ lines content) : 0x0A ∉ line := by
  rw [lines] at member
  split_ifs at member
  · exact (mem_splitOn (List.dropLast_subset _ member)).1
  · exact (mem_splitOn member).1

theorem lines_pieces {A : Type} {render : A → Bytes} {items : List A} (clean : ∀ item ∈ items, 0x0A ∉ render item) :
    lines (pieces 0x0A render items) = items.map render := by
  rw [lines, splitOn_pieces_of_clean clean, List.getLast?_concat, if_pos rfl, List.dropLast_concat]

theorem parseLine_foldedLine (entry : Sigma fun _ : Bytes => UInt64) :
    parseLine (foldedLine entry) = some (entry.1.splitOn 0x3B, entry.2.toNat) := by
  rw [parseLine, foldedLine, cutLast_append _ (notMem_to_string (by decide)), Option.bind_some]
  change (if _ then some (_, _) else none) = _
  rw [if_pos ⟨to_string_ne_nil _, isdigit_to_string⟩, of_decimal_to_string]

/-- The frames that a line shows have none of the separators. -/
theorem clean_of_parseLine {line : Bytes} {frames : List Bytes} {n : ℕ} (unbroken : 0x0A ∉ line)
    (parsed : parseLine line = some (frames, n)) : ∀ frame ∈ frames, 0x3B ∉ frame ∧ 0x0A ∉ frame := by
  obtain ⟨⟨stack, numeral⟩, cut, read⟩ := Option.bind_eq_some_iff.mp parsed
  change (if _ then some (stack.splitOn 0x3B, _) else none) = _ at read
  split_ifs at read
  obtain ⟨rfl, _⟩ := Prod.mk.inj (Option.some.inj read)
  intro frame member
  obtain ⟨clean, inside⟩ := mem_splitOn member
  refine ⟨clean, fun found => unbroken ?_⟩
  rw [eq_of_cutLast cut]
  exact List.mem_append_left _ (inside found)

/-! ## One file -/

section File

variable {sink : PprofExportSink} (order : Traversal UInt64)

/-- The map holds what the samples add up to. -/
def Holds (sink : PprofExportSink) (pending : List StackSample) : Prop :=
  sink.folded_counts_ = (∅ : AList fun _ : Bytes => UInt64).gather BuildFoldedStack addCount (keyed pending)

theorem addCount_total (held : Option UInt64) (sample : StackSample) :
    addCount held sample = held.elim 0 id + sample.count := by
  cases held <;> rfl

theorem toNat_sum (counts : List UInt64) : counts.sum.toNat = (counts.map UInt64.toNat).sum % 2 ^ 64 := by
  induction counts with
  | nil => rfl
  | cons count rest ih => rw [List.sum_cons, List.map_cons, List.sum_cons, UInt64.toNat_add, ih, Nat.add_mod_mod]

/-- An entry's key is that of a sample, and its count the sum over the samples with this key. -/
theorem entry_of_holds (holds : Holds sink pending) {entry : Sigma fun _ : Bytes => UInt64}
    (member : entry ∈ sink.folded_counts_.entries) :
    (∃ sample ∈ pending, BuildFoldedStack sample = entry.1 ∧ entry.1 ≠ []) ∧
      entry.2.toNat = (((keyed pending).filter fun sample => BuildFoldedStack sample = entry.1).map
        fun sample => sample.count.toNat).sum % 2 ^ 64 := by
  rw [holds] at member
  obtain ⟨collected, sample, inside, key⟩ := AList.exists_of_mem_gather member
  obtain ⟨pendingSample, filled⟩ := List.mem_filter.mp inside
  refine ⟨⟨sample, pendingSample, key, key ▸ of_decide_eq_true filled⟩, ?_⟩
  have sum := AList.weight_collect id StackSample.count addCount addCount_total none
    ((keyed pending).filter fun sample => BuildFoldedStack sample = entry.1)
  rw [collected, Option.elim_some, Option.elim_none, zero_add] at sum
  rw [← id_eq (a := entry.2), sum, toNat_sum, List.map_map]
  rfl

/-- Every sample with a key has its entry. -/
theorem exists_entry (holds : Holds sink pending) {sample : StackSample} (member : sample ∈ pending)
    (filled : framesOf sample ≠ [[]]) :
    ∃ entry ∈ sink.folded_counts_.entries, entry.1 = BuildFoldedStack sample := by
  rw [holds]
  apply AList.exists_entry_of_mem
  exact List.mem_filter.mpr ⟨member, decide_eq_true fun empty => filled ((key_eq_nil_iff sample).mp empty)⟩

/-- Among clean samples a key stands for its frames. -/
theorem same_key_iff {first second : StackSample} (left : ∀ frame ∈ framesOf first, 0x3B ∉ frame)
    (right : ∀ frame ∈ framesOf second, 0x3B ∉ frame) :
    BuildFoldedStack first = BuildFoldedStack second ↔ framesOf first = framesOf second := by
  constructor
  · intro same
    rw [← splitOn_key left, same, splitOn_key right]
  · intro same
    rw [buildFoldedStack_eq, same, ← buildFoldedStack_eq]

/-- The count of an entry is the sum over the samples with its frames. -/
theorem entry_count (holds : Holds sink pending) (clean : ∀ sample ∈ pending, ∀ frame ∈ framesOf sample, 0x3B ∉ frame)
    {entry : Sigma fun _ : Bytes => UInt64} (member : entry ∈ sink.folded_counts_.entries) :
    entry.2.toNat = totalOf pending (entry.1.splitOn 0x3B) % 2 ^ 64 := by
  obtain ⟨⟨sample, inside, key, filled⟩, count⟩ := entry_of_holds holds member
  rw [count, totalOf, keyed, List.filter_filter, ← key, splitOn_key (clean sample inside)]
  congr 3
  refine List.filter_congr fun other otherInside => ?_
  rw [Bool.eq_iff_iff]
  simp only [Bool.and_eq_true, decide_eq_true_eq]
  rw [same_key_iff (clean other otherInside) (clean sample inside)]
  refine and_iff_left_of_imp fun same => ?_
  rw [(same_key_iff (clean other otherInside) (clean sample inside)).mpr same, key]
  exact filled

/-- The lines of a file whose keys are not broken. -/
theorem parseFolded_content (holds : Holds sink pending)
    (clean : ∀ sample ∈ pending, ∀ frame ∈ framesOf sample, 0x0A ∉ frame) :
    parseFolded (sink.content order) = some ((order.visit sink.folded_counts_).map fun entry =>
      (entry.1.splitOn 0x3B, entry.2.toNat)) := by
  have unbroken : ∀ entry ∈ order.visit sink.folded_counts_, 0x0A ∉ foldedLine entry := by
    intro entry member
    obtain ⟨⟨sample, inside, key, _⟩, _⟩ := entry_of_holds holds (order.mem_visit.mp member)
    rw [foldedLine, List.mem_append, List.mem_cons, not_or, not_or, ← key]
    exact ⟨notMem_key (clean sample inside), by decide, notMem_to_string (by decide)⟩
  have each : parseLine ∘ foldedLine = fun entry => pure (entry.1.splitOn 0x3B, entry.2.toNat) :=
    funext parseLine_foldedLine
  rw [parseFolded, content, lines_pieces unbroken, List.mapM_map, each]
  exact List.mapM_pure

/-- Whatever a faithful file shows is free of the separators. -/
theorem Faithful.clean {file : Bytes} (faithful : Faithful pending file) {sample : StackSample}
    (member : sample ∈ pending) : ∀ frame ∈ framesOf sample, 0x3B ∉ frame ∧ 0x0A ∉ frame := by
  obtain ⟨entries, parsed, _, shown⟩ := faithful
  have inside := (shown (framesOf sample) _).mpr ⟨⟨sample, member, rfl⟩, rfl⟩
  obtain ⟨line, listed, read⟩ := List.exists_of_mem_mapM parsed inside
  exact clean_of_parseLine (mem_lines listed) read

/-- The file of a flush is faithful exactly when the samples can be shown. -/
theorem faithful_iff (holds : Holds sink pending) : Faithful pending (sink.content order) ↔ Foldable pending := by
  constructor
  · intro faithful sample member
    have clean (sample : StackSample) (member : sample ∈ pending) := faithful.clean member
    obtain ⟨entries, parsed, _, shown⟩ := faithful
    rw [parseFolded_content order holds fun sample member frame inside => (clean sample member frame inside).2] at parsed
    obtain rfl := Option.some.inj parsed
    obtain ⟨entry, visited, same⟩ := List.mem_map.mp ((shown (framesOf sample) _).mpr ⟨⟨sample, member, rfl⟩, rfl⟩)
    obtain ⟨frames, count⟩ := Prod.mk.inj same
    refine ⟨fun blank => ?_, clean sample member, ?_⟩
    · obtain ⟨⟨_, _, _, filled⟩, _⟩ := entry_of_holds holds (order.mem_visit.mp visited)
      apply filled
      have joined : [(0x3B : UInt8)].intercalate (entry.1.splitOn 0x3B) = entry.1 := List.intercalate_splitOn _
      rw [← joined, frames, blank]
      rfl
    · rw [← count]
      exact entry.2.toNat_lt
  · intro foldable
    have semicolons : ∀ sample ∈ pending, ∀ frame ∈ framesOf sample, 0x3B ∉ frame :=
      fun sample member frame inside => ((foldable sample member).2.1 frame inside).1
    refine ⟨_, parseFolded_content order holds fun sample member frame inside =>
      ((foldable sample member).2.1 frame inside).2, ?_, ?_⟩
    · have apart : Function.Injective fun key : Bytes => key.splitOn 0x3B :=
        Function.LeftInverse.injective fun key => List.intercalate_splitOn (0x3B : UInt8)
      rw [List.map_map]
      change ((order.visit sink.folded_counts_).map ((fun key : Bytes => key.splitOn 0x3B) ∘ Sigma.fst)).Nodup
      rw [← List.map_map]
      exact (order.nodup_visit _).map apart
    · intro frames n
      rw [List.mem_map]
      constructor
      · rintro ⟨entry, visited, same⟩
        obtain ⟨rfl, rfl⟩ := Prod.mk.inj same
        have stored := order.mem_visit.mp visited
        obtain ⟨⟨sample, member, key, _⟩, _⟩ := entry_of_holds holds stored
        have frames : entry.1.splitOn 0x3B = framesOf sample := by rw [← key, splitOn_key (semicolons sample member)]
        refine ⟨⟨sample, member, frames.symm⟩, ?_⟩
        rw [entry_count holds semicolons stored, frames]
        exact Nat.mod_eq_of_lt (foldable sample member).2.2
      · rintro ⟨⟨sample, member, rfl⟩, rfl⟩
        obtain ⟨entry, stored, key⟩ := exists_entry holds member (foldable sample member).1
        have frames : entry.1.splitOn 0x3B = framesOf sample := by rw [key, splitOn_key (semicolons sample member)]
        refine ⟨entry, order.mem_visit.mpr stored, Prod.ext frames ?_⟩
        change entry.2.toNat = _
        rw [entry_count holds semicolons stored, frames]
        exact Nat.mod_eq_of_lt (foldable sample member).2.2

end File

/-! ## Runs -/

/-- The sink with its file and the samples written since the last flush that returned `Ok`. -/
structure FoldedSession where
  sink : PprofExportSink
  file : Bytes
  pending : List StackSample := []

/-- A call, with what opening and writing the file comes to. -/
inductive FoldedCall (D : Type) where
  | Write (batch : Option (DataBatch D))
  | Flush (order : Traversal UInt64) (outcome : Outcome)
  | Stop (order : Traversal UInt64) (outcome : Outcome)

namespace FoldedSession

/-- After a flush that left the sink, the file and a status. -/
def flushed (session : FoldedSession) (result : PprofExportSink × Bytes × Status) : FoldedSession where
  sink := result.1
  file := result.2.1
  pending := if result.2.2.ok then [] else session.pending

def step {D : Type} (session : FoldedSession) : FoldedCall D → FoldedSession
  | .Write batch =>
    { session with
      sink := session.sink.Write batch
      pending := session.pending ++ batch.elim [] DataBatch.stack_samples }
  | .Flush order outcome => session.flushed (session.sink.Flush order outcome session.file)
  | .Stop order outcome => session.flushed (session.sink.Stop order outcome session.file)

/-- A run from a sink that has counted nothing, whatever the file holds. -/
def run {D : Type} (path_ : String) (file : Bytes) (calls : List (FoldedCall D)) : FoldedSession :=
  calls.foldl step { sink := { path_ := path_ }, file := file }

/-- All bytes of the samples reach the file: something is written, and none of it is lost. -/
def Reaches (session : FoldedSession) (order : Traversal UInt64) (outcome : Outcome) : Prop :=
  session.sink.folded_counts_ ≠ ∅ ∧ ∃ bytes, outcome = .reached bytes ∧ (session.sink.content order).length ≤ bytes

/-- What a flush owes while samples are pending. A file that it calls written is faithful; an error keeps the counts,
and there is one whenever not everything has reached the file. -/
structure Flushes (session : FoldedSession) (order : Traversal UInt64) (outcome : Outcome) : Prop where
  written : (session.sink.Flush order outcome session.file).2.2.ok = true →
    Faithful session.pending (session.sink.Flush order outcome session.file).2.1
  refused : ¬ session.Reaches order outcome → (session.sink.Flush order outcome session.file).2.2.ok = false
  kept : (session.sink.Flush order outcome session.file).2.2.ok = false →
    (session.sink.Flush order outcome session.file).1.folded_counts_ = session.sink.folded_counts_

/-- When a flush does what it owes: the file is not opened and some sample has a line to write, or the samples can be
shown and every byte reaches the file. -/
def Kept (session : FoldedSession) (order : Traversal UInt64) (outcome : Outcome) : Prop :=
  (outcome = .refused ∧ ∃ sample ∈ session.pending, framesOf sample ≠ [[]]) ∨
    (∃ bytes, outcome = .reached bytes ∧ (session.sink.content order).length ≤ bytes) ∧ Foldable session.pending

theorem flushed_holds {session : FoldedSession} (holds : Holds session.sink session.pending) (order : Traversal UInt64)
    (outcome : Outcome) :
    Holds (session.flushed (session.sink.Flush order outcome session.file)).sink
      (session.flushed (session.sink.Flush order outcome session.file)).pending := by
  unfold PprofExportSink.Flush
  split_ifs with empty
  · change session.sink.folded_counts_ = ∅
    exact AList.ext (List.isEmpty_iff.mp empty)
  · cases outcome with
    | refused => exact holds
    | reached bytes => rfl

theorem step_holds {D : Type} {session : FoldedSession} (holds : Holds session.sink session.pending)
    (call : FoldedCall D) : Holds (session.step call).sink (session.step call).pending := by
  cases call with
  | Write batch =>
    cases batch with
    | none =>
      change session.sink.folded_counts_ = AList.gather _ _ _ (keyed (session.pending ++ []))
      rw [List.append_nil]
      exact holds
    | some batch =>
      change session.sink.folded_counts_.gather _ _ _ = AList.gather _ _ _ (keyed (session.pending ++ batch.stack_samples))
      rw [holds, keyed, keyed, keyed, List.filter_append, AList.gather_append]
  | Flush order outcome => exact flushed_holds holds order outcome
  | Stop order outcome => exact flushed_holds holds order outcome

/-- In every run the map holds what is pending. -/
theorem run_holds {D : Type} (path_ : String) (file : Bytes) (calls : List (FoldedCall D)) :
    Holds (run path_ file calls).sink (run path_ file calls).pending := by
  induction calls using List.reverseRecOn with
  | nil => rfl
  | append_singleton calls call ih =>
    rw [run, List.foldl_append]
    exact step_holds ih call

/-- The map is empty when no sample has a line. -/
theorem isEmpty_iff {session : FoldedSession} (holds : Holds session.sink session.pending) :
    session.sink.folded_counts_.entries.isEmpty = true ↔ ∀ sample ∈ session.pending, framesOf sample = [[]] := by
  rw [List.isEmpty_iff]
  constructor
  · intro empty sample member
    by_contra filled
    obtain ⟨entry, stored, _⟩ := exists_entry holds member filled
    rw [empty] at stored
    exact List.not_mem_nil stored
  · intro blank
    by_contra filled
    obtain ⟨entry, stored⟩ := List.exists_mem_of_ne_nil _ filled
    obtain ⟨⟨sample, member, key, present⟩, _⟩ := entry_of_holds holds stored
    exact present (key.symm.trans ((key_eq_nil_iff sample).mpr (blank sample member)))

theorem flushes_iff_kept {session : FoldedSession} (holds : Holds session.sink session.pending)
    (waiting : session.pending ≠ []) (order : Traversal UInt64) (outcome : Outcome) :
    session.Flushes order outcome ↔ session.Kept order outcome := by
  by_cases empty : session.sink.folded_counts_.entries.isEmpty = true
  · have blank := (isEmpty_iff holds).mp empty
    have result : session.sink.Flush order outcome session.file = (session.sink, session.file, .Ok) := if_pos empty
    constructor
    · intro flushes
      have refused := flushes.refused fun reaches => reaches.1 (AList.ext (List.isEmpty_iff.mp empty))
      rw [result] at refused
      cases refused
    · rintro (⟨_, sample, member, filled⟩ | ⟨_, foldable⟩)
      · exact absurd (blank sample member) filled
      · obtain ⟨sample, member⟩ := List.exists_mem_of_ne_nil _ waiting
        exact absurd (blank sample member) (foldable sample member).1
  · have filled : ∃ sample ∈ session.pending, framesOf sample ≠ [[]] := by
      by_contra none
      exact empty ((isEmpty_iff holds).mpr fun sample member => by_contra fun other => none ⟨sample, member, other⟩)
    have present : session.sink.folded_counts_ ≠ ∅ := fun none => empty (by rw [none]; rfl)
    cases outcome with
    | refused =>
      have result : session.sink.Flush order .refused session.file =
          (session.sink, session.file, .Error .kInternal ("Cannot open pprof output: " ++ session.sink.path_)) :=
        if_neg empty
      refine iff_of_true ⟨fun written => ?_, fun _ => by rw [result]; rfl, fun _ => by rw [result]⟩ (Or.inl ⟨rfl, filled⟩)
      rw [result] at written
      cases written
    | reached bytes =>
      have result : session.sink.Flush order (.reached bytes) session.file =
          ({ session.sink with folded_counts_ := ∅ }, (session.sink.content order).take bytes, .Ok) := if_neg empty
      constructor
      · intro flushes
        have reaches : session.Reaches order (.reached bytes) := by
          by_contra lost
          have refused := flushes.refused lost
          rw [result] at refused
          cases refused
        have written := flushes.written (by rw [result]; rfl)
        obtain ⟨_, size, same, whole⟩ := reaches
        obtain rfl := Outcome.reached.inj same
        rw [result] at written
        change Faithful session.pending ((session.sink.content order).take bytes) at written
        rw [List.take_of_length_le whole] at written
        exact Or.inr ⟨⟨bytes, rfl, whole⟩, (faithful_iff order holds).mp written⟩
      · rintro (⟨closed, _⟩ | ⟨⟨size, same, whole⟩, foldable⟩)
        · cases closed
        · obtain rfl := Outcome.reached.inj same
          have written := (faithful_iff order holds).mpr foldable
          refine ⟨fun _ => ?_, fun lost => absurd ⟨present, bytes, rfl, whole⟩ lost, fun failed => ?_⟩
          · rw [result]
            change Faithful session.pending ((session.sink.content order).take bytes)
            rwa [List.take_of_length_le whole]
          · rw [result] at failed
            cases failed

/-- **When folded stacks are exported faithfully.** In every run, a flush that finds samples pending gives each process
name and stack its one line with its sum, or an error with the counts kept, exactly when the file is not opened and
some sample has a line, or all bytes reach the file and the samples have a name or frames, no semicolon or line break
in any of them, and sums of 64 bits. -/
theorem flushes_iff {D : Type} (path_ : String) (file : Bytes) (calls : List (FoldedCall D)) (order : Traversal UInt64)
    (outcome : Outcome) :
    ((run path_ file calls).pending ≠ [] → (run path_ file calls).Flushes order outcome) ↔
      ((run path_ file calls).pending ≠ [] → (run path_ file calls).Kept order outcome) :=
  imp_congr_right fun waiting => flushes_iff_kept (run_holds path_ file calls) waiting order outcome

/-- One sample of a process. -/
def oneSample : FoldedCall Unit :=
  .Write (some { type := .kProfile, stack_samples := [{ timestamp := 0, comm := ascii "sh" }] })

/-- On a full disk none of the bytes reach the file, and the flush returns `Ok`. -/
theorem lost_write_succeeds : ¬ ∀ (path_ : String) (file : Bytes) (calls : List (FoldedCall Unit))
    (order : Traversal UInt64) (outcome : Outcome), (run path_ file calls).pending ≠ [] →
      (run path_ file calls).Flushes order outcome := by
  intro flushes
  have refused := (flushes "" [] [oneSample] (.listed _) (.reached 0) (by decide)).refused
  have lost : ¬ (run "" [] [oneSample]).Reaches (.listed _) (.reached 0) := by
    rintro ⟨_, bytes, same, whole⟩
    obtain rfl := Outcome.reached.inj same
    exact absurd whole (by decide)
  exact absurd (refused lost) (by decide)

end FoldedSession

end Illuminator
