import Illuminator.Model.Pages
import Illuminator.Soundness.FlameWeights
import Illuminator.Soundness.LiveFeed
import Illuminator.Soundness.StackGroups
import Illuminator.Standards.JsonText
import Mathlib.Algebra.Order.BigOperators.Group.List
import Mathlib.Algebra.Order.Ring.Nat

/-! # Merged profiles on the page

A merged sample has the frames of every sample of its group and weighs what they weigh together. So the page draws the
same tree, up to the order of the children, whether a profile was merged before it was sent or not.
-/

namespace Illuminator

namespace FlameGraph

open JsonValue JsonSerializer NamedTree

variable {D : Type} {isfinite : D → Bool}

/-! ## What the page reads -/

theorem property_setAll {entries : Members D} (distinct : (entries.map Prod.fst).Nodup) (key : Bytes) :
    property key ((JsonValue.object (Members.setAll entries [])).reparsed isfinite) =
      (entries.lookup key).map (reparsed isfinite) := by
  rw [reparsed, property, lookup_reparsedIn, Members.lookup_setAll_of_nodup distinct]

/-- A frame of the server on the page. -/
def seenFrame (browser : Browser D) (f : Illuminator.StackFrame) : StackFrame :=
  ⟨if f.function_name.isEmpty then none else some (browser.decode f.function_name)⟩

/-- A sample of the server on the page. -/
def seen (browser : Browser D) (s : Illuminator.StackSample) : StackSample where
  comm := some (browser.decode s.comm)
  user_stack := some (s.user_stack.map (seenFrame browser))
  kernel_stack := some (s.kernel_stack.map (seenFrame browser))
  duration_ns := if s.duration_ns > 0 then some s.duration_ns.toNat else none
  count := some s.count.toNat

theorem readFrame_json (browser : Browser D) (f : Illuminator.StackFrame) :
    readFrame browser ((StackFrameToJson f : JsonValue D).reparsed isfinite) = seenFrame browser f := by
  rw [readFrame, StackFrameToJson, property_setAll, seenFrame]
  · split_ifs <;> rfl
  · split_ifs <;> simp only [List.map_cons, List.map_nil, List.map_append, List.append_nil] <;> decide

theorem readStack_json (isfinite : D → Bool) (browser : Browser D) (frames : List Illuminator.StackFrame) :
    (asArray ((StackFramesToJson frames : JsonValue D).reparsed isfinite)).map
      (fun stack => stack.map (readFrame browser)) = some (frames.map (seenFrame browser)) := by
  rw [StackFramesToJson, reparsed, reparsedOf_eq, asArray, Option.map_some, List.map_map, List.map_map]
  exact congrArg some (List.map_congr_left fun f _ => readFrame_json browser f)

theorem sample_keys (s : Illuminator.StackSample) : ((([(ascii "pid", .number_unsigned s.pid.toUInt64),
      (ascii "tid", .number_unsigned s.tid.toUInt64), (ascii "cpu", .number_unsigned s.cpu.toUInt64),
      (ascii "count", .number_unsigned s.count), (ascii "comm", .string s.comm),
      (ascii "type", .number_integer (SampleType.toInt s.sample_type))] ++
    (if s.duration_ns > 0 then [(ascii "duration_ns", .number_unsigned s.duration_ns)] else []) ++
    [(ascii "kernel_stack", StackFramesToJson s.kernel_stack), (ascii "user_stack", StackFramesToJson s.user_stack)] :
      Members D)).map Prod.fst).Nodup := by
  split_ifs <;> simp only [List.map_cons, List.map_nil, List.map_append, List.append_nil] <;> decide

theorem readSample_json (browser : Browser D) (s : Illuminator.StackSample) :
    readSample browser ((StackSampleToJson s : JsonValue D).reparsed isfinite) = seen browser s := by
  have distinct := sample_keys (D := D) s
  have user := readStack_json isfinite browser s.user_stack
  have kernel := readStack_json isfinite browser s.kernel_stack
  simp only [readSample, readStack, StackSampleToJson, property_setAll distinct]
  by_cases timed : s.duration_ns > 0
  · simp only [if_pos timed, seen, ← user, ← kernel]
    rfl
  · simp only [if_neg timed, seen, ← user, ← kernel]
    rfl

/-- The samples that the page finds in a batch's document. -/
theorem readSamples_batch (isfinite : D → Bool) (browser : Browser D) (batch : DataBatch D) (pipeline : Bytes) :
    (readSamples browser ((batchDocument batch pipeline).reparsed isfinite)).getD [] =
      batch.stack_samples.map (seen browser) := by
  have distinct : ((([(ascii "pipeline", .string pipeline), (ascii "records", .array (batch.records.map RecordToJson))] ++
      if batch.stack_samples.isEmpty then []
      else [(ascii "stack_samples", .array (batch.stack_samples.map StackSampleToJson))] : Members D)).map
        Prod.fst).Nodup := by
    split_ifs <;> simp only [List.map_cons, List.map_nil, List.map_append, List.append_nil] <;> decide
  rw [readSamples, batchDocument, property_setAll distinct]
  by_cases none_ : batch.stack_samples.isEmpty
  · rw [List.isEmpty_iff.mp none_]
    rfl
  · rw [if_neg none_]
    have samples : (batch.stack_samples.map fun s => readSample browser ((StackSampleToJson s : JsonValue D).reparsed
        isfinite)) = batch.stack_samples.map (seen browser) :=
      List.map_congr_left fun s _ => readSample_json browser s
    rw [← samples]
    change (Option.map _ (some (reparsedOf isfinite _))).getD [] = _
    rw [reparsedOf_eq, Option.map_some, Option.getD_some, List.map_map, List.map_map]
    rfl

/-- A batch's document has no error in it. -/
theorem error_batch (batch : DataBatch D) (pipeline : Bytes) :
    property (ascii "error") ((batchDocument batch pipeline).reparsed isfinite) = none := by
  rw [batchDocument, reparsed, property, lookup_reparsedIn, Members.lookup_setAll, List.append_nil]
  split_ifs <;> rfl

/-! ## Merged samples -/

/-- A profile grouped as the configuration does by default: by the thread's name, kernel stacks included. -/
def byComm : StackMergerProcessor := { group_by_ := .kComm, include_kernel_ := true }

def labelled (browser : Browser D) : FrameLabel → StackFrame
  | .name text => ⟨some (browser.decode text)⟩
  | .address _ => ⟨none⟩

theorem seenFrame_eq (browser : Browser D) (f : Illuminator.StackFrame) :
    seenFrame browser f = labelled browser f.label := by
  unfold seenFrame StackFrame.label
  split_ifs <;> rfl

theorem seenStack_eq (browser : Browser D) (stack : List Illuminator.StackFrame) :
    stack.map (seenFrame browser) = (stack.map StackFrame.label).map (labelled browser) := by
  rw [List.map_map]
  exact List.map_congr_left fun f _ => seenFrame_eq browser f

/-- The page draws samples of one group along one path. -/
theorem frames_congr (browser : Browser D) {x y : Illuminator.StackSample} (same : byComm.group x = byComm.group y) :
    frames (seen browser x) = frames (seen browser y) := by
  have comm : x.comm = y.comm := GroupIdentity.comm.inj (congrArg StackGroup.identity same)
  have kernel : x.kernel_stack.map StackFrame.label = y.kernel_stack.map StackFrame.label :=
    Option.some.inj (congrArg StackGroup.kernel same)
  have user : x.user_stack.map StackFrame.label = y.user_stack.map StackFrame.label := congrArg StackGroup.user same
  have alike : seen browser x =
      { seen browser y with duration_ns := (seen browser x).duration_ns, count := (seen browser x).count } := by
    simp only [seen, seenStack_eq, comm, kernel, user]
  rw [alike]
  rfl

/-- A property that groups have or have not is worth the same before and after merging. -/
theorem sum_grouped {group : Illuminator.StackSample → StackGroup} {samples out : List Illuminator.StackSample}
    (grouped : Grouped group samples out) (holds : Illuminator.StackSample → Bool)
    (respects : ∀ x y, group x = group y → holds x = holds y) :
    ((out.filter holds).map fun s => s.count.toNat).sum = ((samples.filter holds).map fun s => s.count.toNat).sum := by
  have distinct : ((out.filter holds).map group).Nodup := grouped.once.sublist (List.filter_sublist.map group)
  have covered : ∀ x ∈ samples.filter holds, group x ∈ (out.filter holds).map group := by
    intro x member
    obtain ⟨inside, held⟩ := List.mem_filter.mp member
    obtain ⟨s, there, same⟩ := grouped.each x inside
    exact List.mem_map.mpr ⟨s, List.mem_filter.mpr ⟨there, by rw [respects s x same, held]⟩, same⟩
  rw [← List.sum_map_fibers distinct group covered, List.map_map]
  refine congrArg List.sum (List.map_congr_left fun s member => ?_)
  obtain ⟨there, held⟩ := List.mem_filter.mp member
  rw [grouped.counts s there, countSum, inGroup, Function.comp_apply, List.filter_filter]
  refine congrArg List.sum (congrArg (List.map _) (List.filter_congr fun x _ => ?_))
  by_cases same : group x = group s
  · simp [same, respects x s same, held]
  · simp [same]

theorem exists_grouped {group : Illuminator.StackSample → StackGroup} {samples out : List Illuminator.StackSample}
    (grouped : Grouped group samples out) {holds : Illuminator.StackSample → Prop}
    (respects : ∀ x y, group x = group y → holds x → holds y) : (∃ s ∈ out, holds s) ↔ ∃ x ∈ samples, holds x := by
  constructor
  · rintro ⟨s, there, held⟩
    have first := grouped.first s there
    obtain ⟨x, found, same⟩ := Option.map_eq_some_iff.mp first
    obtain ⟨inside, member⟩ := List.mem_filter.mp (List.mem_of_mem_head? found)
    exact ⟨x, inside, respects s x (of_decide_eq_true member).symm held⟩
  · rintro ⟨x, inside, held⟩
    obtain ⟨s, there, same⟩ := grouped.each x inside
    exact ⟨s, there, respects x s same.symm held⟩

/-- Counts of at least one are what samples weigh. -/
theorem weight_seen (browser : Browser D) {s : Illuminator.StackSample} (positive : 1 ≤ s.count.toNat) :
    weight false (seen browser s) = s.count.toNat := by
  have some_ : s.count.toNat ≠ 0 := by omega
  simp only [weight, seen, Option.getD_some, some_, if_false, Bool.false_eq_true, false_and]

theorem positive_grouped {group : Illuminator.StackSample → StackGroup} {samples out : List Illuminator.StackSample}
    (grouped : Grouped group samples out) (positive : ∀ x ∈ samples, 1 ≤ x.count.toNat) :
    ∀ s ∈ out, 1 ≤ s.count.toNat := by
  intro s there
  obtain ⟨x, found, _⟩ := Option.map_eq_some_iff.mp (grouped.first s there)
  have member := List.mem_of_mem_head? found
  rw [grouped.counts s there]
  calc 1 ≤ x.count.toNat := positive x (List.mem_filter.mp member).1
    _ ≤ countSum (inGroup group samples (group s)) := List.single_le_sum (by simp) _ (List.mem_map_of_mem member)

/-- What the samples along a path weigh, before and after merging. -/
theorem weightThrough_merged (browser : Browser D) {samples out : List Illuminator.StackSample}
    (grouped : Grouped byComm.group samples out) (positive : ∀ x ∈ samples, 1 ≤ x.count.toNat) (path : List JsString) :
    weightThrough false (out.map (seen browser)) path = weightThrough false (samples.map (seen browser)) path := by
  have counts {list : List Illuminator.StackSample} (positive : ∀ x ∈ list, 1 ≤ x.count.toNat) :
      weightThrough false (list.map (seen browser)) path =
        ((list.filter fun s => path <+: frames (seen browser s)).map fun s => s.count.toNat).sum := by
    rw [weightThrough, List.filter_map, List.map_map]
    exact congrArg List.sum (List.map_congr_left fun s member =>
      weight_seen browser (positive s (List.mem_filter.mp member).1))
  rw [counts (positive_grouped grouped positive), counts positive]
  exact sum_grouped grouped _ fun x y same => by rw [frames_congr browser same]

/-- The two pages show trees with the same nodes and weights, or the same otherwise. -/
def Shown.Alike : Shown → Shown → Prop
  | .tree left, .tree right => left.name = right.name ∧ left.label = right.label ∧
      ∀ path, labelAt path left = labelAt path right
  | .error left, .error right => left = right
  | .noSamples, .noSamples => True
  | .thrown, .thrown => True
  | _, _ => False

theorem tree_alike (browser : Browser D) {samples out : List Illuminator.StackSample}
    (grouped : Grouped byComm.group samples out) (positive : ∀ x ∈ samples, 1 ≤ x.count.toNat) :
    (Shown.tree (convertToFlameNode (some (out.map (seen browser))) false)).Alike
      (.tree (convertToFlameNode (some (samples.map (seen browser))) false)) := by
  have total : (convertToFlameNode (some (out.map (seen browser))) false).label =
      (convertToFlameNode (some (samples.map (seen browser))) false).label := by
    have all {list : List Illuminator.StackSample} (positive : ∀ x ∈ list, 1 ≤ x.count.toNat) :
        ((list.map (seen browser)).map (weight false)).sum =
          ((list.filter fun _ => true).map fun s => s.count.toNat).sum := by
      rw [List.filter_true, List.map_map]
      exact congrArg List.sum (List.map_congr_left fun s member => weight_seen browser (positive s member))
    rw [root_total, root_total, all (positive_grouped grouped positive), all positive]
    exact sum_grouped grouped _ fun _ _ _ => rfl
  refine ⟨?_, total, fun path => ?_⟩
  · rw [convertToFlameNode_eq, convertToFlameNode_eq, name_node, name_node, grown, grown, name_insertAll, name_insertAll]
  · by_cases top : path = []
    · subst top
      exact congrArg some total
    · have goes : (∃ s ∈ out.map (seen browser), path <+: frames s) ↔
          ∃ s ∈ samples.map (seen browser), path <+: frames s := by
        simp only [List.mem_map, exists_exists_and_eq_and]
        exact exists_grouped grouped fun x y same starts => by rwa [← frames_congr browser same]
      rw [labelAt_tree false _ top, labelAt_tree false _ top, weightThrough_merged browser grouped positive]
      simp only [goes]

theorem readable_merged {batch merged : DataBatch D} {pipeline : Bytes} {group : Illuminator.StackSample → StackGroup}
    (readable : Readable batch pipeline) (records : merged.records = batch.records)
    (grouped : Grouped group batch.stack_samples merged.stack_samples) : Readable merged pipeline where
  pipeline := readable.pipeline
  records := by
    rw [records]
    exact readable.records
  stack_samples := by
    intro s there
    obtain ⟨x, found, same⟩ := Option.map_eq_some_iff.mp (grouped.first s there)
    have first := readable.stack_samples x (List.mem_filter.mp (List.mem_of_mem_head? found)).1
    rw [← same]
    exact ⟨first.comm, first.kernel_stack, first.user_stack⟩

/-- The browser reads what the server's library writes, the line break behind it included. -/
def Browser.Reads (browser : Browser D) (json : Library D) (isfinite : D → Bool) : Prop :=
  ∀ v text, v.Ordered → json.dump v = some text → browser.parse (text ++ [0x0A]) = some (v.reparsed isfinite)

theorem loadData_batch {browser : Browser D} {json : Library D} (reads : browser.Reads json isfinite)
    {batch : DataBatch D} {pipeline body : Bytes} (served : BatchToJson json batch pipeline = some body) (isOffCpu : Bool) :
    loadData browser isOffCpu (body ++ [0x0A]) = if batch.stack_samples = [] then .noSamples
      else .tree (convertToFlameNode (some (batch.stack_samples.map (seen browser))) isOffCpu) := by
  have parsed := reads _ body (ordered_document batch pipeline) served
  have samples := readSamples_batch isfinite browser batch pipeline
  have unerred : ((property (ascii "error") ((batchDocument batch pipeline).reparsed isfinite)).bind
      (asString browser)).getD [] = [] := by rw [error_batch]; rfl
  have drawn : convertToFlameNode (readSamples browser ((batchDocument batch pipeline).reparsed isfinite)) isOffCpu =
      convertToFlameNode (some (batch.stack_samples.map (seen browser))) isOffCpu := by
    rw [convertToFlameNode, convertToFlameNode, samples, Option.getD_some]
  rw [loadData, parsed]
  simp only [unerred, ne_eq, not_true_eq_false, if_false, samples, drawn, List.length_map, gt_iff_lt, List.length_pos_iff]
  by_cases none_ : batch.stack_samples = []
  · simp only [none_, not_true_eq_false, if_false, if_true]
  · simp only [none_, not_false_eq_true, if_false, if_true]

/-- **Merging is not seen.** With the default grouping, where no two groups of a profile have the same text, counts are
at least one and their sum is a number that the page holds exactly, the merged profile can be sent whenever the profile
can, and the page shows the same for both: the same names along the same paths, with the same values. -/
theorem merged_alike {browser : Browser D} {json : Library D} (documented : json.Documented isfinite)
    (reads : browser.Reads json isfinite) (order : Traversal Illuminator.StackSample) {batch : DataBatch D}
    {pipeline body : Bytes} (distinguish : byComm.KeysDistinguish batch.stack_samples)
    (positive : ∀ s ∈ batch.stack_samples, 1 ≤ s.count.toNat) (exact_ : countSum batch.stack_samples ≤ 2 ^ 53)
    (served : BatchToJson json batch pipeline = some body) :
    ∃ merged mergedBody, byComm.Process order (some batch) = some merged ∧
      BatchToJson json merged pipeline = some mergedBody ∧
      (loadData browser false (mergedBody ++ [0x0A])).Alike (loadData browser false (body ++ [0x0A])) := by
  have fit : byComm.CountsFit batch.stack_samples := by
    intro x _
    have part : countSum (inGroup byComm.group batch.stack_samples (byComm.group x)) ≤ countSum batch.stack_samples :=
      (List.filter_sublist.map _).sum_le_sum fun _ _ => Nat.zero_le _
    have small : (2 : ℕ) ^ 53 < 2 ^ 64 := by decide
    omega
  obtain ⟨merged, processed, records, grouped⟩ :=
    (StackMergerProcessor.groups_iff byComm order batch).mpr ⟨distinguish, fit⟩
  have readable := utf8_document.mp (documented.dump_some.mp ⟨body, served⟩)
  obtain ⟨mergedBody, dumped⟩ := documented.dump_some.mpr (utf8_document.mpr (readable_merged readable records grouped))
  refine ⟨merged, mergedBody, processed, dumped, ?_⟩
  rw [loadData_batch reads served, loadData_batch reads dumped]
  by_cases none_ : batch.stack_samples = []
  · have empty : merged.stack_samples = [] := by
      refine List.eq_nil_iff_forall_not_mem.mpr fun s there => ?_
      have first := grouped.first s there
      rw [none_] at first
      cases first
    rw [if_pos none_, if_pos empty]
    trivial
  · have some_ : merged.stack_samples ≠ [] := by
      intro empty
      obtain ⟨x, inside⟩ := List.exists_mem_of_ne_nil _ none_
      obtain ⟨s, there, _⟩ := grouped.each x inside
      rw [empty] at there
      exact absurd there List.not_mem_nil
    rw [if_neg none_, if_neg some_]
    exact tree_alike browser grouped positive

/-- A browser for ASCII strings. -/
def asciiBrowser : Browser (Option ℤ) := ⟨JsonText.parse JsonText.wholes, fun s => s.map UInt8.toUInt16⟩

theorem asciiBrowser_reads : asciiBrowser.Reads (JsonText.library JsonText.wholes) JsonText.wholes.isfinite := by
  intro v text ordered dumped
  change JsonText.dump JsonText.wholes v = some text at dumped
  unfold JsonText.dump at dumped
  split_ifs at dumped with valid
  cases dumped
  change JsonText.parse JsonText.wholes (JsonText.write JsonText.wholes v ++ [0x0A]) = _
  rw [JsonText.parse_write_line JsonText.wholes_faithful.printed valid,
    JsonText.reread_ordered JsonText.wholes_faithful v ordered]

/-- One function twice, the second time after another thread of the same name. -/
def twice : DataBatch (Option ℤ) :=
  { type := .kProfile
    stack_samples := [
      { timestamp := 1, comm := ascii "sh", count := 2, user_stack := [⟨64, ascii "main", [], 0, []⟩] },
      { timestamp := 2, comm := ascii "cat", count := 1 },
      { timestamp := 3, comm := ascii "sh", count := 5, user_stack := [⟨80, ascii "main", [], 0, []⟩] }] }

theorem merged_alike_twice : ∃ body merged mergedBody,
    BatchToJson (JsonText.library JsonText.wholes) twice (ascii "cpu_profile") = some body ∧
      byComm.Process (.listed _) (some twice) = some merged ∧ merged.stack_samples.length = 2 ∧
      BatchToJson (JsonText.library JsonText.wholes) merged (ascii "cpu_profile") = some mergedBody ∧
      (loadData asciiBrowser false (mergedBody ++ [0x0A])).Alike (loadData asciiBrowser false (body ++ [0x0A])) := by
  obtain ⟨body, served⟩ := Option.isSome_iff_exists.mp (show (BatchToJson (JsonText.library JsonText.wholes) twice
    (ascii "cpu_profile")).isSome = true by decide)
  obtain ⟨merged, mergedBody, processed, dumped, alike⟩ := merged_alike
    (JsonText.library_documented JsonText.wholes_faithful) asciiBrowser_reads (.listed _)
    (show byComm.KeysDistinguish twice.stack_samples by unfold StackMergerProcessor.KeysDistinguish; decide)
    (by decide) (by decide) served
  refine ⟨body, merged, mergedBody, served, processed, ?_, dumped, alike⟩
  cases processed
  rfl

end FlameGraph

end Illuminator
