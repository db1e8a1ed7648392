import Illuminator.Soundness.AggregatorWindows
import Illuminator.ToMathlib.Delimited

/-! # Metric series

A flush computes one record of statistics for each key of the record buffer, from the values that the
records of that key brought. The key is the concatenation of a record's labels, and labels may contain
the characters that delimit them. Where it tells the label lists of a window apart, each list has its
own record, computed from its own values and no others; where it does not, some list has none.
-/

namespace Illuminator

open CpuStatsAggregator

variable {D : Type} [Double D]

/-- The values that records with these labels have for a field. -/
def valuesOf (records : List (Record D)) (labels : List Label) (fname : Bytes) : List D :=
  (records.filter fun rec => rec.labels = labels).filterMap fun rec => (rec.GetField fname).bind numeric

/-- The records that a window's flush gave. -/
def Window.records {D : Type} (w : Window D) : List (Record D) := w.batches.flatMap DataBatch.records

/-- What a flush owes to the records of its window: one record for each label list and no other, whose
fields are the statistics of the values that came in under those labels. -/
structure Exact (records out : List (Record D)) : Prop where
  distinct : (out.map Record.labels).Nodup
  carried : ∀ labels, (∃ rec ∈ out, rec.labels = labels) ↔ ∃ rec ∈ records, rec.labels = labels
  fields : ∀ rec ∈ out, ∀ name value, rec.GetField name = some value ↔
    ∃ fname, ⟨name, value⟩ ∈ statFields fname (valuesOf records rec.labels fname)
  counts : ∀ rec ∈ out, ∀ fname, rec.GetField (fname ++ countSuffix) =
    if valuesOf records rec.labels fname = [] then none
    else some (.uint64 (.ofNat (valuesOf records rec.labels fname).length))

/-- Records of the window that are rendered to the same key have the same labels. -/
def KeysDistinguish (records : List (Record D)) : Prop :=
  ∀ first ∈ records, ∀ second ∈ records, MakeRecordKey first = MakeRecordKey second → first.labels = second.labels

/-! ## Values in the buffer -/

/-- A series that has its entry only once it has a value. -/
def stored (values : List D) : Option (List D) := if values.isEmpty then none else some values

omit [Double D] in
theorem pushValue_stored (values : List D) (value : D) : pushValue (stored values) value = values ++ [value] := by
  cases values <;> rfl

omit [Double D] in
theorem stored_append (values : List D) (value : D) : stored (values ++ [value]) = some (values ++ [value]) := by
  cases values <;> rfl

/-- The loop over a record's fields appends the record's own value to each series. -/
theorem lookup_foldl_addField (entries : List (Sigma fun _ : Bytes => FieldValue D)) (nodup : entries.NodupKeys)
    (m : AList fun _ : Bytes => List D) (fname : Bytes) :
    (entries.foldl addField m).lookup fname =
      ((entries.dlookup fname).bind numeric).elim (m.lookup fname) fun value => some (pushValue (m.lookup fname) value) := by
  induction entries generalizing m with
  | nil => rfl
  | cons field rest ih =>
    obtain ⟨name, value⟩ := field
    rw [List.nodupKeys_cons] at nodup
    rw [List.foldl_cons, ih nodup.2]
    by_cases same : fname = name
    · obtain rfl := same
      have absent : rest.dlookup fname = none := List.dlookup_eq_none.mpr nodup.1
      rw [absent, List.dlookup_cons_eq]
      simp only [addField, Option.bind_some, Option.bind_none, Option.elim_none]
      cases numeric value with
      | none => rfl
      | some number => simp only [AList.lookup_update, if_pos, Option.elim_some]
    · rw [List.dlookup_cons_ne _ _ same]
      have passed : (addField m ⟨name, value⟩).lookup fname = m.lookup fname := by
        simp only [addField]
        cases numeric value with
        | none => rfl
        | some number => simp only [AList.lookup_update, if_neg same]
      rw [passed]

/-- The values that a group of records has for a field. -/
def groupValues (group : List (Record D)) (fname : Bytes) : List D :=
  group.filterMap fun rec => (rec.GetField fname).bind numeric

/-- A held series has the values it had, and those of the records added. -/
theorem collect_addRecord (group : List (Record D)) (held : Option (RecordSeries D)) (fname : Bytes) (values : List D)
    (before : (held.getD {}).field_values.lookup fname = stored values) :
    ((AList.collect addRecord held group).getD {}).field_values.lookup fname =
      stored (values ++ groupValues group fname) := by
  induction group generalizing held values with
  | nil => simpa [groupValues, AList.collect] using before
  | cons rec rest ih =>
    change ((AList.collect addRecord (some (addRecord held rec)) rest).getD {}).field_values.lookup fname = _
    have added : (addRecord held rec).field_values.lookup fname =
        stored (values ++ ((rec.GetField fname).bind numeric).toList) := by
      rw [addRecord, lookup_foldl_addField _ rec.fields.nodupKeys, before]
      change ((rec.GetField fname).bind numeric).elim _ _ = _
      cases (rec.GetField fname).bind numeric with
      | none => simp
      | some value => simp [pushValue_stored, stored_append]
    rw [ih (some (addRecord held rec)) _ added, List.append_assoc]
    congr 2
    rw [groupValues, groupValues, List.filterMap_cons]
    cases (rec.GetField fname).bind numeric <;> rfl

/-! ## Names of the statistics -/

def suffixes : List Bytes := [avgSuffix, minSuffix, maxSuffix, p50Suffix, p99Suffix, countSuffix]

/-- The suffixes differ in their last characters, so a statistic's name tells its field. -/
theorem suffix_cut {first second left right : Bytes} (leftSuffix : left ∈ suffixes) (rightSuffix : right ∈ suffixes)
    (same : first ++ left = second ++ right) : first = second ∧ left = right := by
  have ends : left.getLast? = right.getLast? := by
    have filled : ∀ suffix ∈ suffixes, suffix ≠ [] := by decide
    have whole := congrArg List.getLast? same
    rwa [List.getLast?_append_of_ne_nil _ (filled left leftSuffix),
      List.getLast?_append_of_ne_nil _ (filled right rightSuffix)] at whole
  have told : ∀ left ∈ suffixes, ∀ right ∈ suffixes, left.getLast? = right.getLast? → left = right := by decide
  obtain rfl := told left leftSuffix right rightSuffix ends
  exact ⟨List.append_cancel_right same, rfl⟩

theorem statFields_keys (fname : Bytes) (values : List D) :
    ∃ kept : List Bytes, kept.Sublist suffixes ∧ (statFields fname values).map Sigma.fst = kept.map (fname ++ ·) := by
  unfold statFields
  split_ifs
  · exact ⟨[], List.nil_sublist _, rfl⟩
  · exact ⟨suffixes, List.Sublist.refl _, rfl⟩
  · exact ⟨[avgSuffix, minSuffix, maxSuffix, countSuffix], by decide, rfl⟩

theorem statFields_key {fname name : Bytes} {values : List D} {value : FieldValue D}
    (member : ⟨name, value⟩ ∈ statFields fname values) : ∃ suffix ∈ suffixes, name = fname ++ suffix := by
  obtain ⟨kept, inside, names⟩ := statFields_keys fname values
  have named : name ∈ (statFields fname values).map Sigma.fst := List.mem_map.mpr ⟨_, member, rfl⟩
  rw [names] at named
  obtain ⟨suffix, listed, rfl⟩ := List.mem_map.mp named
  exact ⟨suffix, inside.subset listed, rfl⟩

/-- Distinct series set distinct fields. -/
theorem statFields_nodup (series : List (Sigma fun _ : Bytes => List D)) (nodup : (series.map Sigma.fst).Nodup) :
    ((series.flatMap fun one => statFields one.1 one.2).map Sigma.fst).Nodup := by
  rw [List.map_flatMap, List.nodup_flatMap]
  constructor
  · intro one _
    obtain ⟨kept, inside, names⟩ := statFields_keys one.1 one.2
    rw [names]
    refine List.Nodup.map (fun left right same => List.append_cancel_left same) (inside.nodup ?_)
    decide
  · refine (List.pairwise_map.mp nodup).imp fun {one two} different => ?_
    intro name left right
    obtain ⟨⟨_, leftValue⟩, leftMember, rfl⟩ := List.mem_map.mp left
    obtain ⟨⟨_, rightValue⟩, rightMember, names⟩ := List.mem_map.mp right
    obtain ⟨leftSuffix, leftIn, leftName⟩ := statFields_key leftMember
    obtain ⟨rightSuffix, rightIn, rightName⟩ := statFields_key rightMember
    exact different (suffix_cut leftIn rightIn (leftName.symm.trans (names.symm.trans rightName))).1

theorem mem_statFields_count (fname : Bytes) (values : List D) (value : FieldValue D) :
    ⟨fname ++ countSuffix, value⟩ ∈ statFields fname values ↔ values ≠ [] ∧ value = .uint64 (.ofNat values.length) := by
  have others : ∀ suffix ∈ [avgSuffix, minSuffix, maxSuffix, p50Suffix, p99Suffix], countSuffix ≠ suffix := by decide
  simp only [List.forall_mem_cons] at others
  obtain ⟨avg, min, max, p50, p99, _⟩ := others
  unfold statFields
  split_ifs with empty enough <;> simp_all

/-! ## Flushed records -/

section Window

variable (merger : StackMergerProcessor) (arrivals : List (Arrival D)) (order : FlushOrder D)

/-- An entry belongs to the added records with its key; its labels are one of theirs. -/
theorem record_entry {entry : Sigma fun _ : Bytes => RecordSeries D}
    (member : entry ∈ (window merger arrivals).record_buffer_.entries) :
    (∃ rec ∈ addedRecords merger arrivals, MakeRecordKey rec = entry.1 ∧ rec.labels = entry.2.labels) ∧
      ∀ fname, entry.2.field_values.lookup fname =
        stored (groupValues ((addedRecords merger arrivals).filter fun rec => MakeRecordKey rec = entry.1) fname) := by
  obtain ⟨collected, _⟩ := AList.exists_of_mem_gather member
  constructor
  · obtain ⟨rec, grouped, labels⟩ := AList.collect_induction
      (P := fun series : RecordSeries D => ∃ rec ∈ (addedRecords merger arrivals).filter fun rec =>
        MakeRecordKey rec = entry.1, rec.labels = series.labels)
      (by simp) (fun _ rec inside _ => ⟨rec, inside, rfl⟩) entry.2 collected
    obtain ⟨inside, key⟩ := List.mem_filter.mp grouped
    exact ⟨rec, inside, of_decide_eq_true key, labels⟩
  · intro fname
    have values := collect_addRecord ((addedRecords merger arrivals).filter fun rec => MakeRecordKey rec = entry.1)
      none fname [] rfl
    rwa [collected] at values

/-- The fields of a flushed record are the statistics of its entry's series. -/
theorem flushRecord_fields (entry : Sigma fun _ : Bytes => RecordSeries D) (name : Bytes) (value : FieldValue D) :
    (flushRecord order entry).GetField name = some value ↔
      ∃ series ∈ entry.2.field_values.entries, ⟨name, value⟩ ∈ statFields series.1 series.2 := by
  have distinct := statFields_nodup _ ((order.fields entry.1).nodup_visit entry.2.field_values)
  rw [Record.GetField, flushRecord, AList.lookup_foldl_insert distinct]
  simp only [AList.lookup_empty, reduceCtorEq, and_false, or_false, List.mem_flatMap, Traversal.mem_visit]

theorem mem_flush_records {rec : Record D} :
    rec ∈ ((window merger arrivals).Flush order).1.flatMap DataBatch.records ↔
      ∃ entry ∈ (window merger arrivals).record_buffer_.entries, flushRecord order entry = rec := by
  rw [flush_records, List.mem_map]
  simp only [Traversal.mem_visit]

omit [Double D] in
theorem makeRecordKey_congr {first second : Record D} (same : first.labels = second.labels) :
    MakeRecordKey first = MakeRecordKey second := by
  rw [MakeRecordKey, same, MakeRecordKey]

/-- Entries with the same labels are the same entry, since a key is rendered from labels. -/
theorem entry_of_labels {first second : Sigma fun _ : Bytes => RecordSeries D}
    (left : first ∈ (window merger arrivals).record_buffer_.entries)
    (right : second ∈ (window merger arrivals).record_buffer_.entries) (same : first.2.labels = second.2.labels) :
    first = second := by
  obtain ⟨⟨one, _, oneKey, oneLabels⟩, _⟩ := record_entry merger arrivals left
  obtain ⟨⟨two, _, twoKey, twoLabels⟩, _⟩ := record_entry merger arrivals right
  refine AList.entry_ext left right ?_
  rw [← oneKey, ← twoKey]
  exact makeRecordKey_congr (oneLabels.trans (same.trans twoLabels.symm))

/-- No two records of a flush carry the same labels. -/
theorem flushed_labels_nodup :
    ((((window merger arrivals).Flush order).1.flatMap DataBatch.records).map Record.labels).Nodup := by
  rw [flush_records, List.map_map]
  refine List.Nodup.map_on ?_ (List.Nodup.of_map _ (order.records.nodup_visit _))
  intro first left second right same
  exact entry_of_labels merger arrivals (order.records.mem_visit.mp left) (order.records.mem_visit.mp right) same

variable {merger arrivals}

/-- The records with an entry's key are those with its labels, where keys distinguish. -/
theorem values_of_entry (distinguish : KeysDistinguish (addedRecords merger arrivals))
    {entry : Sigma fun _ : Bytes => RecordSeries D}
    (member : entry ∈ (window merger arrivals).record_buffer_.entries) (fname : Bytes) :
    entry.2.field_values.lookup fname = stored (valuesOf (addedRecords merger arrivals) entry.2.labels fname) := by
  obtain ⟨⟨one, inside, key, labels⟩, values⟩ := record_entry merger arrivals member
  rw [values, groupValues, valuesOf]
  congr 2
  refine List.filter_congr fun rec added => decide_eq_decide.mpr ?_
  rw [← key, ← labels]
  exact ⟨distinguish rec added one inside, makeRecordKey_congr⟩

theorem flushed_fields (distinguish : KeysDistinguish (addedRecords merger arrivals)) {rec : Record D}
    (member : rec ∈ ((window merger arrivals).Flush order).1.flatMap DataBatch.records) (name : Bytes)
    (value : FieldValue D) :
    rec.GetField name = some value ↔
      ∃ fname, ⟨name, value⟩ ∈ statFields fname (valuesOf (addedRecords merger arrivals) rec.labels fname) := by
  obtain ⟨entry, inside, rfl⟩ := (mem_flush_records merger arrivals order).mp member
  have values := values_of_entry distinguish inside
  rw [flushRecord_fields]
  constructor
  · rintro ⟨⟨fname, held⟩, kept, set⟩
    have found := AList.mem_lookup_iff.mpr kept
    rw [Option.mem_def, values, stored] at found
    split_ifs at found with empty
    exact ⟨fname, by rwa [← Option.some.inj found] at set⟩
  · rintro ⟨fname, set⟩
    have filled : ¬ (valuesOf (addedRecords merger arrivals) entry.2.labels fname).isEmpty := by
      intro empty
      rw [show (flushRecord order entry).labels = entry.2.labels from rfl, statFields, if_pos empty] at set
      exact List.not_mem_nil set
    refine ⟨⟨fname, _⟩, AList.mem_lookup_iff.mp ?_, set⟩
    rw [Option.mem_def, values, stored, if_neg filled]
    rfl

/-- A flush is exact for the records of its window exactly when their keys distinguish them. -/
theorem exact_iff_keysDistinguish : Exact (addedRecords merger arrivals)
    (((window merger arrivals).Flush order).1.flatMap DataBatch.records) ↔
      KeysDistinguish (addedRecords merger arrivals) := by
  constructor
  · intro exact first left second right same
    obtain ⟨_, oneFlushed, oneLabels⟩ := (exact.carried first.labels).mpr ⟨first, left, rfl⟩
    obtain ⟨_, twoFlushed, twoLabels⟩ := (exact.carried second.labels).mpr ⟨second, right, rfl⟩
    obtain ⟨oneEntry, oneInside, rfl⟩ := (mem_flush_records merger arrivals order).mp oneFlushed
    obtain ⟨twoEntry, twoInside, rfl⟩ := (mem_flush_records merger arrivals order).mp twoFlushed
    obtain ⟨⟨one, _, oneKey, oneHeld⟩, _⟩ := record_entry merger arrivals oneInside
    obtain ⟨⟨two, _, twoKey, twoHeld⟩, _⟩ := record_entry merger arrivals twoInside
    have keys : oneEntry.1 = twoEntry.1 := by
      rw [← oneKey, ← twoKey, makeRecordKey_congr (oneHeld.trans oneLabels), same]
      exact (makeRecordKey_congr (twoHeld.trans twoLabels)).symm
    rw [← oneLabels, ← twoLabels, AList.entry_ext oneInside twoInside keys]
  · intro distinguish
    refine ⟨flushed_labels_nodup merger arrivals order, fun labels => ⟨?_, ?_⟩, ?_, ?_⟩
    · rintro ⟨_, flushed, rfl⟩
      obtain ⟨entry, inside, rfl⟩ := (mem_flush_records merger arrivals order).mp flushed
      obtain ⟨⟨one, added, _, held⟩, _⟩ := record_entry merger arrivals inside
      exact ⟨one, added, held⟩
    · rintro ⟨rec, added, rfl⟩
      obtain ⟨entry, inside, key⟩ := AList.exists_entry_of_mem MakeRecordKey addRecord added
      obtain ⟨⟨one, oneAdded, oneKey, held⟩, _⟩ := record_entry merger arrivals inside
      refine ⟨_, (mem_flush_records merger arrivals order).mpr ⟨entry, inside, rfl⟩, held.symm.trans ?_⟩
      exact distinguish one oneAdded rec added (oneKey.trans key)
    · intro rec flushed name value
      exact flushed_fields order distinguish flushed name value
    · intro rec flushed fname
      refine Option.ext fun value => (flushed_fields order distinguish flushed _ value).trans ?_
      have own : (∃ other, ⟨fname ++ countSuffix, value⟩ ∈
          statFields other (valuesOf (addedRecords merger arrivals) rec.labels other)) ↔
          ⟨fname ++ countSuffix, value⟩ ∈ statFields fname (valuesOf (addedRecords merger arrivals) rec.labels fname) := by
        refine ⟨fun ⟨other, set⟩ => ?_, fun set => ⟨fname, set⟩⟩
        obtain ⟨suffix, listed, names⟩ := statFields_key set
        obtain ⟨rfl, _⟩ := suffix_cut (by decide) listed names
        exact set
      rw [own, mem_statFields_count]
      split_ifs with empty
      · simp [empty]
      · simp [empty, eq_comm]

end Window

/-- **When metrics are aggregated exactly.** In a run, every flush gives each label list of its window one
record with the statistics of its own values, and no other record, exactly when no two records of an
ended window with different labels are rendered to the same key. -/
theorem series_exact_iff (merger : StackMergerProcessor) (operations : List (Operation D)) :
    (∀ w ∈ (Session.run merger operations).flushed, Exact (addedRecords merger w.arrivals) w.records) ↔
      ∀ w ∈ (Session.run merger operations).flushed, KeysDistinguish (addedRecords merger w.arrivals) := by
  refine forall₂_congr fun w member => ?_
  obtain ⟨order, batches⟩ := (Session.run_recorded merger operations).flushed w member
  rw [Window.records, batches]
  exact exact_iff_keysDistinguish order

/-! ## Labels that the key tells apart -/

/-- Labels in which a key's `=` and a value's `;` come first as delimiters. -/
def Plain (labels : List Label) : Prop := ∀ l ∈ labels, 0x3D ∉ l.key ∧ 0x3B ∉ l.value

omit [Double D] in
/-- Plain labels are read back from their rendering. -/
theorem plain_labels_injective {first second : Record D} (left : Plain first.labels) (right : Plain second.labels)
    (same : MakeRecordKey first = MakeRecordKey second) : first.labels = second.labels := by
  unfold MakeRecordKey at same
  generalize first.labels = one at *
  generalize second.labels = two at *
  induction one generalizing two with
  | nil =>
    cases two with
    | nil => rfl
    | cons l rest => simp at same
  | cons l rest ih =>
    cases two with
    | nil => simp at same
    | cons r more =>
      simp only [List.flatMap_cons, List.append_assoc, List.cons_append, List.nil_append] at same
      obtain ⟨leftPlain, leftRest⟩ := List.forall_mem_cons.mp left
      obtain ⟨rightPlain, rightRest⟩ := List.forall_mem_cons.mp right
      obtain ⟨keys, afterKey⟩ := Delimited.cut leftPlain.1 rightPlain.1 same
      obtain ⟨values, afterValue⟩ := Delimited.cut leftPlain.2 rightPlain.2 afterKey
      rw [ih leftRest more rightRest (by simpa using afterValue), Label.ext keys values]

omit [Double D] in
/-- Windows of plain labels are aggregated exactly. -/
theorem keysDistinguish_of_plain {records : List (Record D)} (plain : ∀ rec ∈ records, Plain rec.labels) :
    KeysDistinguish records :=
  fun first left second right => plain_labels_injective (plain first left) (plain second right)

/-- One metric under the label `a`, whose value looks like a label, and one under the labels `a` and `b`. -/
def clashing : DataBatch ℚ :=
  { type := .kMetrics
    records := [
      ⟨1, [⟨[0x61], [0x31, 0x3B, 0x62, 0x3D, 0x32]⟩], AList.singleton [0x76] (.double 10)⟩,
      ⟨2, [⟨[0x61], [0x31]⟩, ⟨[0x62], [0x32]⟩], AList.singleton [0x76] (.double 20)⟩] }

/-- Both are counted in one record, which carries the second's labels. -/
theorem clashing_mixed : ∃ w ∈ (Session.run {} [.arrive (.add (some clashing)), .flush (.listed ℚ 9)]).flushed,
    (w.records.map fun rec => (rec.labels, rec.GetField ([0x76] ++ countSuffix))) =
      [([⟨[0x61], [0x31]⟩, ⟨[0x62], [0x32]⟩], some (.uint64 2))] ∧
    ¬ Exact (addedRecords {} w.arrivals) w.records := by
  refine ⟨⟨[.add (some clashing)], _⟩, List.mem_cons_self .., by decide, fun exact => ?_⟩
  obtain ⟨rec, flushed, labels⟩ := (exact.carried [⟨[0x61], [0x31, 0x3B, 0x62, 0x3D, 0x32]⟩]).mpr
    ⟨_, List.mem_cons_self .., rfl⟩
  obtain rfl := List.mem_singleton.mp flushed
  exact absurd labels (by decide)

end Illuminator
