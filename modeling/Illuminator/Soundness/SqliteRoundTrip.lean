import Illuminator.Model.SqliteQuery
import Illuminator.Soundness.SqliteAtomicity
import Illuminator.ToMathlib.Gather
import Mathlib.Data.List.Perm.Basic
import Mathlib.Data.List.TakeWhile
import Mathlib.Data.UInt
import Mathlib.Order.Basic

/-! # Records written and read back

A record becomes two JSON objects, and the library reads each back as it was written, except that an
integer that is not negative comes back unsigned. The reader asks for an integer first, which an unsigned
number is as well, and so makes an `int64` of every integer. Labels and the other fields come back as they
were; a `uint64` field never does.
-/

namespace Illuminator

open Transactions

namespace Json

variable {D : Type}

/-- What a number is after it was written and parsed: an integer literal without a sign is unsigned. -/
def Scalar.reparsed : Scalar D → Scalar D
  | .number_integer i => if 0 ≤ i then .number_unsigned i.toUInt64 else .number_integer i
  | other => other

/-- Valid strings and finite numbers. -/
def Scalar.Portable (isfinite : D → Prop) : Scalar D → Prop
  | .string s => ValidUtf8 s
  | .number_float d => isfinite d
  | _ => True

/-- The library's documented behaviour: a text that `dump` makes has no NUL, since control characters are
escaped, and parsing the text of an object gives its members back. -/
structure Library.Documented (isfinite : D → Prop) (json : Json.Library D) : Prop where
  escapes : ∀ j text, json.dump j = some text → 0 ∉ text
  reads : ∀ (members : Object D) (text : Bytes), (members.map Prod.fst).Pairwise (· < ·) →
    (∀ entry ∈ members, ValidUtf8 entry.1 ∧ entry.2.Portable isfinite) →
    json.dump (.object members) = some text →
    json.parse text = some (.object (members.map fun entry => (entry.1, entry.2.reparsed)))

theorem Object.keys_set (key : Bytes) (value : Scalar D) (j : Object D) (other : Bytes) :
    other ∈ (j.set key value).map Prod.fst ↔ other = key ∨ other ∈ j.map Prod.fst := by
  induction j with
  | nil => simp [Object.set]
  | cons entry rest ih =>
    obtain ⟨k, v⟩ := entry
    unfold Object.set
    split_ifs with same less
    · subst same
      simp
    · simp
    · simp only [List.map_cons, List.mem_cons, ih]
      tauto

/-- Members stay in ascending order of their keys. -/
theorem Object.set_ascending (key : Bytes) (value : Scalar D) {j : Object D}
    (ascending : (j.map Prod.fst).Pairwise (· < ·)) : ((j.set key value).map Prod.fst).Pairwise (· < ·) := by
  induction j with
  | nil => exact List.pairwise_singleton ..
  | cons entry rest ih =>
    obtain ⟨k, v⟩ := entry
    obtain ⟨least, later⟩ := List.pairwise_cons.mp ascending
    unfold Object.set
    split_ifs with same less
    · subst same
      exact ascending
    · refine List.pairwise_cons.mpr ⟨?_, ascending⟩
      intro other member
      rcases List.mem_cons.mp member with rfl | after
      · exact less
      · exact List.lt_trans less (least other after)
    · refine List.pairwise_cons.mpr ⟨?_, ih later⟩
      intro other member
      rcases (Object.keys_set key value rest other).mp member with rfl | after
      · by_contra notLess
        exact same (List.le_antisymm notLess less)
      · exact least other after

/-- A new member joins the others. -/
theorem Object.set_perm {key : Bytes} (value : Scalar D) {j : Object D} (fresh : key ∉ j.map Prod.fst) :
    (j.set key value).Perm ((key, value) :: j) := by
  induction j with
  | nil => exact .refl _
  | cons entry rest ih =>
    obtain ⟨k, v⟩ := entry
    rw [List.map_cons, List.mem_cons, not_or] at fresh
    unfold Object.set
    rw [if_neg fresh.1]
    split_ifs with less
    · exact .refl _
    · exact ((ih fresh.2).cons _).trans (.swap ..)

/-- Members with distinct keys, set one after another, in ascending order. -/
theorem Object.setEach {X : Type} (key : X → Bytes) (value : X → Scalar D) (items : List X) (j : Object D)
    (ascending : (j.map Prod.fst).Pairwise (· < ·)) (distinct : (items.map key).Nodup)
    (fresh : ∀ x ∈ items, key x ∉ j.map Prod.fst) :
    ((items.foldl (fun j x => j.set (key x) (value x)) j).map Prod.fst).Pairwise (· < ·) ∧
      (items.foldl (fun j x => j.set (key x) (value x)) j).Perm (items.map (fun x => (key x, value x)) ++ j) := by
  induction items generalizing j with
  | nil => exact ⟨ascending, .refl _⟩
  | cons x rest ih =>
    obtain ⟨first, later⟩ := List.nodup_cons.mp distinct
    obtain ⟨here, others⟩ := List.forall_mem_cons.mp fresh
    obtain ⟨sorted, perm⟩ := ih (j.set (key x) (value x)) (Object.set_ascending _ _ ascending) later (by
      intro y member inside
      rcases (Object.keys_set _ _ _ _).mp inside with same | before
      · exact first (List.mem_map.mpr ⟨y, member, same⟩)
      · exact others y member before)
    refine ⟨sorted, perm.trans ?_⟩
    exact ((Object.set_perm (value x) here).append_left _).trans List.perm_middle

end Json

namespace SqliteBackend

variable {D : Type}

/-- A record whose strings are UTF-8, whose labels' keys are distinct, and whose fields have values, the
numbers among them finite. -/
structure Portable (isfinite : D → Prop) (rec : Record D) : Prop where
  labels : ∀ l ∈ rec.labels, ValidUtf8 l.key ∧ ValidUtf8 l.value
  distinct : (rec.labels.map Label.key).Nodup
  fields : ∀ entry ∈ rec.fields.entries, ValidUtf8 entry.1 ∧ entry.2 ≠ .monostate ∧
    (fieldScalar entry.2).Portable isfinite

/-- No field is a `uint64`. -/
def NoUnsigned (rec : Record D) : Prop := ∀ name u, rec.GetField name ≠ some (.uint64 u)

/-- The same time, the same labels in some order, and the same fields. -/
structure SameRecord (written returned : Record D) : Prop where
  timestamp : TimestampToNanos returned.timestamp = TimestampToNanos written.timestamp
  labels : returned.labels.Perm written.labels
  fields : ∀ name, returned.GetField name = written.GetField name

/-- One returned record for each written one. -/
def RoundTrip (written returned : List (Record D)) : Prop :=
  ∃ order : List (Record D), order.Perm written ∧ List.Forall₂ SameRecord order returned

/-- The request's range and limit cover the records. -/
structure Covers (req : QueryRequest) (records : List (Record D)) : Prop where
  range : ∀ rec ∈ records,
    (0 < req.time_range.start_ns → (req.time_range.start_ns.toNat : ℤ) ≤ rec.timestamp.toInt) ∧
      (0 < req.time_range.end_ns → rec.timestamp.toInt ≤ (req.time_range.end_ns.toNat : ℤ))
  limit : records.length ≤ req.limit.toNat

theorem c_str_eq {s : Bytes} (clear : 0 ∉ s) : c_str s = s := by
  refine List.takeWhile_eq_self_iff.mpr fun byte member => bne_iff_ne.mpr ?_
  rintro rfl
  exact clear member

/-! ## One record -/

/-- The label that a member of the first object is read as. -/
private def asLabel : Bytes × Json.Scalar D → Label
  | (k, .string v) => ⟨k, v⟩
  | (k, _) => ⟨k, []⟩

private theorem readLabels_eq (labels : List Label) (members : Json.Object D)
    (perm : members.Perm (labels.map fun l => (l.key, .string l.value))) :
    (readLabels (members.map fun entry => (entry.1, entry.2.reparsed))).Perm labels := by
  have strings : ∀ entry ∈ members, ∃ v, entry.2 = .string v := by
    intro entry member
    obtain ⟨l, _, rfl⟩ := List.mem_map.mp (perm.subset member)
    exact ⟨l.value, rfl⟩
  have reads : readLabels (members.map fun entry => (entry.1, entry.2.reparsed)) = members.map asLabel := by
    clear perm
    induction members with
    | nil => rfl
    | cons entry rest ih =>
      obtain ⟨here, others⟩ := List.forall_mem_cons.mp strings
      obtain ⟨k, v⟩ := entry
      obtain ⟨v, rfl⟩ := here
      exact congrArg (List.cons _) (ih others)
  rw [reads]
  have mapped := perm.map asLabel
  rwa [List.map_map, show asLabel ∘ (fun l : Label => (l.key, .string l.value)) = id from rfl, List.map_id] at mapped

/-- A field is read back as it was, unless it was unsigned or had no value. -/
theorem readField_reparsed {value : FieldValue D} (some_ : value ≠ .monostate) (signed : ∀ u, value ≠ .uint64 u) :
    readField (fieldScalar value).reparsed = some value := by
  cases value with
  | monostate => exact absurd rfl some_
  | uint64 u => exact absurd rfl (signed u)
  | int64 i =>
    change readField (if 0 ≤ i then .number_unsigned i.toUInt64 else .number_integer i) = _
    split_ifs
    · rw [readField, Int64.toInt64_toUInt64]
    · rfl
  | bool b => rfl
  | double d => rfl
  | string s => rfl

/-- The entries that the members are read as. -/
private def readEntries (members : Json.Object D) : List (Sigma fun _ : Bytes => FieldValue D) :=
  members.filterMap fun entry => (readField entry.2).map (Sigma.mk entry.1)

private theorem foldl_setRead (members : Json.Object D) (fields : AList fun _ : Bytes => FieldValue D) :
    members.foldl setRead fields =
      (readEntries members).foldl (fun fields entry => fields.insert entry.1 entry.2) fields := by
  induction members generalizing fields with
  | nil => rfl
  | cons entry rest ih =>
    rw [List.foldl_cons, ih]
    simp only [setRead, readEntries, List.filterMap_cons]
    cases readField entry.2 <;> rfl

/-- No field is read as a `uint64`. -/
theorem readFields_signed (members : Json.Object D) (name : Bytes) (u : UInt64) :
    (readFields members).lookup name ≠ some (.uint64 u) := by
  have unread (v : Json.Scalar D) : readField v ≠ some (.uint64 u) := by
    cases v <;> nofun
  have turns (fields : AList fun _ : Bytes => FieldValue D) (clear : fields.lookup name ≠ some (.uint64 u)) :
      (members.foldl setRead fields).lookup name ≠ some (.uint64 u) := by
    induction members generalizing fields with
    | nil => exact clear
    | cons entry rest ih =>
      apply ih
      unfold setRead
      cases read : readField entry.2 with
      | none => exact clear
      | some value =>
        by_cases same : name = entry.1
        · rw [same, AList.lookup_insert, ← read]
          exact unread entry.2
        · rwa [AList.lookup_insert_ne same]
  exact turns ∅ nofun

private theorem lookup_readFields {fields : AList fun _ : Bytes => FieldValue D} {members : Json.Object D}
    (perm : members.Perm (fields.entries.map fun entry => (entry.1, fieldScalar entry.2)))
    (valued : ∀ entry ∈ fields.entries, entry.2 ≠ .monostate)
    (signed : ∀ entry ∈ fields.entries, ∀ u, entry.2 ≠ .uint64 u) (name : Bytes) :
    (readFields (members.map fun entry => (entry.1, entry.2.reparsed))).lookup name = fields.lookup name := by
  have entries : (readEntries (members.map fun entry => (entry.1, entry.2.reparsed))).Perm fields.entries := by
    have mapped : (readEntries (members.map fun entry => (entry.1, entry.2.reparsed))).Perm _ :=
      (perm.map _).filterMap _
    refine mapped.trans (.of_eq ?_)
    rw [List.map_map, List.filterMap_map]
    refine (List.filterMap_congr fun entry member => ?_).trans List.filterMap_some
    change (readField (fieldScalar entry.2).reparsed).map (Sigma.mk entry.1) = some entry
    rw [readField_reparsed (valued entry member) (signed entry member)]
    rfl
  have keys : ((readEntries (members.map fun entry => (entry.1, entry.2.reparsed))).map Sigma.fst).Nodup :=
    (entries.map Sigma.fst).nodup_iff.mpr fields.keys_nodup
  apply Option.ext
  intro value
  rw [readFields, foldl_setRead]
  refine (AList.lookup_foldl_insert keys ∅ name value).trans ?_
  rw [entries.mem_iff, AList.lookup_empty]
  simp only [reduceCtorEq, and_false, or_false]
  exact AList.mem_lookup_iff.symm

/-- The record that a row is read as has the fields and labels of the record it was made of, when none of
its fields is unsigned. -/
theorem readRecord_same {isfinite : D → Prop} {json : Json.Library D} (documented : json.Documented isfinite)
    {pipeline_name : Bytes} {rec : Record D} (portable : Portable isfinite rec) (signed : NoUnsigned rec)
    {row : RecordRow} (made : recordRow json pipeline_name rec = some row) : SameRecord rec (readRecord json row) := by
  obtain ⟨labels, labelled, made⟩ := Option.bind_eq_some_iff.mp made
  obtain ⟨fields, fielded, made⟩ := Option.bind_eq_some_iff.mp made
  cases made
  obtain ⟨labelsUp, labelsPerm⟩ := Json.Object.setEach (D := D) Label.key (fun l => .string l.value) rec.labels []
    .nil portable.distinct (fun _ _ => List.not_mem_nil)
  obtain ⟨fieldsUp, fieldsPerm⟩ := Json.Object.setEach Sigma.fst (fun entry => fieldScalar entry.2)
    rec.fields.entries [] .nil rec.fields.keys_nodup (fun _ _ => List.not_mem_nil)
  rw [List.append_nil] at labelsPerm fieldsPerm
  have labelsRead := documented.reads _ labels labelsUp (by
    intro entry member
    obtain ⟨l, inside, rfl⟩ := List.mem_map.mp (labelsPerm.subset member)
    exact portable.labels l inside) labelled
  have fieldsRead := documented.reads _ fields fieldsUp (by
    intro entry member
    obtain ⟨field, inside, rfl⟩ := List.mem_map.mp (fieldsPerm.subset member)
    exact ⟨(portable.fields field inside).1, (portable.fields field inside).2.2⟩) fielded
  refine ⟨?_, ?_, fun name => ?_⟩
  · change (TimestampToNanos rec.timestamp).toInt64.toUInt64 = _
    rw [UInt64.toUInt64_toInt64]
  · change (readLabels (storedMembers json (c_str labels))).Perm rec.labels
    rw [c_str_eq (documented.escapes _ _ labelled), storedMembers, labelsRead]
    exact readLabels_eq rec.labels _ labelsPerm
  · change (readFields (storedMembers json (c_str fields))).lookup name = _
    rw [c_str_eq (documented.escapes _ _ fielded), storedMembers, fieldsRead]
    refine lookup_readFields fieldsPerm (fun entry inside => (portable.fields entry inside).2.1) ?_ name
    rintro ⟨field, value⟩ inside u rfl
    exact signed field u (AList.mem_lookup_iff.mpr inside)

/-! ## A write and a query -/

theorem current_stepEach (c : Connection Tables) (changes : List (Tables → Tables)) :
    current (c.stepEach changes) = applyEach changes (current c) := by
  obtain ⟨committed, _ | version, statements⟩ := c
  · rw [Connection.stepEach_autocommit rfl]
    rfl
  · rw [Connection.stepEach_working rfl]
    rfl

theorem current_of_commit {c : Connection Tables} {outcome : Outcome} {left : Connection Tables}
    (commits : c.commit outcome = (left, true)) : current left = current c := by
  obtain ⟨committed, _ | version, statements⟩ := c
  · cases commits
  · cases outcome with
    | done =>
      cases commits
      rfl
    | failed => cases commits
    | rolledBack => cases commits

private theorem current_begun (c : Connection Tables) (refused : Bool) :
    current ((c.start refused).prepare true) = current c := by
  obtain ⟨committed, _ | version, statements⟩ := c
  · cases refused <;> rfl
  · rfl

/-- A write that returns `Ok` has made every change. -/
theorem writeBatch_ok {X : Type} {insert : X → Option (Tables → Tables)} {context : String} {engine : Engine}
    {c left : Connection Tables} {items : List X}
    (written : writeBatch context insert engine (some c) items = (some left, some .Ok)) :
    ∃ changes, items.mapM insert = some changes ∧ current left = applyEach changes (current c) := by
  have distinct (text : String) : some (Status.Error .kInternal text) ≠ some .Ok := nofun
  unfold writeBatch at written
  simp only at written
  split_ifs at written with empty prepared
  · cases written
    rw [List.isEmpty_iff.mp empty]
    exact ⟨[], rfl, rfl⟩
  · rw [prepared] at written
    rcases insertEach_cases insert engine.steps 0 items ((c.start engine.refused).prepare true) with
      ⟨changes, made, _, ends⟩ | ⟨_, _, _, _, _, _, _, _, _, _, ends⟩ | ⟨_, _, _, _, _, _, _, _, ends⟩
    · rw [ends] at written
      simp only at written
      split at written
      · next commits =>
        cases written
        refine ⟨changes, made, (current_of_commit commits).trans ?_⟩
        change current (((c.start engine.refused).prepare true).stepEach changes) = _
        rw [current_stepEach, current_begun]
      · exact absurd (Prod.mk.inj written).2 (distinct _)
    · rw [ends] at written
      exact absurd (Prod.mk.inj written).2 (distinct _)
    · rw [ends] at written
      cases written
  · exact absurd (Prod.mk.inj written).2 (distinct _)

/-- The changes that insert records append a row for each. -/
theorem rows_of_changes {json : Json.Library D} {pipeline_name : Bytes} {records : List (Record D)}
    {changes : List (Tables → Tables)} (made : records.mapM (insertRecord json pipeline_name) = some changes) :
    ∃ rows, List.Forall₂ (fun rec row => recordRow json pipeline_name rec = some row) records rows ∧
      ∀ t, (applyEach changes t).records = t.records ++ rows := by
  induction records generalizing changes with
  | nil =>
    cases made
    exact ⟨[], .nil, fun t => (List.append_nil _).symm⟩
  | cons rec rest ih =>
    rw [List.mapM_cons] at made
    obtain ⟨change, first, made⟩ := Option.bind_eq_some_iff.mp made
    obtain ⟨others, later, made⟩ := Option.bind_eq_some_iff.mp made
    cases made
    obtain ⟨row, same, rfl⟩ := Option.map_eq_some_iff.mp first
    obtain ⟨rows, each, appended⟩ := ih later
    refine ⟨row :: rows, .cons same each, fun t => ?_⟩
    change (applyEach others _).records = _
    rw [appended, List.append_assoc]
    rfl

private theorem row_of_record {json : Json.Library D} {pipeline_name : Bytes} {rec : Record D} {row : RecordRow}
    (made : recordRow json pipeline_name rec = some row) :
    row.pipeline = c_str pipeline_name ∧ row.timestamp_ns = rec.timestamp := by
  obtain ⟨labels, _, made⟩ := Option.bind_eq_some_iff.mp made
  obtain ⟨fields, _, made⟩ := Option.bind_eq_some_iff.mp made
  cases made
  exact ⟨rfl, Int64.toInt64_toUInt64 rec.timestamp⟩

private theorem exists_of_mem {α β : Type} {r : α → β → Prop} {l : List α} {u : List β} (each : List.Forall₂ r l u)
    {a : α} (member : a ∈ l) : ∃ b ∈ u, r a b := by
  induction each with
  | nil => exact absurd member List.not_mem_nil
  | cons related _ ih =>
    rcases List.mem_cons.mp member with rfl | later
    · exact ⟨_, List.mem_cons_self, related⟩
    · obtain ⟨b, inside, other⟩ := ih later
      exact ⟨b, List.mem_cons_of_mem _ inside, other⟩

/-- A covering query selects the rows of the records, in some order. -/
theorem selects_rows {json : Json.Library D} {pipeline_name : Bytes} {records : List (Record D)} {t : Tables}
    {before rows selected : List RecordRow}
    (made : List.Forall₂ (fun rec row => recordRow json pipeline_name rec = some row) records rows)
    (appended : t.records = before ++ rows) (empty : ∀ row ∈ before, row.pipeline ≠ c_str pipeline_name)
    {req : QueryRequest} (asks : req.pipeline_name = pipeline_name) (covers : Covers req records)
    (selects : Selects t req selected) : selected.Perm rows := by
  obtain ⟨order, perm, _, rfl⟩ := selects
  have others : before.filter (fun row => QueryMatches req row) = [] := by
    refine List.filter_eq_nil_iff.mpr fun row member => ?_
    rw [decide_eq_true_eq]
    intro matched
    exact empty row member (by rw [matched.1, asks])
  have mine : rows.filter (fun row => QueryMatches req row) = rows := by
    refine List.filter_eq_self.mpr fun row member => ?_
    obtain ⟨rec, inside, same⟩ := exists_of_mem made.flip member
    obtain ⟨pipeline, timestamp⟩ := row_of_record same
    rw [decide_eq_true_eq, QueryMatches, pipeline, timestamp, asks]
    exact ⟨rfl, covers.range rec inside⟩
  rw [appended, List.filter_append, others, mine, List.nil_append] at perm
  have few : order.length ≤ req.limit.toNat := by
    rw [perm.length_eq, ← made.length_eq]
    exact covers.limit
  rwa [List.take_of_length_le few]

/-- Records written into an empty pipeline come back from a covering query, each as it was, exactly when none
of their fields is a `uint64`. -/
theorem query_round_trip_iff {isfinite : D → Prop} {json : Json.Library D} (documented : json.Documented isfinite)
    (engine : Engine) (c left : Connection Tables) (pipeline_name : Bytes) (records : List (Record D))
    (portable : ∀ rec ∈ records, Portable isfinite rec)
    (empty : ∀ row ∈ (current c).records, row.pipeline ≠ c_str pipeline_name)
    (written : WriteRecords json engine (some c) pipeline_name records = (some left, some .Ok))
    (req : QueryRequest) (asks : req.pipeline_name = pipeline_name) (covers : Covers req records)
    (errmsg : String) (selected : List RecordRow) (selects : Selects (current left) req selected) :
    (∃ result, Query json (some left) true errmsg selected = .ok result ∧ RoundTrip records result.records) ↔
      ∀ rec ∈ records, NoUnsigned rec := by
  obtain ⟨changes, made, after⟩ := writeBatch_ok written
  obtain ⟨rows, each, appended⟩ := rows_of_changes made
  have perm := selects_rows each (by rw [after, appended]) empty asks covers selects
  have returned : Query json (some left) true errmsg selected =
      .ok ⟨selected.map (readRecord json), selected.length⟩ := rfl
  rw [returned]
  constructor
  · rintro ⟨_, same, order, reordered, each⟩ rec member name u field
    cases same
    obtain ⟨_, inside, same⟩ := exists_of_mem each (reordered.symm.subset member)
    obtain ⟨row, _, rfl⟩ := List.mem_map.mp inside
    exact readFields_signed _ name u ((same.fields name).trans field)
  · intro signed
    have faithful := (List.forall₂_and_left _ _).mpr
      ⟨fun rec member => And.intro (portable rec member) (signed rec member), each⟩
    obtain ⟨order, paired, reordered⟩ := List.perm_comp_forall₂ perm faithful.flip
    refine ⟨_, rfl, order, reordered, List.forall₂_map_right_iff.mpr (paired.flip.imp fun rec row both => ?_)⟩
    obtain ⟨⟨whole, plain⟩, made⟩ := both
    exact readRecord_same documented whole plain made

/-- The texts `{"k":"v"}` and `{"n":5}`. -/
def labelText : Bytes := [0x7B, 0x22, 0x6B, 0x22, 0x3A, 0x22, 0x76, 0x22, 0x7D]
def countText : Bytes := [0x7B, 0x22, 0x6E, 0x22, 0x3A, 0x35, 0x7D]

/-- The library on the objects of these two texts, and throwing on all others: the number 5 is written the
same with either type. -/
def countJson : Json.Library ℕ where
  dump j :=
    if j = .object [([0x6B], .string [0x76])] then some labelText
    else if j = .object [([0x6E], .number_integer 5)] ∨ j = .object [([0x6E], .number_unsigned 5)] then some countText
    else none
  parse text :=
    if text = labelText then some (.object [([0x6B], .string [0x76])])
    else if text = countText then some (.object [([0x6E], .number_unsigned 5)])
    else none

theorem countJson_documented (isfinite : ℕ → Prop) : countJson.Documented isfinite where
  escapes j text dumped := by
    unfold countJson at dumped
    simp only at dumped
    split_ifs at dumped <;> cases dumped <;> decide
  reads members text _ _ dumped := by
    unfold countJson at dumped ⊢
    simp only [Json.object.injEq] at dumped ⊢
    split_ifs at dumped with label count
    · cases dumped
      rw [label]
      rfl
    · cases dumped
      rcases count with rfl | rfl <;> rfl

/-- A record with the label `k=v` and the field `n`. -/
def counted (value : FieldValue ℕ) : Record ℕ := ⟨7, [⟨[0x6B], [0x76]⟩], (∅ : AList _).insert [0x6E] value⟩

private theorem counted_portable {value : FieldValue ℕ} (some_ : value ≠ .monostate)
    (number : (fieldScalar value).Portable fun _ => True) : Portable (fun _ => True) (counted value) := by
  have k : ValidUtf8 [0x6B] := ⟨['k'], by decide⟩
  have v : ValidUtf8 [0x76] := ⟨['v'], by decide⟩
  have n : ValidUtf8 [0x6E] := ⟨['n'], by decide⟩
  refine ⟨?_, List.nodup_singleton _, ?_⟩
  · intro l member
    rw [List.mem_singleton.mp member]
    exact ⟨k, v⟩
  · intro entry member
    rw [List.mem_singleton.mp member]
    exact ⟨n, some_, number⟩

/-- The row that is written for either. -/
def countRow : RecordRow := ⟨[], 7, labelText, countText⟩

private theorem countRow_selected : Selects ⟨[countRow], []⟩ ⟨[], {}, 1000, true⟩ [countRow] :=
  ⟨[countRow], .refl _, List.pairwise_singleton .., rfl⟩

/-- A field `uint64` 5 comes back as an `int64`. -/
theorem unsigned_lost :
    countJson.Documented (fun _ => True) ∧ Portable (fun _ => True) (counted (.uint64 5)) ∧
      WriteRecords countJson (working .done) (some emptyTables) [] [counted (.uint64 5)] =
        (some ⟨⟨[countRow], []⟩, none, 0⟩, some .Ok) ∧
      Selects ⟨[countRow], []⟩ ⟨[], {}, 1000, true⟩ [countRow] ∧
      ¬ ∃ result, Query countJson (some ⟨⟨[countRow], []⟩, none, 0⟩) true "" [countRow] = .ok result ∧
        RoundTrip [counted (.uint64 5)] result.records := by
  refine ⟨countJson_documented _, counted_portable nofun trivial, rfl, countRow_selected, ?_⟩
  rintro ⟨_, same, order, reordered, each⟩
  cases same
  obtain ⟨_, inside, same⟩ := exists_of_mem each (reordered.symm.subset (List.mem_singleton_self _))
  obtain ⟨row, _, rfl⟩ := List.mem_map.mp inside
  exact readFields_signed _ [0x6E] 5 (same.fields [0x6E])

/-- A field `int64` 5 comes back as it was. -/
theorem query_round_trip_signed :
    ∃ result, Query countJson (some ⟨⟨[countRow], []⟩, none, 0⟩) true "" [countRow] = .ok result ∧
      RoundTrip [counted (.int64 5)] result.records := by
  refine (query_round_trip_iff (countJson_documented fun _ => True) (working .done) emptyTables
    ⟨⟨[countRow], []⟩, none, 0⟩ [] [counted (.int64 5)] ?_ nofun rfl ⟨[], {}, 1000, true⟩ rfl ⟨?_, by decide⟩ ""
    [countRow] countRow_selected).mpr ?_
  · intro rec member
    rw [List.mem_singleton.mp member]
    exact counted_portable nofun trivial
  · intro rec member
    rw [List.mem_singleton.mp member]
    exact ⟨nofun, nofun⟩
  · intro rec member name u
    rw [List.mem_singleton.mp member]
    change ((∅ : AList fun _ : Bytes => FieldValue ℕ).insert [0x6E] (.int64 5)).lookup name ≠ _
    by_cases same : name = [0x6E]
    · rw [same, AList.lookup_insert]
      nofun
    · rw [AList.lookup_insert_ne same]
      nofun

end SqliteBackend

end Illuminator
