import Illuminator.Model.JsonSerializer
import Illuminator.Standards.JsonText

/-! # The live feed and its data

A batch is sent, and is recovered from what is sent, exactly when the strings that its document shows are
UTF-8. Of several labels with one key the document shows the last. The document has no place for the source
location of a frame.
-/

namespace Illuminator

namespace JsonSerializer

open JsonValue

variable {D : Type} {isfinite : D → Bool}

/-! ## Reading a document -/

def member (key : Bytes) : JsonValue D → Option (JsonValue D)
  | .object members => members.lookup key
  | _ => none

def asUnsigned : JsonValue D → Option ℕ
  | .number_unsigned u => some u.toNat
  | _ => none

def asText : JsonValue D → Option Bytes
  | .string s => some s
  | _ => none

def asArray : JsonValue D → Option (List (JsonValue D))
  | .array elements => some elements
  | _ => none

/-- The text of a member that may be left out. -/
def textOr (fallback : Bytes) (key : Bytes) (v : JsonValue D) : Option Bytes :=
  match member key v with
  | none => some fallback
  | some text => asText text

def frameOf (v : JsonValue D) : Option StackFrame := do
  let address ← (member (ascii "address") v).bind asUnsigned
  let function_name ← textOr [] (ascii "function_name") v
  let file_name ← textOr [] (ascii "file_name") v
  let line_number ← (member (ascii "line_number") v).elim (some 0) asUnsigned
  let module_name ← textOr [] (ascii "module_name") v
  return ⟨UInt64.ofNat address, function_name, file_name, UInt32.ofNat line_number, module_name⟩

def framesOf (key : Bytes) (v : JsonValue D) : Option (List StackFrame) :=
  ((member key v).bind asArray).bind fun elements => elements.mapM frameOf

/-- The value that a field is recovered as. -/
def fieldShown (isfinite : D → Bool) : FieldValue D → JsonValue D
  | .monostate => .null
  | .bool b => .boolean b
  | .int64 i => if 0 ≤ i then .number_unsigned i.toUInt64 else .number_integer i
  | .uint64 u => .number_unsigned u
  | .double d => if isfinite d then .number_float d else .null
  | .string text => .string text

def RecordRecovered (isfinite : D → Bool) (rec : Record D) (v : JsonValue D) : Prop :=
  ∃ fields, member (ascii "fields") v = some (.object fields) ∧
    ∀ key, fields.lookup key = (rec.GetField key).map (fieldShown isfinite)

structure SampleRecovered (s : StackSample) (v : JsonValue D) : Prop where
  pid : (member (ascii "pid") v).bind asUnsigned = some s.pid.toNat
  tid : (member (ascii "tid") v).bind asUnsigned = some s.tid.toNat
  count : (member (ascii "count") v).bind asUnsigned = some s.count.toNat
  comm : (member (ascii "comm") v).bind asText = some s.comm
  kernel_stack : framesOf (ascii "kernel_stack") v = some s.kernel_stack
  user_stack : framesOf (ascii "user_stack") v = some s.user_stack

/-- A document from which the records' fields and the samples of a batch are recovered. -/
structure Recovered (isfinite : D → Bool) (batch : DataBatch D) (v : JsonValue D) : Prop where
  records : ∃ records, (member (ascii "records") v).bind asArray = some records ∧
    List.Forall₂ (RecordRecovered isfinite) batch.records records
  stack_samples : ∃ samples, ((member (ascii "stack_samples") v).elim (some []) asArray) = some samples ∧
    List.Forall₂ SampleRecovered batch.stack_samples samples

/-! ## What is shown -/

/-- The value of the last label with a key. -/
def lastLabel (labels : List Label) (key : Bytes) : Option Bytes :=
  (labels.reverse.map fun l => (l.key, l.value)).lookup key

structure RecordReadable (rec : Record D) : Prop where
  labels : ∀ key value, lastLabel rec.labels key = some value → ValidUtf8 key ∧ ValidUtf8 value
  fields : ∀ key value, rec.GetField key = some value → ValidUtf8 key ∧ ∀ text, value = .string text → ValidUtf8 text

structure FrameReadable (f : StackFrame) : Prop where
  function_name : ValidUtf8 f.function_name
  module_name : ValidUtf8 f.module_name

structure SampleReadable (s : StackSample) : Prop where
  comm : ValidUtf8 s.comm
  kernel_stack : ∀ f ∈ s.kernel_stack, FrameReadable f
  user_stack : ∀ f ∈ s.user_stack, FrameReadable f

/-- The strings that a batch's document shows are UTF-8. -/
structure Readable (batch : DataBatch D) (pipeline : Bytes) : Prop where
  pipeline : ValidUtf8 pipeline
  records : ∀ rec ∈ batch.records, RecordReadable rec
  stack_samples : ∀ s ∈ batch.stack_samples, SampleReadable s

/-- No frame has a source location. -/
def Unlocated (batch : DataBatch D) : Prop :=
  ∀ s ∈ batch.stack_samples, ∀ f ∈ s.kernel_stack ++ s.user_stack, f.file_name = [] ∧ f.line_number = 0

/-! ## Which documents are written -/

/-- The keys of a frame's object are distinct. -/
private theorem frame_distinct (f : StackFrame) :
    ((([(ascii "address", JsonValue.number_unsigned f.address)] ++
      (if f.function_name.isEmpty then [] else [(ascii "function_name", .string f.function_name)]) ++
      (if f.module_name.isEmpty then [] else [(ascii "module_name", .string f.module_name)])) :
        Members D).map Prod.fst).Nodup := by
  split_ifs
  · change [ascii "address"].Nodup
    decide
  · change [ascii "address", ascii "module_name"].Nodup
    decide
  · change [ascii "address", ascii "function_name"].Nodup
    decide
  · change [ascii "address", ascii "function_name", ascii "module_name"].Nodup
    decide

private theorem utf8_frame {f : StackFrame} : (StackFrameToJson f : JsonValue D).Utf8 ↔ FrameReadable f := by
  have address : ValidUtf8 (ascii "address") := by decide
  have function_name : ValidUtf8 (ascii "function_name") := by decide
  have module_name : ValidUtf8 (ascii "module_name") := by decide
  have empty : ValidUtf8 [] := by decide
  rw [StackFrameToJson, utf8_setAll_of_nodup (frame_distinct f)]
  constructor
  · intro each
    constructor
    · cases shown : f.function_name.isEmpty with
      | true => rw [List.isEmpty_iff.mp shown]; exact empty
      | false => exact utf8_string.mp (each (ascii "function_name", .string f.function_name) (by simp [shown])).2
    · cases shown : f.module_name.isEmpty with
      | true => rw [List.isEmpty_iff.mp shown]; exact empty
      | false => exact utf8_string.mp (each (ascii "module_name", .string f.module_name) (by simp [shown])).2
  · rintro ⟨functionValid, moduleValid⟩
    split_ifs <;> simp [address, function_name, module_name, functionValid, moduleValid]

private theorem utf8_frames {frames : List StackFrame} :
    (StackFramesToJson frames : JsonValue D).Utf8 ↔ ∀ f ∈ frames, FrameReadable f := by
  rw [StackFramesToJson, utf8_array, List.forall_mem_map]
  exact forall_congr' fun f => imp_congr_right fun _ => utf8_frame

private theorem utf8_field {value : FieldValue D} :
    (FieldValueToJson value).Utf8 ↔ ∀ text, value = .string text → ValidUtf8 text := by
  cases value with
  | string text =>
    rw [FieldValueToJson, utf8_string]
    refine ⟨fun valid other same => ?_, fun each => each text rfl⟩
    cases same
    exact valid
  | _ =>
    refine ⟨fun _ text same => ?_, fun _ => List.forall_mem_nil _⟩
    cases same

private theorem lookup_strings (labels : List Label) (key : Bytes) :
    (labels.map fun l => (l.key, (JsonValue.string l.value : JsonValue D))).lookup key =
      ((labels.map fun l => (l.key, l.value)).lookup key).map JsonValue.string := by
  induction labels with
  | nil => rfl
  | cons l rest ih =>
    rw [List.map_cons, List.map_cons, List.lookup_cons, List.lookup_cons, ih]
    cases key == l.key <;> rfl

private theorem utf8_labels {labels : List Label} : (JsonValue.object (labelsToJson labels) : JsonValue D).Utf8 ↔
    ∀ key value, lastLabel labels key = some value → ValidUtf8 key ∧ ValidUtf8 value := by
  rw [labelsToJson, utf8_setAll]
  simp only [← List.map_reverse, lookup_strings, lastLabel]
  constructor
  · intro each key value last
    have both := each key (.string value) (by rw [last]; rfl)
    exact ⟨both.1, utf8_string.mp both.2⟩
  · intro each key v shown
    obtain ⟨value, last, rfl⟩ := Option.map_eq_some_iff.mp shown
    exact ⟨(each key value last).1, utf8_string.mpr (each key value last).2⟩

private theorem fields_distinct (fields : AList fun _ : Bytes => FieldValue D) :
    ((fields.entries.map fun field => (field.1, FieldValueToJson field.2)).map Prod.fst).Nodup := by
  rw [List.map_map]
  exact fields.keys_nodup

private theorem utf8_fields {rec : Record D} : (JsonValue.object (fieldsToJson rec.fields)).Utf8 ↔
    ∀ key value, rec.GetField key = some value → ValidUtf8 key ∧ ∀ text, value = .string text → ValidUtf8 text := by
  rw [fieldsToJson, utf8_setAll_of_nodup (fields_distinct rec.fields), List.forall_mem_map]
  constructor
  · intro each key value found
    have both := each ⟨key, value⟩ (AList.mem_lookup_iff.mp found)
    exact ⟨both.1, utf8_field.mp both.2⟩
  · rintro each ⟨key, value⟩ inside
    have both := each key value (AList.mem_lookup_iff.mpr inside)
    exact ⟨both.1, utf8_field.mpr both.2⟩

private theorem record_distinct (rec : Record D) :
    (([(ascii "labels", JsonValue.object (labelsToJson rec.labels)),
      (ascii "fields", .object (fieldsToJson rec.fields))] : Members D).map Prod.fst).Nodup := by
  change [ascii "labels", ascii "fields"].Nodup
  decide

private theorem utf8_record {rec : Record D} : (RecordToJson rec).Utf8 ↔ RecordReadable rec := by
  have labels : ValidUtf8 (ascii "labels") := by decide
  have fields : ValidUtf8 (ascii "fields") := by decide
  rw [RecordToJson, utf8_setAll_of_nodup (record_distinct rec), List.forall_mem_cons, List.forall_mem_singleton, utf8_labels,
    utf8_fields]
  exact ⟨fun each => ⟨each.1.2, each.2.2⟩, fun readable => ⟨⟨labels, readable.labels⟩, fields, readable.fields⟩⟩

/-- The keys of a sample's object are distinct. -/
private theorem sample_distinct (s : StackSample) :
    ((([(ascii "pid", .number_unsigned s.pid.toUInt64),
      (ascii "tid", .number_unsigned s.tid.toUInt64), (ascii "cpu", .number_unsigned s.cpu.toUInt64),
      (ascii "count", .number_unsigned s.count), (ascii "comm", .string s.comm),
      (ascii "type", .number_integer (SampleType.toInt s.sample_type))] ++
    (if s.duration_ns > 0 then [(ascii "duration_ns", .number_unsigned s.duration_ns)] else []) ++
    [(ascii "kernel_stack", StackFramesToJson s.kernel_stack), (ascii "user_stack", StackFramesToJson s.user_stack)]) :
      Members D).map Prod.fst).Nodup := by
  split_ifs
  · change [ascii "pid", ascii "tid", ascii "cpu", ascii "count", ascii "comm", ascii "type", ascii "duration_ns",
      ascii "kernel_stack", ascii "user_stack"].Nodup
    decide
  · change [ascii "pid", ascii "tid", ascii "cpu", ascii "count", ascii "comm", ascii "type", ascii "kernel_stack",
      ascii "user_stack"].Nodup
    decide

private theorem utf8_sample {s : StackSample} : (StackSampleToJson s : JsonValue D).Utf8 ↔ SampleReadable s := by
  have keys : ∀ key ∈ [ascii "pid", ascii "tid", ascii "cpu", ascii "count", ascii "comm", ascii "type",
      ascii "duration_ns", ascii "kernel_stack", ascii "user_stack"], ValidUtf8 key := by decide
  simp only [List.forall_mem_cons] at keys
  rw [StackSampleToJson, utf8_setAll_of_nodup (sample_distinct s)]
  constructor
  · intro each
    constructor
    · exact utf8_string.mp (each (ascii "comm", .string s.comm) (by simp)).2
    · exact utf8_frames.mp (each (ascii "kernel_stack", StackFramesToJson s.kernel_stack) (by simp)).2
    · exact utf8_frames.mp (each (ascii "user_stack", StackFramesToJson s.user_stack) (by simp)).2
  · rintro ⟨comm, kernel_stack, user_stack⟩
    have kernel := (utf8_frames (D := D)).mpr kernel_stack
    have user := (utf8_frames (D := D)).mpr user_stack
    split_ifs <;> simp [keys, comm, kernel, user]

private theorem document_distinct (batch : DataBatch D) (pipeline : Bytes) :
    ((([(ascii "pipeline", .string pipeline), (ascii "records", .array (batch.records.map RecordToJson))] ++
      if batch.stack_samples.isEmpty then []
      else [(ascii "stack_samples", .array (batch.stack_samples.map StackSampleToJson))]) :
        Members D).map Prod.fst).Nodup := by
  split_ifs
  · change [ascii "pipeline", ascii "records"].Nodup
    decide
  · change [ascii "pipeline", ascii "records", ascii "stack_samples"].Nodup
    decide

theorem utf8_document {batch : DataBatch D} {pipeline : Bytes} :
    (batchDocument batch pipeline).Utf8 ↔ Readable batch pipeline := by
  have keys : ∀ key ∈ [ascii "pipeline", ascii "records", ascii "stack_samples"], ValidUtf8 key := by decide
  simp only [List.forall_mem_cons] at keys
  have records : (JsonValue.array (batch.records.map RecordToJson)).Utf8 ↔ ∀ rec ∈ batch.records, RecordReadable rec := by
    rw [utf8_array, List.forall_mem_map]
    exact forall_congr' fun rec => imp_congr_right fun _ => utf8_record
  have samples : (JsonValue.array (batch.stack_samples.map StackSampleToJson) : JsonValue D).Utf8 ↔
      ∀ s ∈ batch.stack_samples, SampleReadable s := by
    rw [utf8_array, List.forall_mem_map]
    exact forall_congr' fun s => imp_congr_right fun _ => utf8_sample
  rw [batchDocument, utf8_setAll_of_nodup (document_distinct batch pipeline)]
  constructor
  · intro each
    constructor
    · exact utf8_string.mp (each (ascii "pipeline", .string pipeline) (by simp)).2
    · exact records.mp (each (ascii "records", _) (by simp)).2
    · cases none : batch.stack_samples.isEmpty with
      | true =>
        rw [List.isEmpty_iff.mp none]
        exact List.forall_mem_nil _
      | false => exact samples.mp (each (ascii "stack_samples", _) (by simp [none])).2
  · rintro ⟨pipelineValid, recordsValid, samplesValid⟩
    have recordsUtf8 := records.mpr recordsValid
    have samplesUtf8 := samples.mpr samplesValid
    split_ifs <;> simp [keys, pipelineValid, recordsUtf8, samplesUtf8]

/-! ## What is recovered from a document -/

/-- A member of an object that was made with distinct keys, after writing and parsing. -/
private theorem member_setAll (isfinite : D → Bool) {entries : Members D} (distinct : (entries.map Prod.fst).Nodup)
    (key : Bytes) :
    member key ((JsonValue.object (Members.setAll entries [])).reparsed isfinite) =
      (entries.lookup key).map (reparsed isfinite) := by
  rw [reparsed, member, lookup_reparsedIn, Members.lookup_setAll_of_nodup distinct]

/-- A frame is recovered without its source location. -/
theorem frameOf_document (f : StackFrame) : frameOf ((StackFrameToJson f : JsonValue D).reparsed isfinite) =
    some { f with file_name := [], line_number := 0 } := by
  have found (key : Bytes) := member_setAll isfinite (frame_distinct (D := D) f) key
  rw [← StackFrameToJson] at found
  have address : (member (ascii "address") ((StackFrameToJson f : JsonValue D).reparsed isfinite)).bind asUnsigned =
      some f.address.toNat := by
    rw [found]
    rfl
  have function_name : textOr [] (ascii "function_name") ((StackFrameToJson f : JsonValue D).reparsed isfinite) =
      some f.function_name := by
    rw [textOr, found]
    cases shown : f.function_name.isEmpty with
    | true =>
      rw [List.isEmpty_iff.mp shown]
      split_ifs <;> rfl
    | false => rfl
  have module_name : textOr [] (ascii "module_name") ((StackFrameToJson f : JsonValue D).reparsed isfinite) =
      some f.module_name := by
    rw [textOr, found]
    cases shown : f.module_name.isEmpty with
    | true =>
      rw [List.isEmpty_iff.mp shown]
      split_ifs <;> rfl
    | false => cases f.function_name.isEmpty <;> rfl
  have file_name : textOr [] (ascii "file_name") ((StackFrameToJson f : JsonValue D).reparsed isfinite) = some [] := by
    rw [textOr, found]
    split_ifs <;> rfl
  have line_number : member (ascii "line_number") ((StackFrameToJson f : JsonValue D).reparsed isfinite) = none := by
    rw [found]
    split_ifs <;> rfl
  simp only [frameOf, address, function_name, module_name, file_name, line_number, Option.elim_none, Option.bind_eq_bind,
    Option.bind_some, UInt64.ofNat_toNat]
  rfl

private theorem mapM_frameOf (frames : List StackFrame) :
    ((frames.map StackFrameToJson).map (reparsed isfinite)).mapM (frameOf (D := D)) =
      some (frames.map fun f => { f with file_name := [], line_number := 0 }) := by
  induction frames with
  | nil => rfl
  | cons f rest ih =>
    simp only [List.map_cons, List.mapM_cons, frameOf_document, ih]
    rfl

/-- The frames of a stack are all recovered when none has a source location. -/
private theorem framesOf_iff {key : Bytes} {v : JsonValue D} {frames : List StackFrame}
    (found : member key v = some ((StackFramesToJson frames).reparsed isfinite)) :
    framesOf key v = some frames ↔ ∀ f ∈ frames, f.file_name = [] ∧ f.line_number = 0 := by
  have elements : (member key v).bind asArray = some ((frames.map StackFrameToJson).map (reparsed isfinite)) := by
    rw [found, StackFramesToJson, reparsed, reparsedOf_eq]
    rfl
  rw [framesOf, elements, Option.bind_some, mapM_frameOf, Option.some_inj]
  conv_lhs => rhs; rw [← List.map_id frames]
  rw [List.map_inj_left]
  refine forall_congr' fun f => imp_congr_right fun _ => ?_
  rw [id, StackFrame.mk.injEq]
  constructor
  · rintro ⟨_, _, file, line, _⟩
    exact ⟨file.symm, line.symm⟩
  · rintro ⟨file, line⟩
    exact ⟨rfl, rfl, file.symm, line.symm, rfl⟩

theorem sampleRecovered_iff {s : StackSample} :
    SampleRecovered s ((StackSampleToJson s : JsonValue D).reparsed isfinite) ↔
      ∀ f ∈ s.kernel_stack ++ s.user_stack, f.file_name = [] ∧ f.line_number = 0 := by
  have found (key : Bytes) := member_setAll isfinite (sample_distinct (D := D) s) key
  rw [← StackSampleToJson] at found
  have kernel : member (ascii "kernel_stack") ((StackSampleToJson s : JsonValue D).reparsed isfinite) =
      some ((StackFramesToJson s.kernel_stack).reparsed isfinite) := by
    rw [found]
    split_ifs <;> rfl
  have user : member (ascii "user_stack") ((StackSampleToJson s : JsonValue D).reparsed isfinite) =
      some ((StackFramesToJson s.user_stack).reparsed isfinite) := by
    rw [found]
    split_ifs <;> rfl
  rw [List.forall_mem_append, ← framesOf_iff kernel, ← framesOf_iff user]
  constructor
  · intro recovered
    exact ⟨recovered.kernel_stack, recovered.user_stack⟩
  · rintro ⟨kernelRecovered, userRecovered⟩
    refine ⟨?_, ?_, ?_, ?_, kernelRecovered, userRecovered⟩ <;> rw [found] <;> rfl

private theorem lookup_fields (entries : List (Sigma fun _ : Bytes => FieldValue D)) (key : Bytes) :
    (entries.map fun field => (field.1, FieldValueToJson field.2)).lookup key =
      (entries.dlookup key).map FieldValueToJson := by
  induction entries with
  | nil => rfl
  | cons field rest ih =>
    obtain ⟨name, value⟩ := field
    rw [List.map_cons, List.lookup_cons]
    by_cases same : key = name
    · subst same
      rw [beq_self_eq_true, List.dlookup_cons_eq]
      rfl
    · rw [beq_eq_false_iff_ne.mpr same, List.dlookup_cons_ne _ _ same]
      exact ih

private theorem reparsed_field (value : FieldValue D) :
    (FieldValueToJson value).reparsed isfinite = fieldShown isfinite value := by
  cases value <;> rfl

theorem recordRecovered (rec : Record D) : RecordRecovered isfinite rec ((RecordToJson rec).reparsed isfinite) := by
  refine ⟨reparsedIn isfinite (fieldsToJson rec.fields), ?_, ?_⟩
  · rw [RecordToJson, member_setAll _ (record_distinct rec)]
    rfl
  · intro key
    rw [lookup_reparsedIn, fieldsToJson, Members.lookup_setAll_of_nodup (fields_distinct rec.fields), lookup_fields,
      Option.map_map]
    exact congrArg (fun shown => (rec.GetField key).map shown) (funext reparsed_field)

/-- The records of a batch are recovered whatever they hold, its samples when no frame has a source
location. -/
theorem recovered_iff {batch : DataBatch D} {pipeline : Bytes} :
    Recovered isfinite batch ((batchDocument batch pipeline).reparsed isfinite) ↔ Unlocated batch := by
  have found (key : Bytes) := member_setAll isfinite (document_distinct batch pipeline) key
  rw [← batchDocument] at found
  have records : (member (ascii "records") ((batchDocument batch pipeline).reparsed isfinite)).bind asArray =
      some ((batch.records.map RecordToJson).map (reparsed isfinite)) := by
    rw [found, ← reparsedOf_eq]
    rfl
  have samples : (member (ascii "stack_samples") ((batchDocument batch pipeline).reparsed isfinite)).elim (some [])
      asArray = some ((batch.stack_samples.map StackSampleToJson).map (reparsed isfinite)) := by
    rw [found, ← reparsedOf_eq]
    cases none : batch.stack_samples.isEmpty with
    | true =>
      rw [List.isEmpty_iff.mp none]
      rfl
    | false => rfl
  have each : List.Forall₂ SampleRecovered batch.stack_samples
      ((batch.stack_samples.map StackSampleToJson).map (reparsed (D := D) isfinite)) ↔ Unlocated batch := by
    rw [List.forall₂_map_right_iff, List.forall₂_map_right_iff, List.forall₂_same]
    exact forall_congr' fun s => imp_congr_right fun _ => sampleRecovered_iff
  constructor
  · rintro ⟨_, shown, read, recovered⟩
    rw [samples] at read
    cases read
    exact each.mp recovered
  · intro unlocated
    refine ⟨⟨_, records, ?_⟩, _, samples, each.mpr unlocated⟩
    rw [List.forall₂_map_right_iff, List.forall₂_map_right_iff, List.forall₂_same]
    exact fun rec _ => recordRecovered rec

/-! ## The documents are ordered -/

private theorem ordered_frame (f : StackFrame) : (StackFrameToJson f : JsonValue D).Ordered := by
  refine ordered_setAll ?_
  split_ifs <;> simp [Ordered]

private theorem ordered_frames (frames : List StackFrame) : (StackFramesToJson frames : JsonValue D).Ordered := by
  refine orderedOf_iff.mpr ?_
  rw [List.forall_mem_map]
  exact fun f _ => ordered_frame f

private theorem ordered_sample (s : StackSample) : (StackSampleToJson s : JsonValue D).Ordered := by
  refine ordered_setAll ?_
  split_ifs <;> simp [Ordered, ordered_frames]

private theorem ordered_record (rec : Record D) : (RecordToJson rec).Ordered := by
  have labels : (JsonValue.object (labelsToJson rec.labels) : JsonValue D).Ordered := by
    refine ordered_setAll ?_
    rw [List.forall_mem_map]
    exact fun _ _ => trivial
  have fields : (JsonValue.object (fieldsToJson rec.fields)).Ordered := by
    refine ordered_setAll ?_
    rw [List.forall_mem_map]
    rintro ⟨_, value⟩ _
    cases value <;> trivial
  refine ordered_setAll ?_
  rw [List.forall_mem_cons, List.forall_mem_singleton]
  exact ⟨labels, fields⟩

theorem ordered_document (batch : DataBatch D) (pipeline : Bytes) : (batchDocument batch pipeline).Ordered := by
  have records : (JsonValue.array (batch.records.map RecordToJson)).Ordered := by
    refine orderedOf_iff.mpr ?_
    rw [List.forall_mem_map]
    exact fun rec _ => ordered_record rec
  have samples : (JsonValue.array (batch.stack_samples.map StackSampleToJson) : JsonValue D).Ordered := by
    refine orderedOf_iff.mpr ?_
    rw [List.forall_mem_map]
    exact fun s _ => ordered_sample s
  refine ordered_setAll ?_
  rw [List.forall_mem_append, List.forall_mem_cons, List.forall_mem_singleton]
  refine ⟨⟨trivial, records⟩, ?_⟩
  split_ifs
  · exact List.forall_mem_nil _
  · exact List.forall_mem_singleton.mpr samples

/-! ## Broadcasting -/

variable {json : Library D}

/-- A batch's text is sent and its data recovered exactly when the strings it shows are UTF-8 and no frame
has a source location. -/
theorem recoverable_iff (documented : json.Documented isfinite) {batch : DataBatch D} {pipeline : Bytes} :
    (∃ text doc, BatchToJson json batch pipeline = some text ∧ json.parse text = some doc ∧
      Recovered isfinite batch doc) ↔ Readable batch pipeline ∧ Unlocated batch := by
  constructor
  · rintro ⟨text, doc, dumped, parsed, recovered⟩
    have readable := utf8_document.mp (documented.dump_some.mp ⟨text, dumped⟩)
    rw [documented.reads _ _ (ordered_document batch pipeline) dumped] at parsed
    cases parsed
    exact ⟨readable, recovered_iff.mp recovered⟩
  · rintro ⟨readable, unlocated⟩
    obtain ⟨text, dumped⟩ := documented.dump_some.mpr (utf8_document.mpr readable)
    exact ⟨text, _, dumped, documented.reads _ _ (ordered_document batch pipeline) dumped,
      recovered_iff.mpr unlocated⟩

/-- Every batch that is stored for a subscription is sent to its subscribers and recovered from what is
sent. -/
def Served (json : Library D) (isfinite : D → Bool) (sent : List (ℕ × Bytes)) (round : Round D) : Prop :=
  ∀ key fds, (key, fds) ∈ round.subscriptions → ∀ batch, round.Latest key = some batch →
    ∃ text doc, BatchToJson json batch key = some text ∧
      (∀ fd ∈ fds, (fd, WebSocketCodec.EncodeFrame text .kText) ∈ sent) ∧
      json.parse text = some doc ∧ Recovered isfinite batch doc

/-- No exception leaves a pass exactly when every batch has a text. -/
theorem broadcast_escaped {Latest : Bytes → Option (DataBatch D)} {subscriptions : List (Bytes × List ℕ)} :
    (BroadcastData json Latest subscriptions).escaped = false ↔
      ∀ key fds, (key, fds) ∈ subscriptions → ∀ batch, Latest key = some batch →
        ∃ text, BatchToJson json batch key = some text := by
  induction subscriptions with
  | nil => exact ⟨fun _ key fds absent => absurd absent List.not_mem_nil, fun _ => rfl⟩
  | cons subscription rest ih =>
    obtain ⟨key, fds⟩ := subscription
    have split : (∀ k f, (k, f) ∈ (key, fds) :: rest → ∀ batch, Latest k = some batch →
        ∃ text, BatchToJson json batch k = some text) ↔
        (∀ batch, Latest key = some batch → ∃ text, BatchToJson json batch key = some text) ∧
          (BroadcastData json Latest rest).escaped = false := by
      rw [ih]
      constructor
      · intro each
        exact ⟨each key fds List.mem_cons_self, fun k f inside => each k f (List.mem_cons_of_mem _ inside)⟩
      · rintro ⟨first, later⟩ k f inside
        rcases List.mem_cons.mp inside with same | after
        · cases same
          exact first
        · exact later k f after
    rw [split]
    cases stored : Latest key with
    | none =>
      rw [BroadcastData, stored]
      constructor
      · intro finished
        refine ⟨?_, finished⟩
        intro _ absent
        cases absent
      · exact And.right
    | some batch =>
      cases dumped : BatchToJson json batch key with
      | none =>
        simp only [BroadcastData, stored, dumped]
        constructor
        · intro escaped
          cases escaped
        · rintro ⟨first, _⟩
          obtain ⟨text, made⟩ := first batch rfl
          rw [dumped] at made
          cases made
      | some text =>
        simp only [BroadcastData, stored, dumped]
        constructor
        · intro finished
          refine ⟨fun other same => ?_, finished⟩
          cases same
          exact ⟨text, dumped⟩
        · exact And.right

/-- A pass that no exception leaves has sent every text to every subscriber. -/
theorem broadcast_sent {Latest : Bytes → Option (DataBatch D)} {subscriptions : List (Bytes × List ℕ)}
    (finished : (BroadcastData json Latest subscriptions).escaped = false) {key text : Bytes} {fds : List ℕ}
    {batch : DataBatch D} (subscribed : (key, fds) ∈ subscriptions) (stored : Latest key = some batch)
    (dumped : BatchToJson json batch key = some text) {fd : ℕ} (subscriber : fd ∈ fds) :
    (fd, WebSocketCodec.EncodeFrame text .kText) ∈ (BroadcastData json Latest subscriptions).sent := by
  induction subscriptions with
  | nil => exact absurd subscribed List.not_mem_nil
  | cons subscription rest ih =>
    obtain ⟨otherKey, otherFds⟩ := subscription
    rcases List.mem_cons.mp subscribed with same | after
    · cases same
      simp only [BroadcastData, stored, dumped]
      exact List.mem_append_left _ (List.mem_map_of_mem subscriber)
    · cases otherStored : Latest otherKey with
      | none =>
        simp only [BroadcastData, otherStored] at finished ⊢
        exact ih finished after
      | some otherBatch =>
        cases otherDumped : BatchToJson json otherBatch otherKey with
        | none =>
          simp only [BroadcastData, otherStored, otherDumped] at finished
          cases finished
        | some otherText =>
          simp only [BroadcastData, otherStored, otherDumped] at finished ⊢
          exact List.mem_append_right _ (ih finished after)

/-- No exception ends the loop exactly when none leaves any of its passes. -/
theorem loop_escaped {rounds : List (Round D)} : (BroadcastLoop json rounds).escaped = false ↔
    ∀ round ∈ rounds, (BroadcastData json round.Latest round.subscriptions).escaped = false := by
  induction rounds with
  | nil => exact ⟨fun _ => List.forall_mem_nil _, fun _ => rfl⟩
  | cons round later ih =>
    rw [List.forall_mem_cons, ← ih]
    cases finished : (BroadcastData json round.Latest round.subscriptions).escaped with
    | true => simp [BroadcastLoop, finished]
    | false => simp [BroadcastLoop, finished]

theorem loop_sent {rounds : List (Round D)} (finished : (BroadcastLoop json rounds).escaped = false) {round : Round D}
    (inside : round ∈ rounds) {frame : ℕ × Bytes}
    (sent : frame ∈ (BroadcastData json round.Latest round.subscriptions).sent) :
    frame ∈ (BroadcastLoop json rounds).sent := by
  induction rounds with
  | nil => exact absurd inside List.not_mem_nil
  | cons first later ih =>
    have each := loop_escaped.mp finished
    have whole : (BroadcastLoop json (first :: later)).sent =
        (BroadcastData json first.Latest first.subscriptions).sent ++ (BroadcastLoop json later).sent := by
      have passed := each first List.mem_cons_self
      simp only [BroadcastLoop, passed, Bool.false_eq_true, if_false]
    have rest : (BroadcastLoop json later).escaped = false :=
      loop_escaped.mpr fun other member => each other (List.mem_cons_of_mem _ member)
    rw [whole]
    rcases List.mem_cons.mp inside with rfl | after
    · exact List.mem_append_left _ sent
    · exact List.mem_append_right _ (ih rest after)

/-- No exception leaves `BroadcastLoop`, and what it sends is a JSON text that the data is recovered from,
exactly when every string of a stored batch that its document shows is UTF-8 and no frame has a source
location. -/
theorem live_feed_iff (documented : json.Documented isfinite) (rounds : List (Round D)) :
    ((BroadcastLoop json rounds).escaped = false ∧
        ∀ round ∈ rounds, Served json isfinite (BroadcastLoop json rounds).sent round) ↔
      ∀ round ∈ rounds, ∀ key fds, (key, fds) ∈ round.subscriptions → ∀ batch, round.Latest key = some batch →
        Readable batch key ∧ Unlocated batch := by
  constructor
  · rintro ⟨_, served⟩ round inside key fds subscribed batch stored
    obtain ⟨text, doc, dumped, _, parsed, recovered⟩ := served round inside key fds subscribed batch stored
    exact (recoverable_iff documented).mp ⟨text, doc, dumped, parsed, recovered⟩
  · intro each
    have recoverable (round : Round D) (inside : round ∈ rounds) (key : Bytes) (fds : List ℕ)
        (subscribed : (key, fds) ∈ round.subscriptions) (batch : DataBatch D) (stored : round.Latest key = some batch) :=
      (recoverable_iff documented).mpr (each round inside key fds subscribed batch stored)
    have finished : (BroadcastLoop json rounds).escaped = false := by
      refine loop_escaped.mpr fun round inside => broadcast_escaped.mpr ?_
      intro key fds subscribed batch stored
      obtain ⟨text, _, dumped, _⟩ := recoverable round inside key fds subscribed batch stored
      exact ⟨text, dumped⟩
    refine ⟨finished, fun round inside key fds subscribed batch stored => ?_⟩
    obtain ⟨text, doc, dumped, parsed, recovered⟩ := recoverable round inside key fds subscribed batch stored
    refine ⟨text, doc, dumped, fun fd subscriber => ?_, parsed, recovered⟩
    exact loop_sent finished inside
      (broadcast_sent (loop_escaped.mp finished round inside) subscribed stored dumped subscriber)

/-- One subscriber and one stored batch, with a record whose only field is not a number. -/
def oneRound (comm : Bytes) : Round (Option ℤ) where
  subscriptions := [(ascii "cpu", [7])]
  Latest key := if key = ascii "cpu" then
      some { type := .kProfile
             records := [⟨0, [], AList.singleton (ascii "load") (.double none)⟩]
             stack_samples :=
               [{ timestamp := 0, pid := 1, tid := 1, comm, user_stack := [⟨4096, ascii "main", [], 0, []⟩] }] }
    else none

/-- A process that is named in UTF-8. -/
theorem live_feed_served : (BroadcastLoop (JsonText.library JsonText.wholes) [oneRound (ascii "sh")]).escaped = false ∧
    ∀ round ∈ [oneRound (ascii "sh")], Served (JsonText.library JsonText.wholes) JsonText.wholes.isfinite
      (BroadcastLoop (JsonText.library JsonText.wholes) [oneRound (ascii "sh")]).sent round := by
  refine (live_feed_iff (JsonText.library_documented JsonText.wholes_faithful) [oneRound (ascii "sh")]).mpr ?_
  rw [List.forall_mem_singleton]
  intro key fds subscribed batch stored
  obtain ⟨rfl, rfl⟩ := Prod.mk.inj (List.mem_singleton.mp subscribed)
  cases stored
  refine ⟨⟨by decide, ?_, ?_⟩, ?_⟩
  · refine List.forall_mem_singleton.mpr ⟨?_, ?_⟩
    · intro key value absent
      cases absent
    · intro key value found
      have only := List.mem_singleton.mp (AList.mem_lookup_iff.mp found)
      cases only
      refine ⟨by decide, ?_⟩
      intro text absent
      cases absent
  · refine List.forall_mem_singleton.mpr ⟨by decide, List.forall_mem_nil _, List.forall_mem_singleton.mpr ?_⟩
    exact ⟨by decide, by decide⟩
  · unfold Unlocated
    decide

/-- The name of a process that is not UTF-8 ends the loop. -/
theorem live_feed_stops : (JsonText.library JsonText.wholes).Documented JsonText.wholes.isfinite ∧
    ¬ ((BroadcastLoop (JsonText.library JsonText.wholes) [oneRound [0xFF]]).escaped = false ∧
      ∀ round ∈ [oneRound [0xFF]], Served (JsonText.library JsonText.wholes) JsonText.wholes.isfinite
        (BroadcastLoop (JsonText.library JsonText.wholes) [oneRound [0xFF]]).sent round) := by
  refine ⟨JsonText.library_documented JsonText.wholes_faithful, fun fed => ?_⟩
  have escaped : (BroadcastLoop (JsonText.library JsonText.wholes) [oneRound [0xFF]]).escaped = true := by decide
  rw [escaped] at fed
  cases fed.1

end JsonSerializer

end Illuminator
