import Illuminator.Model.OtlpExportSink
import Illuminator.Standards.UnescapedJson
import Illuminator.ToMathlib.FallibleLoops

/-! # The OTLP payload

A receiver collects the data points of all gauges of a document. The payload of a batch reads as a document with one
data point for every field of every record, exactly if no field's name and no label needs an escape.
-/

namespace Illuminator

namespace OtlpExportSink

open JsonText JsonValue

variable {D : Type} {floats : Floats D} {ofInt : ℤ → D}

/-! ## What a receiver reads -/

@[ext] structure GaugePoint where
  name : Bytes
  timeUnixNano : UInt64
  attributes : List Label
  deriving DecidableEq

def member (key : String) : JsonValue D → Option (JsonValue D)
  | .object members => members.lookup (ascii key)
  | _ => none

def asString : JsonValue D → Option Bytes
  | .string s => some s
  | _ => none

def asUnsigned : JsonValue D → Option UInt64
  | .number_unsigned u => some u
  | _ => none

/-- Every element of an array, if all of them can be read. -/
def readAll {A : Type} (read : JsonValue D → Option A) : JsonValue D → Option (List A)
  | .array elements => elements.mapM read
  | _ => none

def readAttribute (v : JsonValue D) : Option Label := do
  let key ← (← member "key" v) |> asString
  let value ← (← member "stringValue" (← member "value" v)) |> asString
  return ⟨key, value⟩

/-- Attributes are optional. -/
def readAttributes (point : JsonValue D) : Option (List Label) :=
  match member "attributes" point with
  | none => some []
  | some list => readAll readAttribute list

def readPoint (name : Bytes) (point : JsonValue D) : Option GaugePoint := do
  let timeUnixNano ← (← member "timeUnixNano" point) |> asUnsigned
  let _ ← member "asDouble" point
  let attributes ← readAttributes point
  return ⟨name, timeUnixNano, attributes⟩

def readMetric (metric : JsonValue D) : Option (List GaugePoint) := do
  let name ← (← member "name" metric) |> asString
  (← member "dataPoints" (← member "gauge" metric)) |> readAll (readPoint name)

/-- The data points in the list under a key. -/
def collect (key : String) (read : JsonValue D → Option (List GaugePoint)) (v : JsonValue D) :
    Option (List GaugePoint) := do
  let parts ← (← member key v) |> readAll read
  return parts.flatten

def gaugePoints : JsonValue D → Option (List GaugePoint) :=
  collect "resourceMetrics" (collect "scopeMetrics" (collect "metrics" readMetric))

/-- One data point for every field of every record. -/
def points (records : List (Record D)) : List GaugePoint :=
  records.flatMap fun rec => rec.fields.entries.map fun field =>
    ⟨field.1, TimestampToNanos rec.timestamp, rec.labels⟩

/-- A payload is JSON, and a receiver reads from it one data point for every field of every record. -/
def Complete (floats : Floats D) (payload : Bytes) (records : List (Record D)) : Prop :=
  ∃ document read, parse floats payload = some document ∧ gaugePoints document = some read ∧ read.Perm (points records)

/-- The strings that are put into a payload. -/
def texts (records : List (Record D)) : List Bytes :=
  records.flatMap fun rec => rec.fields.entries.flatMap fun field =>
    field.1 :: rec.labels.flatMap fun l => [l.key, l.value]

/-! ## The document of a payload -/

/-- A record and one of its fields. -/
abbrev Entry (D : Type) := Record D × Sigma fun _ : Bytes => FieldValue D

def keyValue (l : Label) : JsonValue D :=
  .object [(ascii "key", .string l.key), (ascii "value", .object [(ascii "stringValue", .string l.value)])]

def point (ofInt : ℤ → D) (rec : Record D) (field : Sigma fun _ : Bytes => FieldValue D) : JsonValue D :=
  .object ((ascii "timeUnixNano", .number_unsigned (TimestampToNanos rec.timestamp)) ::
    (ascii "asDouble", .number_float (ExtractDouble ofInt field.2)) ::
    if rec.labels.isEmpty then [] else [(ascii "attributes", .array (rec.labels.map keyValue))])

def metric (ofInt : ℤ → D) (entry : Entry D) : JsonValue D :=
  .object [(ascii "name", .string entry.2.1),
    (ascii "gauge", .object [(ascii "dataPoints", .array [point ofInt entry.1 entry.2])])]

/-- The fields of the records, as they are visited. -/
def entries (order : Traversal (FieldValue D)) (records : List (Record D)) :
    List (Entry D) :=
  records.flatMap fun rec => (order.visit rec.fields).map fun field => (rec, field)

def document (ofInt : ℤ → D) (order : Traversal (FieldValue D)) (records : List (Record D)) : JsonValue D :=
  .object [(ascii "resourceMetrics", .array [.object [(ascii "scopeMetrics", .array [.object
    [(ascii "metrics", .array ((entries order records).map (metric ofInt)))]])]])]

/-- A loop's body prints an element of an array after its comma. -/
def Prints {A : Type} (floats : Floats D) (write : Json → A → Json) (value : A → JsonValue D) (items : List A) : Prop :=
  ∀ item ∈ items, ∀ json, write json item = ⟨json.text ++ comma json.first ++ raw floats (value item), false⟩

/-- A loop that puts a comma before every item but the first writes the elements of an array. -/
private theorem foldl_array {A : Type} {write : Json → A → Json} {value : A → JsonValue D} {items : List A}
    (writes : Prints floats write value items) (text : Bytes) :
    (items.foldl write ⟨text ++ ascii "[", true⟩).text ++ ascii "]" = text ++ raw floats (.array (items.map value)) := by
  have others {items : List A} (text : Bytes)
      (writes : Prints floats write value items) :
      (items.foldl write ⟨text, false⟩).text ++ ascii "]" = text ++ rawOthers floats (items.map value) := by
    induction items generalizing text with
    | nil => rfl
    | cons item rest ih =>
      obtain ⟨first, later⟩ := List.forall_mem_cons.mp writes
      rw [List.foldl_cons, first, ih _ later, List.map_cons, rawOthers, comma, if_neg Bool.false_ne_true]
      simp only [List.append_assoc]
      rfl
  cases items with
  | nil =>
    rw [List.foldl_nil, List.append_assoc]
    rfl
  | cons item rest =>
    obtain ⟨first, later⟩ := List.forall_mem_cons.mp writes
    rw [List.foldl_cons, first, others _ later, List.map_cons, raw, comma, if_pos rfl]
    simp only [List.append_assoc]
    rfl

theorem writeLabel_raw (json : Json) (l : Label) :
    writeLabel json l = ⟨json.text ++ comma json.first ++ raw floats (keyValue l), false⟩ := by
  have opened : ascii "\x7b\"key\":\"" = 0x7B :: (unescaped (ascii "key") ++ [0x3A, 0x22]) := by decide
  have middle : ascii "\",\"value\":\x7b\"stringValue\":\"" =
      0x22 :: 0x2C :: (unescaped (ascii "value") ++ 0x3A :: 0x7B :: (unescaped (ascii "stringValue") ++ [0x3A, 0x22])) := by
    decide
  rw [writeLabel, opened, middle]
  simp only [keyValue, raw, rawMembers, unescaped, List.append_assoc, List.cons_append, List.nil_append]
  rfl

theorem writeLabels_raw (text : Bytes) (labels : List Label) : writeLabels text labels ++ ascii "\x7d" =
    text ++ rawMembers floats
      (if labels.isEmpty then [] else [(ascii "attributes", .array (labels.map keyValue))]) := by
  unfold writeLabels
  split_ifs
  · rfl
  · have opened : ascii ",\"attributes\":[" = 0x2C :: (unescaped (ascii "attributes") ++ [0x3A]) ++ ascii "[" := by decide
    rw [opened, ← List.append_assoc text, foldl_array fun l _ json => writeLabel_raw json l]
    simp only [rawMembers, List.append_assoc, List.cons_append, List.nil_append]
    rfl

theorem writeField_raw {rec : Record D} {field : Sigma fun _ : Bytes => FieldValue D}
    (finite : floats.isfinite (ExtractDouble ofInt field.2) = true) (json : Json) :
    writeField floats ofInt rec json field =
      ⟨json.text ++ comma json.first ++ raw floats (metric ofInt (rec, field)), false⟩ := by
  have opened : ascii "\x7b\"name\":\"" = 0x7B :: (unescaped (ascii "name") ++ [0x3A, 0x22]) := by decide
  have gauge : ascii "\",\"gauge\":\x7b\"dataPoints\":[\x7b" =
      0x22 :: 0x2C :: (unescaped (ascii "gauge") ++
        0x3A :: 0x7B :: (unescaped (ascii "dataPoints") ++ [0x3A, 0x5B, 0x7B])) := by
    decide
  have time : ascii "\"timeUnixNano\":" = unescaped (ascii "timeUnixNano") ++ [0x3A] := by decide
  have number : ascii ",\"asDouble\":" = 0x2C :: (unescaped (ascii "asDouble") ++ [0x3A]) := by decide
  have closing : ascii "\x7d]\x7d\x7d" = ascii "\x7d" ++ [0x5D, 0x7D, 0x7D] := by decide
  rw [writeField, closing, ← List.append_assoc, @writeLabels_raw D floats, opened, gauge, time, number]
  simp only [metric, point, raw, rawMembers, rawOthers, finite, if_true, unescaped, List.append_assoc, List.cons_append,
    List.nil_append]

/-- The `double`s of the records are finite. -/
def FiniteFields (floats : Floats D) (records : List (Record D)) : Prop :=
  ∀ rec ∈ records, ∀ field ∈ rec.fields.entries, ∀ d, field.2 = .double d → floats.isfinite d = true

/-- What integers are converted to is finite. -/
def Converts (floats : Floats D) (ofInt : ℤ → D) : Prop :=
  ∀ i : ℤ, -2 ^ 63 ≤ i → i < 2 ^ 64 → floats.isfinite (ofInt i) = true

theorem extracted_finite (converts : Converts floats ofInt) {value : FieldValue D}
    (finite : ∀ d, value = .double d → floats.isfinite d = true) :
    floats.isfinite (ExtractDouble ofInt value) = true := by
  cases value with
  | monostate => exact converts 0 (by decide) (by decide)
  | bool v => cases v <;> exact converts _ (by decide) (by decide)
  | int64 v =>
    have least := v.le_toInt
    have most := v.toInt_lt
    exact converts v.toInt least (by omega)
  | uint64 v =>
    have most := v.toNat_lt
    exact converts v.toNat (by omega) (by exact_mod_cast most)
  | double v => exact finite v rfl
  | string v => exact converts 0 (by decide) (by decide)

/-- The loops print the document. -/
theorem payload_raw (converts : Converts floats ofInt) (order : Traversal (FieldValue D)) {records : List (Record D)}
    (finite : FiniteFields floats records) :
    payload floats ofInt order records = raw floats (document ofInt order records) := by
  have flat : ∀ json, records.foldl (writeRecord floats ofInt order) json =
      (entries order records).foldl (fun json entry => writeField floats ofInt entry.1 json entry.2) json := by
    intro json
    rw [entries, List.foldl_flatMap]
    congr 1
    funext json rec
    rw [List.foldl_map]
    rfl
  have writes : Prints floats (fun json entry => writeField floats ofInt entry.1 json entry.2) (metric ofInt)
      (entries order records) := by
    intro entry member json
    obtain ⟨rec, inside, visited⟩ := List.mem_flatMap.mp member
    obtain ⟨field, among, rfl⟩ := List.mem_map.mp visited
    exact writeField_raw (extracted_finite converts (finite rec inside field (order.mem_visit.mp among))) json
  have opened : ascii "\x7b\"resourceMetrics\":[\x7b\"scopeMetrics\":[\x7b\"metrics\":[" =
      0x7B :: (unescaped (ascii "resourceMetrics") ++ 0x3A :: 0x5B :: 0x7B ::
        (unescaped (ascii "scopeMetrics") ++ 0x3A :: 0x5B :: 0x7B :: (unescaped (ascii "metrics") ++ [0x3A]))) ++
      ascii "[" := by
    decide
  have closing : ascii "]\x7d]\x7d]\x7d" = ascii "]" ++ [0x7D, 0x5D, 0x7D, 0x5D, 0x7D] := by decide
  rw [payload, flat, opened, closing, ← List.append_assoc, foldl_array writes]
  simp only [document, raw, rawMembers, rawOthers, List.append_assoc, List.cons_append, List.nil_append]

/-! ## The strings of a payload -/

/-- The keys of the document. -/
def keywords : List Bytes :=
  [ascii "resourceMetrics", ascii "scopeMetrics", ascii "metrics", ascii "name", ascii "gauge", ascii "dataPoints",
    ascii "timeUnixNano", ascii "asDouble", ascii "attributes", ascii "key", ascii "value", ascii "stringValue"]

/-- A string that is put into the payload for a field of a record. -/
def Written (entry : Entry D) (s : Bytes) : Prop :=
  s = entry.2.1 ∨ ∃ l ∈ entry.1.labels, s = l.key ∨ s = l.value

theorem mem_texts (order : Traversal (FieldValue D)) {records : List (Record D)} {s : Bytes} :
    s ∈ texts records ↔ ∃ entry ∈ entries order records, Written entry s := by
  simp only [texts, entries, Written, List.mem_flatMap, List.mem_map, List.mem_cons, List.not_mem_nil, or_false]
  constructor
  · rintro ⟨rec, inside, field, among, written⟩
    exact ⟨(rec, field), ⟨rec, inside, field, order.mem_visit.mpr among, rfl⟩, written⟩
  · rintro ⟨_, ⟨rec, inside, field, among, rfl⟩, written⟩
    exact ⟨rec, inside, field, order.mem_visit.mp among, written⟩

private theorem mem_labels_strings {labels : List Label} {s : Bytes} :
    s ∈ (JsonValue.array (labels.map keyValue) : JsonValue D).strings ↔
      ∃ l ∈ labels, s = ascii "key" ∨ s = l.key ∨ s = ascii "value" ∨ s = ascii "stringValue" ∨ s = l.value := by
  simp only [strings, stringsOf_eq, List.mem_flatMap, List.mem_map, keyValue]
  constructor
  · rintro ⟨_, ⟨l, inside, rfl⟩, shown⟩
    refine ⟨l, inside, ?_⟩
    simpa [strings, stringsIn] using shown
  · rintro ⟨l, inside, shown⟩
    refine ⟨_, ⟨l, inside, rfl⟩, ?_⟩
    simpa [strings, stringsIn] using shown

private theorem mem_metric_strings {entry : Entry D} {s : Bytes} :
    s ∈ (metric ofInt entry).strings ↔
      s ∈ [ascii "name", entry.2.1, ascii "gauge", ascii "dataPoints", ascii "timeUnixNano", ascii "asDouble"] ∨
      entry.1.labels ≠ [] ∧ (s = ascii "attributes" ∨
        s ∈ (JsonValue.array (entry.1.labels.map keyValue) : JsonValue D).strings) := by
  obtain ⟨⟨timestamp, labels, fields⟩, field⟩ := entry
  cases labels with
  | nil => simp [metric, point, strings, stringsIn, stringsOf]
  | cons l rest =>
    simp only [metric, point, strings, stringsIn, stringsOf, List.isEmpty_cons, Bool.false_eq_true, if_false,
      List.mem_cons, List.mem_append, List.not_mem_nil, or_false, ne_eq, List.cons_ne_nil, not_false_eq_true, true_and,
      List.nil_append, List.append_nil, or_assoc]

private theorem metric_strings {entry : Entry D} {s : Bytes}
    (shown : s ∈ (metric ofInt entry).strings) : s ∈ keywords ∨ Written entry s := by
  rcases mem_metric_strings.mp shown with here | ⟨_, rfl | inLabels⟩
  · simp only [List.mem_cons, List.not_mem_nil, or_false] at here
    obtain rfl | rfl | rfl | rfl | rfl | rfl := here
    · exact Or.inl (by decide)
    · exact Or.inr (Or.inl rfl)
    all_goals exact Or.inl (by decide)
  · exact Or.inl (by decide)
  · obtain ⟨l, inside, rfl | rfl | rfl | rfl | rfl⟩ := mem_labels_strings.mp inLabels
    · exact Or.inl (by decide)
    · exact Or.inr (Or.inr ⟨l, inside, Or.inl rfl⟩)
    · exact Or.inl (by decide)
    · exact Or.inl (by decide)
    · exact Or.inr (Or.inr ⟨l, inside, Or.inr rfl⟩)

private theorem written_shown {entry : Entry D} {s : Bytes}
    (written : Written entry s) : s ∈ (metric ofInt entry).strings := by
  rcases written with rfl | ⟨l, inside, either⟩
  · exact mem_metric_strings.mpr (Or.inl (List.mem_cons_of_mem _ List.mem_cons_self))
  · refine mem_metric_strings.mpr (Or.inr ⟨List.ne_nil_of_mem inside, Or.inr (mem_labels_strings.mpr ⟨l, inside, ?_⟩)⟩)
    rcases either with rfl | rfl
    · exact Or.inr (Or.inl rfl)
    · exact Or.inr (Or.inr (Or.inr (Or.inr rfl)))

private theorem mem_document_strings {order : Traversal (FieldValue D)} {records : List (Record D)} {s : Bytes} :
    s ∈ (document ofInt order records).strings ↔ s ∈ [ascii "resourceMetrics", ascii "scopeMetrics", ascii "metrics"] ∨
      ∃ entry ∈ entries order records, s ∈ (metric ofInt entry).strings := by
  have inner : s ∈ stringsOf ((entries order records).map (metric ofInt)) ↔
      ∃ entry ∈ entries order records, s ∈ (metric ofInt entry).strings := by
    rw [stringsOf_eq, List.flatMap_map, List.mem_flatMap]
  simp only [document, strings, stringsOf, stringsIn, List.mem_cons, List.mem_append, List.not_mem_nil, or_false,
    inner, or_assoc]

theorem document_strings {order : Traversal (FieldValue D)} {records : List (Record D)} {s : Bytes}
    (shown : s ∈ (document ofInt order records).strings) : s ∈ keywords ∨ s ∈ texts records := by
  rcases mem_document_strings.mp shown with top | ⟨entry, inside, below⟩
  · simp only [List.mem_cons, List.not_mem_nil, or_false] at top
    obtain rfl | rfl | rfl := top <;> exact Or.inl (by decide)
  · rcases metric_strings below with keyword | written
    · exact Or.inl keyword
    · exact Or.inr ((mem_texts order).mpr ⟨entry, inside, written⟩)

theorem texts_shown (order : Traversal (FieldValue D)) {records : List (Record D)} :
    texts records ⊆ (document ofInt order records).strings := by
  intro s member
  obtain ⟨entry, inside, written⟩ := (mem_texts order).mp member
  exact mem_document_strings.mpr (Or.inr ⟨entry, inside, written_shown written⟩)

theorem names {key : Bytes} (keyword : key ∈ keywords) : Name key := by
  simp only [keywords, List.mem_cons, List.not_mem_nil, or_false] at keyword
  obtain rfl | rfl | rfl | rfl | rfl | rfl | rfl | rfl | rfl | rfl | rfl | rfl := keyword <;>
    exact ⟨by decide, _, rfl, by decide, by decide⟩

theorem document_keyed (order : Traversal (FieldValue D)) (records : List (Record D)) :
    Keyed (document ofInt order records) := by
  have name (key : String) (keyword : ascii key ∈ keywords) : Name (ascii key) := names keyword
  have noString (members : Members D) (s : Bytes) : JsonValue.object members ≠ .string s := by
    intro same
    cases same
  have labels (labels : List Label) : KeyedOf (labels.map keyValue : List (JsonValue D)) := by
    induction labels with
    | nil => trivial
    | cons l rest ih =>
      refine ⟨noString _, ?_, ih⟩
      exact ⟨name "key" (by decide), trivial, name "value" (by decide),
        ⟨name "stringValue" (by decide), trivial, trivial⟩, trivial⟩
  have metrics (entries : List (Entry D)) :
      KeyedOf (entries.map (metric ofInt)) := by
    induction entries with
    | nil => trivial
    | cons entry rest ih =>
      refine ⟨noString _, ?_, ih⟩
      refine ⟨name "name" (by decide), trivial, name "gauge" (by decide),
        ⟨name "dataPoints" (by decide), ⟨noString _, ?_, trivial⟩, trivial⟩, trivial⟩
      refine ⟨name "timeUnixNano" (by decide), trivial, name "asDouble" (by decide), trivial, ?_⟩
      split_ifs
      · trivial
      · exact ⟨name "attributes" (by decide), labels _, trivial⟩
  exact ⟨name "resourceMetrics" (by decide), ⟨noString _,
    ⟨name "scopeMetrics" (by decide), ⟨noString _,
      ⟨name "metrics" (by decide), metrics _, trivial⟩, trivial⟩, trivial⟩, trivial⟩, trivial⟩

/-! ## Reading -/

private theorem member_strings {key : String} {v x : JsonValue D} (found : member key v = some x) :
    x.strings ⊆ v.strings := by
  cases v with
  | object members =>
    obtain ⟨before, after, split, _⟩ := List.lookup_eq_some_iff.mp found
    intro s inside
    refine mem_stringsIn.mpr ⟨(ascii key, x), ?_, Or.inr inside⟩
    rw [split]
    exact List.mem_append_right _ List.mem_cons_self
  | _ => cases found

private theorem asString_strings {v : JsonValue D} {s : Bytes} (read : asString v = some s) : s ∈ v.strings := by
  cases v with
  | string value =>
    cases read
    exact List.mem_singleton.mpr rfl
  | _ => cases read

/-- What was read from an array was read from its elements. -/
private theorem readAll_mem {A : Type} {read : JsonValue D → Option A} {v : JsonValue D} {list : List A}
    (all : readAll read v = some list) {a : A} (member : a ∈ list) : ∃ x, x.strings ⊆ v.strings ∧ read x = some a := by
  cases v with
  | array elements =>
    obtain ⟨x, inside, readIt⟩ := List.exists_of_mem_mapM all member
    refine ⟨x, fun s shown => ?_, readIt⟩
    rw [strings, stringsOf_eq]
    exact List.mem_flatMap.mpr ⟨x, inside, shown⟩
  | _ => cases all

private theorem readAll_map {A B : Type} {read : JsonValue D → Option B} {value : A → JsonValue D} {result : A → B}
    {items : List A} (each : ∀ item ∈ items, read (value item) = some (result item)) :
    readAll read (.array (items.map value)) = some (items.map result) :=
  List.mapM_map_eq_some each

/-- The strings of a point are strings of the value. -/
def Shown (v : JsonValue D) (p : GaugePoint) : Prop :=
  p.name ∈ v.strings ∧ ∀ l ∈ p.attributes, l.key ∈ v.strings ∧ l.value ∈ v.strings

private theorem readAttribute_shown {v : JsonValue D} {l : Label} (read : readAttribute v = some l) :
    l.key ∈ v.strings ∧ l.value ∈ v.strings := by
  simp only [readAttribute, bind, pure, Option.bind_eq_some_iff, Option.some.injEq] at read
  obtain ⟨keyAt, foundKey, key, readKey, object, foundObject, valueAt, foundValue, value, readValue, rfl⟩ := read
  exact ⟨member_strings foundKey (asString_strings readKey),
    member_strings foundObject (member_strings foundValue (asString_strings readValue))⟩

private theorem readAttributes_shown {v : JsonValue D} {labels : List Label} (read : readAttributes v = some labels) :
    ∀ l ∈ labels, l.key ∈ v.strings ∧ l.value ∈ v.strings := by
  intro l inside
  unfold readAttributes at read
  split at read
  · cases read
    exact absurd inside List.not_mem_nil
  · rename_i list found
    obtain ⟨x, included, readOne⟩ := readAll_mem read inside
    obtain ⟨key, value⟩ := readAttribute_shown readOne
    exact ⟨member_strings found (included key), member_strings found (included value)⟩

private theorem readMetric_shown {v : JsonValue D} {read : List GaugePoint} (reads : readMetric v = some read) :
    ∀ p ∈ read, Shown v p := by
  intro p inside
  simp only [readMetric, bind, Option.bind_eq_some_iff] at reads
  obtain ⟨nameAt, foundName, name, readName, gauge, foundGauge, list, foundList, all⟩ := reads
  obtain ⟨x, included, readOne⟩ := readAll_mem all inside
  simp only [readPoint, bind, pure, Option.bind_eq_some_iff, Option.some.injEq] at readOne
  obtain ⟨_, _, _, _, _, _, labels, readLabels, rfl⟩ := readOne
  have up {s : Bytes} (below : s ∈ x.strings) : s ∈ v.strings :=
    member_strings foundGauge (member_strings foundList (included below))
  refine ⟨member_strings foundName (asString_strings readName), fun l among => ?_⟩
  obtain ⟨key, value⟩ := readAttributes_shown readLabels l among
  exact ⟨up key, up value⟩

private theorem collect_shown {key : String} {read : JsonValue D → Option (List GaugePoint)}
    (inner : ∀ {v list}, read v = some list → ∀ p ∈ list, Shown v p) {v : JsonValue D} {list : List GaugePoint}
    (reads : collect key read v = some list) : ∀ p ∈ list, Shown v p := by
  simp only [collect, bind, pure, Option.bind_eq_some_iff, Option.some.injEq] at reads
  obtain ⟨array, found, parts, all, rfl⟩ := reads
  intro p inside
  obtain ⟨part, among, member⟩ := List.mem_flatten.mp inside
  obtain ⟨x, included, readOne⟩ := readAll_mem all among
  have up {s : Bytes} (below : s ∈ x.strings) : s ∈ v.strings := member_strings found (included below)
  obtain ⟨name, attributes⟩ := inner readOne p member
  exact ⟨up name, fun l label => ⟨up (attributes l label).1, up (attributes l label).2⟩⟩

theorem gaugePoints_shown {v : JsonValue D} {read : List GaugePoint} (reads : gaugePoints v = some read) :
    ∀ p ∈ read, Shown v p :=
  collect_shown (collect_shown (collect_shown readMetric_shown)) reads

/-- A payload that is complete has only plain strings. -/
theorem plain_of_complete (printed : floats.Printed) (converts : Converts floats ofInt)
    (order : Traversal (FieldValue D)) {records : List (Record D)} (finite : FiniteFields floats records)
    (complete : Complete floats (payload floats ofInt order records) records) : ∀ s ∈ texts records, Plain s := by
  obtain ⟨read, list, parsed, reads, perm⟩ := complete
  rw [payload_raw converts order finite] at parsed
  have shown : ∀ s ∈ texts records, s ∈ read.strings := by
    intro s member
    obtain ⟨rec, inside, field, among, written⟩ :
        ∃ rec ∈ records, ∃ field ∈ rec.fields.entries, Written (rec, field) s := by
      simpa [texts, Written] using member
    have point : (⟨field.1, TimestampToNanos rec.timestamp, rec.labels⟩ : GaugePoint) ∈ list :=
      perm.mem_iff.mpr (List.mem_flatMap.mpr ⟨rec, inside, List.mem_map.mpr ⟨field, among, rfl⟩⟩)
    obtain ⟨name, attributes⟩ := gaugePoints_shown reads _ point
    obtain rfl | ⟨l, label, rfl | rfl⟩ := written
    · exact name
    · exact (attributes l label).1
    · exact (attributes l label).2
  have plain := plain_of_shown printed (document_keyed order records) parsed fun s inside => ?_
  · exact fun s member => plain s (texts_shown order member)
  · rcases document_strings inside with keyword | text
    · exact Or.inl (names keyword).1
    · exact Or.inr (shown s text)

private theorem rereadOf_map {A : Type} (value : A → JsonValue D) (items : List A) :
    rereadOf floats (items.map value) = items.map fun item => reread floats (value item) := by
  induction items with
  | nil => rfl
  | cons item rest ih => rw [List.map_cons, rereadOf, ih, List.map_cons]

private theorem collect_reread {A : Type} {key : String} {read : JsonValue D → Option (List GaugePoint)}
    {value : A → JsonValue D} {result : A → List GaugePoint} {items : List A}
    (each : ∀ item ∈ items, read (reread floats (value item)) = some (result item)) :
    collect key read (reread floats (.object [(ascii key, .array (items.map value))])) =
      some (items.map result).flatten := by
  have found : member key (reread floats (.object [(ascii key, .array (items.map value))])) =
      some (.array (rereadOf floats (items.map value))) := List.lookup_cons_self
  rw [collect, found, rereadOf_map]
  simp only [bind, Option.bind_some, readAll_map each, pure]

private theorem readAttribute_reread (l : Label) : readAttribute (reread floats (keyValue l)) = some l := rfl

private theorem readPoint_reread (rec : Record D) (field : Sigma fun _ : Bytes => FieldValue D) (name : Bytes) :
    readPoint name (reread floats (point ofInt rec field)) =
      some ⟨name, TimestampToNanos rec.timestamp, rec.labels⟩ := by
  obtain ⟨timestamp, labels, fields⟩ := rec
  have attributes : readAttributes (reread floats (point ofInt ⟨timestamp, labels, fields⟩ field)) = some labels := by
    cases labels with
    | nil => rfl
    | cons l rest =>
      have all : readAll readAttribute (.array ((l :: rest).map fun l => reread floats (keyValue l))) =
          some ((l :: rest).map fun l => l) := readAll_map fun l _ => readAttribute_reread l
      rw [← rereadOf_map, List.map_id'] at all
      exact all
  have time : member "timeUnixNano" (reread floats (point ofInt ⟨timestamp, labels, fields⟩ field)) =
      some (.number_unsigned (TimestampToNanos timestamp)) := by
    cases labels <;> rfl
  have number : ∃ v, member "asDouble" (reread floats (point ofInt ⟨timestamp, labels, fields⟩ field)) = some v := by
    cases labels <;> exact ⟨_, rfl⟩
  obtain ⟨v, number⟩ := number
  rw [readPoint, attributes, time, number]
  rfl

private theorem readMetric_reread (entry : Entry D) :
    readMetric (reread floats (metric ofInt entry)) =
      some [⟨entry.2.1, TimestampToNanos entry.1.timestamp, entry.1.labels⟩] := by
  have one := @readPoint_reread D floats ofInt entry.1 entry.2 entry.2.1
  have all : readAll (readPoint entry.2.1) (.array [reread floats (point ofInt entry.1 entry.2)]) =
      some [⟨entry.2.1, TimestampToNanos entry.1.timestamp, entry.1.labels⟩] := by
    change [reread floats (point ofInt entry.1 entry.2)].mapM (readPoint entry.2.1) = _
    rw [List.mapM_cons, one]
    rfl
  exact all

/-- A receiver reads every field of the document. -/
theorem gaugePoints_reread (order : Traversal (FieldValue D)) (records : List (Record D)) :
    gaugePoints (reread floats (document ofInt order records)) = some ((entries order records).map fun entry =>
      ⟨entry.2.1, TimestampToNanos entry.1.timestamp, entry.1.labels⟩) := by
  have metrics : collect "metrics" readMetric (reread floats (.object [(ascii "metrics",
      .array ((entries order records).map (metric ofInt)))])) = _ :=
    collect_reread fun entry _ => readMetric_reread entry
  have scopes : collect "scopeMetrics" (collect "metrics" readMetric) (reread floats (.object [(ascii "scopeMetrics",
      .array ([()].map fun _ => .object [(ascii "metrics", .array ((entries order records).map (metric ofInt)))]))])) = _ :=
    collect_reread fun _ _ => metrics
  have resources : gaugePoints (reread floats (.object [(ascii "resourceMetrics", .array ([()].map fun _ =>
      .object [(ascii "scopeMetrics", .array ([()].map fun _ =>
        .object [(ascii "metrics", .array ((entries order records).map (metric ofInt)))]))]))])) = _ :=
    collect_reread fun _ _ => scopes
  refine Eq.trans resources ?_
  simp only [List.map_cons, List.map_nil, List.flatten_cons, List.flatten_nil, List.append_nil]
  rw [← List.flatMap_def]
  exact congrArg some (List.flatMap_pure_eq_map _ _)

/-- Plain strings make a complete payload. -/
theorem complete_of_plain (printed : floats.Printed) (converts : Converts floats ofInt)
    (order : Traversal (FieldValue D)) {records : List (Record D)} (finite : FiniteFields floats records)
    (valid : ∀ s ∈ texts records, ValidUtf8 s) (plain : ∀ s ∈ texts records, Plain s) :
    Complete floats (payload floats ofInt order records) records := by
  have known : ∀ s ∈ keywords, ValidUtf8 s := by decide
  refine ⟨reread floats (document ofInt order records), _, ?_, gaugePoints_reread order records, ?_⟩
  · rw [payload_raw converts order finite]
    refine parse_raw printed (fun s inside => ?_) fun s inside => ?_
    · rcases document_strings inside with keyword | text
      · exact known s keyword
      · exact valid s text
    · rcases document_strings inside with keyword | text
      · exact (names keyword).1
      · exact plain s text
  · rw [entries, List.map_flatMap, points]
    refine List.Perm.flatMap_left records fun rec _ => ?_
    rw [List.map_map]
    exact (order.perm rec.fields).map _

/-- The payload of a batch is complete exactly if no field's name, label's key or label's value needs an escape. -/
theorem payload_complete_iff (printed : floats.Printed) (converts : Converts floats ofInt)
    (order : Traversal (FieldValue D)) (sink : OtlpExportSink) {batch : DataBatch D} (nonempty : batch.Empty = false)
    (finite : FiniteFields floats batch.records) (valid : ∀ s ∈ texts batch.records, ValidUtf8 s) :
    Complete floats (Write floats ofInt order sink (some batch)).last_payload_ batch.records ↔
      ∀ s ∈ texts batch.records, Plain s := by
  have built : (Write floats ofInt order sink (some batch)).last_payload_ =
      payload floats ofInt order batch.records := by
    rw [Write, nonempty, if_neg Bool.false_ne_true]
  rw [built]
  exact ⟨plain_of_complete printed converts order finite, complete_of_plain printed converts order finite valid⟩

/-- One metric of a process of this name. -/
def oneMetric (comm : Bytes) : DataBatch (Option ℤ) :=
  { type := .kMetrics
    records := [⟨0, [⟨ascii "comm", comm⟩], AList.singleton (ascii "rss") (.uint64 1)⟩] }

private theorem one_finite (comm : Bytes) : FiniteFields integers (oneMetric comm).records := by
  intro rec inside field among d double
  obtain rfl := List.mem_singleton.mp inside
  obtain rfl := List.mem_singleton.mp among
  cases double

private theorem converts_some : Converts integers some := fun _ _ _ => rfl

theorem payload_complete_plain : Complete integers
    (Write integers some (Traversal.listed _) {} (some (oneMetric (ascii "sh")))).last_payload_
    (oneMetric (ascii "sh")).records :=
  (payload_complete_iff integers_printed converts_some (Traversal.listed _) {} rfl (one_finite _) (by decide)).mpr
    (by decide)

/-- A quote in a label ends the string. -/
theorem payload_broken : integers.Printed ∧ Converts integers some ∧
    FiniteFields integers (oneMetric (ascii "a\"b")).records ∧
    (∀ s ∈ texts (oneMetric (ascii "a\"b")).records, ValidUtf8 s) ∧
    ¬ Complete integers (Write integers some (Traversal.listed _) {} (some (oneMetric (ascii "a\"b")))).last_payload_
      (oneMetric (ascii "a\"b")).records := by
  refine ⟨integers_printed, converts_some, one_finite _, by decide, fun complete => ?_⟩
  exact absurd (plain_of_complete integers_printed converts_some (Traversal.listed _) (one_finite _) complete) (by decide)

end OtlpExportSink

end Illuminator
