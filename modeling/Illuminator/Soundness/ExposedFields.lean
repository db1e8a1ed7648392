import Illuminator.Model.PrometheusSink
import Illuminator.Standards.PrometheusText
import Illuminator.ToMathlib.Gather
import Mathlib.Data.List.Perm.Basic
import Mathlib.Data.Rat.Init

/-! # The page of the Prometheus sink

A name and its labels are read back from the text that the sink keeps a value under, when the labels have legal names.
So with legal names the page shows the values written last, each under a metric's name and labels; it is well formed when
no two series come out the same, and it is right when what is printed of a value stands for the value.
-/

namespace Illuminator

namespace PrometheusSink

open PrometheusText

variable {D : Type}

/-! ## What is written -/

/-- A field's name and the labels it was written with. -/
abbrev Series : Type := Bytes × List Label

def recordWrites (rec : Record D) : List (Series × FieldValue D) :=
  rec.fields.entries.map fun field => ((field.1, rec.labels), field.2)

def batchWrites : Option (DataBatch D) → List (Series × FieldValue D)
  | none => []
  | some batch => batch.records.flatMap recordWrites

/-- The value that was written last to each series. -/
def written (batches : List (Option (DataBatch D))) : AList fun _ : Series => FieldValue D :=
  AList.latest Prod.fst Prod.snd (batches.flatMap batchWrites)

/-- What a value is kept under. -/
def fullKey (prefix_ : Bytes) (series : Series) : Bytes := metricName prefix_ series.1 ++ BuildLabelString series.2

def put (ofInt : ℤ → D) (sink : PrometheusSink D) (write : Series × FieldValue D) : PrometheusSink D :=
  writeField ofInt (BuildLabelString write.1.2) sink ⟨write.1.1, write.2⟩

/-- Writing batches is writing their fields in turn. -/
theorem run_eq (ofInt : ℤ → D) (prefix_ : Bytes) (batches : List (Option (DataBatch D))) :
    run ofInt prefix_ batches = (batches.flatMap batchWrites).foldl (put ofInt) { prefix_ := prefix_ } := by
  rw [run, List.foldl_flatMap]
  congr 1
  funext sink batch
  cases batch with
  | none => rfl
  | some batch =>
    rw [Write, batchWrites, List.foldl_flatMap]
    congr 1
    funext sink rec
    rw [writeRecord, recordWrites, List.foldl_map]
    rfl

theorem foldl_put (ofInt : ℤ → D) (writes : List (Series × FieldValue D)) (sink : PrometheusSink D) :
    (writes.foldl (put ofInt) sink).gauges_ = sink.gauges_.gather (fun write => fullKey sink.prefix_ write.1)
        (fun _ write => ExtractDouble ofInt write.2) writes ∧
      (writes.foldl (put ofInt) sink).metric_help_ = sink.metric_help_.gather
        (fun write => metricName sink.prefix_ write.1.1) (fun _ write => metricName sink.prefix_ write.1.1) writes := by
  induction writes generalizing sink with
  | nil => exact ⟨rfl, rfl⟩
  | cons write rest ih => exact ih (put ofInt sink write)

/-- The sink holds the last value of every key, and the name of every metric. -/
theorem run_holds (ofInt : ℤ → D) (prefix_ : Bytes) (batches : List (Option (DataBatch D))) :
    (run ofInt prefix_ batches).gauges_ = AList.latest (fun write => fullKey prefix_ write.1)
        (fun write => ExtractDouble ofInt write.2) (batches.flatMap batchWrites) ∧
      (run ofInt prefix_ batches).metric_help_ = AList.latest (fun write => metricName prefix_ write.1.1)
        (fun write => metricName prefix_ write.1.1) (batches.flatMap batchWrites) := by
  rw [run_eq]
  exact foldl_put ofInt _ { prefix_ := prefix_ }

/-! ## Labels -/

def labelPairs (labels : List Label) : List (Bytes × Bytes) := labels.map fun label => (label.key, label.value)

theorem label_injective : Function.Injective fun label : Label => (label.key, label.value) :=
  fun _ _ pairs => Label.ext (congrArg Prod.fst pairs) (congrArg Prod.snd pairs)

theorem escapeChar_cases (c : UInt8) : (c = 0x5C ∧ escapeChar c = [0x5C, 0x5C]) ∨
    (c = 0x22 ∧ escapeChar c = [0x5C, 0x22]) ∨ (c = 0x0A ∧ escapeChar c = [0x5C, 0x6E]) ∨
      (c ≠ 0x5C ∧ c ≠ 0x22 ∧ c ≠ 0x0A ∧ escapeChar c = [c]) := by
  rw [escapeChar]
  split_ifs with backslash quote newline
  · exact Or.inl ⟨backslash, rfl⟩
  · exact Or.inr (Or.inl ⟨quote, rfl⟩)
  · exact Or.inr (Or.inr (Or.inl ⟨newline, rfl⟩))
  · exact Or.inr (Or.inr (Or.inr ⟨backslash, quote, newline, rfl⟩))

/-- An escaped value ends at the first quote. -/
theorem labelValue_escaped (value rest : Bytes) :
    labelValue (EscapeLabelValue value ++ 0x22 :: rest) = some (value, rest) := by
  induction value with
  | nil => rfl
  | cons c others ih =>
    rw [EscapeLabelValue] at ih
    rw [EscapeLabelValue, List.flatMap_cons, List.append_assoc]
    rcases escapeChar_cases c with ⟨rfl, text⟩ | ⟨rfl, text⟩ | ⟨rfl, text⟩ | ⟨backslash, quote, newline, text⟩
    · rw [text]
      change (labelValue (others.flatMap escapeChar ++ 0x22 :: rest)).map _ = _
      rw [ih]
      rfl
    · rw [text]
      change (labelValue (others.flatMap escapeChar ++ 0x22 :: rest)).map _ = _
      rw [ih]
      rfl
    · rw [text]
      change (labelValue (others.flatMap escapeChar ++ 0x22 :: rest)).map _ = _
      rw [ih]
      rfl
    · rw [text, List.singleton_append, labelValue_cons backslash quote, ih]
      rfl

theorem notMem_escaped (value : Bytes) : 0x0A ∉ EscapeLabelValue value := by
  rw [EscapeLabelValue, List.mem_flatMap]
  rintro ⟨c, _, inside⟩
  rcases escapeChar_cases c with ⟨_, text⟩ | ⟨_, text⟩ | ⟨_, text⟩ | ⟨_, _, newline, text⟩
  · exact absurd (text ▸ inside) (by decide)
  · exact absurd (text ▸ inside) (by decide)
  · exact absurd (text ▸ inside) (by decide)
  · rw [text, List.mem_singleton] at inside
    exact newline inside.symm

/-- Legal labels are read back one after the other. -/
theorem labels_rendered {labels : List Label} (some_ : labels ≠ []) (legal : ∀ label ∈ labels, LabelName label.key = true)
    {fuel : ℕ} (enough : labels.length ≤ fuel) (rest : Bytes) :
    PrometheusText.labels fuel ([0x2C].intercalate (labels.map labelText) ++ 0x7D :: rest) =
      some (labelPairs labels, rest) := by
  induction labels generalizing fuel with
  | nil => exact absurd rfl some_
  | cons label others ih =>
    obtain ⟨named, legal⟩ := List.forall_mem_cons.mp legal
    cases fuel with
    | zero => exact absurd enough (Nat.not_succ_le_zero _)
    | succ fuel =>
      have first (after : Bytes) : labelText label ++ after =
          label.key ++ 0x3D :: 0x22 :: (EscapeLabelValue label.value ++ 0x22 :: after) := by simp [labelText]
      cases others with
      | nil =>
        rw [List.map_singleton, List.intercalate_singleton, first]
        exact labels_last named (labelValue_escaped _ _)
      | cons next others =>
        have more : [0x2C].intercalate ((label :: next :: others).map labelText) ++ 0x7D :: rest = labelText label ++
            0x2C :: ([0x2C].intercalate ((next :: others).map labelText) ++ 0x7D :: rest) := by
          rw [List.map_cons, List.map_cons, List.intercalate_cons_cons, List.append_assoc, List.append_assoc]
          rfl
        rw [more, first]
        exact labels_more named (labelValue_escaped _ _) (ih (List.cons_ne_nil _ _) legal (Nat.le_of_succ_le_succ enough))

theorem length_le_intercalate (labels : List Label) :
    labels.length ≤ ([0x2C].intercalate (labels.map labelText)).length := by
  induction labels with
  | nil => exact Nat.le_refl 0
  | cons label others ih =>
    cases others with
    | nil =>
      rw [List.map_singleton, List.intercalate_singleton]
      simp [labelText]
      omega
    | cons next others =>
      rw [List.map_cons, List.map_cons, List.intercalate_cons_cons, ← List.map_cons, List.length_append, List.length_append]
      simp only [List.length_cons, List.length_nil] at ih ⊢
      omega

/-! ## Names -/

theorem sanitized_metric (c : UInt8) : isMetricChar (if isalnum c || c == 0x5F then c else 0x5F) = true := by
  split_ifs with kept
  · simp only [isalnum, isMetricChar, isMetricStart, isLabelStart, isLetter, Bool.or_eq_true] at kept ⊢
    tauto
  · decide

theorem sanitized_start (c : UInt8) :
    isMetricStart (if isalnum c || c == 0x5F then c else 0x5F) = true ↔ isdigit c = false := by
  have letter : isMetricStart c = true → isdigit c = true → False := by
    simp only [isMetricStart, isLabelStart, isLetter, isdigit, Bool.or_eq_true, Bool.and_eq_true, decide_eq_true_eq,
      beq_iff_eq, UInt8.le_iff_toNat_le, ← UInt8.toNat_inj, UInt8.reduceToNat]
    omega
  rw [← Bool.not_eq_true]
  split_ifs with kept
  · refine ⟨letter, fun other => ?_⟩
    simp only [isalnum, isMetricStart, isLabelStart, isLetter, Bool.or_eq_true] at kept other ⊢
    tauto
  · refine iff_of_true (by decide) fun digit => kept ?_
    rw [isalnum, digit, Bool.or_true, Bool.true_or]

/-- Sanitised names are legal unless they begin with a digit. -/
theorem metricName_legal (prefix_ key : Bytes) :
    MetricName (metricName prefix_ key) = true ↔ ∀ c ∈ prefix_.head?, isdigit c = false := by
  have others (text : Bytes) : (SanitizeName text).all isMetricChar = true := by
    rw [SanitizeName, List.all_map, List.all_eq_true]
    exact fun c _ => sanitized_metric c
  cases prefix_ with
  | nil => exact iff_of_true (others key) fun c none => absurd none (Option.not_mem_none c)
  | cons c rest =>
    change (isMetricStart _ && (SanitizeName (rest ++ 0x5F :: key)).all isMetricChar) = true ↔ _
    rw [others, Bool.and_true, sanitized_start]
    exact ⟨fun letter d same => Option.mem_some.mp same ▸ letter, fun each => each c rfl⟩

/-! ## Rows -/

section Rows

variable (numbers : Numbers D) {prefix_ : Bytes} {series : Series}

/-- The row of a series is read as its sample. -/
theorem line_gaugeRow (named : MetricName (metricName prefix_ series.1) = true)
    (legal : ∀ label ∈ series.2, LabelName label.key = true) (d : D) :
    line numbers.parse (gaugeRow numbers.text ⟨fullKey prefix_ series, d⟩) =
      some (.sample (metricName prefix_ series.1) (labelPairs series.2) (numbers.back d)) := by
  obtain ⟨key, labels⟩ := series
  cases labels with
  | nil =>
    rw [gaugeRow, fullKey, BuildLabelString, List.isEmpty_nil, if_pos rfl, List.append_nil]
    exact line_sample numbers named d
  | cons label others =>
    have row : gaugeRow numbers.text ⟨fullKey prefix_ (key, label :: others), d⟩ = metricName prefix_ key ++ 0x7B ::
        ([0x2C].intercalate ((label :: others).map labelText) ++ 0x7D :: 0x20 :: numbers.text d) := by
      rw [gaugeRow, fullKey, BuildLabelString, List.isEmpty_cons, if_neg Bool.false_ne_true]
      simp only [List.append_assoc, List.cons_append, List.nil_append]
    rw [row]
    refine line_labelled numbers named (labels_rendered (List.cons_ne_nil _ _) legal ?_ _)
    rw [List.length_append]
    exact Nat.le_add_right_of_le (length_le_intercalate _)

theorem fullKey_clean (named : MetricName (metricName prefix_ series.1) = true)
    (legal : ∀ label ∈ series.2, LabelName label.key = true) : 0x0A ∉ fullKey prefix_ series := by
  have texts : ∀ label ∈ series.2, 0x0A ∉ labelText label := by
    intro label member
    have key : 0x0A ∉ label.key := fun inside =>
      absurd ((isLabelChar_of_labelName (legal label member)).2 _ inside) (by decide)
    have blank : (0x0A : UInt8) ≠ 0x3D ∧ (0x0A : UInt8) ≠ 0x22 := by decide
    simp only [labelText, List.mem_append, List.mem_cons, List.not_mem_nil, or_false, not_or]
    exact ⟨key, blank.1, blank.2, notMem_escaped _, blank.2⟩
  have name : 0x0A ∉ metricName prefix_ series.1 := fun inside =>
    absurd ((isMetricChar_of_metricName named).2 _ inside) (by decide)
  rw [fullKey, List.mem_append, not_or]
  refine ⟨name, ?_⟩
  rw [BuildLabelString]
  split_ifs
  · exact List.not_mem_nil
  · have braces : (0x0A : UInt8) ≠ 0x7B ∧ (0x0A : UInt8) ≠ 0x7D ∧ (0x0A : UInt8) ≠ 0x2C := by decide
    simp only [List.mem_cons, List.mem_append, List.not_mem_nil, or_false, not_or]
    refine ⟨braces.1, Delimited.notMem_intercalate braces.2.2 fun part inside => ?_, braces.2.1⟩
    obtain ⟨label, member, rfl⟩ := List.mem_map.mp inside
    exact texts label member

include numbers in
/-- The text that a value is kept under tells the metric's name and the labels. -/
theorem fullKey_injective (d : D) {other : Series} (named : MetricName (metricName prefix_ series.1) = true)
    (legal : ∀ label ∈ series.2, LabelName label.key = true)
    (other_named : MetricName (metricName prefix_ other.1) = true)
    (other_legal : ∀ label ∈ other.2, LabelName label.key = true)
    (same : fullKey prefix_ series = fullKey prefix_ other) :
    metricName prefix_ series.1 = metricName prefix_ other.1 ∧ series.2 = other.2 := by
  have first := line_gaugeRow numbers named legal d
  rw [same, line_gaugeRow numbers other_named other_legal d] at first
  obtain ⟨names, labels, _⟩ := Line.sample.inj (Option.some.inj first)
  exact ⟨names.symm, List.map_injective_iff.mpr label_injective labels.symm⟩

end Rows

/-! ## The page -/

/-- How `double`s are printed and read, with the conversion of integers and the number that a `double` is, if it is one. -/
structure Doubles (D : Type) extends Numbers D where
  ofInt : ℤ → D
  real : D → Option ℚ

/-- A `double` that stands for a value. -/
def Doubles.Denotes (doubles : Doubles D) (d : D) : FieldValue D → Prop
  | .int64 v => doubles.real d = some v.toInt
  | .uint64 v => doubles.real d = some v.toNat
  | other => d = ExtractDouble doubles.ofInt other

/-- What a series' value is read as, once it is on the page. -/
def Doubles.shown (doubles : Doubles D) (value : FieldValue D) : D := doubles.back (ExtractDouble doubles.ofInt value)

/-- The names that the page uses are legal, and no two series come out the same. -/
structure Legal (prefix_ : Bytes) (series : AList fun _ : Series => FieldValue D) : Prop where
  start : ∀ one ∈ series, ∀ c ∈ prefix_.head?, isdigit c = false
  labels : ∀ one ∈ series, ∀ label ∈ one.2, LabelName label.key = true ∧ ValidUtf8 label.value
  distinct : ∀ one ∈ series, (one.2.map Label.key).Nodup
  apart : ∀ one ∈ series, ∀ other ∈ series, metricName prefix_ one.1 = metricName prefix_ other.1 →
    one.2.Perm other.2 → one = other

def expose (doubles : Doubles D) (order : ExposeOrder D) (prefix_ : Bytes) (batches : List (Option (DataBatch D))) :
    Bytes :=
  (run doubles.ofInt prefix_ batches).Expose doubles.text order

/-- The page shows some values for the series, each in a sample of its own whose metric has its `HELP` and `TYPE`. -/
def Shows (doubles : Doubles D) (prefix_ : Bytes) (series : AList fun _ : Series => FieldValue D) (text : Bytes)
    (value : (Sigma fun _ : Series => FieldValue D) → D) : Prop :=
  ∃ lines, page doubles.parse text = some lines ∧ WellFormed lines ∧
    (∀ sample ∈ lines.filterMap Line.sampled,
      sample.1 ∈ lines.filterMap Line.helped ∧ sample.1 ∈ lines.filterMap Line.typed) ∧
    (lines.filterMap Line.sampled).Perm
      (series.entries.map fun entry => (metricName prefix_ entry.1.1, labelPairs entry.1.2, value entry))

section Page

variable (doubles : Doubles D) (order : ExposeOrder D) {prefix_ : Bytes} {batches : List (Option (DataBatch D))}

theorem mem_written {one : Series} :
    one ∈ written batches ↔ ∃ write ∈ batches.flatMap batchWrites, write.1 = one := AList.mem_latest

theorem metricName_of_legal (legal : Legal prefix_ (written batches)) {one : Series} (member : one ∈ written batches) :
    MetricName (metricName prefix_ one.1) = true :=
  (metricName_legal prefix_ one.1).mpr (legal.start one member)

/-- The values on the page are those written last. -/
theorem gauges_perm (legal : Legal prefix_ (written batches)) :
    (order.gauges.visit (run doubles.ofInt prefix_ batches).gauges_).Perm
      ((written batches).entries.map fun entry => ⟨fullKey prefix_ entry.1, ExtractDouble doubles.ofInt entry.2⟩) := by
  refine (order.gauges.perm _).trans ?_
  rw [(run_holds doubles.ofInt prefix_ batches).1]
  apply AList.latest_perm (fullKey prefix_) (ExtractDouble doubles.ofInt)
  intro one left other right same
  obtain ⟨names, labels⟩ := fullKey_injective doubles.toNumbers (doubles.ofInt 0) (metricName_of_legal legal left)
    (fun label member => (legal.labels one left label member).1) (metricName_of_legal legal right)
    (fun label member => (legal.labels other right label member).1) same
  exact legal.apart one left other right names (.of_eq labels)

theorem mem_metric_help {name : Bytes} : name ∈ (run doubles.ofInt prefix_ batches).metric_help_ ↔
    ∃ one ∈ written batches, metricName prefix_ one.1 = name := by
  rw [(run_holds doubles.ofInt prefix_ batches).2, AList.mem_latest]
  constructor
  · rintro ⟨write, member, rfl⟩
    exact ⟨write.1, mem_written.mpr ⟨write, member, rfl⟩, rfl⟩
  · rintro ⟨one, member, rfl⟩
    obtain ⟨write, inside, rfl⟩ := mem_written.mp member
    exact ⟨write, inside, rfl⟩

/-- The lines before the samples. -/
def headLines (name : Bytes) : List (Line D) := [.help name, .type name (ascii "gauge")]

theorem headRows_read {name : Bytes} (named : MetricName name = true) :
    (headRows name).mapM (line doubles.parse) = some (headLines name) := by
  rw [headRows, List.mapM_cons, List.mapM_cons, List.mapM_nil, line_help named, line_type named (by decide)]
  rfl

theorem headRows_clean {name : Bytes} (named : MetricName name = true) : ∀ row ∈ headRows name, 0x0A ∉ row := by
  have inside : 0x0A ∉ name := fun member => absurd ((isMetricChar_of_metricName named).2 _ member) (by decide)
  have texts : 0x0A ∉ ascii "# HELP " ∧ 0x0A ∉ ascii "# TYPE " ∧ 0x0A ∉ ascii "Illuminator metric" ∧
      0x0A ∉ ascii "gauge" := by decide
  have blank : (0x0A : UInt8) ≠ 0x20 := by decide
  intro row member
  simp only [headRows, List.mem_cons, List.not_mem_nil, or_false] at member
  rcases member with rfl | rfl
  · simp only [List.mem_append, List.mem_cons, not_or]
    exact ⟨⟨texts.1, inside⟩, blank, texts.2.2.1⟩
  · simp only [List.mem_append, List.mem_cons, not_or]
    exact ⟨texts.2.1, inside, blank, texts.2.2.2⟩

/-- The line that an entry is read as. -/
def gaugeLine (entry : Sigma fun _ : Bytes => D) : Line D := (line doubles.parse (gaugeRow doubles.text entry)).getD .nothing

/-- Legal names make a page that is read, and whose samples are the values written last. -/
theorem page_of_legal (legal : Legal prefix_ (written batches)) :
    page doubles.parse (expose doubles order prefix_ batches) =
      some (((order.metric_help.visit (run doubles.ofInt prefix_ batches).metric_help_).map Sigma.fst).flatMap headLines ++
        (order.gauges.visit (run doubles.ofInt prefix_ batches).gauges_).map (gaugeLine doubles)) := by
  have heads : ∀ entry ∈ order.metric_help.visit (run doubles.ofInt prefix_ batches).metric_help_,
      MetricName entry.1 = true := by
    intro entry member
    have present := AList.mem_keys.mpr (List.mem_map_of_mem (order.metric_help.mem_visit.mp member))
    obtain ⟨one, inside, same⟩ := (mem_metric_help doubles).mp present
    rw [← same]
    exact metricName_of_legal legal inside
  have gauges : ∀ entry ∈ order.gauges.visit (run doubles.ofInt prefix_ batches).gauges_, ∃ one ∈ written batches,
      entry.1 = fullKey prefix_ one := by
    intro entry member
    obtain ⟨source, inside, rfl⟩ := List.mem_map.mp ((gauges_perm doubles order legal).mem_iff.mp member)
    exact ⟨source.1, AList.mem_keys.mpr (List.mem_map_of_mem inside), rfl⟩
  refine page_rows (fun row member => ?_) ?_
  · rcases List.mem_append.mp member with head | gauge
    · obtain ⟨entry, inside, shown⟩ := List.mem_flatMap.mp head
      exact headRows_clean (heads entry inside) row shown
    · obtain ⟨entry, inside, rfl⟩ := List.mem_map.mp gauge
      obtain ⟨one, present, key⟩ := gauges entry inside
      have clean := fullKey_clean (metricName_of_legal legal present)
        fun label member => (legal.labels one present label member).1
      have number : 0x0A ∉ doubles.text entry.2 := fun member =>
        ((doubles.solid _ (doubles.parses entry.2)).2 _ member).2.1 rfl
      rw [gaugeRow, key, List.mem_append, List.mem_cons, not_or, not_or]
      exact ⟨clean, by decide, number⟩
  · rw [rows, List.flatMap_map, List.mapM_append, List.mapM_flatMap_eq_some fun entry member => headRows_read doubles (heads entry member),
      List.mapM_map_eq_some fun entry member => ?_]
    · rfl
    · obtain ⟨one, present, key⟩ := gauges entry member
      have read := line_gaugeRow doubles.toNumbers (metricName_of_legal legal present)
        (fun label member => (legal.labels one present label member).1) entry.2
      rw [← key] at read
      rw [gaugeLine, read, Option.getD_some]

/-- The samples that legal names make. -/
theorem sampled_perm (legal : Legal prefix_ (written batches)) :
    ((order.gauges.visit (run doubles.ofInt prefix_ batches).gauges_).map (gaugeLine doubles)).filterMap
        Line.sampled |>.Perm ((written batches).entries.map fun entry =>
      (metricName prefix_ entry.1.1, labelPairs entry.1.2, doubles.shown entry.2)) := by
  rw [List.filterMap_map]
  refine ((gauges_perm doubles order legal).filterMap _).trans (.of_eq ?_)
  rw [List.filterMap_map, ← List.filterMap_eq_map]
  refine List.filterMap_congr fun entry member => ?_
  have present := AList.mem_keys.mpr (List.mem_map_of_mem member)
  have read := line_gaugeRow doubles.toNumbers (metricName_of_legal legal present)
    (fun label inside => (legal.labels _ present label inside).1) (ExtractDouble doubles.ofInt entry.2)
  rw [Function.comp_apply, Function.comp_apply, gaugeLine, read]
  rfl

/-- A gauge's line is a sample. -/
theorem gaugeLine_sample (legal : Legal prefix_ (written batches)) :
    ∀ one ∈ (order.gauges.visit (run doubles.ofInt prefix_ batches).gauges_).map (gaugeLine doubles),
      one.helped = none ∧ one.typed = none := by
  rintro one member
  obtain ⟨entry, inside, rfl⟩ := List.mem_map.mp member
  obtain ⟨source, present, rfl⟩ := List.mem_map.mp ((gauges_perm doubles order legal).mem_iff.mp inside)
  have here := AList.mem_keys.mpr (List.mem_map_of_mem present)
  have read := line_gaugeRow doubles.toNumbers (metricName_of_legal legal here)
    (fun label inside => (legal.labels _ here label inside).1) (ExtractDouble doubles.ofInt source.2)
  rw [gaugeLine, read]
  exact ⟨rfl, rfl⟩

/-- Legal names make a well formed page with the values written last. -/
theorem shows_of_legal (legal : Legal prefix_ (written batches)) :
    Shows doubles prefix_ (written batches) (expose doubles order prefix_ batches)
      fun entry => doubles.shown entry.2 := by
  refine ⟨_, page_of_legal doubles order legal, ?_⟩
  have distinct := order.metric_help.nodup_visit (run doubles.ofInt prefix_ batches).metric_help_
  have listed {name : Bytes} : name ∈ (order.metric_help.visit (run doubles.ofInt prefix_ batches).metric_help_).map
      Sigma.fst ↔ ∃ one ∈ written batches, metricName prefix_ one.1 = name := by
    rw [← mem_metric_help doubles, AList.mem_keys]
    exact ((order.metric_help.perm _).map Sigma.fst).mem_iff
  have samples := sampled_perm doubles order legal
  have plain := gaugeLine_sample doubles order legal
  generalize (order.metric_help.visit (run doubles.ofInt prefix_ batches).metric_help_).map Sigma.fst = names
    at distinct listed ⊢
  generalize (order.gauges.visit (run doubles.ofInt prefix_ batches).gauges_).map (gaugeLine doubles) = gauges
    at samples plain ⊢
  have helped : (names.flatMap headLines ++ gauges).filterMap Line.helped =
      names := by
    rw [List.filterMap_append, List.filterMap_flatMap, List.filterMap_eq_nil_iff.mpr fun one member => (plain one member).1,
      List.append_nil]
    exact List.flatMap_singleton' names
  have typed : (names.flatMap headLines ++ gauges).filterMap Line.typed =
      names := by
    rw [List.filterMap_append, List.filterMap_flatMap, List.filterMap_eq_nil_iff.mpr fun one member => (plain one member).2,
      List.append_nil]
    exact List.flatMap_singleton' names
  have heads : ∀ one : Line D, one ∈ names.flatMap headLines → one.sampled = none := by
    intro one member
    obtain ⟨name, _, inside⟩ := List.mem_flatMap.mp member
    simp only [headLines, List.mem_cons, List.not_mem_nil, or_false] at inside
    rcases inside with rfl | rfl
    · rfl
    · rfl
  have sampled : (names.flatMap headLines ++ gauges).filterMap Line.sampled =
      gauges.filterMap Line.sampled := by
    rw [List.filterMap_append, List.filterMap_eq_nil_iff.mpr heads, List.nil_append]
  have shown {sample : Bytes × List (Bytes × Bytes) × D} (member : sample ∈ gauges.filterMap Line.sampled) :
      ∃ one ∈ written batches, sample.1 = metricName prefix_ one.1 ∧ sample.2.1 = labelPairs one.2 := by
    obtain ⟨entry, inside, rfl⟩ := List.mem_map.mp (samples.mem_iff.mp member)
    exact ⟨entry.1, AList.mem_keys.mpr (List.mem_map_of_mem inside), rfl, rfl⟩
  refine ⟨⟨?_, ?_, ?_, ?_, ?_, ?_⟩, ?_, ?_⟩
  · rw [helped]
    exact distinct
  · rw [typed]
    exact distinct
  · refine List.pairwise_append.mpr ⟨?_, ?_, ?_⟩
    · refine List.pairwise_of_forall_mem_list fun earlier first later _ name _ sample member => ?_
      rw [heads earlier first] at member
      cases member
    · refine List.pairwise_of_forall_mem_list fun earlier _ later second name member => ?_
      rw [(plain later second).2] at member
      cases member
    · intro earlier first later _ name _ sample member
      rw [heads earlier first] at member
      cases member
  · rw [sampled]
    intro sample member
    obtain ⟨one, present, _, labels⟩ := shown member
    rw [labels, labelPairs, List.map_map]
    exact legal.distinct one present
  · rw [sampled]
    intro sample member label inside
    obtain ⟨one, present, _, labels⟩ := shown member
    rw [labels, labelPairs, List.mem_map] at inside
    obtain ⟨source, kept, rfl⟩ := inside
    exact (legal.labels one present source kept).2
  · rw [sampled]
    refine (samples.pairwise_iff Apart.symm).mpr (List.pairwise_map.mpr ?_)
    refine (List.nodupKeys_iff_pairwise.mp (written batches).nodupKeys).imp_of_mem ?_
    intro first second left right different same
    refine different (legal.apart _ ?_ _ ?_ same.1 ?_)
    · exact AList.mem_keys.mpr (List.mem_map_of_mem left)
    · exact AList.mem_keys.mpr (List.mem_map_of_mem right)
    · exact (List.map_perm_map_iff label_injective).mp same.2
  · rw [helped, typed, sampled]
    intro sample member
    obtain ⟨one, present, name, _⟩ := shown member
    have here := listed.mpr ⟨one, present, name.symm⟩
    exact ⟨here, here⟩
  · rw [sampled]
    exact samples

/-- The page that shows some values has legal names. -/
theorem legal_of_shows {text : Bytes} {series : AList fun _ : Series => FieldValue D}
    {value : (Sigma fun _ : Series => FieldValue D) → D} (shows_ : Shows doubles prefix_ series text value) :
    Legal prefix_ series := by
  obtain ⟨lines, read, formed, _, samples⟩ := shows_
  have legal := page_legal read
  have sample {one : Series} (member : one ∈ series) : ∃ d,
      (metricName prefix_ one.1, labelPairs one.2, d) ∈ lines.filterMap Line.sampled := by
    obtain ⟨entry, inside, rfl⟩ := List.mem_map.mp (AList.mem_keys.mp member)
    exact ⟨value entry, samples.mem_iff.mpr (List.mem_map_of_mem inside)⟩
  refine ⟨fun one member => ?_, fun one member label inside => ?_, fun one member => ?_, ?_⟩
  · obtain ⟨d, shown⟩ := sample member
    exact (metricName_legal prefix_ one.1).mp (legal _ shown).1
  · obtain ⟨d, shown⟩ := sample member
    have pair : (label.key, label.value) ∈ labelPairs one.2 := List.mem_map_of_mem inside
    exact ⟨(legal _ shown).2 _ pair, formed.encoded _ shown _ pair⟩
  · obtain ⟨d, shown⟩ := sample member
    have names := formed.labels _ shown
    rwa [labelPairs, List.map_map] at names
  · intro one left other right names labels
    by_contra different
    obtain ⟨first, firsts, rfl⟩ := List.mem_map.mp (AList.mem_keys.mp left)
    obtain ⟨second, seconds, rfl⟩ := List.mem_map.mp (AList.mem_keys.mp right)
    have apart := List.pairwise_map.mp ((samples.pairwise_iff Apart.symm).mp formed.series)
    have symmetric : Std.Symm fun first second : Sigma fun _ : Series => FieldValue D =>
        Apart (metricName prefix_ first.1.1, labelPairs first.1.2, value first)
          (metricName prefix_ second.1.1, labelPairs second.1.2, value second) := ⟨fun _ _ => Apart.symm⟩
    refine apart.forall firsts seconds (fun same => different (congrArg Sigma.fst same)) ?_
    exact ⟨names, labels.map _⟩

/-- The page is faithful exactly when its names are legal and every value is printed as a text that stands for it. -/
theorem exposes_iff : (∃ value, Shows doubles prefix_ (written batches) (expose doubles order prefix_ batches) value ∧
      ∀ entry ∈ (written batches).entries, doubles.Denotes (value entry) entry.2) ↔
    Legal prefix_ (written batches) ∧
      ∀ entry ∈ (written batches).entries, doubles.Denotes (doubles.shown entry.2) entry.2 := by
  constructor
  · rintro ⟨value, shows_, right⟩
    have legal := legal_of_shows doubles shows_
    refine ⟨legal, fun entry member => ?_⟩
    obtain ⟨lines, read, _, _, samples⟩ := shows_
    obtain ⟨others, again, _, _, others_samples⟩ := shows_of_legal doubles order legal
    obtain rfl := Option.some.inj (read.symm.trans again)
    have shown := (samples.symm.trans others_samples).mem_iff.mp (List.mem_map_of_mem member)
    obtain ⟨source, inside, same⟩ := List.mem_map.mp shown
    obtain ⟨names, labels, values⟩ : metricName prefix_ source.1.1 = metricName prefix_ entry.1.1 ∧
        labelPairs source.1.2 = labelPairs entry.1.2 ∧ doubles.shown source.2 = value entry :=
      ⟨congrArg Prod.fst same, congrArg (·.2.1) same, congrArg (·.2.2) same⟩
    have labels_same := List.map_injective_iff.mpr label_injective labels
    have key := legal.apart source.1 (AList.mem_keys.mpr (List.mem_map_of_mem inside)) entry.1
      (AList.mem_keys.mpr (List.mem_map_of_mem member)) names (.of_eq labels_same)
    obtain rfl := AList.entry_ext inside member key
    rw [values]
    exact right source member
  · rintro ⟨legal, values⟩
    exact ⟨_, shows_of_legal doubles order legal, values⟩

end Page

/-! ## Two fields with one name -/

/-- Natural numbers for `double`s. -/
def naturalDoubles : Doubles ℕ where
  toNumbers := naturals
  ofInt := Int.toNat
  real n := some n

/-- One record with the fields `a.b` and `a_b`. -/
def dottedBatch : DataBatch ℕ where
  type := .kMetrics
  records := [({ timestamp := 0, labels := [], fields := ∅ } : Record ℕ).SetField (ascii "a.b") (.int64 1)
    |>.SetField (ascii "a_b") (.int64 2)]

/-- The two fields become one sample. -/
theorem dotted_merged : ¬ ∃ value, Shows naturalDoubles (ascii "illuminator") (written [some dottedBatch])
      (expose naturalDoubles ⟨.listed _, .listed _⟩ (ascii "illuminator") [some dottedBatch]) value ∧
    ∀ entry ∈ (written [some dottedBatch]).entries, naturalDoubles.Denotes (value entry) entry.2 := by
  rintro ⟨value, shows_, _⟩
  have legal := legal_of_shows naturalDoubles shows_
  have dotted : (ascii "a.b", []) ∈ written [some dottedBatch] :=
    mem_written.mpr ⟨((ascii "a.b", []), .int64 1), by decide, rfl⟩
  have plain : (ascii "a_b", []) ∈ written [some dottedBatch] :=
    mem_written.mpr ⟨((ascii "a_b", []), .int64 2), by decide, rfl⟩
  exact absurd (legal.apart _ dotted _ plain (by decide) (.refl _)) (by decide)

end PrometheusSink

end Illuminator
