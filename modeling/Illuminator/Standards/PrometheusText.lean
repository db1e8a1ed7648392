import Illuminator.Model.Strings
import Illuminator.ToMathlib.Delimited
import Illuminator.ToMathlib.FallibleLoops
import Mathlib.Data.List.DropRight
import Mathlib.Data.List.TakeWhile

/-! # The Prometheus text format

A page is a list of lines, each ended by a line break. A line is empty, a comment, the `HELP` or `TYPE` line of a
metric, or a sample: a metric name, labels in braces, a number and possibly a time. Tokens stand apart by blanks and
tabs, as many as there may be. Which texts are numbers is a parameter. A page is well formed when a metric has at most
one `HELP` and one `TYPE` line, the latter before its samples, no series has two samples, and labels have different names
and values in UTF-8.
-/

namespace Illuminator

namespace PrometheusText

/-! ## Tokens -/

def isBlank (c : UInt8) : Bool := c == 0x20 || c == 0x09

def isLetter (c : UInt8) : Bool := 0x41 ≤ c && c ≤ 0x5A || 0x61 ≤ c && c ≤ 0x7A

def isLabelStart (c : UInt8) : Bool := isLetter c || c == 0x5F

def isLabelChar (c : UInt8) : Bool := isLabelStart c || isdigit c

def isMetricStart (c : UInt8) : Bool := isLabelStart c || c == 0x3A

def isMetricChar (c : UInt8) : Bool := isMetricStart c || isdigit c

/-- `[a-zA-Z_:][a-zA-Z0-9_:]*` -/
def MetricName : Bytes → Bool
  | [] => false
  | c :: rest => isMetricStart c && rest.all isMetricChar

/-- `[a-zA-Z_][a-zA-Z0-9_]*` -/
def LabelName : Bytes → Bool
  | [] => false
  | c :: rest => isLabelStart c && rest.all isLabelChar

def skip (text : Bytes) : Bytes := text.dropWhile isBlank

/-- The token that a text begins with, and what follows it. -/
def token (text : Bytes) : Bytes × Bytes := (text.takeWhile (!isBlank ·), text.dropWhile (!isBlank ·))

/-! ## Lines -/

variable {D : Type}

inductive Line (D : Type) where
  | nothing
  | help (name : Bytes)
  | type (name kind : Bytes)
  | sample (name : Bytes) (labels : List (Bytes × Bytes)) (value : D)

def kinds : List Bytes :=
  [ascii "counter", ascii "gauge", ascii "histogram", ascii "summary", ascii "untyped"]

/-- A line after its `#`. -/
def comment (text : Bytes) : Option (Line D) :=
  let word := token (skip text)
  let name := token (skip word.2)
  let kind := token (skip name.2)
  if word.1 = ascii "HELP" then
    if MetricName name.1 then some (.help name.1) else none
  else if word.1 = ascii "TYPE" then
    if MetricName name.1 ∧ kind.1 ∈ kinds ∧ skip kind.2 = [] then some (.type name.1 kind.1) else none
  else some .nothing

/-- A label's value after its opening quote. -/
def labelValue : Bytes → Option (Bytes × Bytes)
  | [] => none
  | 0x22 :: rest => some ([], rest)
  | 0x5C :: 0x5C :: rest => (labelValue rest).map fun read => (0x5C :: read.1, read.2)
  | 0x5C :: 0x22 :: rest => (labelValue rest).map fun read => (0x22 :: read.1, read.2)
  | 0x5C :: 0x6E :: rest => (labelValue rest).map fun read => (0x0A :: read.1, read.2)
  | 0x5C :: _ => none
  | c :: rest => (labelValue rest).map fun read => (c :: read.1, read.2)

/-- One label, and what follows it. -/
def label (text : Bytes) : Option ((Bytes × Bytes) × Bytes) :=
  let name := text.takeWhile isLabelChar
  if LabelName name then
    match skip (text.dropWhile isLabelChar) with
    | 0x3D :: rest =>
      match skip rest with
      | 0x22 :: rest => (labelValue rest).map fun read => ((name, read.1), skip read.2)
      | _ => none
    | _ => none
  else none

/-- Labels up to the closing brace. Every label takes up some of the text, so its length is fuel enough. -/
def labels : ℕ → Bytes → Option (List (Bytes × Bytes) × Bytes)
  | 0, _ => none
  | fuel + 1, text =>
    match skip text with
    | 0x7D :: rest => some ([], rest)
    | inner =>
      (label inner).bind fun read =>
        match read.2 with
        | 0x2C :: rest => (labels fuel rest).map fun more => (read.1 :: more.1, more.2)
        | 0x7D :: rest => some ([read.1], rest)
        | _ => none

/-- A time in milliseconds. -/
def isTime : Bytes → Bool
  | 0x2D :: digits => !digits.isEmpty && digits.all isdigit
  | digits => !digits.isEmpty && digits.all isdigit

/-- A sample after its name and labels. -/
def measure (number : Bytes → Option D) (name : Bytes) (labels : List (Bytes × Bytes)) (text : Bytes) :
    Option (Line D) :=
  let value := token (skip text)
  let time := token (skip value.2)
  if (time.1 = [] ∨ isTime time.1) ∧ skip time.2 = [] then (number value.1).map (.sample name labels) else none

def sample (number : Bytes → Option D) (text : Bytes) : Option (Line D) :=
  let name := text.takeWhile isMetricChar
  if MetricName name then
    match skip (text.dropWhile isMetricChar) with
    | 0x7B :: rest => (labels rest.length rest).bind fun read => measure number name read.1 read.2
    | rest => measure number name [] rest
  else none

def line (number : Bytes → Option D) (text : Bytes) : Option (Line D) :=
  match skip text with
  | [] => some .nothing
  | 0x23 :: rest => comment rest
  | rest => sample number rest

/-! ## Pages -/

/-- The lines of a page, the last of which must be ended too. -/
def page (number : Bytes → Option D) (text : Bytes) : Option (List (Line D)) :=
  let parts := text.splitOn 0x0A
  if parts.getLast? = some [] then parts.dropLast.mapM (line number) else none

def Line.helped : Line D → Option Bytes
  | .help name => some name
  | _ => none

def Line.typed : Line D → Option Bytes
  | .type name _ => some name
  | _ => none

/-- Name, labels and value of a sample. -/
def Line.sampled : Line D → Option (Bytes × List (Bytes × Bytes) × D)
  | .sample name labels value => some (name, labels, value)
  | _ => none

/-- Samples of different series: the names differ or the label sets do. -/
def Apart (first second : Bytes × List (Bytes × Bytes) × D) : Prop :=
  ¬ (first.1 = second.1 ∧ first.2.1.Perm second.2.1)

theorem Apart.symm {first second : Bytes × List (Bytes × Bytes) × D} (apart : Apart first second) : Apart second first :=
  fun same => apart ⟨same.1.symm, same.2.symm⟩

structure WellFormed (lines : List (Line D)) : Prop where
  helps : (lines.filterMap Line.helped).Nodup
  types : (lines.filterMap Line.typed).Nodup
  first : lines.Pairwise fun earlier later => ∀ name ∈ later.typed, ∀ sample ∈ earlier.sampled, sample.1 ≠ name
  labels : ∀ sample ∈ lines.filterMap Line.sampled, (sample.2.1.map Prod.fst).Nodup
  encoded : ∀ sample ∈ lines.filterMap Line.sampled, ∀ label ∈ sample.2.1, ValidUtf8 label.2
  series : (lines.filterMap Line.sampled).Pairwise Apart

/-! ## Reading tokens -/

/-- How numbers are written and read. A number is a token that begins no labels, and no kind of metric is one. -/
structure Numbers (D : Type) where
  text : D → Bytes
  parse : Bytes → Option D
  parses : ∀ d, (parse (text d)).isSome = true
  solid : ∀ t, (parse t).isSome = true → t ≠ [] ∧ ∀ c ∈ t, isBlank c = false ∧ c ≠ 0x0A ∧ c ≠ 0x7B
  kinds : ∀ kind ∈ kinds, parse kind = none

/-- The number that is read where one was written. -/
def Numbers.back (numbers : Numbers D) (d : D) : D := (numbers.parse (numbers.text d)).get (numbers.parses d)

theorem Numbers.parse_text (numbers : Numbers D) (d : D) : numbers.parse (numbers.text d) = some (numbers.back d) :=
  (Option.some_get _).symm

theorem takeWhile_append_cons {p : UInt8 → Bool} {front : Bytes} (kept : ∀ c ∈ front, p c = true) {stop : UInt8}
    (stops : p stop = false) (rest : Bytes) :
    (front ++ stop :: rest).takeWhile p = front ∧ (front ++ stop :: rest).dropWhile p = stop :: rest := by
  rw [List.takeWhile_append_of_pos kept, List.dropWhile_append_of_pos kept, List.takeWhile_cons, List.dropWhile_cons,
    stops]
  exact ⟨List.append_nil _, rfl⟩

theorem takeWhile_all {p : UInt8 → Bool} {text : Bytes} (kept : ∀ c ∈ text, p c = true) :
    text.takeWhile p = text ∧ text.dropWhile p = [] :=
  ⟨List.takeWhile_eq_self_iff.mpr kept, List.dropWhile_eq_nil_iff.mpr kept⟩

theorem token_append {word : Bytes} (solid : ∀ c ∈ word, isBlank c = false) {blank : UInt8}
    (stops : isBlank blank = true) (rest : Bytes) : token (word ++ blank :: rest) = (word, blank :: rest) := by
  have kept : ∀ c ∈ word, (!isBlank c) = true := fun c member => by rw [solid c member]; rfl
  have parts := takeWhile_append_cons kept (by rw [stops]; rfl) rest
  exact Prod.ext parts.1 parts.2

theorem token_all {word : Bytes} (solid : ∀ c ∈ word, isBlank c = false) : token word = (word, []) := by
  have kept : ∀ c ∈ word, (!isBlank c) = true := fun c member => by rw [solid c member]; rfl
  exact Prod.ext (takeWhile_all kept).1 (takeWhile_all kept).2

@[simp] theorem skip_blank (rest : Bytes) : skip (0x20 :: rest) = skip rest := rfl

@[simp] theorem skip_nil : skip [] = [] := rfl

theorem skip_cons {c : UInt8} (solid : isBlank c = false) (rest : Bytes) : skip (c :: rest) = c :: rest := by
  rw [skip, List.dropWhile_cons, solid]
  rfl

/-- A word is not skipped. -/
theorem skip_append {word : Bytes} (present : word ≠ []) (solid : ∀ c ∈ word, isBlank c = false) (rest : Bytes) :
    skip (word ++ rest) = word ++ rest := by
  cases word with
  | nil => exact absurd rfl present
  | cons c others => exact skip_cons (solid c List.mem_cons_self) _

/-- A blank ends a token, and what follows stays. -/
theorem token_rest {blank : UInt8} (stops : isBlank blank = true) (front rest : Bytes) :
    ∃ kept, (token (front ++ blank :: rest)).2 = kept ++ blank :: rest := by
  induction front with
  | nil => exact ⟨[], by rw [List.nil_append, token, List.dropWhile_cons, stops]; rfl⟩
  | cons c others ih =>
    rw [List.cons_append, token, List.dropWhile_cons]
    split_ifs with solid
    · exact ih
    · exact ⟨c :: others, rfl⟩

/-- What a text begins with may be skipped, but not what begins with a token. -/
theorem skip_rest {c : UInt8} (solid : isBlank c = false) (front rest : Bytes) :
    ∃ kept, skip (front ++ c :: rest) = kept ++ c :: rest := by
  induction front with
  | nil => exact ⟨[], skip_cons solid rest⟩
  | cons first others ih =>
    rw [List.cons_append, skip, List.dropWhile_cons]
    split_ifs with blank
    · exact ih
    · exact ⟨first :: others, rfl⟩

theorem skip_skip (text : Bytes) : skip (skip text) = skip text := List.dropWhile_idempotent _ _

/-- What follows a token begins with a blank. -/
theorem token_split (text : Bytes) : text = (token text).1 ++ (token text).2 ∧
    ∀ c ∈ (token text).2.head?, isBlank c = true := by
  refine ⟨List.takeWhile_append_dropWhile.symm, fun c first => ?_⟩
  have stops := List.head?_dropWhile_not (!isBlank ·) text
  rw [show (text.dropWhile (!isBlank ·)).head? = some c from first] at stops
  simpa using stops

/-! ## Names -/

theorem isBlank_of_isMetricChar {c : UInt8} (metric : isMetricChar c = true) : isBlank c = false := by
  by_contra blank
  rw [Bool.not_eq_false, isBlank, Bool.or_eq_true, beq_iff_eq, beq_iff_eq] at blank
  rcases blank with rfl | rfl
  · exact absurd metric (by decide)
  · exact absurd metric (by decide)

theorem isMetricChar_of_metricName {name : Bytes} (legal : MetricName name = true) :
    name ≠ [] ∧ ∀ c ∈ name, isMetricChar c = true := by
  cases name with
  | nil => cases legal
  | cons c rest =>
    rw [MetricName, Bool.and_eq_true, List.all_eq_true] at legal
    refine ⟨List.cons_ne_nil _ _, List.forall_mem_cons.mpr ⟨?_, legal.2⟩⟩
    rw [isMetricChar, legal.1, Bool.true_or]

theorem isLabelChar_of_labelName {name : Bytes} (legal : LabelName name = true) :
    name ≠ [] ∧ ∀ c ∈ name, isLabelChar c = true := by
  cases name with
  | nil => cases legal
  | cons c rest =>
    rw [LabelName, Bool.and_eq_true, List.all_eq_true] at legal
    refine ⟨List.cons_ne_nil _ _, List.forall_mem_cons.mpr ⟨?_, legal.2⟩⟩
    rw [isLabelChar, legal.1, Bool.true_or]

theorem solid_of_metricName {name : Bytes} (legal : MetricName name = true) : ∀ c ∈ name, isBlank c = false :=
  fun c member => isBlank_of_isMetricChar ((isMetricChar_of_metricName legal).2 c member)

/-- A name goes on with the characters of names. -/
theorem metricName_append {front back : Bytes} (legal : MetricName front = true) :
    MetricName (front ++ back) = true ↔ ∀ c ∈ back, isMetricChar c = true := by
  cases front with
  | nil => cases legal
  | cons c rest =>
    rw [MetricName, Bool.and_eq_true, List.all_eq_true] at legal
    rw [List.cons_append, MetricName, legal.1, Bool.true_and, List.all_append, Bool.and_eq_true, List.all_eq_true,
      List.all_eq_true]
    exact and_iff_right legal.2

/-- Natural numbers in decimal. -/
def naturals : Numbers ℕ where
  text := to_string
  parse t := if t ≠ [] ∧ ∀ c ∈ t, isdigit c = true then some (of_decimal t) else none
  parses n := by rw [if_pos ⟨to_string_ne_nil n, isdigit_to_string⟩]; rfl
  solid t read := by
    split_ifs at read with digits
    · refine ⟨digits.1, fun c member => ?_⟩
      have digit := digits.2 c member
      refine ⟨isBlank_of_isMetricChar (by rw [isMetricChar, digit, Bool.or_true]), ?_, ?_⟩
      · rintro rfl
        exact absurd digit (by decide)
      · rintro rfl
        exact absurd digit (by decide)
    · cases read
  kinds := by decide

/-! ## Reading lines -/

section Lines

variable {number : Bytes → Option D} {name : Bytes}

theorem line_help (legal : MetricName name = true) (doc : Bytes) :
    line number (ascii "# HELP " ++ name ++ 0x20 :: doc) = some (.help name) := by
  have solid := solid_of_metricName legal
  have present := (isMetricChar_of_metricName legal).1
  rw [List.append_assoc]
  change comment (0x20 :: (ascii "HELP" ++ 0x20 :: (name ++ 0x20 :: doc))) = _
  have word : ∀ c ∈ ascii "HELP", isBlank c = false := by decide
  rw [comment, skip_blank, skip_append (by decide) word, token_append word (by decide)]
  change (if ascii "HELP" = ascii "HELP" then _ else _) = _
  rw [if_pos rfl, skip_blank, skip_append present solid, token_append solid (by decide)]
  exact if_pos legal

/-- What a `TYPE` line is read as. -/
theorem line_type_eq (rest : Bytes) : line number (ascii "# TYPE " ++ rest) =
    if MetricName (token (skip rest)).1 ∧ (token (skip (token (skip rest)).2)).1 ∈ kinds ∧
      skip (token (skip (token (skip rest)).2)).2 = [] then
      some (.type (token (skip rest)).1 (token (skip (token (skip rest)).2)).1) else none := by
  change comment (0x20 :: (ascii "TYPE" ++ 0x20 :: rest)) = _
  have word : ∀ c ∈ ascii "TYPE", isBlank c = false := by decide
  rw [comment, skip_blank, skip_append (by decide) word, token_append word (by decide)]
  change (if ascii "TYPE" = ascii "HELP" then _ else if ascii "TYPE" = ascii "TYPE" then _ else _) = _
  rw [if_neg (by decide), if_pos rfl, skip_blank]

theorem line_type (legal : MetricName name = true) {kind : Bytes} (listed : kind ∈ kinds) :
    line number (ascii "# TYPE " ++ (name ++ 0x20 :: kind)) = some (.type name kind) := by
  have solid := solid_of_metricName legal
  have kindSolid : ∀ kind ∈ kinds, kind ≠ [] ∧ ∀ c ∈ kind, isBlank c = false := by decide
  obtain ⟨kindPresent, kindSolid⟩ := kindSolid kind listed
  have last : skip kind = kind := by
    have whole := skip_append kindPresent kindSolid []
    rwa [List.append_nil] at whole
  rw [line_type_eq, skip_append (isMetricChar_of_metricName legal).1 solid, token_append solid (by decide), skip_blank,
    last, token_all kindSolid]
  exact if_pos ⟨legal, listed, rfl⟩

/-- A line that begins with a name is a sample. -/
theorem line_eq_sample {c : UInt8} (start : isMetricStart c = true) (rest : Bytes) :
    line number (c :: rest) = sample number (c :: rest) := by
  have metric : isMetricChar c = true := by rw [isMetricChar, start, Bool.true_or]
  rw [line, skip_cons (isBlank_of_isMetricChar metric)]
  split
  · rename_i same
    cases same
  · rename_i same
    obtain ⟨rfl, _⟩ := List.cons.inj same
    exact absurd start (by decide)
  · rfl

/-- A name, and what does not go on with it. -/
theorem line_named (legal : MetricName name = true) {stop : UInt8} (stops : isMetricChar stop = false) (rest : Bytes) :
    line number (name ++ stop :: rest) = match skip (stop :: rest) with
      | 0x7B :: rest => (labels rest.length rest).bind fun read => measure number name read.1 read.2
      | rest => measure number name [] rest := by
  have parts := takeWhile_append_cons (isMetricChar_of_metricName legal).2 stops rest
  have start : line number (name ++ stop :: rest) = sample number (name ++ stop :: rest) := by
    cases name with
    | nil => cases legal
    | cons c others =>
      rw [MetricName, Bool.and_eq_true] at legal
      exact line_eq_sample legal.1 _
  rw [start, sample, parts.1, parts.2]
  exact if_pos legal

/-- A number ends the line. -/
theorem measure_text (numbers : Numbers D) (name : Bytes) (labels : List (Bytes × Bytes)) (d : D) :
    measure numbers.parse name labels (numbers.text d) = some (.sample name labels (numbers.back d)) := by
  obtain ⟨present, solid⟩ := numbers.solid _ (numbers.parses d)
  have whole := skip_append present (fun c member => (solid c member).1) []
  rw [List.append_nil] at whole
  rw [measure, whole, token_all fun c member => (solid c member).1]
  change (if _ then (numbers.parse (numbers.text d)).map _ else none) = _
  rw [numbers.parse_text]
  exact if_pos ⟨Or.inl rfl, rfl⟩

/-- A sample with labels. -/
theorem line_labelled (numbers : Numbers D) (legal : MetricName name = true) {inner : Bytes}
    {read : List (Bytes × Bytes)} {d : D} (labelled : labels inner.length inner = some (read, 0x20 :: numbers.text d)) :
    line numbers.parse (name ++ 0x7B :: inner) = some (.sample name read (numbers.back d)) := by
  have opened : skip (0x7B :: inner) = 0x7B :: inner := rfl
  rw [line_named legal (by decide), opened]
  change (labels inner.length inner).bind _ = _
  rw [labelled, Option.bind_some, ← measure_text, measure, measure, skip_blank]

/-- A sample without labels. -/
theorem line_sample (numbers : Numbers D) (legal : MetricName name = true) (d : D) :
    line numbers.parse (name ++ 0x20 :: numbers.text d) = some (.sample name [] (numbers.back d)) := by
  obtain ⟨present, solid⟩ := numbers.solid _ (numbers.parses d)
  have whole := skip_append present (fun c member => (solid c member).1) []
  rw [List.append_nil] at whole
  rw [line_named legal (by decide), skip_blank, whole, ← measure_text]
  split
  · rename_i same
    exact absurd rfl (solid 0x7B (same ▸ List.mem_cons_self)).2.2
  · rfl

end Lines

/-- A name that is followed by a kind of metric is followed by no number. -/
theorem line_kind (numbers : Numbers D) {name rest : Bytes} (legal : MetricName name = true)
    (blank : ∀ c ∈ rest.head?, isBlank c = true) (listed : (token (skip rest)).1 ∈ kinds) :
    line numbers.parse (name ++ rest) = none := by
  have letters : ∀ kind ∈ kinds, kind ≠ [] ∧ 0x7B ∉ kind := by decide
  obtain ⟨present, unbraced⟩ := letters _ listed
  cases rest with
  | nil => exact absurd rfl present
  | cons c others =>
    have stops : isMetricChar c = false := by
      by_contra metric
      rw [Bool.not_eq_false] at metric
      exact absurd (blank c rfl) (by rw [isBlank_of_isMetricChar metric]; exact Bool.false_ne_true)
    rw [line_named legal stops]
    split
    · rename_i inner same
      rw [same, token, List.takeWhile_cons] at unbraced
      exact absurd List.mem_cons_self unbraced
    · rw [measure, skip_skip, numbers.kinds _ listed, Option.map_none, ite_self]

/-! ## Reading labels -/

/-- A character that is neither a backslash nor a quote stands for itself. -/
theorem labelValue_cons {c : UInt8} (backslash : c ≠ 0x5C) (quote : c ≠ 0x22) (rest : Bytes) :
    labelValue (c :: rest) = (labelValue rest).map fun read => (c :: read.1, read.2) := by
  rw [labelValue]
  · exact quote
  · exact fun _ same _ => backslash same
  · exact fun _ same _ => backslash same
  · exact fun _ same _ => backslash same
  · exact backslash

/-- A label is written with its value in quotes. -/
theorem label_written {key : Bytes} (legal : LabelName key = true) {text value rest : Bytes}
    (read : labelValue text = some (value, rest)) : label (key ++ 0x3D :: 0x22 :: text) = some ((key, value), skip rest) := by
  have parts := takeWhile_append_cons (isLabelChar_of_labelName legal).2 (by decide : isLabelChar 0x3D = false) (0x22 :: text)
  rw [label, parts.1, parts.2]
  refine (if_pos legal).trans ?_
  change (labelValue text).map _ = _
  rw [read]
  rfl

theorem labels_cons {c : UInt8} (start : isLabelStart c = true) (fuel : ℕ) (rest : Bytes) :
    labels (fuel + 1) (c :: rest) = (label (c :: rest)).bind fun read =>
      match read.2 with
      | 0x2C :: rest => (labels fuel rest).map fun more => (read.1 :: more.1, more.2)
      | 0x7D :: rest => some ([read.1], rest)
      | _ => none := by
  have metric : isMetricChar c = true := by rw [isMetricChar, isMetricStart, start, Bool.true_or, Bool.true_or]
  rw [labels, skip_cons (isBlank_of_isMetricChar metric)]
  split
  · rename_i same
    obtain ⟨rfl, _⟩ := List.cons.inj same
    exact absurd start (by decide)
  · rfl

section Labels

variable {key text value rest : Bytes} {fuel : ℕ}

/-- A label that a brace follows is the last one. -/
theorem labels_last (legal : LabelName key = true) (read : labelValue text = some (value, 0x7D :: rest)) :
    labels (fuel + 1) (key ++ 0x3D :: 0x22 :: text) = some ([(key, value)], rest) := by
  have written := label_written legal read
  cases key with
  | nil => cases legal
  | cons c others =>
    rw [LabelName, Bool.and_eq_true] at legal
    rw [List.cons_append] at written ⊢
    rw [labels_cons legal.1, written]
    rfl

/-- A label that a comma follows comes before the others. -/
theorem labels_more (legal : LabelName key = true) {more : Bytes} {others : List (Bytes × Bytes)}
    (read : labelValue text = some (value, 0x2C :: more)) (remaining : labels fuel more = some (others, rest)) :
    labels (fuel + 1) (key ++ 0x3D :: 0x22 :: text) = some ((key, value) :: others, rest) := by
  have written := label_written legal read
  cases key with
  | nil => cases legal
  | cons c others =>
    rw [LabelName, Bool.and_eq_true] at legal
    rw [List.cons_append] at written ⊢
    rw [labels_cons legal.1, written]
    change (labels fuel more).map _ = _
    rw [remaining]
    rfl

end Labels

/-! ## What lines say -/

theorem label_name {text rest : Bytes} {read : Bytes × Bytes} (found : label text = some (read, rest)) :
    LabelName read.1 = true := by
  rw [label] at found
  split_ifs at found with legal
  · split at found
    · split at found
      · obtain ⟨_, _, same⟩ := Option.map_eq_some_iff.mp found
        cases same
        exact legal
      · cases found
    · cases found

theorem labels_names {fuel : ℕ} {text rest : Bytes} {read : List (Bytes × Bytes)}
    (found : labels fuel text = some (read, rest)) : ∀ label ∈ read, LabelName label.1 = true := by
  induction fuel generalizing text read with
  | zero => cases found
  | succ fuel ih =>
    rw [labels] at found
    split at found
    · cases found
      exact fun label member => absurd member List.not_mem_nil
    · obtain ⟨⟨first, after⟩, one, found⟩ := Option.bind_eq_some_iff.mp found
      split at found
      · obtain ⟨⟨others, _⟩, remaining, same⟩ := Option.map_eq_some_iff.mp found
        cases same
        exact List.forall_mem_cons.mpr ⟨label_name one, ih remaining⟩
      · cases found
        exact List.forall_mem_cons.mpr ⟨label_name one, fun label member => absurd member List.not_mem_nil⟩
      · cases found

theorem measure_sample {number : Bytes → Option D} {name text : Bytes} {read : List (Bytes × Bytes)} {line : Line D}
    (found : measure number name read text = some line) : ∃ value, line = .sample name read value := by
  rw [measure] at found
  split_ifs at found
  obtain ⟨value, _, same⟩ := Option.map_eq_some_iff.mp found
  exact ⟨value, same.symm⟩

/-- The names of a sample that is read are legal. -/
theorem line_legal {number : Bytes → Option D} {text name : Bytes} {read : List (Bytes × Bytes)} {value : D}
    (found : line number text = some (.sample name read value)) :
    MetricName name = true ∧ ∀ label ∈ read, LabelName label.1 = true := by
  rw [line] at found
  split at found
  · cases found
  · rw [comment] at found
    split_ifs at found
    · cases found
    · cases found
    · cases found
  · rw [sample] at found
    split_ifs at found with legal
    split at found
    · obtain ⟨⟨others, after⟩, labelled, found⟩ := Option.bind_eq_some_iff.mp found
      obtain ⟨_, same⟩ := measure_sample found
      cases same
      exact ⟨legal, labels_names labelled⟩
    · obtain ⟨_, same⟩ := measure_sample found
      cases same
      exact ⟨legal, fun label member => absurd member List.not_mem_nil⟩

/-! ## Reading pages -/

/-- The lines of a page that is written row by row, each of which may be several lines. -/
theorem page_pieces (number : Bytes → Option D) (rows : List Bytes) :
    page number (Delimited.pieces 0x0A id rows) = (rows.flatMap (·.splitOn 0x0A)).mapM (line number) := by
  rw [page, Delimited.splitOn_pieces, List.getLast?_concat, if_pos rfl, List.dropLast_concat]
  rfl

/-- Rows that are one line each. -/
theorem page_rows {number : Bytes → Option D} {rows : List Bytes} {lines : List (Line D)}
    (clean : ∀ row ∈ rows, 0x0A ∉ row) (read : rows.mapM (line number) = some lines) :
    page number (Delimited.pieces 0x0A id rows) = some lines := by
  have split : (Delimited.pieces 0x0A id rows).splitOn 0x0A = rows.map id ++ [[]] :=
    Delimited.splitOn_pieces_of_clean clean
  rw [page, split, List.getLast?_concat, if_pos rfl, List.dropLast_concat, List.map_id, read]

/-- Whatever a page is made of, the samples read off it have legal names. -/
theorem page_legal {number : Bytes → Option D} {text : Bytes} {lines : List (Line D)}
    (read : page number text = some lines) : ∀ sample ∈ lines.filterMap Line.sampled,
      MetricName sample.1 = true ∧ ∀ label ∈ sample.2.1, LabelName label.1 = true := by
  rw [page] at read
  split_ifs at read
  rintro ⟨name, labels, value⟩ member
  obtain ⟨one, inside, shown⟩ := List.mem_filterMap.mp member
  obtain ⟨part, _, found⟩ := List.exists_of_mem_mapM read inside
  cases one with
  | nothing => cases shown
  | help _ => cases shown
  | type _ _ => cases shown
  | sample _ _ _ =>
    cases shown
    exact line_legal found

end PrometheusText

end Illuminator
