import Illuminator.Model.WebSocketHandshake
import Mathlib.Data.List.DropRight

/-! # Header extraction

A request by its lines, and what `ExtractHeader` finds in it: what stands behind the first place in any line at which
the name and a colon stand. That is the value owed to a name if no line before its header has such a place and the
value carries no tab at its front and no blank at its end, and otherwise by chance only.
-/

namespace Illuminator

namespace HeaderExtraction

open detail

/-- A header's name: visible characters other than the colon. -/
structure HeaderName where
  bytes : Bytes
  visible : ∀ c ∈ bytes, 0x20 < c ∧ c ≠ 0x3A

/-- A header line, with what it has behind its colon. -/
structure Header where
  name : HeaderName
  text : Bytes
  oneLine : 0x0D ∉ text

structure Request where
  requestLine : Bytes
  oneLine : 0x0D ∉ requestLine
  headers : List Header

def Header.line (header : Header) : Bytes := header.name.bytes ++ 0x3A :: header.text

def Request.lines (r : Request) : List Bytes := r.requestLine :: r.headers.map Header.line

/-- Lines, each with its line break. -/
def linesText (lines : List Bytes) : Bytes := lines.flatMap fun line => line ++ [0x0D, 0x0A]

/-- The bytes of a request, an empty line at the end. -/
def Request.text (r : Request) : Bytes := linesText r.lines ++ [0x0D, 0x0A]

def blank (c : UInt8) : Bool := c == 0x20 || c == 0x09

/-- A value without the blanks around it. -/
def trim (value : Bytes) : Bytes := (value.dropWhile blank).rdropWhile blank

/-- The header has this name, in any case. -/
def Header.Named (name : HeaderName) (header : Header) : Prop :=
  header.name.bytes.map tolower = name.bytes.map tolower

instance (name : HeaderName) (header : Header) : Decidable (header.Named name) := inferInstanceAs (Decidable (_ = _))

/-- What a request owes to a name. -/
def Request.owed (r : Request) (name : HeaderName) : Bytes :=
  match r.headers.find? (·.Named name) with
  | some header => trim header.text
  | none => []

/-- The name in lower case and a colon. -/
def HeaderName.mark (name : HeaderName) : Bytes := name.bytes.map tolower ++ [0x3A]

/-- What a line has behind the first place at which the name and a colon stand, in any case. -/
def behind (name : HeaderName) : Bytes → Option Bytes
  | [] => none
  | c :: rest =>
    if name.mark.isPrefixOf ((c :: rest).map tolower) then some ((c :: rest).drop name.mark.length)
    else behind name rest

/-- The lines before the header of the name, all of them if there is none. -/
def Request.linesBefore (r : Request) (name : HeaderName) : List Bytes :=
  r.requestLine :: (r.headers.takeWhile fun header => ¬ header.Named name).map Header.line

/-- Behind the spaces at its front the value begins with no tab, and it ends with no blank. -/
def Tidy (value : Bytes) : Prop :=
  let value := value.dropWhile (· == 0x20)
  (∀ c ∈ value.head?, c ≠ 0x09) ∧ ∀ c ∈ value.getLast?, blank c = false

/-- No line before the header has the name and a colon in it, and the header's value is tidy. Or there is such a line,
and what it has behind them happens to be what is owed. -/
def Request.Met (r : Request) (name : HeaderName) : Prop :=
  match (r.linesBefore name).findSome? (behind name) with
  | none => ∀ header ∈ r.headers.find? (·.Named name), Tidy header.text
  | some other => other.dropWhile (· == 0x20) = r.owed name

/-! ## Searching -/

theorem find_nil {needle : Bytes} (some_ : needle ≠ []) : find [] needle 0 = none := by
  cases needle with
  | nil => exact absurd rfl some_
  | cons first rest => rfl

theorem find_cons (c : UInt8) (rest needle : Bytes) : find (c :: rest) needle 0 =
    if needle.isPrefixOf (c :: rest) then some 0 else (find rest needle 0).map (· + 1) := by
  have shifted : List.range' 1 (rest.length + 1) = (List.range' 0 (rest.length + 1)).map (1 + ·) :=
    (List.map_add_range' 0 (rest.length + 1) 1).symm
  rw [find, List.length_cons, Nat.sub_zero, List.range'_succ, List.find?_cons, List.drop_zero]
  cases starts : needle.isPrefixOf (c :: rest) with
  | true => rfl
  | false =>
    rw [if_neg Bool.false_ne_true, shifted, List.find?_map, find, Nat.sub_zero]
    have same : ((fun i => needle.isPrefixOf ((c :: rest).drop i)) ∘ fun i => 1 + i) =
        fun i => needle.isPrefixOf (rest.drop i) := by
      funext i
      rw [Function.comp_apply, Nat.add_comm 1 i, List.drop_succ_cons]
    rw [same]
    simp only [Nat.add_comm 1]

theorem mark_ne_nil (name : HeaderName) : name.mark ≠ [] :=
  List.append_ne_nil_of_right_ne_nil _ (List.cons_ne_nil _ _)

/-- A position that is found is where what `behind` gives begins. -/
theorem find_mark (name : HeaderName) (text : Bytes) :
    (find (text.map tolower) name.mark 0).map (fun pos => text.drop (pos + name.mark.length)) = behind name text := by
  induction text with
  | nil =>
    rw [List.map_nil, find_nil (mark_ne_nil name)]
    rfl
  | cons c rest ih =>
    rw [List.map_cons, find_cons, behind, List.map_cons]
    split_ifs with starts
    · rw [Option.map_some, Nat.zero_add]
    · rw [← ih, Option.map_map]
      congr 1
      funext pos
      rw [Function.comp_apply, Nat.add_right_comm, List.drop_succ_cons]

/-- The line break is found behind a text that has none. -/
theorem find_crlf {text : Bytes} (oneLine : 0x0D ∉ text) (rest : Bytes) :
    find (text ++ 0x0D :: 0x0A :: rest) [0x0D, 0x0A] 0 = some text.length := by
  induction text with
  | nil =>
    rw [List.nil_append, find_cons]
    rfl
  | cons c others ih =>
    rw [List.mem_cons, not_or] at oneLine
    have other : ([0x0D, 0x0A] : Bytes).isPrefixOf (c :: (others ++ 0x0D :: 0x0A :: rest)) = false := by
      rw [List.isPrefixOf_cons_cons, beq_false_of_ne oneLine.1, Bool.false_and]
    rw [List.cons_append, find_cons, other, if_neg Bool.false_ne_true, ih oneLine.2]
    rfl

/-! ## Lines -/

/-- The mark is within a line. -/
theorem mark_visible (name : HeaderName) : ∀ c ∈ name.mark, 0x20 < c := by
  intro c member
  rcases List.mem_append.mp member with letter | colon
  · obtain ⟨original, inside, rfl⟩ := List.mem_map.mp letter
    have visible := (name.visible original inside).1
    rw [tolower]
    split_ifs with upper
    · rw [UInt8.lt_iff_toNat_lt, UInt8.toNat_add]
      have range := And.intro (UInt8.le_iff_toNat_le.mp upper.1) (UInt8.le_iff_toNat_le.mp upper.2)
      simp only [UInt8.reduceToNat] at range ⊢
      omega
    · exact visible
  · rw [List.mem_singleton.mp colon]
    decide

/-- What follows the end of a line plays no part in where the mark stands in it. -/
theorem prefix_append {name : HeaderName} (line : Bytes) {rest : Bytes} {stop : UInt8} (control : tolower stop ≤ 0x20) :
    name.mark.isPrefixOf ((line ++ stop :: rest).map tolower) = name.mark.isPrefixOf (line.map tolower) := by
  rw [Bool.eq_iff_iff, List.isPrefixOf_iff_prefix, List.isPrefixOf_iff_prefix, List.map_append, List.map_cons]
  constructor
  · intro start
    rcases List.prefix_or_prefix_of_prefix start (List.prefix_append _ _) with inside | ⟨across, whole⟩
    · exact inside
    · cases across with
      | nil =>
        rw [List.append_nil] at whole
        rw [whole]
      | cons c others =>
        rw [← whole, List.prefix_append_right_inj] at start
        obtain ⟨same, _⟩ := List.cons_prefix_cons.mp start
        have visible := mark_visible name c (whole ▸ List.mem_append_right _ List.mem_cons_self)
        rw [same] at visible
        exact absurd visible (UInt8.not_lt.mpr control)
  · exact fun start => start.trans (List.prefix_append _ _)

theorem prefix_fits {name : HeaderName} {line : Bytes} (starts : name.mark.isPrefixOf (line.map tolower) = true) :
    name.mark.length ≤ line.length := by
  have fits := (List.isPrefixOf_iff_prefix.mp starts).length_le
  rwa [List.length_map] at fits

/-- A line break is passed over. -/
theorem behind_control {name : HeaderName} {stop : UInt8} (control : tolower stop ≤ 0x20) (rest : Bytes) :
    behind name (stop :: rest) = behind name rest := by
  have starts : name.mark.isPrefixOf ((stop :: rest).map tolower) = name.mark.isPrefixOf [] :=
    prefix_append [] control
  have empty : name.mark.isPrefixOf [] = false := by
    cases marked : name.mark with
    | nil => exact absurd marked (mark_ne_nil name)
    | cons c others => rfl
  rw [behind, starts, empty, if_neg Bool.false_ne_true]

/-- The mark stands in the line, or else on later ones. -/
theorem behind_line (name : HeaderName) (line rest : Bytes) :
    behind name (line ++ 0x0D :: 0x0A :: rest) = match behind name line with
      | some text => some (text ++ 0x0D :: 0x0A :: rest)
      | none => behind name rest := by
  induction line with
  | nil => rw [List.nil_append, behind_control (by decide), behind_control (by decide), behind]
  | cons c line ih =>
    have same : name.mark.isPrefixOf ((c :: (line ++ 0x0D :: 0x0A :: rest)).map tolower) =
        name.mark.isPrefixOf ((c :: line).map tolower) :=
      prefix_append (c :: line) (by decide)
    rw [List.cons_append, behind, same, behind]
    split_ifs with starts
    · rw [← List.cons_append, List.drop_append_of_le_length (prefix_fits starts)]
    · exact ih

theorem behind_suffix {name : HeaderName} {line text : Bytes} (found : behind name line = some text) :
    text <:+ line := by
  induction line with
  | nil => cases found
  | cons c line ih =>
    rw [behind] at found
    split_ifs at found with starts
    · rw [← Option.some.inj found]
      exact List.drop_suffix _ _
    · exact (ih found).trans (List.suffix_cons _ _)

/-- The mark stands in the first line that has it. -/
theorem behind_lines (name : HeaderName) (lines : List Bytes) :
    (lines.findSome? (behind name) = none ∧ behind name (linesText lines ++ [0x0D, 0x0A]) = none) ∨
      ∃ line ∈ lines, ∃ text, behind name line = some text ∧ lines.findSome? (behind name) = some text ∧
        ∃ rest, behind name (linesText lines ++ [0x0D, 0x0A]) = some (text ++ 0x0D :: 0x0A :: rest) := by
  induction lines with
  | nil =>
    refine .inl ⟨rfl, ?_⟩
    change behind name [0x0D, 0x0A] = none
    rw [behind_control (by decide), behind_control (by decide), behind]
  | cons line others ih =>
    have text : linesText (line :: others) ++ [0x0D, 0x0A] =
        line ++ 0x0D :: 0x0A :: (linesText others ++ [0x0D, 0x0A]) := by
      rw [linesText, List.flatMap_cons, List.append_assoc, List.append_assoc]
      rfl
    rw [text, behind_line, List.findSome?_cons]
    cases marked : behind name line with
    | some value => exact .inr ⟨line, List.mem_cons_self, value, marked, rfl, _, rfl⟩
    | none =>
      rcases ih with absent | ⟨other, member, value, marks, first, rest, whole⟩
      · exact .inl absent
      · exact .inr ⟨other, List.mem_cons_of_mem _ member, value, marks, first, rest, whole⟩

theorem Request.lines_oneLine (r : Request) : ∀ line ∈ r.lines, 0x0D ∉ line := by
  intro line member
  rcases List.mem_cons.mp member with rfl | header
  · exact r.oneLine
  · obtain ⟨field, _, rfl⟩ := List.mem_map.mp header
    have clean : 0x0D ∉ field.name.bytes := fun inside => absurd (field.name.visible _ inside).1 (by decide)
    rw [Header.line, List.mem_append, List.mem_cons, not_or, not_or]
    exact ⟨clean, by decide, field.oneLine⟩

/-- What the function returns for a request, by its lines. -/
theorem extractHeader_lines (r : Request) (name : HeaderName) : ExtractHeader r.text name.bytes =
    ((r.lines.findSome? (behind name)).getD []).dropWhile (· == 0x20) := by
  have marked := find_mark name r.text
  have width : name.mark.length = (name.bytes.map tolower).length + 1 := List.length_append
  rw [ExtractHeader]
  simp only
  rcases behind_lines name r.lines with ⟨first, whole⟩ | ⟨line, member, value, marks, first, rest, whole⟩
  · rw [first]
    rw [Request.text, whole, Option.map_eq_none_iff] at marked
    rw [Request.text, ← HeaderName.mark, marked]
    rfl
  · rw [first, Option.getD_some]
    rw [Request.text, whole, Option.map_eq_some_iff] at marked
    obtain ⟨pos, found, dropped⟩ := marked
    have oneLine : 0x0D ∉ value.dropWhile (· == 0x20) := fun inside => r.lines_oneLine line member
      ((behind_suffix marks).subset ((List.dropWhile_suffix _).subset inside))
    have unspaced : (value ++ 0x0D :: 0x0A :: rest).dropWhile (· == 0x20) =
        value.dropWhile (· == 0x20) ++ 0x0D :: 0x0A :: rest := by
      rw [List.dropWhile_append]
      split_ifs with spaces
      · rw [List.isEmpty_iff.mp spaces]
        rfl
      · rfl
    rw [Request.text, ← HeaderName.mark, found]
    simp only
    rw [Nat.add_assoc, ← width, dropped, unspaced, find_crlf oneLine, Option.getD_some, List.take_left]

/-! ## What is owed -/

/-- The header of a name has the mark at its front. -/
theorem behind_named {name : HeaderName} {header : Header} (named : header.Named name) :
    behind name header.line = some header.text := by
  have marked : header.line.map tolower = name.mark ++ header.text.map tolower := by
    rw [Header.line, List.map_append, List.map_cons, named, HeaderName.mark, List.append_assoc]
    rfl
  have starts : name.mark.isPrefixOf (header.line.map tolower) = true := by
    rw [marked, List.isPrefixOf_iff_prefix]
    exact List.prefix_append _ _
  have width : name.mark.length = (header.name.bytes ++ [0x3A]).length := by
    rw [HeaderName.mark, ← named, List.length_append, List.length_append, List.length_map]
  have line : header.line = (header.name.bytes ++ [0x3A]) ++ header.text := by
    rw [Header.line, List.append_assoc]
    rfl
  have dropped : header.line.drop name.mark.length = header.text := by rw [width, line, List.drop_left]
  cases written : header.line with
  | nil => exact absurd written (List.append_ne_nil_of_right_ne_nil _ (List.cons_ne_nil _ _))
  | cons c rest =>
    rw [behind, ← written, starts, if_pos rfl, dropped]

theorem dropWhile_blank (text : Bytes) : text.dropWhile blank = (text.dropWhile (· == 0x20)).dropWhile blank := by
  induction text with
  | nil => rfl
  | cons c rest ih =>
    by_cases space : c = 0x20
    · rw [space]
      exact ih
    · rw [List.dropWhile_cons_of_neg (p := (· == 0x20)) (by rw [beq_iff_eq]; exact space)]

/-- Only a tidy value is trimmed by leaving out the spaces at its front. -/
theorem tidy_iff (text : Bytes) : text.dropWhile (· == 0x20) = trim text ↔ Tidy text := by
  rw [trim, dropWhile_blank, Tidy]
  have first := List.head?_dropWhile_not (· == 0x20) text
  generalize text.dropWhile (· == 0x20) = value at first ⊢
  have inner : (value.dropWhile blank).rdropWhile blank <+: value.dropWhile blank := List.rdropWhile_prefix _ _
  have outer : value.dropWhile blank <:+ value := List.dropWhile_suffix _
  constructor
  · intro same
    have front : value.dropWhile blank = value := by
      refine outer.eq_of_length_le ?_
      calc value.length = ((value.dropWhile blank).rdropWhile blank).length := congrArg List.length same
        _ ≤ (value.dropWhile blank).length := inner.length_le
    refine ⟨?_, ?_⟩
    · rintro c head rfl
      have solid := List.head?_dropWhile_not blank value
      rw [front, head] at solid
      cases solid
    · intro c last
      rw [front] at same
      cases known : blank c with
      | false => rfl
      | true =>
        have present : value ≠ [] := by
          rintro rfl
          cases last
        have solid := List.rdropWhile_eq_self_iff.mp same.symm present
        rw [List.getLast?_eq_some_getLast present, Option.mem_some_iff] at last
        rw [last] at solid
        exact absurd known solid
  · rintro ⟨front, back⟩
    have kept : value.dropWhile blank = value := by
      cases value with
      | nil => rfl
      | cons c rest =>
        have solid : ¬ blank c = true := by
          intro known
          rcases (Bool.or_eq_true _ _).mp known with space | tab
          · rw [List.head?_cons] at first
            exact absurd space (by rw [first]; exact Bool.false_ne_true)
          · exact front c rfl (beq_iff_eq.mp tab)
        exact List.dropWhile_cons_of_neg solid
    rw [kept, eq_comm, List.rdropWhile_eq_self_iff]
    intro present known
    rw [back _ (List.getLast_mem_getLast? present)] at known
    cases known

/-- The lines of a request without the name are all before its header. -/
theorem lines_unnamed {r : Request} {name : HeaderName} (absent : r.headers.find? (·.Named name) = none) :
    r.lines = r.linesBefore name := by
  have whole : (r.headers.takeWhile fun header => ¬ header.Named name) = r.headers := by
    rw [List.takeWhile_eq_self_iff]
    intro header member
    have other := List.find?_eq_none.mp absent header member
    rw [decide_eq_true_eq] at other
    exact decide_eq_true other
  rw [Request.lines, Request.linesBefore, whole]

theorem lines_named {r : Request} {name : HeaderName} {header : Header}
    (first : r.headers.find? (·.Named name) = some header) :
    header.Named name ∧ ∃ after, r.lines = r.linesBefore name ++ header.line :: after := by
  obtain ⟨named, before, after, whole, others⟩ := List.find?_eq_some_iff_append.mp first
  rw [decide_eq_true_eq] at named
  have taken : (r.headers.takeWhile fun header => ¬ header.Named name) = before := by
    rw [whole, List.takeWhile_append_of_pos, List.takeWhile_cons_of_neg, List.append_nil]
    · rw [decide_eq_true_eq, not_not]
      exact named
    · intro other member
      have unnamed := others other member
      rw [Bool.not_eq_true', decide_eq_false_iff_not] at unnamed
      exact decide_eq_true unnamed
  refine ⟨named, after.map Header.line, ?_⟩
  rw [Request.lines, Request.linesBefore, taken, whole, List.map_append, List.map_cons, List.cons_append]

/-- A name's value is found if and only if no line before its header has the name and a colon in it and the value is
tidy, or by chance. -/
theorem extractHeader_exact_iff (r : Request) (name : HeaderName) :
    ExtractHeader r.text name.bytes = r.owed name ↔ r.Met name := by
  rw [extractHeader_lines, Request.Met]
  cases headed : r.headers.find? (·.Named name) with
  | none =>
    rw [lines_unnamed headed]
    cases earlier : (r.linesBefore name).findSome? (behind name) with
    | some other => rfl
    | none =>
      rw [Request.owed, headed]
      exact ⟨fun _ header member => absurd member (Option.not_mem_none _), fun _ => rfl⟩
  | some header =>
    obtain ⟨named, after, lines⟩ := lines_named headed
    rw [lines, List.findSome?_append, List.findSome?_cons, behind_named named]
    cases earlier : (r.linesBefore name).findSome? (behind name) with
    | some other => rfl
    | none =>
      rw [Request.owed, headed]
      change header.text.dropWhile (· == 0x20) = trim header.text ↔ _
      rw [tidy_iff]
      refine ⟨?_, ?_⟩
      · intro tidy other member
        rw [← Option.some.inj member]
        exact tidy
      · exact fun every => every header rfl

/-- `GET /?upgrade:x HTTP/1.1` and the header `Upgrade: websocket`. -/
def misleadingTarget : Request where
  requestLine := ascii "GET /?upgrade:x HTTP/1.1"
  oneLine := by decide
  headers := [⟨⟨WebSocketCodec.upgradeHeader, by decide⟩, ascii " websocket", by decide⟩]

theorem target_mistaken : ¬ ∀ (r : Request) (name : HeaderName), ExtractHeader r.text name.bytes = r.owed name := by
  intro exact_
  have same := exact_ misleadingTarget ⟨WebSocketCodec.upgradeHeader, by decide⟩
  exact absurd same (by decide)

end HeaderExtraction

end Illuminator
