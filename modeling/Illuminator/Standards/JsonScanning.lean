import Illuminator.Standards.JsonText

/-! # The strings of a JSON text

A scanner that knows nothing but strings cuts a text at its quotes, and fails where a string is followed by what
follows none. It gets over all that the reader reads. Every string that was read is one that was scanned, or is
shorter than it where something is escaped.
-/

namespace Illuminator

namespace JsonText

open JsonValue

variable {D : Type}

/-- A string that is written without escapes. -/
def Plain (s : Bytes) : Prop := ∀ c ∈ s, c ≠ 0x22 ∧ c ≠ 0x5C ∧ 0x20 ≤ c.toNat

instance (s : Bytes) : Decidable (Plain s) := inferInstanceAs (Decidable (∀ c ∈ s, c ≠ 0x22 ∧ c ≠ 0x5C ∧ 0x20 ≤ c.toNat))

theorem plain_cons {c : UInt8} {s : Bytes} : Plain (c :: s) ↔ (c ≠ 0x22 ∧ c ≠ 0x5C ∧ 0x20 ≤ c.toNat) ∧ Plain s :=
  List.forall_mem_cons

/-- Characters from the digits on need no escape, apart from the backslash. -/
theorem unescaped_of_toNat {c : UInt8} (other : 0x22 < c.toNat ∧ c.toNat < 0x5C ∨ 0x5C < c.toNat) :
    c ≠ 0x22 ∧ c ≠ 0x5C ∧ 0x20 ≤ c.toNat := by
  have apart {k : UInt8} (different : c.toNat ≠ k.toNat) : c ≠ k := mt (congrArg UInt8.toNat) different
  refine ⟨apart ?_, apart ?_, by omega⟩ <;> simp only [UInt8.reduceToNat] <;> omega

/-! ## The scanner -/

inductive Phase where
  | outside
  | inside (content : Bytes)
  | escaped (content : Bytes)
  | closed

/-- Not within a string. -/
def Phase.Calm : Phase → Prop
  | .outside => True
  | .closed => True
  | _ => False

theorem calm_outside : Phase.Calm .outside := trivial

theorem calm_closed : Phase.Calm .closed := trivial

/-- What may follow a string. -/
def ends (c : UInt8) : Bool := c == 0x2C || c == 0x3A || c == 0x5D || c == 0x7D

structure Scan where
  phase : Phase
  found : List Bytes

namespace Scan

def step : Scan → UInt8 → Option Scan
  | ⟨.outside, found⟩, c => some (if c = 0x22 then ⟨.inside [], found⟩ else ⟨.outside, found⟩)
  | ⟨.inside content, found⟩, c =>
    some (if c = 0x22 then ⟨.closed, found ++ [content]⟩
      else if c = 0x5C then ⟨.escaped (content ++ [c]), found⟩
      else ⟨.inside (content ++ [c]), found⟩)
  | ⟨.escaped content, found⟩, c => some ⟨.inside (content ++ [c]), found⟩
  | ⟨.closed, found⟩, c =>
    if isSpace c then some ⟨.closed, found⟩ else if ends c then some ⟨.outside, found⟩ else none

def run (scan : Scan) (text : Bytes) : Option Scan := text.foldlM step scan

theorem run_cons (scan : Scan) (c : UInt8) (text : Bytes) :
    scan.run (c :: text) = (scan.step c).bind fun next => next.run text := rfl

theorem run_append (scan : Scan) (text later : Bytes) :
    scan.run (text ++ later) = (scan.run text).bind fun next => next.run later := by
  rw [run, List.foldlM_append]
  rfl

/-- Outside of strings only a quote matters. -/
theorem run_outside {text : Bytes} (noQuote : ∀ c ∈ text, c ≠ 0x22) (found : List Bytes) :
    run ⟨.outside, found⟩ text = some ⟨.outside, found⟩ := by
  induction text with
  | nil => rfl
  | cons c text ih =>
    obtain ⟨other, later⟩ := List.forall_mem_cons.mp noQuote
    rw [run_cons, step, if_neg other]
    exact ih later

theorem run_spaces {phase : Phase} (calm : phase.Calm) {text : Bytes} (spaces : ∀ c ∈ text, isSpace c = true)
    (found : List Bytes) : run ⟨phase, found⟩ text = some ⟨phase, found⟩ := by
  induction text with
  | nil => rfl
  | cons c text ih =>
    obtain ⟨space, later⟩ := List.forall_mem_cons.mp spaces
    have kept : step ⟨phase, found⟩ c = some ⟨phase, found⟩ := by
      cases phase with
      | outside =>
        have other : c ≠ 0x22 := by
          rintro rfl
          exact absurd space (by decide)
        rw [step, if_neg other]
      | closed => rw [step, if_pos space]
      | inside content => exact absurd calm id
      | escaped content => exact absurd calm id
    rw [run_cons, kept, Option.bind_some, ih later]

theorem run_plain {text : Bytes} (plain : Plain text) (content : Bytes) (found : List Bytes) :
    run ⟨.inside content, found⟩ text = some ⟨.inside (content ++ text), found⟩ := by
  induction text generalizing content with
  | nil => rw [List.append_nil]; rfl
  | cons c text ih =>
    obtain ⟨⟨noQuote, noBackslash, _⟩, later⟩ := plain_cons.mp plain
    rw [run_cons, step, if_neg noQuote, if_neg noBackslash, Option.bind_some, ih later, List.append_assoc,
      List.singleton_append]

/-- After a comma, a colon or a closing bracket the scanner is outside. -/
theorem step_mark {phase : Phase} (calm : phase.Calm) {c : UInt8} (ending : ends c = true) (notSpace : isSpace c = false)
    (found : List Bytes) : step ⟨phase, found⟩ c = some ⟨.outside, found⟩ := by
  have noQuote : c ≠ 0x22 := by
    rintro rfl
    exact absurd ending (by decide)
  cases phase with
  | outside => rw [step, if_neg noQuote]
  | closed => rw [step, if_neg (by rw [notSpace]; exact Bool.false_ne_true), if_pos ending]
  | inside content => exact absurd calm id
  | escaped content => exact absurd calm id

end Scan

/-! ## What a string stands for -/

/-- A string that was read from the content between two quotes. -/
def Shows (content s : Bytes) : Prop := Plain content ∧ s = content ∨ ¬ Plain content ∧ s.length < content.length

private def width : Piece → ℕ
  | .byte _ => 1
  | .unit _ => 4

private theorem length_encode (code : ℕ) : (encode code).length ≤ 4 := by
  rw [encode, String.length_utf8EncodeChar]
  exact Char.utf8Size_le_four _

private theorem length_assemble {read : List Piece} {s : Bytes} (assembled : assemble read = some s) :
    s.length ≤ (read.map width).sum := by
  induction read using assemble.induct generalizing s with
  | case1 =>
    cases assembled
    exact Nat.le_refl 0
  | case2 b later ih =>
    rw [assemble, Option.map_eq_some_iff] at assembled
    obtain ⟨rest, whole, rfl⟩ := assembled
    have bound := ih whole
    rw [List.map_cons, List.sum_cons, List.length_cons, width]
    omega
  | case3 high low later surrogate paired ih =>
    rw [assemble, if_pos surrogate, if_pos paired, Option.map_eq_some_iff] at assembled
    obtain ⟨rest, whole, rfl⟩ := assembled
    have bound := ih whole
    have short := length_encode (0x10000 + (high - 0xD800) * 0x400 + (low - 0xDC00))
    simp only [List.map_cons, List.sum_cons, List.length_append, width]
    omega
  | case4 high low later surrogate single =>
    rw [assemble, if_pos surrogate, if_neg single] at assembled
    cases assembled
  | case5 high low later character ih =>
    rw [assemble, if_neg character, Option.map_eq_some_iff] at assembled
    obtain ⟨rest, whole, rfl⟩ := assembled
    have bound := ih whole
    have short := length_encode high
    simp only [List.map_cons, List.sum_cons, List.length_append, width] at bound ⊢
    omega
  | case6 code later single surrogate =>
    rw [assemble, if_pos surrogate] at assembled
    · cases assembled
    · exact single
  | case7 code later single character ih =>
    rw [assemble, if_neg character, Option.map_eq_some_iff] at assembled
    · obtain ⟨rest, whole, rfl⟩ := assembled
      have bound := ih whole
      have short := length_encode code
      simp only [List.map_cons, List.sum_cons, List.length_append, width]
      omega
    · exact single

private theorem assemble_bytes (content : Bytes) : assemble (content.map .byte) = some content := by
  induction content with
  | nil => rfl
  | cons c content ih => rw [List.map_cons, assemble, ih, Option.map_some]

private theorem hexValue_plain {c : UInt8} {n : ℕ} (digit : hexValue c = some n) :
    c ≠ 0x22 ∧ c ≠ 0x5C ∧ 0x20 ≤ c.toNat := by
  unfold hexValue at digit
  simp only [UInt8.le_iff_toNat_le, UInt8.reduceToNat] at digit
  split_ifs at digit with decimal upper lower
  · exact unescaped_of_toNat (by omega)
  · exact unescaped_of_toNat (by omega)
  · exact unescaped_of_toNat (by omega)

private theorem codeUnit_plain {a b c d : UInt8} {code : ℕ} (unit : codeUnit a b c d = some code) :
    Plain [a, b, c, d] := by
  simp only [codeUnit, bind, Option.bind_eq_some_iff] at unit
  obtain ⟨_, first, _, second, _, third, _, fourth, _⟩ := unit
  simp only [Plain, List.forall_mem_cons]
  exact ⟨hexValue_plain first, hexValue_plain second, hexValue_plain third, hexValue_plain fourth, List.forall_mem_nil _⟩

namespace Scan

/-- A backslash takes the next character with it. -/
private theorem run_escape (c : UInt8) (content before : Bytes) (found : List Bytes) :
    run ⟨.inside before, found⟩ (0x5C :: c :: content) = run ⟨.inside (before ++ [0x5C, c]), found⟩ content := by
  rw [run_cons, step, if_neg (by decide), if_pos rfl, Option.bind_some, run_cons, step, Option.bind_some,
    List.append_assoc]
  rfl

end Scan

private theorem not_plain_escape (content : Bytes) : ¬ Plain (0x5C :: content) :=
  fun plain => (plain 0x5C List.mem_cons_self).2.1 rfl

private theorem width_bytes (content : Bytes) : ((content.map Piece.byte).map width).sum = content.length := by
  induction content with
  | nil => rfl
  | cons c content ih =>
    rw [List.map_cons, List.map_cons, List.sum_cons, ih, List.length_cons]
    exact Nat.add_comm 1 _

/-- The pieces of a string's content are its bytes, or take less place than an escape in it. -/
private def Covers (content : Bytes) (read : List Piece) : Prop :=
  Plain content ∧ read = content.map .byte ∨ ¬ Plain content ∧ (read.map width).sum < content.length

private theorem Covers.width_le {content : Bytes} {read : List Piece} (covers : Covers content read) :
    (read.map width).sum ≤ content.length := by
  rcases covers with ⟨_, rfl⟩ | ⟨_, less⟩
  · exact Nat.le_of_eq (width_bytes content)
  · exact Nat.le_of_lt less

private theorem Covers.cons {content : Bytes} {read : List Piece} (covers : Covers content read) {c : UInt8}
    (first : c ≠ 0x22 ∧ c ≠ 0x5C ∧ 0x20 ≤ c.toNat) : Covers (c :: content) (.byte c :: read) := by
  rcases covers with ⟨plain, rfl⟩ | ⟨notPlain, shorter⟩
  · exact Or.inl ⟨plain_cons.mpr ⟨first, plain⟩, rfl⟩
  · refine Or.inr ⟨fun plain => notPlain (plain_cons.mp plain).2, ?_⟩
    simp only [List.map_cons, List.sum_cons, List.length_cons, width]
    omega

/-- The content of a string is scanned up to the quote that closes it. -/
private theorem pieces_scanned {text rest : Bytes} {read : List Piece} (reads : pieces text = some (read, rest)) :
    ∃ content, text = content ++ 0x22 :: rest ∧
      (∀ before found, Scan.run ⟨.inside before, found⟩ content = some ⟨.inside (before ++ content), found⟩) ∧
      Covers content read := by
  induction text using pieces.induct generalizing read rest with
  | case1 => cases reads
  | case2 later =>
    cases reads
    refine ⟨[], rfl, fun before found => ?_, Or.inl ⟨fun c absent => absurd absent List.not_mem_nil, rfl⟩⟩
    rw [List.append_nil]
    rfl
  | case3 a b c d later ih =>
    simp only [pieces, Option.bind_eq_some_iff, Option.map_eq_some_iff, Prod.mk.injEq] at reads
    obtain ⟨code, unit, ⟨others, after⟩, inner, rfl, rfl⟩ := reads
    obtain ⟨content, rfl, scanned, covers⟩ := ih inner
    refine ⟨0x5C :: 0x75 :: a :: b :: c :: d :: content, rfl, fun before found => ?_, Or.inr ⟨not_plain_escape _, ?_⟩⟩
    · have digits := Scan.run_append ⟨.inside (before ++ [0x5C, 0x75]), found⟩ [a, b, c, d] content
      rw [Scan.run_plain (codeUnit_plain unit), Option.bind_some, scanned] at digits
      rw [Scan.run_escape]
      refine Eq.trans digits ?_
      simp only [List.append_assoc, List.cons_append, List.nil_append]
    · have shorter := covers.width_le
      simp only [List.map_cons, List.sum_cons, List.length_cons, width]
      omega
  | case4 c later other ih =>
    rw [pieces, Option.bind_eq_some_iff] at reads
    · obtain ⟨b, escaped, mapped⟩ := reads
      obtain ⟨⟨others, after⟩, inner, split⟩ := Option.map_eq_some_iff.mp mapped
      cases split
      obtain ⟨content, rfl, scanned, covers⟩ := ih inner
      refine ⟨0x5C :: c :: content, rfl, fun before found => ?_, Or.inr ⟨not_plain_escape _, ?_⟩⟩
      · rw [Scan.run_escape, scanned]
        simp only [List.append_assoc, List.cons_append, List.nil_append]
      · have shorter := covers.width_le
        simp only [List.map_cons, List.sum_cons, List.length_cons, width]
        omega
    · exact other
  | case5 c later quote unicode escape control =>
    rw [pieces, if_pos control] at reads
    · cases reads
    · exact quote
    · exact unicode
    · exact escape
  | case6 c later quote unicode escape control ih =>
    rw [pieces, if_neg control, Option.map_eq_some_iff] at reads
    · obtain ⟨⟨others, after⟩, inner, split⟩ := reads
      cases split
      obtain ⟨content, rfl, scanned, covers⟩ := ih inner
      have noBackslash : c ≠ 0x5C := by
        rintro rfl
        cases content with
        | nil => exact escape 0x22 _ rfl rfl
        | cons next content => exact escape next _ rfl rfl
      have first : c ≠ 0x22 ∧ c ≠ 0x5C ∧ 0x20 ≤ c.toNat := ⟨quote, noBackslash, Nat.le_of_not_lt control⟩
      refine ⟨c :: content, rfl, fun before found => ?_, covers.cons first⟩
      rw [Scan.run_cons, Scan.step, if_neg first.1, if_neg noBackslash, Option.bind_some, scanned, List.append_assoc,
        List.singleton_append]
    · exact quote
    · exact unicode
    · exact escape

theorem string_scanned {text rest s : Bytes} (reads : string text = some (s, rest)) :
    ∃ content, text = content ++ 0x22 :: rest ∧ Shows content s ∧
      ∀ found, Scan.run ⟨.inside [], found⟩ content = some ⟨.inside content, found⟩ := by
  simp only [string, Option.bind_eq_some_iff] at reads
  obtain ⟨⟨read, after⟩, pieced, whole, assembled, valid⟩ := reads
  split_ifs at valid
  cases valid
  obtain ⟨content, rfl, scanned, known⟩ := pieces_scanned pieced
  refine ⟨content, rfl, ?_, fun found => scanned [] found⟩
  rcases known with ⟨plain, rfl⟩ | ⟨notPlain, shorter⟩
  · rw [assemble_bytes] at assembled
    cases assembled
    exact Or.inl ⟨plain, rfl⟩
  · exact Or.inr ⟨notPlain, Nat.lt_of_le_of_lt (length_assemble assembled) shorter⟩

/-! ## The reader and the scanner -/

/-- The scanner gets from one place of a text to another and finds the strings that are read in between. -/
def Passes (start finish : Phase) (text rest : Bytes) (strings : List Bytes) : Prop :=
  ∃ used found, text = used ++ rest ∧
    (∀ before, Scan.run ⟨start, before⟩ used = some ⟨finish, before ++ found⟩) ∧
    ∀ s ∈ strings, ∃ content ∈ found, Shows content s

namespace Passes

theorem trans {a b c : Phase} {text middle rest : Bytes} {first second : List Bytes}
    (front : Passes a b text middle first) (back : Passes b c middle rest second) :
    Passes a c text rest (first ++ second) := by
  obtain ⟨used, found, rfl, scanned, shown⟩ := front
  obtain ⟨later, others, rfl, scannedLater, shownLater⟩ := back
  refine ⟨used ++ later, found ++ others, (List.append_assoc ..).symm, fun before => ?_, fun s member => ?_⟩
  · rw [Scan.run_append, scanned, Option.bind_some, scannedLater, List.append_assoc]
  · rcases List.mem_append.mp member with earlier | after
    · obtain ⟨content, inside, shows⟩ := shown s earlier
      exact ⟨content, List.mem_append_left _ inside, shows⟩
    · obtain ⟨content, inside, shows⟩ := shownLater s after
      exact ⟨content, List.mem_append_right _ inside, shows⟩

theorem mono {a b : Phase} {text rest : Bytes} {strings fewer : List Bytes} (passes : Passes a b text rest strings)
    (included : fewer ⊆ strings) : Passes a b text rest fewer := by
  obtain ⟨used, found, split, scanned, shown⟩ := passes
  exact ⟨used, found, split, scanned, fun s member => shown s (included member)⟩

/-- Text without strings. -/
private theorem silent {a b : Phase} {used : Bytes}
    (scanned : ∀ before, Scan.run ⟨a, before⟩ used = some ⟨b, before⟩) (rest : Bytes) :
    Passes a b (used ++ rest) rest [] := by
  refine ⟨used, [], rfl, fun before => ?_, List.forall_mem_nil _⟩
  rw [List.append_nil]
  exact scanned before

theorem word {used : Bytes} (noQuote : ∀ c ∈ used, c ≠ 0x22) (rest : Bytes) :
    Passes .outside .outside (used ++ rest) rest [] :=
  silent (Scan.run_outside noQuote) rest

theorem skip {phase : Phase} (calm : phase.Calm) (text : Bytes) : Passes phase phase text (JsonText.skip text) [] := by
  have spaces : ∀ c ∈ text.takeWhile isSpace, isSpace c = true := fun c member => List.mem_takeWhile_imp member
  have passed := silent (Scan.run_spaces calm spaces) (text.dropWhile isSpace)
  rw [List.takeWhile_append_dropWhile] at passed
  exact passed

theorem mark {phase : Phase} (calm : phase.Calm) {c : UInt8} (ending : ends c = true) (notSpace : isSpace c = false)
    (rest : Bytes) : Passes phase .outside (c :: rest) rest [] := by
  refine @silent phase .outside [c] (fun before => ?_) rest
  rw [Scan.run_cons, Scan.step_mark calm ending notSpace]
  rfl

theorem string {text rest s : Bytes} (reads : JsonText.string text = some (s, rest)) :
    Passes .outside .closed (0x22 :: text) rest [s] := by
  obtain ⟨content, rfl, shows, scanned⟩ := string_scanned reads
  refine ⟨0x22 :: (content ++ [0x22]), [content], ?_, fun before => ?_, ?_⟩
  · rw [List.cons_append, List.append_assoc, List.singleton_append]
  · rw [Scan.run_cons, Scan.step, if_pos rfl, Option.bind_some, Scan.run_append, scanned]
    rfl
  · rw [List.forall_mem_singleton]
    exact ⟨content, List.mem_singleton.mpr rfl, shows⟩

end Passes

private theorem stringsIn_setAll {entries : Members D} : stringsIn (Members.setAll entries []) ⊆ stringsIn entries := by
  intro s member
  obtain ⟨⟨key, v⟩, inside, shown⟩ := mem_stringsIn.mp member
  obtain ⟨before, after, split, _⟩ := List.lookup_eq_some_iff.mp (Members.mem_setAll.mp inside)
  refine mem_stringsIn.mpr ⟨(key, v), List.mem_reverse.mp ?_, shown⟩
  rw [split]
  exact List.mem_append_right _ List.mem_cons_self

section Reading

variable {floats : Floats D} {fuel : ℕ}

/-- What is read within `fuel` steps is scanned. -/
private structure Scanned (floats : Floats D) (fuel : ℕ) : Prop where
  value : ∀ {text rest v}, JsonText.value floats fuel text = some (v, rest) →
    ∃ finish, finish.Calm ∧ Passes .outside finish text rest v.strings
  elements : ∀ {start text rest vs}, Phase.Calm start → JsonText.elements floats fuel text = some (vs, rest) →
    Passes start .outside text rest (stringsOf vs)
  member : ∀ {text rest entry}, JsonText.member floats fuel text = some (entry, rest) →
    ∃ finish, finish.Calm ∧ Passes .outside finish text rest (stringsIn [entry])
  members : ∀ {start text rest entries}, Phase.Calm start → JsonText.members floats fuel text = some (entries, rest) →
    Passes start .outside text rest (stringsIn entries)

private theorem array_scanned (ih : Scanned floats fuel) {text later rest : Bytes} {v : JsonValue D}
    {vs : List (JsonValue D)} (first : value floats fuel (skip text) = some (v, later))
    (others : elements floats fuel (skip later) = some (vs, rest)) :
    Passes .outside .outside (0x5B :: text) rest (stringsOf (v :: vs)) := by
  have opened : Passes .outside .outside (0x5B :: text) text [] := @Passes.word [0x5B] (by decide) text
  obtain ⟨finish, calm, read⟩ := ih.value first
  have passed := ((opened.trans (Passes.skip calm_outside text)).trans read).trans
    ((Passes.skip calm later).trans (ih.elements calm others))
  exact passed

private theorem object_scanned (ih : Scanned floats fuel) {text later rest : Bytes} {entry : Bytes × JsonValue D}
    {entries : Members D} (first : member floats fuel (skip text) = some (entry, later))
    (others : members floats fuel (skip later) = some (entries, rest)) :
    Passes .outside .outside (0x7B :: text) rest (stringsIn (entry :: entries)) := by
  have opened : Passes .outside .outside (0x7B :: text) text [] := @Passes.word [0x7B] (by decide) text
  obtain ⟨finish, calm, read⟩ := ih.member first
  have passed := ((opened.trans (Passes.skip calm_outside text)).trans read).trans
    ((Passes.skip calm later).trans (ih.members calm others))
  refine passed.mono fun s member => ?_
  simpa [stringsIn] using member

private theorem value_scanned (ih : Scanned floats fuel) {text rest : Bytes} {v : JsonValue D}
    (reads : value floats (fuel + 1) text = some (v, rest)) :
    ∃ finish, finish.Calm ∧ Passes .outside finish text rest v.strings := by
  unfold value at reads
  split at reads
  · obtain ⟨⟨s, later⟩, inner, split⟩ := Option.map_eq_some_iff.mp reads
    cases split
    exact ⟨.closed, trivial, Passes.string inner⟩
  · rename_i text
    refine ⟨.outside, trivial, ?_⟩
    split at reads
    · rename_i later skipped
      cases reads
      have opened : Passes .outside .outside (0x5B :: text) text [] := @Passes.word [0x5B] (by decide) text
      have inside := Passes.skip calm_outside text
      rw [skipped] at inside
      exact (opened.trans inside).trans (Passes.mark calm_outside (by decide) (by decide) rest)
    · simp only [Option.bind_eq_some_iff, Option.map_eq_some_iff, Prod.mk.injEq] at reads
      obtain ⟨⟨first, later⟩, readFirst, ⟨others, after⟩, readOthers, rfl, rfl⟩ := reads
      exact array_scanned ih readFirst readOthers
  · rename_i text
    refine ⟨.outside, trivial, ?_⟩
    split at reads
    · rename_i later skipped
      cases reads
      have opened : Passes .outside .outside (0x7B :: text) text [] := @Passes.word [0x7B] (by decide) text
      have inside := Passes.skip calm_outside text
      rw [skipped] at inside
      exact (opened.trans inside).trans (Passes.mark calm_outside (by decide) (by decide) rest)
    · simp only [Option.bind_eq_some_iff, Option.map_eq_some_iff, Prod.mk.injEq] at reads
      obtain ⟨⟨first, later⟩, readFirst, ⟨others, after⟩, readOthers, rfl, rfl⟩ := reads
      exact (object_scanned ih readFirst readOthers).mono stringsIn_setAll
  · cases reads
    exact ⟨.outside, trivial, @Passes.word (ascii "null") (by decide) rest⟩
  · cases reads
    exact ⟨.outside, trivial, @Passes.word (ascii "true") (by decide) rest⟩
  · cases reads
    exact ⟨.outside, trivial, @Passes.word (ascii "false") (by decide) rest⟩
  · obtain ⟨v, numeric, split⟩ := Option.map_eq_some_iff.mp reads
    cases split
    have characters : ∀ c ∈ text.takeWhile isNumberChar, c ≠ 0x22 := by
      rintro c member rfl
      exact absurd (List.mem_takeWhile_imp member) (by decide)
    have passed := Passes.word characters (text.dropWhile isNumberChar)
    rw [List.takeWhile_append_dropWhile] at passed
    refine ⟨.outside, trivial, ?_⟩
    unfold number at numeric
    split_ifs at numeric
    · cases numeric
      exact passed
    · cases numeric
      exact passed
    · obtain ⟨d, _, rfl⟩ := Option.map_eq_some_iff.mp numeric
      exact passed

private theorem elements_scanned (ih : Scanned floats fuel) {start : Phase} {text rest : Bytes}
    {vs : List (JsonValue D)} (calm : start.Calm) (reads : elements floats (fuel + 1) text = some (vs, rest)) :
    Passes start .outside text rest (stringsOf vs) := by
  unfold elements at reads
  split at reads
  · cases reads
    exact Passes.mark calm (by decide) (by decide) rest
  · rename_i text
    simp only [Option.bind_eq_some_iff, Option.map_eq_some_iff, Prod.mk.injEq] at reads
    obtain ⟨⟨first, later⟩, readFirst, ⟨others, after⟩, readOthers, rfl, rfl⟩ := reads
    obtain ⟨finish, settled, read⟩ := ih.value readFirst
    have comma : Passes start .outside (0x2C :: text) text [] := Passes.mark calm (by decide) (by decide) text
    exact ((comma.trans (Passes.skip calm_outside text)).trans read).trans
      ((Passes.skip settled later).trans (ih.elements settled readOthers))
  · cases reads

private theorem members_scanned (ih : Scanned floats fuel) {start : Phase} {text rest : Bytes}
    {entries : Members D} (calm : start.Calm) (reads : members floats (fuel + 1) text = some (entries, rest)) :
    Passes start .outside text rest (stringsIn entries) := by
  unfold members at reads
  split at reads
  · cases reads
    exact Passes.mark calm (by decide) (by decide) rest
  · rename_i text
    simp only [Option.bind_eq_some_iff, Option.map_eq_some_iff, Prod.mk.injEq] at reads
    obtain ⟨⟨first, later⟩, readFirst, ⟨others, after⟩, readOthers, rfl, rfl⟩ := reads
    obtain ⟨finish, settled, read⟩ := ih.member readFirst
    have comma : Passes start .outside (0x2C :: text) text [] := Passes.mark calm (by decide) (by decide) text
    have passed := ((comma.trans (Passes.skip calm_outside text)).trans read).trans
      ((Passes.skip settled later).trans (ih.members settled readOthers))
    refine passed.mono fun s member => ?_
    simpa [stringsIn] using member
  · cases reads

private theorem member_scanned (ih : Scanned floats fuel) {text rest : Bytes} {entry : Bytes × JsonValue D}
    (reads : member floats (fuel + 1) text = some (entry, rest)) :
    ∃ finish, finish.Calm ∧ Passes .outside finish text rest (stringsIn [entry]) := by
  unfold member at reads
  split at reads
  · rename_i text
    obtain ⟨⟨key, later⟩, readKey, readValue⟩ := Option.bind_eq_some_iff.mp reads
    dsimp only at readValue
    split at readValue
    · rename_i after skipped
      obtain ⟨⟨v, last⟩, inner, split⟩ := Option.map_eq_some_iff.mp readValue
      cases split
      obtain ⟨finish, settled, read⟩ := ih.value inner
      have toColon := Passes.skip calm_closed later
      rw [skipped] at toColon
      have colon : Passes .closed .outside (0x3A :: after) after [] := Passes.mark calm_closed (by decide) (by decide) after
      have passed := ((Passes.string readKey).trans (toColon.trans colon)).trans
        ((Passes.skip calm_outside after).trans read)
      refine ⟨finish, settled, passed.mono fun s member => ?_⟩
      simpa [stringsIn] using member
    · cases readValue
  · cases reads

private theorem scanned (floats : Floats D) (fuel : ℕ) : Scanned floats fuel := by
  induction fuel with
  | zero =>
    constructor
    · intro text rest v reads
      cases reads
    · intro start text rest vs calm reads
      cases reads
    · intro text rest entry reads
      cases reads
    · intro start text rest entries calm reads
      cases reads
  | succ fuel ih => exact ⟨value_scanned ih, elements_scanned ih, member_scanned ih, members_scanned ih⟩

end Reading

/-- The scanner gets over a text that the reader reads, and every string that was read was found. -/
theorem parse_scanned {floats : Floats D} {text : Bytes} {v : JsonValue D} (reads : parse floats text = some v) :
    ∃ finish found, finish.Calm ∧ Scan.run ⟨.outside, []⟩ text = some ⟨finish, found⟩ ∧
      ∀ s ∈ v.strings, ∃ content ∈ found, Shows content s := by
  obtain ⟨⟨read, later⟩, whole, ended⟩ := Option.bind_eq_some_iff.mp reads
  split_ifs at ended with blank
  cases ended
  obtain ⟨finish, calm, passed⟩ := (scanned floats _).value whole
  have toEnd := Passes.skip calm later
  rw [List.isEmpty_iff.mp blank] at toEnd
  obtain ⟨used, found, split, run, shown⟩ := ((Passes.skip calm_outside text).trans passed).trans toEnd
  rw [List.append_nil] at split
  refine ⟨finish, found, calm, ?_, fun s member => shown s (List.mem_append_left _ member)⟩
  rw [split, run, List.nil_append]

end JsonText

end Illuminator
