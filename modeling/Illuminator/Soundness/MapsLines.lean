import Illuminator.Model.ProcMaps
import Illuminator.ToMathlib.Delimited

/-! # Maps lines of the kernel

The kernel prints a mapping's numbers with leading zeros up to a width, the fields behind single blanks and the path
behind padding. The scanned fields are these again. Of a path the scan leaves out white space at its front, and a C
string ends at its first NUL.
-/

namespace Illuminator

namespace ProcMaps

open Processors (Instant MapsCacheEntry ProcMapEntry)
open Scanf

/-- What the kernel prints for a mapping. The path is empty if there is none. -/
structure Mapping where
  start : UInt64
  end_ : UInt64
  perms : Vector UInt8 4
  letters : ∀ c ∈ perms.toList, 0x20 < c
  offset : UInt64
  major : BitVec 12
  minor : BitVec 20
  inode : UInt64
  path : Bytes
  short : path.length ≤ 1023
  oneLine : 0x0A ∉ path
  unblanked : ∀ c ∈ path.head?, c ≠ 0x20 ∧ c ≠ 0x09

/-- A hexadecimal number with zeros in front of it up to a width. -/
def put_hex (width n : ℕ) : Bytes := List.replicate (width - (numeral 16 n).length) 0x30 ++ numeral 16 n

def Mapping.dev (m : Mapping) : Bytes := put_hex 2 m.major.toNat ++ 0x3A :: put_hex 2 m.minor.toNat

/-- The fields of a line, with some padding and a text behind it. -/
def Mapping.fields (m : Mapping) (padding : ℕ) (behind : Bytes) : Bytes :=
  put_hex 8 m.start.toNat ++ 0x2D :: (put_hex 8 m.end_.toNat ++ 0x20 :: (m.perms.toList ++
    0x20 :: (put_hex 8 m.offset.toNat ++ 0x20 :: (m.dev ++ 0x20 :: (to_string m.inode.toNat ++
      0x20 :: (List.replicate padding 0x20 ++ behind))))))

/-- The line that the kernel prints, without its line break. -/
def Mapping.line (m : Mapping) (padding : ℕ) : Bytes := m.fields padding m.path

/-- The entry that a line stands for. -/
def Mapping.entry (m : Mapping) : ProcMapEntry :=
  { start := m.start, end_ := m.end_, offset := m.offset, path := m.path }

/-! ## Fields -/

theorem stops_cons {c : UInt8} {rest : Bytes} (other : JsonText.hexValue c = none ∧ c ≠ 0x78 ∧ c ≠ 0x58) :
    Stops (c :: rest) := by
  intro first head
  obtain rfl : c = first := Option.some.inj head
  exact other

theorem number_put_hex {n : UInt64} (width : ℕ) {tail : Bytes} (stops : Stops tail) :
    number 16 (put_hex width n.toNat ++ tail) = some (n, tail) := by
  rw [put_hex, List.append_assoc, number_numeral (by decide) (by decide) n _ stops]

theorem number_blank (base : ℕ) (text : Bytes) : number base (0x20 :: text) = number base text := by
  have skipped : skip (0x20 :: text) = skip text := rfl
  rw [number, number, skipped]

theorem number_to_string {n : UInt64} {tail : Bytes} (stops : Stops tail) :
    number 10 (to_string n.toNat ++ tail) = some (n, tail) :=
  number_numeral (by decide) (by decide) n 0 stops

/-- A word of its own between blanks. -/
theorem word_between {width : ℕ} {text : Bytes} (present : text ≠ []) (short : text.length ≤ width)
    (solid : ∀ c ∈ text, isspace c = false) (rest : Bytes) :
    word width (0x20 :: (text ++ 0x20 :: rest)) = some (text, 0x20 :: rest) := by
  have skipped : skip (0x20 :: (text ++ 0x20 :: rest)) = text ++ 0x20 :: rest := by
    obtain ⟨first, others, rfl⟩ := List.exists_cons_of_ne_nil present
    change skip (first :: (others ++ 0x20 :: rest)) = _
    exact List.dropWhile_cons_of_neg (by rw [solid first List.mem_cons_self]; exact Bool.false_ne_true)
  have read : (text ++ 0x20 :: rest).takeWhile (!isspace ·) = text := by
    rw [List.takeWhile_append_of_pos fun c member => by rw [solid c member]; rfl]
    exact List.append_nil text
  rw [word]
  simp only [skipped, read, List.take_of_length_le short, present, if_false, List.drop_left']

theorem put_hex_digits (width n : ℕ) : ∀ c ∈ put_hex width n, (digit 16 c).isSome := by
  intro c member
  rcases List.mem_append.mp member with zero | digit
  · rw [List.eq_of_mem_replicate zero]
    rfl
  · exact (numeral_spec (by decide) (by decide) n).1 c digit

theorem put_hex_length {width n digits : ℕ} (positive : 0 < digits) (small : n < 16 ^ digits) :
    (put_hex width n).length ≤ max width digits := by
  have numerals : (numeral 16 n).length ≤ digits := by
    rw [numeral, List.length_map]
    exact (Nat.length_toDigits_le_iff (by decide) positive).mpr small
  rw [put_hex, List.length_append, List.length_replicate]
  omega

/-- The device is a word that fits. -/
theorem dev_word (m : Mapping) : m.dev ≠ [] ∧ m.dev.length ≤ 15 ∧ ∀ c ∈ m.dev, isspace c = false := by
  refine ⟨List.append_ne_nil_of_right_ne_nil _ (List.cons_ne_nil _ _), ?_, ?_⟩
  · have major : (put_hex 2 m.major.toNat).length ≤ max 2 3 := put_hex_length (by decide) m.major.isLt
    have minor : (put_hex 2 m.minor.toNat).length ≤ max 2 5 := put_hex_length (by decide) m.minor.isLt
    rw [Mapping.dev, List.length_append, List.length_cons]
    omega
  · intro c member
    have digits (n : ℕ) (inside : c ∈ put_hex 2 n) : isspace c = false :=
      (digit_plain (put_hex_digits 2 n c inside)).1
    rcases List.mem_append.mp member with front | back
    · exact digits _ front
    · rcases List.mem_cons.mp back with colon | digit
      · rw [colon]
        decide
      · exact digits _ digit

theorem perms_word (m : Mapping) :
    m.perms.toList ≠ [] ∧ m.perms.toList.length ≤ 7 ∧ ∀ c ∈ m.perms.toList, isspace c = false := by
  have width : m.perms.toList.length = 4 := Vector.length_toList
  refine ⟨?_, ?_, ?_⟩
  · intro absent
    rw [absent] at width
    cases width
  · omega
  · intro c member
    have visible : 32 < c.toNat := m.letters c member
    simp only [isspace, Bool.or_eq_false_iff, Bool.and_eq_false_iff, decide_eq_false_iff_not, UInt8.le_iff_toNat_le,
      beq_eq_false_iff_ne]
    refine ⟨?_, .inr ?_⟩
    · rintro rfl
      exact absurd visible (by decide)
    · change ¬ c.toNat ≤ 13
      omega

/-! ## Lines -/

theorem fields_append (m : Mapping) (padding : ℕ) (behind : Bytes) :
    m.fields padding behind = m.fields padding [] ++ behind := by
  simp only [Mapping.fields, List.append_assoc, List.cons_append, List.append_nil]

/-- The fields are printable. -/
theorem fields_printable (m : Mapping) (padding : ℕ) : ∀ c ∈ m.fields padding [], 0x20 ≤ c.toNat := by
  have digits (width n : ℕ) : ∀ c ∈ put_hex width n, 0x20 ≤ c.toNat := fun c member =>
    le_trans (by decide) (hexValue_range (digit_hexValue (put_hex_digits width n c member)))
  have decimal (n : ℕ) : ∀ c ∈ to_string n, 0x20 ≤ c.toNat := fun c member =>
    le_trans (by decide) (to_string_range member).1
  have letters : ∀ c ∈ m.perms.toList, 0x20 ≤ c.toNat := fun c member =>
    le_of_lt (UInt8.lt_iff_toNat_lt.mp (m.letters c member))
  have blanks : ∀ c ∈ List.replicate padding (0x20 : UInt8), 0x20 ≤ c.toNat := by
    intro c member
    rw [List.eq_of_mem_replicate member]
    decide
  simp only [Mapping.fields, Mapping.dev, List.append_nil, List.forall_mem_append, List.forall_mem_cons]
  exact ⟨digits _ _, by decide, digits _ _, by decide, letters, by decide, digits _ _, by decide,
    ⟨digits _ _, by decide, digits _ _⟩, by decide, decimal _, by decide, blanks⟩

theorem fields_solid (m : Mapping) (padding : ℕ) : ∀ c ∈ m.fields padding [], (c != 0) = true := by
  intro c member
  rw [bne_iff_ne]
  rintro rfl
  exact absurd (fields_printable m padding 0 member) (by decide)

theorem skip_blanks (padding : ℕ) (text : Bytes) :
    skip (0x20 :: (List.replicate padding 0x20 ++ text)) = skip text := by
  induction padding with
  | zero => rfl
  | succ padding ih => exact ih

/-- Behind white space the scan set takes as much of the path as it has room for. -/
theorem path_scanned {text : Bytes} (oneLine : 0x0A ∉ text) :
    (((restOfLine 1023 (skip text)).map Prod.fst).getD []).dropWhile (fun c => c == 0x20 || c == 0x09) =
      (skip text).take 1023 := by
  have inside : skip text <:+ text := List.dropWhile_suffix _
  have clean : ∀ c ∈ skip text, (c != 0x0A) = true := by
    intro c member
    rw [bne_iff_ne]
    rintro rfl
    exact oneLine (inside.subset member)
  have whole : ((restOfLine 1023 (skip text)).map Prod.fst).getD [] = (skip text).take 1023 := by
    rw [restOfLine, List.takeWhile_eq_self_iff.mpr clean]
    split_ifs with empty
    · exact empty.symm
    · rfl
  rw [whole]
  cases scanned : skip text with
  | nil => rfl
  | cons c rest =>
    have solid : isspace c = false := by
      have first := List.head?_dropWhile_not isspace text
      rw [← skip, scanned] at first
      exact first
    have other : ¬ (c == 0x20 || c == 0x09) = true := by
      intro blank
      rcases (Bool.or_eq_true _ _).mp blank with space | tab
      · rw [beq_iff_eq.mp space] at solid
        cases solid
      · rw [beq_iff_eq.mp tab] at solid
        cases solid
    rw [List.take_succ_cons]
    exact List.dropWhile_cons_of_neg other

/-- A line is scanned into its fields and what stands behind them, up to a NUL, without white space at the front and
cut off where the buffer ends. -/
theorem parses_fields (m : Mapping) (padding : ℕ) {path : Bytes} (oneLine : 0x0A ∉ path) :
    ParseProcMapsLine (m.fields padding path) =
      some { m.entry with path := (skip (path.takeWhile (· != 0))).take 1023 } := by
  have kept : path.takeWhile (· != 0) <+: path := List.takeWhile_prefix _
  have blank (rest : Bytes) : Stops (0x20 :: rest) := stops_cons (by decide)
  have dash (rest : Bytes) : Stops (0x2D :: rest) := stops_cons (by decide)
  have seen : (m.fields padding path).takeWhile (· != 0) = m.fields padding (path.takeWhile (· != 0)) := by
    rw [fields_append, List.takeWhile_append_of_pos (fields_solid m padding), ← fields_append]
  obtain ⟨somePerms, shortPerms, solidPerms⟩ := perms_word m
  obtain ⟨someDev, shortDev, solidDev⟩ := dev_word m
  have scanned := path_scanned fun inside => oneLine (kept.subset inside)
  rw [ParseProcMapsLine, seen, Mapping.fields]
  simp only [number_put_hex 8 (dash _), Option.bind_eq_bind, Option.bind_some, literal, List.head?_cons, if_true,
    List.tail_cons, number_put_hex 8 (blank _), word_between somePerms shortPerms solidPerms, number_blank,
    word_between someDev shortDev solidDev, number_to_string (blank _), skip_blanks, scanned]
  rfl

/-- A line is scanned into its fields, its path up to a NUL and without white space at its front. -/
theorem parses_until_NUL (m : Mapping) (padding : ℕ) : ParseProcMapsLine (m.line padding) =
    some { m.entry with path := skip (m.path.takeWhile (· != 0)) } := by
  have kept : m.path.takeWhile (· != 0) <+: m.path := List.takeWhile_prefix _
  have left : skip (m.path.takeWhile (· != 0)) <:+ m.path.takeWhile (· != 0) := List.dropWhile_suffix _
  rw [Mapping.line, parses_fields m padding m.oneLine,
    List.take_of_length_le (left.length_le.trans (kept.length_le.trans m.short))]

/-- A path that is scanned as it is. -/
def Mapping.Plain (m : Mapping) : Prop := 0 ∉ m.path ∧ ∀ c ∈ m.path.head?, isspace c = false

theorem parses_plain {m : Mapping} (plain : m.Plain) (padding : ℕ) :
    ParseProcMapsLine (m.line padding) = some m.entry := by
  obtain ⟨solid, unspaced⟩ := plain
  have whole : m.path.takeWhile (· != 0) = m.path := by
    rw [List.takeWhile_eq_self_iff]
    intro c member
    rw [bne_iff_ne]
    rintro rfl
    exact solid member
  have skipped : skip m.path = m.path := by
    cases named : m.path with
    | nil => rfl
    | cons c rest =>
      rw [named] at unspaced
      exact List.dropWhile_cons_of_neg (by rw [unspaced c rfl]; exact Bool.false_ne_true)
  rw [parses_until_NUL, whole, skipped]
  rfl

/-- A mapping is read back if and only if its path has no NUL and no white space at its front. -/
theorem recovers_iff (m : Mapping) (padding : ℕ) :
    ParseProcMapsLine (m.line padding) = some m.entry ↔ m.Plain := by
  constructor
  · intro same
    have kept : m.path.takeWhile (· != 0) <+: m.path := List.takeWhile_prefix _
    have left : skip (m.path.takeWhile (· != 0)) <:+ m.path.takeWhile (· != 0) := List.dropWhile_suffix _
    rw [parses_until_NUL] at same
    have paths : skip (m.path.takeWhile (· != 0)) = m.path := congrArg ProcMapEntry.path (Option.some.inj same)
    have whole : m.path.takeWhile (· != 0) = m.path := by
      refine kept.eq_of_length_le ?_
      calc m.path.length = (skip (m.path.takeWhile (· != 0))).length := congrArg List.length paths.symm
        _ ≤ (m.path.takeWhile (· != 0)).length := left.length_le
    rw [whole] at paths
    refine ⟨?_, ?_⟩
    · intro inside
      exact absurd (List.takeWhile_eq_self_iff.mp whole 0 inside) (by decide)
    · intro c head
      have first := List.head?_dropWhile_not isspace m.path
      rw [← skip, paths, head] at first
      exact first
  · exact fun plain => parses_plain plain padding

/-- A name with a vertical tab at its front. -/
def tabbed : Mapping where
  start := 0x1000
  end_ := 0x2000
  perms := #v[0x72, 0x2D, 0x78, 0x70]
  letters := by decide
  offset := 0
  major := 8
  minor := 1
  inode := 7
  path := [0x0B, 0x78]
  short := by decide
  oneLine := by decide
  unblanked := by decide

theorem tabbed_shortened : ¬ ∀ (m : Mapping) (padding : ℕ), ParseProcMapsLine (m.line padding) = some m.entry := by
  intro recovered
  have same := (parses_until_NUL tabbed 0).symm.trans (recovered tabbed 0)
  exact absurd (congrArg ProcMapEntry.path (Option.some.inj same)) (by decide)

/-! ## Files -/

/-- A file of lines gives their entries that have an absolute path. -/
theorem LoadMaps_lines {A : Type} (now : Instant) {line : A → Bytes} {entry : A → ProcMapEntry} {printed : List A}
    (oneLine : ∀ m ∈ printed, (0x0A : UInt8) ∉ line m)
    (parses : ∀ m ∈ printed, ParseProcMapsLine (line m) = some (entry m)) :
    LoadMaps now (some (Delimited.pieces 0x0A line printed)) = some {
      maps := (printed.map entry).filter fun m => m.path.head? == some 0x2F
      loaded_at := now } := by
  have split : lines (Delimited.pieces 0x0A line printed) = printed.map line := by
    rw [lines, Delimited.splitOn_pieces_of_clean oneLine]
    simp
  have entries : (printed.map line).filterMap ParseProcMapsLine = printed.map entry := by
    rw [List.filterMap_map, ← List.filterMap_eq_map]
    exact List.filterMap_congr parses
  rw [LoadMaps, Option.map_some, split, entries]

theorem fields_oneLine (m : Mapping) (padding : ℕ) {path : Bytes} (oneLine : 0x0A ∉ path) :
    0x0A ∉ m.fields padding path := by
  intro inside
  rw [fields_append, List.mem_append] at inside
  rcases inside with field | behind
  · exact absurd (fields_printable m padding 0x0A field) (by decide)
  · exact oneLine behind

/-- A file of mappings gives back those that have an absolute path. -/
theorem LoadMaps_file (now : Instant) {printed : List (Mapping × ℕ)} (plain : ∀ m ∈ printed, m.1.Plain) :
    LoadMaps now (some (Delimited.pieces 0x0A (fun m => m.1.line m.2) printed)) = some {
      maps := (printed.map fun m => m.1.entry).filter fun m => m.path.head? == some 0x2F
      loaded_at := now } :=
  LoadMaps_lines now (fun m _ => fields_oneLine m.1 m.2 m.1.oneLine) fun m member => parses_plain (plain m member) m.2

end ProcMaps

end Illuminator
