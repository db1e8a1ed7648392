import Illuminator.Standards.JsonScanning

/-! # JSON that is written without escapes

A writer that puts every string between quotes as it is. Where all the strings are plain its text is the one that
`write` makes. Otherwise the text is no JSON, or some string is not read from it: what is read and not plain is shorter
than the longest string that is not plain.
-/

namespace Illuminator

namespace JsonText

open JsonValue

variable {D : Type}

def unescaped (s : Bytes) : Bytes := 0x22 :: (s ++ [0x22])

mutual

def raw (floats : Floats D) : JsonValue D → Bytes
  | .null => ascii "null"
  | .boolean true => ascii "true"
  | .boolean false => ascii "false"
  | .number_integer i => integer i
  | .number_unsigned u => to_string u.toNat
  | .number_float d => if floats.isfinite d then floats.format d else ascii "null"
  | .string s => unescaped s
  | .array [] => [0x5B, 0x5D]
  | .array (first :: others) => 0x5B :: (raw floats first ++ rawOthers floats others)
  | .object [] => [0x7B, 0x7D]
  | .object ((key, first) :: others) =>
    0x7B :: (unescaped key ++ 0x3A :: (raw floats first ++ rawMembers floats others))

def rawOthers (floats : Floats D) : List (JsonValue D) → Bytes
  | [] => [0x5D]
  | v :: others => 0x2C :: (raw floats v ++ rawOthers floats others)

def rawMembers (floats : Floats D) : Members D → Bytes
  | [] => [0x7D]
  | (key, v) :: others => 0x2C :: (unescaped key ++ 0x3A :: (raw floats v ++ rawMembers floats others))

end

/-! ## Plain strings -/

private theorem unescaped_plain {s : Bytes} (plain : Plain s) : unescaped s = quoted s := by
  have each : s.flatMap escape = s := by
    induction s with
    | nil => rfl
    | cons c s ih =>
      obtain ⟨⟨noQuote, noBackslash, printable⟩, later⟩ := plain_cons.mp plain
      have apart {k : UInt8} (control : k.toNat < 0x20) : c ≠ k := by
        rintro rfl
        exact absurd printable (Nat.not_le_of_lt control)
      rw [List.flatMap_cons, ih later, escape, if_neg noQuote, if_neg noBackslash, if_neg (apart (by decide)),
        if_neg (apart (by decide)), if_neg (apart (by decide)), if_neg (apart (by decide)), if_neg (apart (by decide)),
        if_neg (Nat.not_lt_of_le printable), List.singleton_append]
  rw [unescaped, quoted, each]

mutual

theorem raw_plain (floats : Floats D) :
    ∀ v : JsonValue D, (∀ s ∈ v.strings, Plain s) → raw floats v = write floats v
  | .null, _ => rfl
  | .boolean true, _ => rfl
  | .boolean false, _ => rfl
  | .number_integer _, _ => rfl
  | .number_unsigned _, _ => rfl
  | .number_float _, _ => rfl
  | .string s, plain => unescaped_plain (plain s (List.mem_singleton.mpr rfl))
  | .array [], _ => rfl
  | .array (first :: others), plain => by
    rw [raw, write, raw_plain floats first fun s inside => plain s (List.mem_append_left _ inside),
      rawOthers_plain floats others fun s inside => plain s (List.mem_append_right _ inside)]
  | .object [], _ => rfl
  | .object ((key, first) :: others), plain => by
    obtain ⟨plainKey, later⟩ := List.forall_mem_cons.mp plain
    rw [raw, write, unescaped_plain plainKey,
      raw_plain floats first fun s inside => later s (List.mem_append_left _ inside),
      rawMembers_plain floats others fun s inside => later s (List.mem_append_right _ inside)]

theorem rawOthers_plain (floats : Floats D) :
    ∀ others : List (JsonValue D), (∀ s ∈ stringsOf others, Plain s) → rawOthers floats others = writeOthers floats others
  | [], _ => rfl
  | v :: others, plain => by
    rw [rawOthers, writeOthers, raw_plain floats v fun s inside => plain s (List.mem_append_left _ inside),
      rawOthers_plain floats others fun s inside => plain s (List.mem_append_right _ inside)]

theorem rawMembers_plain (floats : Floats D) :
    ∀ others : Members D, (∀ s ∈ stringsIn others, Plain s) → rawMembers floats others = writeMembers floats others
  | [], _ => rfl
  | (key, v) :: others, plain => by
    obtain ⟨plainKey, later⟩ := List.forall_mem_cons.mp plain
    rw [rawMembers, writeMembers, unescaped_plain plainKey,
      raw_plain floats v fun s inside => later s (List.mem_append_left _ inside),
      rawMembers_plain floats others fun s inside => later s (List.mem_append_right _ inside)]

end

/-! ## What is misread -/

/-- A key that a scanner cannot take for what follows a string. -/
def Name (key : Bytes) : Prop := Plain key ∧ ∃ c ∈ key.head?, isSpace c = false ∧ ends c = false

mutual

/-- A value in which every string is a key, or is the value of a key, and every key is a name. -/
def Keyed : JsonValue D → Prop
  | .array elements => KeyedOf elements
  | .object members => KeyedIn members
  | _ => True

def KeyedOf : List (JsonValue D) → Prop
  | [] => True
  | v :: rest => (∀ s, v ≠ .string s) ∧ Keyed v ∧ KeyedOf rest

def KeyedIn : Members D → Prop
  | [] => True
  | (key, v) :: rest => Name key ∧ Keyed v ∧ KeyedIn rest

end

/-- Plain or not longer than `n`. -/
def Within (n : ℕ) (s : Bytes) : Prop := Plain s ∨ s.length ≤ n

/-- A scan of this text within a string does not come to an end. -/
def Jarring (text : Bytes) : Prop :=
  ∃ front, Plain front ∧
    (text = front ∨ ∃ c rest, text = front ++ 0x22 :: c :: rest ∧ isSpace c = false ∧ ends c = false)

/-- From `start` on, a scan to the end of this text finds only strings within `n`. -/
def Finds (n : ℕ) (start : Phase) (text : Bytes) : Prop :=
  ∀ before finish found, (∀ s ∈ before, Within n s) → Scan.run ⟨start, before⟩ text = some ⟨finish, found⟩ →
    finish.Calm → ∀ s ∈ found, Within n s

theorem Jarring.append {front text : Bytes} (plain : Plain front) (jarring : Jarring text) : Jarring (front ++ text) := by
  have joined {middle : Bytes} (plainMiddle : Plain middle) : Plain (front ++ middle) := by
    intro c member
    rcases List.mem_append.mp member with before | after
    · exact plain c before
    · exact plainMiddle c after
  obtain ⟨middle, plainMiddle, same | ⟨c, rest, rfl, notSpace, notEnd⟩⟩ := jarring
  · exact ⟨front ++ middle, joined plainMiddle, Or.inl (by rw [same])⟩
  · exact ⟨front ++ middle, joined plainMiddle, Or.inr ⟨c, rest, (List.append_assoc ..).symm, notSpace, notEnd⟩⟩

theorem Jarring.name {key : Bytes} (name : Name key) (rest : Bytes) : Jarring (unescaped key ++ rest) := by
  obtain ⟨plain, c, first, notSpace, notEnd⟩ := name
  obtain ⟨later, rfl⟩ := List.head?_eq_some_iff.mp first
  exact ⟨[], fun c absent => absurd absent List.not_mem_nil, Or.inr ⟨c, _, rfl, notSpace, notEnd⟩⟩

theorem Jarring.fails {text : Bytes} (jarring : Jarring text) {content : Bytes} {before found : List Bytes}
    {finish : Phase} (scanned : Scan.run ⟨.inside content, before⟩ text = some ⟨finish, found⟩) : ¬ finish.Calm := by
  obtain ⟨front, plain, rfl | ⟨c, rest, rfl, notSpace, notEnd⟩⟩ := jarring
  · rw [Scan.run_plain plain] at scanned
    cases scanned
    exact id
  · rw [Scan.run_append, Scan.run_plain plain, Option.bind_some, Scan.run_cons, Scan.step, if_pos rfl,
      Option.bind_some, Scan.run_cons, Scan.step, notSpace, notEnd] at scanned
    cases scanned

namespace Finds

variable {n : ℕ} {text : Bytes}

theorem nil (start : Phase) : Finds n start [] := by
  intro before finish found within scanned _
  cases scanned
  exact within

theorem word {used : Bytes} (noQuote : ∀ c ∈ used, c ≠ 0x22) (later : Finds n .outside text) :
    Finds n .outside (used ++ text) := by
  intro before finish found within scanned
  rw [Scan.run_append, Scan.run_outside noQuote] at scanned
  exact later before finish found within scanned

theorem mark {start : Phase} (calm : start.Calm) {c : UInt8} (ending : ends c = true) (notSpace : isSpace c = false)
    (later : Finds n .outside text) : Finds n start (c :: text) := by
  intro before finish found within scanned
  rw [Scan.run_cons, Scan.step_mark calm ending notSpace, Option.bind_some] at scanned
  exact later before finish found within scanned

/-- Every string that was found is within `n`, and of the current one were read at most `k` characters. -/
private def Short (n k : ℕ) (scan : Scan) : Prop :=
  (∀ s ∈ scan.found, Within n s) ∧
    ∀ content, scan.phase = .inside content ∨ scan.phase = .escaped content → content.length ≤ k

private theorem short_calm {k : ℕ} {phase : Phase} {found : List Bytes} (calm : phase.Calm)
    (within : ∀ s ∈ found, Within n s) : Short n k ⟨phase, found⟩ := by
  refine ⟨within, ?_⟩
  rintro content (rfl | rfl)
  · exact absurd calm id
  · exact absurd calm id

private theorem short_reading {k : ℕ} {phase : Phase} {found : List Bytes} {read : Bytes}
    (reading : phase = .inside read ∨ phase = .escaped read) (length : read.length ≤ k)
    (within : ∀ s ∈ found, Within n s) : Short n k ⟨phase, found⟩ := by
  refine ⟨within, ?_⟩
  rintro content here
  have same : content = read := by
    rcases reading with rfl | rfl <;> rcases here with here | here <;> cases here <;> rfl
  rw [same]
  exact length

private theorem step_short {k : ℕ} {scan next : Scan} {c : UInt8} (bound : k < n) (short : Short n k scan)
    (stepped : scan.step c = some next) : Short n (k + 1) next := by
  obtain ⟨phase, found⟩ := scan
  obtain ⟨within, length⟩ := short
  have longer {content : Bytes} (read : content.length ≤ k) : (content ++ [c]).length ≤ k + 1 := by
    rw [List.length_append, List.length_singleton]
    exact Nat.succ_le_succ read
  cases phase with
  | outside =>
    cases stepped
    split
    · exact short_reading (Or.inl rfl) (Nat.zero_le _) within
    · exact short_calm calm_outside within
  | inside read =>
    have readLength := length read (Or.inl rfl)
    rw [Scan.step] at stepped
    split_ifs at stepped
    · cases stepped
      refine short_calm calm_closed fun s member => ?_
      rcases List.mem_append.mp member with earlier | last
      · exact within s earlier
      · rw [List.mem_singleton.mp last]
        exact Or.inr (by omega)
    · cases stepped
      exact short_reading (Or.inr rfl) (longer readLength) within
    · cases stepped
      exact short_reading (Or.inl rfl) (longer readLength) within
  | escaped read =>
    cases stepped
    exact short_reading (Or.inl rfl) (longer (length read (Or.inr rfl))) within
  | closed =>
    rw [Scan.step] at stepped
    split_ifs at stepped
    · cases stepped
      exact short_calm calm_closed within
    · cases stepped
      exact short_calm calm_outside within

private theorem run_short {s : Bytes} {k : ℕ} {scan last : Scan} (bound : k + s.length ≤ n) (short : Short n k scan)
    (scanned : scan.run s = some last) : Short n (k + s.length) last := by
  induction s generalizing scan k with
  | nil =>
    cases scanned
    exact short
  | cons c s ih =>
    rw [List.length_cons, ← Nat.add_assoc, Nat.add_right_comm] at bound ⊢
    obtain ⟨next, stepped, rest⟩ := Option.bind_eq_some_iff.mp scanned
    exact ih bound (step_short (by omega) short stepped) rest

theorem plain {s : Bytes} (plain : Plain s) (later : Finds n .closed text) : Finds n .outside (unescaped s ++ text) := by
  intro before finish found within scanned
  rw [unescaped, List.cons_append, List.append_assoc, List.singleton_append, Scan.run_cons, Scan.step, if_pos rfl,
    Option.bind_some, Scan.run_append, Scan.run_plain plain, Option.bind_some, Scan.run_cons, Scan.step, if_pos rfl] at scanned
  refine later _ finish found (fun s member => ?_) scanned
  rcases List.mem_append.mp member with earlier | last
  · exact within s earlier
  · rw [List.mem_singleton.mp last]
    exact Or.inl plain

/-- A short string is scanned as it is or misread. -/
theorem string {s : Bytes} (short : s.length ≤ n) (jarring : Jarring text) (later : Finds n .closed text) :
    Finds n .outside (unescaped s ++ text) := by
  intro before finish found within scanned calm
  rw [unescaped, List.cons_append, List.append_assoc, List.singleton_append, Scan.run_cons, Scan.step, if_pos rfl,
    Option.bind_some, Scan.run_append] at scanned
  obtain ⟨⟨phase, middle⟩, throughString, rest⟩ := Option.bind_eq_some_iff.mp scanned
  have start : Short n 0 ⟨.inside [], before⟩ := by
    refine ⟨within, ?_⟩
    rintro content (here | here) <;> cases here
    exact Nat.le_refl 0
  obtain ⟨shown, length⟩ := run_short (by rw [Nat.zero_add]; exact short) start throughString
  rw [Scan.run_cons] at rest
  cases phase with
  | inside content =>
    have read := length content (Or.inl rfl)
    rw [Scan.step, if_pos rfl, Option.bind_some] at rest
    refine later _ finish found (fun s member => ?_) rest calm
    rcases List.mem_append.mp member with earlier | last
    · exact shown s earlier
    · rw [List.mem_singleton.mp last]
      exact Or.inr (by omega)
  | outside =>
    rw [Scan.step, if_pos rfl, Option.bind_some] at rest
    exact absurd calm (jarring.fails rest)
  | escaped content =>
    rw [Scan.step, Option.bind_some] at rest
    exact absurd calm (jarring.fails rest)
  | closed => cases rest

end Finds

/-- Text that may follow a value. -/
private structure Ready (n : ℕ) (text : Bytes) : Prop where
  jarring : Jarring text
  finds : ∀ start, start.Calm → Finds n start text

section Writing

variable {n : ℕ} {floats : Floats D} {text : Bytes}

private theorem ready_mark {c : UInt8} (ending : ends c = true) (notSpace : isSpace c = false) (jarring : Jarring text)
    (finds : Finds n .outside text) : Ready n (c :: text) := by
  have plain : Plain [c] := by
    rw [Plain, List.forall_mem_singleton]
    simp only [ends, Bool.or_eq_true, beq_iff_eq] at ending
    obtain ((rfl | rfl) | rfl) | rfl := ending <;> decide
  exact ⟨jarring.append plain, fun start calm => finds.mark calm ending notSpace⟩

private theorem finds_member {key : Bytes} (name : Name key) (finds : Finds n .outside text) :
    Finds n .outside (unescaped key ++ 0x3A :: text) :=
  Finds.plain name.1 (finds.mark calm_closed rfl rfl)

private theorem finds_open {c : UInt8} (other : c ≠ 0x22) (finds : Finds n .outside text) :
    Finds n .outside (c :: text) := by
  have noQuote : ∀ k ∈ [c], k ≠ 0x22 := List.forall_mem_singleton.mpr other
  exact @Finds.word n text [c] noQuote finds

private theorem plain_number {text : Bytes} (characters : text.all isNumberChar = true) : Plain text := by
  intro c member
  have numeric := List.all_eq_true.mp characters c member
  simp only [isNumberChar, isDigit, Bool.or_eq_true, Bool.and_eq_true, decide_eq_true_eq, beq_iff_eq,
    UInt8.le_iff_toNat_le, UInt8.reduceToNat] at numeric
  obtain ((((digit | rfl) | rfl) | rfl) | rfl) | rfl := numeric
  · exact unescaped_of_toNat (by omega)
  all_goals decide

/-- A text without quotes. -/
private theorem scalar {p : Prop} {front : Bytes} (plain : Plain front) (ready : Ready n text) :
    Finds n .outside (front ++ text) ∧ (p → Jarring (front ++ text)) :=
  ⟨(ready.finds .outside calm_outside).word fun c member => (plain c member).1, fun _ => ready.jarring.append plain⟩

mutual

private theorem raw_finds (printed : floats.Printed) : ∀ v : JsonValue D, Keyed v → (∀ s ∈ v.strings, Within n s) →
    ∀ {text : Bytes}, Ready n text →
      Finds n .outside (raw floats v ++ text) ∧ ((∀ s, v ≠ .string s) → Jarring (raw floats v ++ text))
  | .null, _, _, _, ready => by
    have plain : Plain (ascii "null") := by decide
    exact scalar plain ready
  | .boolean true, _, _, _, ready => by
    have plain : Plain (ascii "true") := by decide
    exact scalar plain ready
  | .boolean false, _, _, _, ready => by
    have plain : Plain (ascii "false") := by decide
    exact scalar plain ready
  | .number_integer i, _, _, _, ready =>
    scalar (plain_number (all_integer i)) ready
  | .number_unsigned u, _, _, _, ready =>
    scalar (plain_number (to_string_characters u.toNat)) ready
  | .number_float d, _, _, _, ready => by
    have plain : Plain (raw floats (.number_float d)) := by
      rw [raw]
      split_ifs with finite
      · exact plain_number (printed.characters d finite)
      · decide
    exact scalar plain ready
  | .string s, _, within, _, ready => by
    refine ⟨?_, fun noString => absurd rfl (noString s)⟩
    rcases within s (List.mem_singleton.mpr rfl) with plain | short
    · exact Finds.plain plain (ready.finds .closed calm_closed)
    · exact Finds.string short ready.jarring (ready.finds .closed calm_closed)
  | .array [], _, _, _, ready => by
    have plain : Plain [0x5B, 0x5D] := by decide
    exact scalar plain ready
  | .array (first :: others), keyed, within, text, ready => by
    have rest := others_ready printed others keyed.2.2 (fun s inside => within s (List.mem_append_right _ inside)) ready
    obtain ⟨finds, jarring⟩ := raw_finds printed first keyed.2.1
      (fun s inside => within s (List.mem_append_left _ inside)) rest
    rw [raw, List.cons_append, List.append_assoc]
    have plain : Plain [0x5B] := by decide
    exact ⟨finds_open (by decide) finds, fun _ => (jarring keyed.1).append plain⟩
  | .object [], _, _, _, ready => by
    have plain : Plain [0x7B, 0x7D] := by decide
    exact scalar plain ready
  | .object ((key, first) :: others), keyed, within, text, ready => by
    have later := (List.forall_mem_cons.mp within).2
    have rest := members_ready printed others keyed.2.2 (fun s inside => later s (List.mem_append_right _ inside)) ready
    obtain ⟨finds, _⟩ := raw_finds printed first keyed.2.1 (fun s inside => later s (List.mem_append_left _ inside)) rest
    rw [raw, List.cons_append, List.append_assoc, List.cons_append, List.append_assoc]
    have plain : Plain [0x7B] := by decide
    exact ⟨finds_open (by decide) (finds_member keyed.1 finds), fun _ => (Jarring.name keyed.1 _).append plain⟩

private theorem others_ready (printed : floats.Printed) : ∀ others : List (JsonValue D), KeyedOf others →
    (∀ s ∈ stringsOf others, Within n s) → ∀ {text : Bytes}, Ready n text → Ready n (rawOthers floats others ++ text)
  | [], _, _, _, ready => ready_mark rfl rfl ready.jarring (ready.finds .outside calm_outside)
  | v :: others, keyed, within, text, ready => by
    have rest := others_ready printed others keyed.2.2 (fun s inside => within s (List.mem_append_right _ inside)) ready
    obtain ⟨finds, jarring⟩ := raw_finds printed v keyed.2.1
      (fun s inside => within s (List.mem_append_left _ inside)) rest
    rw [rawOthers, List.cons_append, List.append_assoc]
    exact ready_mark rfl rfl (jarring keyed.1) finds

private theorem members_ready (printed : floats.Printed) : ∀ others : Members D, KeyedIn others →
    (∀ s ∈ stringsIn others, Within n s) → ∀ {text : Bytes}, Ready n text → Ready n (rawMembers floats others ++ text)
  | [], _, _, _, ready => ready_mark rfl rfl ready.jarring (ready.finds .outside calm_outside)
  | (key, v) :: others, keyed, within, text, ready => by
    have later := (List.forall_mem_cons.mp within).2
    have rest := members_ready printed others keyed.2.2 (fun s inside => later s (List.mem_append_right _ inside)) ready
    obtain ⟨finds, _⟩ := raw_finds printed v keyed.2.1 (fun s inside => later s (List.mem_append_left _ inside)) rest
    rw [rawMembers, List.cons_append, List.append_assoc, List.cons_append, List.append_assoc]
    exact ready_mark rfl rfl (Jarring.name keyed.1 _) (finds_member keyed.1 finds)

end

end Writing

/-- A string that is read and not plain is shorter than some string that was written. -/
private theorem raw_shows {floats : Floats D} (printed : floats.Printed) {v read : JsonValue D} (keyed : Keyed v) {n : ℕ}
    (within : ∀ s ∈ v.strings, Within n s) (reads : parse floats (raw floats v) = some read) :
    ∀ s ∈ read.strings, Plain s ∨ s.length < n := by
  obtain ⟨finish, found, calm, scanned, shown⟩ := parse_scanned reads
  have nothing : Ready n [] :=
    ⟨⟨[], fun c absent => absurd absent List.not_mem_nil, Or.inl rfl⟩, fun start _ => Finds.nil start⟩
  have finds := (raw_finds printed v keyed within nothing).1
  rw [List.append_nil] at finds
  intro s member
  obtain ⟨content, inside, ⟨plain, rfl⟩ | ⟨notPlain, shorter⟩⟩ := shown s member
  · exact Or.inl plain
  · rcases finds [] finish found (List.forall_mem_nil _) scanned calm content inside with plain | short
    · exact absurd plain notPlain
    · exact Or.inr (Nat.lt_of_lt_of_le shorter short)

/-- Where every string that was written is plain or is read, all of them are plain. -/
theorem plain_of_shown {floats : Floats D} (printed : floats.Printed) {v read : JsonValue D} (keyed : Keyed v)
    (reads : parse floats (raw floats v) = some read) (shown : ∀ s ∈ v.strings, Plain s ∨ s ∈ read.strings) :
    ∀ s ∈ v.strings, Plain s := by
  have shorter {n : ℕ} (within : ∀ s ∈ v.strings, Within n s) {s : Bytes} (member : s ∈ v.strings) :
      Plain s ∨ s.length < n := by
    rcases shown s member with plain | there
    · exact Or.inl plain
    · exact raw_shows printed keyed within reads s there
  have descend (n : ℕ) (within : ∀ s ∈ v.strings, Within n s) : ∀ s ∈ v.strings, Plain s := by
    induction n with
    | zero =>
      intro s member
      rcases shorter within member with plain | less
      · exact plain
      · exact absurd less (Nat.not_lt_zero _)
    | succ n ih =>
      refine ih fun s member => ?_
      rcases shorter within member with plain | less
      · exact Or.inl plain
      · exact Or.inr (Nat.le_of_lt_succ less)
  refine descend v.strings.flatten.length fun s member => Or.inr ?_
  exact (List.sublist_flatten_of_mem member).length_le

/-- Where all strings are plain, the text reads as what the value is read as. -/
theorem parse_raw {floats : Floats D} (printed : floats.Printed) {v : JsonValue D}
    (valid : ∀ s ∈ v.strings, ValidUtf8 s) (plain : ∀ s ∈ v.strings, Plain s) :
    parse floats (raw floats v) = some (reread floats v) := by
  rw [raw_plain floats v plain, parse_write printed valid]

end JsonText

end Illuminator
