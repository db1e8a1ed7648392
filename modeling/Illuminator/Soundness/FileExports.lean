import Illuminator.Model.FileExportSink
import Illuminator.Standards.JsonText
import Illuminator.ToMathlib.Delimited

/-! # What the export file holds

Whatever is called and whenever the C library empties its buffer, the file is what it was, then the lines of the first
records written, then the start of the next line. A reader who parses the lines one by one finds the records; after a
flush or a stop it finds all of them.
-/

namespace Illuminator

namespace FileExportSink

open JsonValue JsonSerializer

variable {D : Type} {json : Library D}

/-- The library's documented way of writing strings: control characters are escaped. -/
def Escapes (json : Library D) : Prop := ∀ v text, json.dump v = some text → ∀ c ∈ text, 0x20 ≤ c

theorem escapes_library {floats : JsonText.Floats D} (printed : floats.Printed) : Escapes (JsonText.library floats) := by
  intro v text dumped
  change JsonText.dump floats v = some text at dumped
  unfold JsonText.dump at dumped
  split_ifs at dumped with valid
  cases dumped
  exact JsonText.printable_write printed v

/-- The records of a batch up to the first one that cannot be written as JSON. -/
def writable (json : Library D) (records : List (Record D)) : List (Record D) :=
  records.takeWhile fun rec => (json.dump (RecordToJson rec)).isSome

/-- Whether the stream is open after an action. -/
def running (started : Bool) : Action D → Bool
  | .Start opens => opens
  | .Stop => false
  | _ => started

def given (json : Library D) (started : Bool) : Action D → List (Record D)
  | .Write (some batch) => if started then writable json batch.records else []
  | _ => []

/-- The records that are given to the sink while it is running. -/
def recorded (json : Library D) : Bool → List (Action D) → List (Record D)
  | _, [] => []
  | started, action :: later => given json started action ++ recorded json (running started action) later

def isStart : Action D → Bool
  | .Start _ => true
  | _ => false

/-- A sink is started only when it is not running. -/
def Apart : Bool → List (Action D) → Prop
  | _, [] => True
  | started, action :: later => (started && isStart action) = false ∧ Apart (running started action) later

def text (json : Library D) (rec : Record D) : Bytes := (json.dump (RecordToJson rec)).getD []

/-- What the stream has not yet given to the file. -/
def pending (sink : FileExportSink) : Bytes := sink.file_.getD []

theorem c_str_dump (escapes : Escapes json) {v : JsonValue D} {s : Bytes} (dumped : json.dump v = some s) :
    SqliteBackend.c_str s = s := by
  rw [SqliteBackend.c_str, List.takeWhile_eq_self_iff]
  intro c inside
  rw [bne_iff_ne]
  rintro rfl
  exact absurd (escapes v s dumped 0 inside) (by decide)

theorem printRecords_eq (escapes : Escapes json) (records : List (Record D)) (buffer : Bytes) :
    (printRecords json records buffer).1 = buffer ++ Delimited.pieces 0x0A (text json) (writable json records) := by
  induction records generalizing buffer with
  | nil => exact (List.append_nil buffer).symm
  | cons rec rest ih =>
    rw [printRecords, writable, List.takeWhile_cons]
    cases dumped : json.dump (RecordToJson rec) with
    | none => exact (List.append_nil buffer).symm
    | some s =>
      have line : text json rec = s := by rw [text, dumped, Option.getD_some]
      change (printRecords json rest (buffer ++ (SqliteBackend.c_str s ++ [0x0A]))).1 = _
      rw [ih, c_str_dump escapes dumped, Option.isSome_some, if_pos rfl, Delimited.pieces_cons, line, writable]
      simp only [List.append_assoc, List.singleton_append]

theorem given_dumped {started : Bool} {action : Action D} {rec : Record D} (member : rec ∈ given json started action) :
    (json.dump (RecordToJson rec)).isSome = true := by
  unfold given at member
  split at member
  · split_ifs at member
    · exact List.all_eq_true.mp List.all_takeWhile rec member
    · exact absurd member List.not_mem_nil
  · exact absurd member List.not_mem_nil

theorem recorded_dumped {started : Bool} {actions : List (Action D)} {rec : Record D}
    (member : rec ∈ recorded json started actions) : (json.dump (RecordToJson rec)).isSome = true := by
  induction actions generalizing started with
  | nil => exact absurd member List.not_mem_nil
  | cons action later ih =>
    rcases List.mem_append.mp member with now | after
    · exact given_dumped now
    · exact ih after

/-- The file and the buffer together grow by the lines, and the file keeps what it has. -/
structure Grown (before after : FileExportSink × Bytes) (lines : Bytes) : Prop where
  whole : after.2 ++ after.1.pending = before.2 ++ before.1.pending ++ lines
  keeps : before.2 <+: after.2

theorem Grown.trans {first second third : FileExportSink × Bytes} {lines others : Bytes}
    (left : Grown first second lines) (right : Grown second third others) : Grown first third (lines ++ others) where
  whole := by rw [right.whole, left.whole, List.append_assoc]
  keeps := left.keeps.trans right.keeps

/-- What one action adds, when it does not replace an open stream. -/
theorem grown_act (escapes : Escapes json) {s : FileExportSink × Bytes} {action : Action D}
    (apart : (s.1.file_.isSome && isStart action) = false) :
    (act json s action).1.file_.isSome = running s.1.file_.isSome action ∧
      Grown s (act json s action) (Delimited.pieces 0x0A (text json) (given json s.1.file_.isSome action)) := by
  obtain ⟨⟨path_, file_⟩, file⟩ := s
  cases file_ with
  | none =>
    have nothing : Grown (⟨path_, none⟩, file) (⟨path_, none⟩, file) [] := ⟨(List.append_nil _).symm, List.prefix_rfl⟩
    cases action with
    | Start opens =>
      cases opens with
      | true => exact ⟨rfl, (List.append_nil _).symm, List.prefix_rfl⟩
      | false => exact ⟨rfl, nothing⟩
    | Stop => exact ⟨rfl, nothing⟩
    | Write batch => cases batch <;> exact ⟨rfl, nothing⟩
    | Flush => exact ⟨rfl, nothing⟩
    | drain bytes => exact ⟨rfl, nothing⟩
  | some buffer =>
    cases action with
    | Start opens => exact absurd apart.symm Bool.false_ne_true
    | Stop => exact ⟨rfl, rfl, List.prefix_append _ _⟩
    | Flush => exact ⟨rfl, rfl, List.prefix_append _ _⟩
    | drain bytes =>
      refine ⟨rfl, ?_, List.prefix_append _ _⟩
      change file ++ buffer.take bytes ++ buffer.drop bytes = file ++ buffer ++ []
      rw [List.append_assoc, List.take_append_drop, List.append_nil]
    | Write batch =>
      cases batch with
      | none => exact ⟨rfl, (List.append_nil _).symm, List.prefix_rfl⟩
      | some batch =>
        refine ⟨rfl, ?_, List.prefix_rfl⟩
        change file ++ (printRecords json batch.records buffer).1 = file ++ buffer ++ _
        rw [printRecords_eq escapes, List.append_assoc]
        rfl

theorem grown_run (escapes : Escapes json) {s : FileExportSink × Bytes} {actions : List (Action D)}
    (apart : Apart s.1.file_.isSome actions) : Grown s (run json s actions)
      (Delimited.pieces 0x0A (text json) (recorded json s.1.file_.isSome actions)) := by
  induction actions generalizing s with
  | nil => exact ⟨(List.append_nil _).symm, List.prefix_rfl⟩
  | cons action later ih =>
    obtain ⟨now, after⟩ := apart
    obtain ⟨open_, grown⟩ := grown_act escapes now
    rw [← open_] at after
    rw [recorded, Delimited.pieces, List.flatMap_append, ← open_]
    exact grown.trans (ih after)

theorem pending_closed (s : FileExportSink × Bytes) (actions : List (Action D)) {last : Action D}
    (closes : last = .Stop ∨ last = .Flush) : (run json s (actions ++ [last])).1.pending = [] := by
  rw [run, List.foldl_append]
  obtain ⟨⟨path_, file_⟩, file⟩ := actions.foldl (act json) s
  rcases closes with rfl | rfl
  · cases file_ <;> rfl
  · cases file_ <;> rfl

theorem record_ordered (rec : Record D) : (RecordToJson rec).Ordered := by
  have labels : (JsonValue.object (labelsToJson rec.labels) : JsonValue D).Ordered := by
    refine ordered_setAll ?_
    rw [List.forall_mem_map]
    exact fun _ _ => trivial
  have fields : (JsonValue.object (fieldsToJson rec.fields)).Ordered := by
    refine ordered_setAll ?_
    rw [List.forall_mem_map]
    rintro ⟨_, value⟩ _
    cases value <;> trivial
  refine ordered_setAll ?_
  rw [List.forall_mem_cons, List.forall_mem_singleton]
  exact ⟨labels, fields⟩

/-- The lines that a reader of the file finds behind `before` are the first `m` records and the start of the next. -/
structure Readable (json : Library D) (isfinite : D → Bool) (records : List (Record D)) (before file : Bytes) (m : ℕ) :
    Prop where
  keeps : before <+: file
  parsed : ((file.drop before.length).splitOn 0x0A).dropLast.map json.parse =
    (records.take m).map fun rec => some ((RecordToJson rec).reparsed isfinite)
  torn : ∀ line ∈ ((file.drop before.length).splitOn 0x0A).getLast?, line <+: (records[m]?.map (text json)).getD []

/-- A text of a record has no line break, and is read back. -/
theorem text_line {isfinite : D → Bool} (documented : json.Documented isfinite) (escapes : Escapes json) {rec : Record D}
    (dumped : (json.dump (RecordToJson rec)).isSome = true) :
    0x0A ∉ text json rec ∧ json.parse (text json rec) = some ((RecordToJson rec).reparsed isfinite) := by
  obtain ⟨s, found⟩ := Option.isSome_iff_exists.mp dumped
  rw [text, found, Option.getD_some]
  exact ⟨fun inside => absurd (escapes _ s found 0x0A inside) (by decide),
    documented.reads _ s (record_ordered rec) found⟩

/-- Whatever happens between the starts and the stops of a sink that is started only when it is not running, the file
holds the records given to the sink, in their order, and only the last line may be cut off. After a stop or a flush
none is missing. -/
theorem records_exported {isfinite : D → Bool} (documented : json.Documented isfinite) (escapes : Escapes json)
    (path_ before : Bytes) (actions : List (Action D)) (apart : Apart false actions) :
    ∃ m ≤ (recorded json false actions).length,
      Readable json isfinite (recorded json false actions) before (run json (⟨path_, none⟩, before) actions).2 m ∧
      ∀ last ∈ actions.getLast?, last = .Stop ∨ last = .Flush → m = (recorded json false actions).length := by
  have grown : Grown (⟨path_, none⟩, before) (run json (⟨path_, none⟩, before) actions)
      (Delimited.pieces 0x0A (text json) (recorded json false actions)) := grown_run escapes apart
  have line {rec : Record D} (member : rec ∈ recorded json false actions) :=
    text_line documented escapes (recorded_dumped member)
  obtain ⟨written, same⟩ := grown.keeps
  have whole : written ++ (run json (⟨path_, none⟩, before) actions).1.pending =
      Delimited.pieces 0x0A (text json) (recorded json false actions) := by
    have sums := grown.whole
    rw [← same] at sums
    change before ++ written ++ _ = before ++ [] ++ _ at sums
    rwa [List.append_nil, List.append_assoc, List.append_cancel_left_eq] at sums
  obtain ⟨m, torn, short, parts, starts, front⟩ := Delimited.splitOn_prefix_pieces (fun rec member => (line member).1)
    ⟨_, whole⟩
  have behind : (run json (⟨path_, none⟩, before) actions).2.drop before.length = written := by
    change before ++ written = _ at same
    rw [← same, List.drop_left]
  refine ⟨m, short, ⟨grown.keeps, ?_, ?_⟩, ?_⟩
  · rw [behind, parts, List.dropLast_concat, List.map_map]
    exact List.map_congr_left fun rec member => (line (List.mem_of_mem_take member)).2
  · rw [behind, parts, List.getLast?_concat]
    rintro line same
    obtain rfl := Option.mem_some_iff.mp same
    exact starts
  · intro last ends closes
    obtain ⟨earlier, rfl⟩ := List.getLast?_eq_some_iff.mp ends
    have all := @Delimited.splitOn_pieces_of_clean _ _ _ 0x0A _ _ fun rec member => (line member).1
    rw [← whole, pending_closed _ _ closes, List.append_nil, parts] at all
    have lengths := congrArg List.length all
    simp only [List.length_append, List.length_map, List.length_take, List.length_singleton] at lengths
    omega

/-- One record with a number that is not finite. -/
def unknown : Record (Option ℤ) := ⟨0, [⟨ascii "pid", ascii "7"⟩], (∅ : AList _).insert (ascii "load") (.double none)⟩

/-- What is written before the start is dropped. The second record afterwards is on its way when the sink stops. -/
def stopped : List (Action (Option ℤ)) :=
  [.Write (some ⟨.kMetrics, [unknown], []⟩), .Start true, .Write (some ⟨.kMetrics, [unknown, unknown], []⟩), .drain 50,
    .Stop]

theorem records_exported_stopped : ∃ m ≤ (recorded (JsonText.library JsonText.wholes) false stopped).length,
    Readable (JsonText.library JsonText.wholes) JsonText.wholes.isfinite
      (recorded (JsonText.library JsonText.wholes) false stopped) (ascii "log\n")
      (run (JsonText.library JsonText.wholes) (⟨ascii "/tmp/a", none⟩, ascii "log\n") stopped).2 m ∧
    ∀ last ∈ stopped.getLast?, last = .Stop ∨ last = .Flush →
      m = (recorded (JsonText.library JsonText.wholes) false stopped).length := by
  refine records_exported (JsonText.library_documented JsonText.wholes_faithful)
    (escapes_library JsonText.wholes_faithful.printed) (ascii "/tmp/a") (ascii "log\n") stopped ?_
  exact ⟨rfl, rfl, rfl, rfl, rfl, trivial⟩

end FileExportSink

end Illuminator
