import Illuminator.Machine.Interleaving
import Illuminator.Model.SqliteQuery

/-! # Threads on one SQLite backend

Writers hold `write_mutex_` from their `BEGIN` to their `COMMIT` or `ROLLBACK`; readers hold nothing, and
prepare, step and finalize their statements on the same open connection. Each SQLite call is one action.
What the calls come to is an input of the call of the backend. A statement answers from what the
connection sees when it is first stepped, its own uncommitted rows included; once that has changed, what
further steps return is left open. The JSON text that `ExecuteRawQuery` makes of its rows is left out.
-/

namespace Illuminator

open Transactions

namespace SqliteBackend

variable {D O J : Type}

/-- A write: the change that each item becomes unless its serializer throws, and what SQLite's calls come to. -/
structure Write where
  context : String
  items : List (Option (Tables → Tables))
  engine : Engine

/-- The changes of a write. -/
def Write.changes (w : Write) : List (Tables → Tables) := w.items.reduceOption

def Write.failed (w : Write) (what : String) : Status := .Error .kInternal (what ++ w.context)

inductive Request where
  | Query (req : QueryRequest)
  | ExecuteRawQuery (sql : Bytes)

/-- SQLite's answers. Where a statement leaves an order open, `O` settles it. A row of a raw query is the
JSON object made of it. -/
structure Sqlite (O J : Type) where
  select : O → QueryRequest → Tables → List RecordRow
  raw : O → Bytes → Tables → List J

/-- What SQLite's calls come to during one read: whether the statement is prepared and is read-only, its
order, which steps fail, and what a step returns once the connection sees other contents. -/
structure Reading (O J : Type) where
  prepared : Bool
  readonly : Bool
  order : O
  errmsg : String
  fails : ℕ → Bool
  stray : ℕ → Option (RecordRow ⊕ J)

def answer (sqlite : Sqlite O J) (order : O) (t : Tables) : Request → List (RecordRow ⊕ J)
  | .Query req => (sqlite.select order req t).map .inl
  | .ExecuteRawQuery sql => (sqlite.raw order sql t).map .inr

def kRowLimit : ℕ := 1000

/-- What the loop over the rows keeps of them. -/
def kept (rows : List (RecordRow ⊕ J)) : Request → List (RecordRow ⊕ J)
  | .Query _ => rows
  | .ExecuteRawQuery _ => rows.take kRowLimit

/-- `::toupper`. -/
def toupper (c : UInt8) : UInt8 := if 0x61 ≤ c ∧ c ≤ 0x7A then c - 0x20 else c

def IsReadOnlyStatement (sql : Bytes) : Bool :=
  match sql.dropWhile fun c => c = 0x20 ∨ c = 0x09 ∨ c = 0x0D ∨ c = 0x0A with
  | [] => false
  | trimmed =>
    let start := (trimmed.take 7).map toupper
    start.take 6 = ascii "SELECT" ∨ start = ascii "EXPLAIN" ∨ start.take 6 = ascii "PRAGMA"

/-- The backend. `changes` counts the changes of what the connection sees. -/
structure Backend where
  db_ : Connection Tables
  write_mutex_ : Bool
  changes : ℕ

/-- After a SQLite call. -/
def Backend.put (b : Backend) (next : Connection Tables) : Backend :=
  { b with
    db_ := next
    changes := if current next = current b.db_ then b.changes else b.changes + 1 }

/-- What a read returns: its rows, or a status. -/
abbrev Result (J : Type) := Except Status (List (RecordRow ⊕ J))

/-- Where a thread stands inside a call of the backend. A statement that has been stepped carries the count
of changes at its first step and the rows of its answer that are still to come. -/
inductive Pc (O J : Type) where
  | idle
  | locking (w : Write)
  | beginning (w : Write)
  | preparing (w : Write)
  | inserting (w : Write) (i : ℕ) (rest : List (Option (Tables → Tables)))
  | finalizing (w : Write)
  | rollingBack (w : Write) (what : String)
  | committing (w : Write)
  | unlocking (status : Option Status)
  | opening (request : Request) (reading : Reading O J)
  | stepping (request : Request) (reading : Reading O J) (since : Option (ℕ × List (RecordRow ⊕ J)))
      (fetched : List (RecordRow ⊕ J))
  | closing (request : Request) (result : Result J)
  | answering (request : Request) (result : Result J)

inductive Choice (D O J : Type) where
  | WriteRecords (pipeline_name : Bytes) (records : List (Record D)) (engine : Engine)
  | WriteStackSamples (pipeline_name : Bytes) (samples : List StackSample) (engine : Engine)
  | Query (req : QueryRequest) (reading : Reading O J)
  | ExecuteRawQuery (sql : Bytes) (reading : Reading O J)
  | proceed

/-- What an action shows. A write that an exception leaves returns no status. -/
inductive Event (J : Type) where
  | local
  | committed (changes : List (Tables → Tables))
  | wrote (status : Option Status)
  | answered (request : Request) (result : Result J)

/-- What `sqlite3_step` returns, with the rows that are still to come. -/
inductive Fetch (J : Type) where
  | row (row : RecordRow ⊕ J) (rest : List (RecordRow ⊕ J))
  | done
  | error

/-- The next row of a statement whose answer began at a count of changes. -/
def fetch (b : Backend) (reading : Reading O J) (began : ℕ × List (RecordRow ⊕ J)) (n : ℕ) : Fetch J :=
  if reading.fails n then .error
  else if began.1 = b.changes then
    match began.2 with
    | [] => .done
    | row :: rest => .row row rest
  else
    match reading.stray n with
    | some row => .row row []
    | none => .done

/-- The rows so far after a failed step: `Query` logs it and returns them, `ExecuteRawQuery` does not. -/
def failedStep (reading : Reading O J) (fetched : List (RecordRow ⊕ J)) : Request → Result J
  | .Query _ => .ok fetched
  | .ExecuteRawQuery _ => .error (.Error .kInternal ("SQL execution failed: " ++ reading.errmsg))

def prepareFailed (reading : Reading O J) : Request → Status
  | .Query _ => .Error .kInternal ("Query prepare failed: " ++ reading.errmsg)
  | .ExecuteRawQuery _ => .Error .kInternal ("SQL prepare failed: " ++ reading.errmsg)

/-- Whether the loop over the rows goes on after a row. -/
def more (fetched : List (RecordRow ⊕ J)) : Request → Bool
  | .Query _ => true
  | .ExecuteRawQuery _ => fetched.length < kRowLimit

/-- `ExecuteRawQuery` asks SQLite whether the prepared statement only reads. -/
def rejected (reading : Reading O J) : Request → Bool
  | .Query _ => false
  | .ExecuteRawQuery _ => !reading.readonly

/-- One turn of the loop over the rows. -/
def step (b : Backend) (request : Request) (reading : Reading O J) (began : ℕ × List (RecordRow ⊕ J))
    (fetched : List (RecordRow ⊕ J)) : Pc O J :=
  match fetch b reading began fetched.length with
  | .error => .closing request (failedStep reading fetched request)
  | .done => .closing request (.ok fetched)
  | .row row rest =>
    if more fetched request then .stepping request reading (some (began.1, rest)) (fetched ++ [row])
    else .closing request (.ok fetched)

def enter (b : Backend) (w : Write) : Backend × Pc O J × Event J :=
  if w.items.isEmpty then (b, .idle, .wrote (some .Ok)) else (b, .locking w, .local)

/-- One action of a write. -/
def writeAct (b : Backend) : Pc O J → Option (Backend × Pc O J × Event J)
  | .locking w => if b.write_mutex_ then none else some ({ b with write_mutex_ := true }, .beginning w, .local)
  | .beginning w => some (b.put (b.db_.start w.engine.refused), .preparing w, .local)
  | .preparing w =>
    if w.engine.prepared then some (b.put (b.db_.prepare true), .inserting w 0 w.items, .local)
    else some (b, .rollingBack w "SQLite prepare failed: ", .local)
  | .inserting w _ [] => some (b.put b.db_.finalize, .committing w, .local)
  | .inserting _ _ (none :: _) => some ({ b with write_mutex_ := false }, .idle, .wrote none)
  | .inserting w i (some change :: rest) =>
    match w.engine.steps i with
    | .done => some (b.put (b.db_.step change .done), .inserting w (i + 1) rest, .local)
    | outcome => some (b.put (b.db_.step change outcome), .finalizing w, .local)
  | .finalizing w => some (b.put b.db_.finalize, .rollingBack w "SQLite step failed: ", .local)
  | .rollingBack w what => some (b.put b.db_.rollback, .unlocking (some (w.failed what)), .local)
  | .committing w =>
    match b.db_.commit w.engine.commit with
    | (next, true) => some (b.put next, .unlocking (some .Ok), .committed w.changes)
    | (next, false) => some (b.put next, .unlocking (some (w.failed "SQLite COMMIT failed: ")), .local)
  | .unlocking status => some ({ b with write_mutex_ := false }, .idle, .wrote status)
  | _ => none

/-- One action of a read. -/
def readAct (sqlite : Sqlite O J) (b : Backend) : Pc O J → Option (Backend × Pc O J × Event J)
  | .opening request reading =>
    if reading.prepared then
      if rejected reading request then
        some (b.put (b.db_.prepare true),
          .closing request (.error (.Error .kPermissionDenied "Statement classified as non-readonly by SQLite")), .local)
      else some (b.put (b.db_.prepare true), .stepping request reading none [], .local)
    else some (b, .answering request (.error (prepareFailed reading request)), .local)
  | .stepping request reading since fetched =>
    some (b, step b request reading (since.getD (b.changes, answer sqlite reading.order (current b.db_) request)) fetched,
      .local)
  | .closing request result => some (b.put b.db_.finalize, .answering request result, .local)
  | .answering request result => some (b, .idle, .answered request result)
  | _ => none

def act (json : Json.Library D) (sqlite : Sqlite O J) (b : Backend) :
    Pc O J → Choice D O J → Option (Backend × Pc O J × Event J)
  | .idle, .WriteRecords pipeline_name records engine =>
    some (enter b ⟨"WriteRecords", records.map (insertRecord json pipeline_name), engine⟩)
  | .idle, .WriteStackSamples pipeline_name samples engine =>
    some (enter b ⟨"WriteStackSamples", samples.map (insertStackSample json pipeline_name), engine⟩)
  | .idle, .Query req reading => some (b, .opening (.Query req) reading, .local)
  | .idle, .ExecuteRawQuery sql reading =>
    if IsReadOnlyStatement sql then some (b, .opening (.ExecuteRawQuery sql) reading, .local)
    else
      some (b, .idle, .answered (.ExecuteRawQuery sql)
        (.error (.Error .kPermissionDenied "Only SELECT, EXPLAIN and PRAGMA statements are allowed")))
  | .idle, .proceed => none
  | pc, .proceed => (writeAct b pc).orElse fun _ => readAct sqlite b pc
  | _, _ => none

/-- Any number of threads on one backend. -/
def program (json : Json.Library D) (sqlite : Sqlite O J) :
    Interleaving.Program Backend (Pc O J) (Choice D O J) (Event J) :=
  ⟨act json sqlite⟩

/-- An open backend with no call in progress. -/
def opened (τ O J : Type) (t : Tables) : Interleaving.State Backend (Pc O J) τ :=
  ⟨⟨⟨t, none, 0⟩, false, 0⟩, fun _ => .idle⟩

/-! ## An uninterrupted write -/

section Runs

open Interleaving

variable {json : Json.Library D} {sqlite : Sqlite O J} {X : Type}

theorem write_goes {b next : Backend} {pc after : Pc O J} {event : Event J}
    (writes : writeAct b pc = some (next, after, event)) : (program json sqlite).Solo b pc next after := by
  have enabled : (program json sqlite).act b pc .proceed = some (next, after, event) := by
    cases pc with
    | idle => cases writes
    | _ =>
      simp only [program, act, writes]
      rfl
  exact .one enabled

/-- Where the loop over the items leaves its thread. -/
def loopEnd (w : Write) (i : ℕ) : Ended → Pc O J
  | .finished => .inserting w i []
  | .failed => .finalizing w
  | .threw => .idle

theorem inserting_solo (insert : X → Option (Tables → Tables)) (w : Write) (b : Backend) (i : ℕ) (items : List X) :
    ∃ next j, next.db_ = (insertEach insert w.engine.steps i items b.db_).1 ∧
      (program json sqlite).Solo b (.inserting w i (items.map insert)) next
        (loopEnd w j (insertEach insert w.engine.steps i items b.db_).2) := by
  induction items generalizing b i with
  | nil => exact ⟨b, i, rfl, .refl ..⟩
  | cons x rest ih =>
    rw [List.map_cons]
    unfold insertEach
    cases made : insert x with
    | none => exact ⟨{ b with write_mutex_ := false }, i, rfl, write_goes rfl⟩
    | some change =>
      have turn : writeAct b (.inserting w i (some change :: rest.map insert) : Pc O J) =
          match w.engine.steps i with
          | .done => some (b.put (b.db_.step change .done), .inserting w (i + 1) (rest.map insert), (.local : Event J))
          | outcome => some (b.put (b.db_.step change outcome), .finalizing w, .local) := rfl
      cases outcome : w.engine.steps i with
      | done =>
        rw [outcome] at turn
        obtain ⟨next, j, left, solo⟩ := ih (b.put (b.db_.step change .done)) (i + 1)
        exact ⟨next, j, left, (write_goes turn).trans solo⟩
      | failed =>
        rw [outcome] at turn
        exact ⟨b.put (b.db_.step change .failed), i, rfl, write_goes turn⟩
      | rolledBack =>
        rw [outcome] at turn
        exact ⟨b.put (b.db_.step change .rolledBack), i, rfl, write_goes turn⟩

/-- Where a write leaves its thread: with a status to return, or thrown out. -/
def writeEnd : Option Status → Pc O J
  | some status => .unlocking (some status)
  | none => .idle

/-- A write that finds the mutex free and that nobody interrupts does what `writeBatch` does. -/
theorem write_solo (insert : X → Option (Tables → Tables)) (w : Write) {b : Backend} (free : b.write_mutex_ = false)
    {items : List X} (all : w.items = items.map insert) (some_ : items.isEmpty = false) :
    ∃ next, some next.db_ = (writeBatch w.context insert w.engine (some b.db_) items).1 ∧
      (program json sqlite).Solo b (.locking w) next
        (writeEnd (writeBatch w.context insert w.engine (some b.db_) items).2) := by
  have locks : writeAct b (.locking w : Pc O J) =
      some ({ b with write_mutex_ := true }, .beginning w, (.local : Event J)) := by
    simp only [writeAct, free, Bool.false_eq_true, ↓reduceIte]
  have starts : (program json sqlite).Solo b (.locking w) _ (.preparing w) := (write_goes locks).trans (write_goes rfl)
  generalize opened : Backend.put _ _ = begun at starts
  have version : begun.db_ = b.db_.start w.engine.refused := by rw [← opened]; rfl
  have preparing : writeAct begun (.preparing w : Pc O J) =
      if w.engine.prepared then some (begun.put (begun.db_.prepare true), .inserting w 0 w.items, (.local : Event J))
      else some (begun, .rollingBack w "SQLite prepare failed: ", .local) := rfl
  unfold writeBatch
  simp only [some_, Bool.false_eq_true, ↓reduceIte]
  cases prepared : w.engine.prepared with
  | false =>
    rw [prepared] at preparing
    refine ⟨begun.put begun.db_.rollback, ?_, (starts.trans (write_goes preparing)).trans (write_goes rfl)⟩
    rw [version]
    rfl
  | true =>
    rw [prepared, all] at preparing
    obtain ⟨left, j, contents, loop⟩ := @inserting_solo _ _ _ json sqlite _ insert w
      (begun.put (begun.db_.prepare true)) 0 items
    have inserted := (starts.trans (write_goes preparing)).trans loop
    have connection : (begun.put (begun.db_.prepare true)).db_ = (b.db_.start w.engine.refused).prepare true := by
      rw [← version]
      rfl
    rw [connection] at contents inserted
    simp only [↓reduceIte]
    generalize insertEach insert w.engine.steps 0 items _ = ended at contents inserted ⊢
    obtain ⟨c, ended⟩ := ended
    obtain rfl : left.db_ = c := contents
    cases ended with
    | threw => exact ⟨left, rfl, inserted⟩
    | failed =>
      exact ⟨(left.put left.db_.finalize).put left.db_.finalize.rollback, rfl,
        (inserted.trans (write_goes rfl)).trans (write_goes rfl)⟩
    | finished =>
      have finished := inserted.trans (write_goes rfl)
      have committing : writeAct (left.put left.db_.finalize) (.committing w : Pc O J) =
          match left.db_.finalize.commit w.engine.commit with
          | (next, true) =>
            some ((left.put left.db_.finalize).put next, .unlocking (some .Ok), (.committed w.changes : Event J))
          | (next, false) =>
            some ((left.put left.db_.finalize).put next, .unlocking (some (w.failed "SQLite COMMIT failed: ")), .local) :=
        rfl
      dsimp only
      generalize left.db_.finalize.commit w.engine.commit = result at committing ⊢
      obtain ⟨next, _ | _⟩ := result
      · exact ⟨(left.put left.db_.finalize).put next, rfl, finished.trans (write_goes committing)⟩
      · exact ⟨(left.put left.db_.finalize).put next, rfl, finished.trans (write_goes committing)⟩

end Runs

end SqliteBackend

end Illuminator
