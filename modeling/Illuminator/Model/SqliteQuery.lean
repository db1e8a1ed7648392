import Illuminator.Model.SqliteBackend

/-! # Reading records back

`Query` reads the rows of a pipeline in a time range, in the order of their timestamps and up to a limit,
and makes a record of each. Which rows SQLite returns for the query's text is a relation, since rows with
one timestamp may come in any order.
-/

namespace Illuminator

structure TimeRange where
  start_ns : UInt64 := 0
  end_ns : UInt64 := 0

/-- A request, without the fields that `Query` does not read. -/
structure QueryRequest where
  pipeline_name : Bytes
  time_range : TimeRange := {}
  limit : UInt32 := 1000
  descending : Bool := true

/-- A result, without the fields that `Query` does not set. -/
structure QueryResult (D : Type) where
  records : List (Record D)
  total_count : ℕ

namespace SqliteBackend

open Transactions

variable {D : Type}

/-- The tables as a statement on the connection sees them. -/
def current (c : Connection Tables) : Tables := c.working.getD c.committed

/-- The query's `WHERE`: a bound of zero is left out. -/
def QueryMatches (req : QueryRequest) (row : RecordRow) : Prop :=
  row.pipeline = c_str req.pipeline_name ∧
    (0 < req.time_range.start_ns → (req.time_range.start_ns.toNat : ℤ) ≤ row.timestamp_ns.toInt) ∧
    (0 < req.time_range.end_ns → row.timestamp_ns.toInt ≤ (req.time_range.end_ns.toNat : ℤ))

instance (req : QueryRequest) (row : RecordRow) : Decidable (QueryMatches req row) :=
  inferInstanceAs (Decidable (_ ∧ _ ∧ _))

/-- The query's `ORDER BY`. -/
def QueryOrder (req : QueryRequest) (first second : RecordRow) : Prop :=
  if req.descending then second.timestamp_ns ≤ first.timestamp_ns else first.timestamp_ns ≤ second.timestamp_ns

/-- The rows that stepping the query's statement returns. -/
def Selects (t : Tables) (req : QueryRequest) (rows : List RecordRow) : Prop :=
  ∃ order : List RecordRow, order.Perm (t.records.filter fun row => QueryMatches req row) ∧
    order.Pairwise (QueryOrder req) ∧ rows = order.take req.limit.toNat

/-- The loop over the labels, which ends at the first value that is not a string. -/
def readLabels : Json.Object D → List Label
  | (k, .string v) :: rest => ⟨k, v⟩ :: readLabels rest
  | _ => []

/-- The tests on a field's value, in their order. `is_number_integer` holds of an unsigned number too, so
the test for one comes too late. -/
def readField : Json.Scalar D → Option (FieldValue D)
  | .number_float d => some (.double d)
  | .number_integer i => some (.int64 i)
  | .number_unsigned u => some (.int64 u.toInt64)
  | .boolean b => some (.bool b)
  | .string s => some (.string s)
  | .null => none

/-- One turn of the loop over the fields. -/
def setRead (fields : AList fun _ : Bytes => FieldValue D) (entry : Bytes × Json.Scalar D) :
    AList fun _ : Bytes => FieldValue D :=
  match readField entry.2 with
  | some value => fields.insert entry.1 value
  | none => fields

def readFields (members : Json.Object D) : AList fun _ : Bytes => FieldValue D := members.foldl setRead ∅

/-- The members of a stored text. One that is no object has none, or has objects as values, and both are
skipped. -/
def storedMembers (json : Json.Library D) (text : Bytes) : Json.Object D :=
  match json.parse text with
  | some (.object members) => members
  | _ => []

/-- The record that is made of a row. -/
def readRecord (json : Json.Library D) (row : RecordRow) : Record D where
  timestamp := row.timestamp_ns
  labels := readLabels (storedMembers json row.labels_json)
  fields := readFields (storedMembers json row.fields_json)

/-- `Query`, given whether its statement is prepared, the library's message if it is not, and the rows that
stepping it returns. -/
def Query (json : Json.Library D) (db_ : Option (Connection Tables)) (prepared : Bool) (errmsg : String)
    (rows : List RecordRow) : Except Status (QueryResult D) :=
  match db_ with
  | none => .error (.Error .kInternal "DB not open")
  | some _ =>
    if prepared then .ok ⟨rows.map (readRecord json), rows.length⟩
    else .error (.Error .kInternal ("Query prepare failed: " ++ errmsg))

end SqliteBackend

end Illuminator
