import Illuminator.Model.SqliteBackend
import Mathlib.Data.UInt

/-! # Pruning the SQLite backend

`Prune` renders the oldest time to keep into three `DELETE` statements, one for each table. The time is an unsigned
difference, and SQLite reads its digits back: as an integer where 64 signed bits hold it, as a `REAL` where they do
not. Whether SQLite carries a statement out is an input; `Execute` only logs when it does not. The checkpoint that
every twelfth call asks for changes no row and is left out.
-/

namespace Illuminator

/-- A row of `profiles`, without its `id`. -/
structure ProfileRow where
  pipeline : Bytes
  profile_type : Bytes
  start_ns : Option Int64
  end_ns : Option Int64
  sample_count : Option Int64
  data : Bytes
  deriving DecidableEq

/-- All tables. -/
structure Database extends Tables where
  profiles : List ProfileRow
  deriving DecidableEq

inductive Table where
  | records
  | stack_samples
  | profiles
  deriving DecidableEq

namespace SqliteBackend

/-- A number in the text of a statement. -/
inductive Literal where
  | integer (value : Int64)
  | real
  deriving DecidableEq

/-- Digits are a `REAL` when they stand for more than a signed 64-bit integer. -/
def literal (digits : Bytes) : Literal :=
  if of_decimal digits < 2 ^ 63 then .integer (.ofNat (of_decimal digits)) else .real

/-- `column < literal`. A `NULL` is below nothing, and every integer is below a `REAL` that exceeds them all. -/
def isBelow (column : Option Int64) : Literal → Bool
  | .integer value => column.any (· < value)
  | .real => column.isSome

/-- `DELETE FROM table WHERE column < digits`. -/
def deleteBelow (digits : Bytes) (database : Database) : Table → Database
  | .records =>
    { database with records := database.records.filter fun row => !isBelow (some row.timestamp_ns) (literal digits) }
  | .stack_samples =>
    { database with
      stack_samples := database.stack_samples.filter fun row => !isBelow (some row.timestamp_ns) (literal digits) }
  | .profiles => { database with profiles := database.profiles.filter fun row => !isBelow row.start_ns (literal digits) }

/-- `Execute`, given whether SQLite carries the statement out. -/
def Execute (carried : Bool) (statement : Database → Database) (database : Database) : Database :=
  if carried then statement database else database

/-- `now` is what the system's clock counts, a signed number of nanoseconds. -/
def Prune (carried : Table → Bool) (now : Int64) (db_ : Option Database) (max_age_ns : UInt64) :
    Option Database × Status :=
  match db_ with
  | none => (none, .Ok)
  | some database =>
    if max_age_ns = 0 then (some database, .Ok)
    else
      let now_ns := now.toUInt64
      let cutoff_ns := now_ns - max_age_ns
      let digits := to_string cutoff_ns.toNat
      let database := Execute (carried .records) (deleteBelow digits · .records) database
      let database := Execute (carried .stack_samples) (deleteBelow digits · .stack_samples) database
      let database := Execute (carried .profiles) (deleteBelow digits · .profiles) database
      (some database, .Ok)

end SqliteBackend

end Illuminator
