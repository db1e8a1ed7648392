import Illuminator.Model.SqliteThreads

/-! # Raw queries

`POST /api/v1/query` looks for a word in the first 20 characters of the SQL, and `ExecuteRawQuery` at its
first word and at what SQLite says of the prepared statement. SQLite is a parameter: how it compiles a text,
and what each step returns and does to the contents of the database and to the options of the connection.
-/

namespace Illuminator

namespace RawQuery

/-- A statement by its kind. `PRAGMA name = value` and `PRAGMA name(value)` have an argument. -/
inductive Statement where
  | SELECT (text : Bytes)
  | EXPLAIN (text : Bytes)
  | PRAGMA (name : Bytes) (argument : Option Bytes)
  | other (text : Bytes)
  deriving DecidableEq

/-- What `sqlite3_step` returns. A row is the JSON object made of it. -/
inductive Fetch (J : Type) where
  | row (row : J)
  | done
  | error (errmsg : String)

/-- An open connection: what the database holds, its schema included, and the options. -/
@[ext] structure Connection (C K : Type) where
  contents : C
  options : K
  deriving DecidableEq

/-- `prepare` compiles the first statement of a text, if there is one. `assigned` has the options after a
PRAGMA with an argument. -/
structure Sqlite (C K J : Type) where
  prepare : Bytes → C → Except String (Option Statement)
  readonly : Statement → Bool
  step : Statement → ℕ → Connection C K → Fetch J × Connection C K
  assigned : Bytes → Bytes → K → K

variable {C K J : Type}

/-- The first word of a text, in capitals. -/
def firstWord (text : Bytes) : Bytes :=
  ((text.dropWhile fun c => c = 0x20 ∨ c = 0x09 ∨ c = 0x0D ∨ c = 0x0A).take 7).map SqliteBackend.toupper

/-- What SQLite documents of the statements that are let through. -/
structure Sqlite.Documented (sqlite : Sqlite C K J) : Prop where
  select : ∀ text contents statement, sqlite.prepare text contents = .ok (some statement) →
    (firstWord text).take 6 = ascii "SELECT" → ∃ t, statement = .SELECT t
  explain : ∀ text contents statement, sqlite.prepare text contents = .ok (some statement) →
    firstWord text = ascii "EXPLAIN" → ∃ t, statement = .EXPLAIN t
  pragma : ∀ text contents statement, sqlite.prepare text contents = .ok (some statement) →
    (firstWord text).take 6 = ascii "PRAGMA" → ∃ name argument, statement = .PRAGMA name argument
  readonly : ∀ statement n db, sqlite.readonly statement = true →
    (sqlite.step statement n db).2.contents = db.contents
  selects : ∀ text n db, (sqlite.step (.SELECT text) n db).2.options = db.options
  explains : ∀ text n db, (sqlite.step (.EXPLAIN text) n db).2.options = db.options
  asks : ∀ name n db, (sqlite.step (.PRAGMA name none) n db).2.options = db.options
  assigns : ∀ name argument n db,
    (sqlite.step (.PRAGMA name (some argument)) n db).2.options = sqlite.assigned name argument db.options
  again : ∀ name argument options,
    sqlite.assigned name argument (sqlite.assigned name argument options) = sqlite.assigned name argument options

/-- What the loop over the rows comes to when it ends with a step. -/
def ended : Fetch J × Connection C K → Except Status (List J) × Connection C K
  | (.row _, next) => (.ok [], next)
  | (.done, next) => (.ok [], next)
  | (.error errmsg, next) => (.error (.Error .kInternal ("SQL execution failed: " ++ errmsg)), next)

/-- The loop over the rows, with `row_limit` of them still to be kept. -/
def rows (sqlite : Sqlite C K J) (statement : Statement) : ℕ → ℕ → Connection C K →
    Except Status (List J) × Connection C K
  | 0, n, db => ended (sqlite.step statement n db)
  | row_limit + 1, n, db =>
    match sqlite.step statement n db with
    | (.row row, next) =>
      let rest := rows sqlite statement row_limit (n + 1) next
      (rest.1.map (row :: ·), rest.2)
    | stepped => ended stepped

def ExecuteRawQuery (sqlite : Sqlite C K J) (db_ : Option (Connection C K)) (sql : Bytes) :
    Except Status (List J) × Option (Connection C K) :=
  match db_ with
  | none => (.error (.Error .kInternal "DB not open"), none)
  | some db =>
    if SqliteBackend.IsReadOnlyStatement sql then
      match sqlite.prepare (SqliteBackend.c_str sql) db.contents with
      | .error errmsg => (.error (.Error .kInternal ("SQL prepare failed: " ++ errmsg)), some db)
      | .ok none => (.error (.Error .kInternal "SQL prepare failed: not an error"), some db)
      | .ok (some statement) =>
        if sqlite.readonly statement then
          let result := rows sqlite statement SqliteBackend.kRowLimit 0 db
          (result.1, some result.2)
        else (.error (.Error .kPermissionDenied "Statement classified as non-readonly by SQLite"), some db)
    else (.error (.Error .kPermissionDenied "Only SELECT, EXPLAIN and PRAGMA statements are allowed"), some db)

/-- A response: the rows, or a message with the HTTP status. -/
inductive Response (J : Type) where
  | rows (rows : List J)
  | JsonError (msg : String) (status : ℕ)

/-- `upper.find(word) != npos`. -/
def find (upper word : Bytes) : Bool := upper.tails.any fun rest => word.isPrefixOf rest

/-- The handler's test of the first 20 characters. -/
def mentions (sql : Bytes) : Bool :=
  let upper := (sql.take 20).map SqliteBackend.toupper
  find upper (ascii "SELECT") || find upper (ascii "PRAGMA")

/-- The handler of `POST /api/v1/query`, with the `query` of the body. -/
def query (sqlite : Sqlite C K J) (storage : Option (Option (Connection C K))) (sql : Bytes) :
    Response J × Option (Option (Connection C K)) :=
  if sql.isEmpty then (.JsonError "missing 'query' field" 400, storage)
  else if !mentions sql then (.JsonError "only SELECT queries are allowed" 403, storage)
  else
    match storage with
    | none => (.JsonError "no storage backend available" 500, none)
    | some db_ =>
      match ExecuteRawQuery sqlite db_ sql with
      | (.error status, after) => (.JsonError status.message_ 500, some after)
      | (.ok rows, after) => (.rows rows, some after)

end RawQuery

end Illuminator
