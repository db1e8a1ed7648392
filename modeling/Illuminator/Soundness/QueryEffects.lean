import Illuminator.Model.RawQuery

/-! # Effects of a query

What passes the two tests of its text is a SELECT, an EXPLAIN or a PRAGMA, also where a NUL ends the text
early, and what SQLite calls read-only leaves the database. A PRAGMA with an argument passes, and sets an option.
-/

namespace Illuminator

namespace RawQuery

variable {C K J : Type} {sqlite : Sqlite C K J} {db : Connection C K} {sql : Bytes}

/-! ## The first word -/

theorem dropWhile_c_str (sql : Bytes) :
    (SqliteBackend.c_str sql).dropWhile (fun c => c = 0x20 ∨ c = 0x09 ∨ c = 0x0D ∨ c = 0x0A) =
      SqliteBackend.c_str (sql.dropWhile fun c => c = 0x20 ∨ c = 0x09 ∨ c = 0x0D ∨ c = 0x0A) := by
  induction sql with
  | nil => rfl
  | cons c sql ih =>
    by_cases blank : c = 0x20 ∨ c = 0x09 ∨ c = 0x0D ∨ c = 0x0A
    · have nonzero : (c != 0) = true := by
        rcases blank with rfl | rfl | rfl | rfl <;> rfl
      rw [SqliteBackend.c_str, List.takeWhile_cons, if_pos nonzero, List.dropWhile_cons, if_pos (decide_eq_true blank),
        List.dropWhile_cons, if_pos (decide_eq_true blank)]
      exact ih
    · rw [List.dropWhile_cons_of_neg (by simpa using blank)]
      by_cases nonzero : (c != 0) = true
      · rw [SqliteBackend.c_str, List.takeWhile_cons, if_pos nonzero, List.dropWhile_cons_of_neg (by simpa using blank)]
      · rw [SqliteBackend.c_str, List.takeWhile_cons, if_neg nonzero]
        rfl

/-- A word without NUL at the start of a text is at the start of its C string. -/
theorem take_c_str {word : Bytes} (nonzero : 0 ∉ word) {text : Bytes}
    (starts : (text.take word.length).map SqliteBackend.toupper = word) :
    ((SqliteBackend.c_str text).take word.length).map SqliteBackend.toupper = word := by
  induction word generalizing text with
  | nil => rfl
  | cons letter word ih =>
    cases text with
    | nil => exact starts
    | cons c text =>
      rw [List.length_cons, List.take_succ_cons, List.map_cons] at starts
      obtain ⟨same, rest⟩ := List.cons.inj starts
      have letters : (c != 0) = true := by
        refine bne_iff_ne.mpr fun zero => nonzero ?_
        rw [← same, zero]
        exact List.mem_cons_self ..
      rw [SqliteBackend.c_str, List.takeWhile_cons, if_pos letters, List.length_cons, List.take_succ_cons, List.map_cons,
        same]
      exact congrArg _ (ih (fun member => nonzero (List.mem_cons_of_mem _ member)) rest)

theorem firstWord_take (text : Bytes) : (firstWord text).take 7 = firstWord text := by
  rw [firstWord, ← List.map_take, List.take_take, Nat.min_self]

theorem firstWord_c_str (word : Bytes) (short : word.length ≤ 7) (nonzero : 0 ∉ word)
    (starts : (firstWord sql).take word.length = word) :
    (firstWord (SqliteBackend.c_str sql)).take word.length = word := by
  rw [firstWord, ← List.map_take, List.take_take, Nat.min_eq_left short] at starts ⊢
  rw [dropWhile_c_str]
  exact take_c_str nonzero starts

/-- What `IsReadOnlyStatement` looks at. -/
theorem firstWord_of_readOnly (readOnly : SqliteBackend.IsReadOnlyStatement sql = true) :
    (firstWord sql).take 6 = ascii "SELECT" ∨ firstWord sql = ascii "EXPLAIN" ∨
      (firstWord sql).take 6 = ascii "PRAGMA" := by
  unfold SqliteBackend.IsReadOnlyStatement at readOnly
  split at readOnly
  · exact absurd readOnly Bool.false_ne_true
  · exact of_decide_eq_true readOnly

/-- A text that passes is compiled to a SELECT, an EXPLAIN or a PRAGMA. -/
theorem statement_kind (documented : sqlite.Documented) (readOnly : SqliteBackend.IsReadOnlyStatement sql = true)
    {contents : C} {statement : Statement}
    (prepared : sqlite.prepare (SqliteBackend.c_str sql) contents = .ok (some statement)) :
    (∃ t, statement = .SELECT t) ∨ (∃ t, statement = .EXPLAIN t) ∨ ∃ name argument, statement = .PRAGMA name argument := by
  rcases firstWord_of_readOnly readOnly with select | explain | pragma
  · exact Or.inl (documented.select _ _ _ prepared
      (firstWord_c_str (ascii "SELECT") (by decide) (by decide) select))
  · have whole : (firstWord (SqliteBackend.c_str sql)).take 7 = ascii "EXPLAIN" :=
      firstWord_c_str (ascii "EXPLAIN") (by decide) (by decide) ((firstWord_take sql).trans explain)
    rw [firstWord_take] at whole
    exact Or.inr (Or.inl (documented.explain _ _ _ prepared whole))
  · exact Or.inr (Or.inr (documented.pragma _ _ _ prepared
      (firstWord_c_str (ascii "PRAGMA") (by decide) (by decide) pragma)))

/-! ## The loop over the rows -/

theorem ended_snd (stepped : Fetch J × Connection C K) : (ended stepped).2 = stepped.2 := by
  obtain ⟨fetched, next⟩ := stepped
  cases fetched <;> rfl

/-- The loop makes one step at least. What holds after that and is kept by steps holds after the loop. -/
theorem rows_after {P : Connection C K → Prop} {statement : Statement}
    (kept : ∀ n db, P db → P (sqlite.step statement n db).2) (row_limit n : ℕ) (db : Connection C K)
    (first : P (sqlite.step statement n db).2) : P (rows sqlite statement row_limit n db).2 := by
  induction row_limit generalizing n db with
  | zero =>
    rw [rows, ended_snd]
    exact first
  | succ row_limit ih =>
    unfold rows
    split
    next row next stepped =>
      rw [stepped] at first
      exact ih (n + 1) next (kept (n + 1) next first)
    next =>
      rw [ended_snd]
      exact first

/-! ## What a query leaves -/

/-- A text that the handler and both tests of `ExecuteRawQuery` let through. -/
structure Accepted (sqlite : Sqlite C K J) (db : Connection C K) (sql : Bytes) : Prop where
  nonempty : sql.isEmpty = false
  mentions : mentions sql = true
  readOnly : SqliteBackend.IsReadOnlyStatement sql = true
  readonly : ∃ statement, sqlite.prepare (SqliteBackend.c_str sql) db.contents = .ok (some statement) ∧
    sqlite.readonly statement = true

/-- The statement is no PRAGMA that sets an option to another value. -/
def Harmless (sqlite : Sqlite C K J) (db : Connection C K) (sql : Bytes) : Prop :=
  ∀ name argument, sqlite.prepare (SqliteBackend.c_str sql) db.contents = .ok (some (.PRAGMA name (some argument))) →
    sqlite.assigned name argument db.options = db.options

theorem query_accepted (accepted : Accepted sqlite db sql) :
    ∃ statement, sqlite.prepare (SqliteBackend.c_str sql) db.contents = .ok (some statement) ∧
      sqlite.readonly statement = true ∧
      (query sqlite (some (some db)) sql).2 = some (some (rows sqlite statement SqliteBackend.kRowLimit 0 db).2) := by
  obtain ⟨nonempty, mentions, readOnly, statement, prepared, readonly⟩ := accepted
  refine ⟨statement, prepared, readonly, ?_⟩
  simp only [query, nonempty, mentions, ExecuteRawQuery, if_pos readOnly, prepared, if_pos readonly]
  cases rows sqlite statement SqliteBackend.kRowLimit 0 db with
  | mk result next => cases result <;> rfl

theorem ExecuteRawQuery_rejected (nonempty : sql.isEmpty = false) (mention : mentions sql = true)
    (rejected : ¬ Accepted sqlite db sql) : (ExecuteRawQuery sqlite (some db) sql).2 = some db := by
  simp only [ExecuteRawQuery]
  split_ifs with readOnly
  · split
    · rfl
    · rfl
    next statement prepared =>
      split_ifs with readonly
      · exact absurd ⟨nonempty, mention, readOnly, statement, prepared, readonly⟩ rejected
      · rfl
  · rfl

/-- A text that is not let through leaves the connection. -/
theorem query_rejected (rejected : ¬ Accepted sqlite db sql) :
    (query sqlite (some (some db)) sql).2 = some (some db) := by
  cases nonempty : sql.isEmpty with
  | true => simp only [query, if_pos nonempty]
  | false =>
    cases mention : mentions sql with
    | false => simp only [query, nonempty, mention, Bool.not_false, if_true, Bool.false_eq_true, if_false]
    | true =>
      have left := ExecuteRawQuery_rejected nonempty mention rejected
      simp only [query, nonempty, mention, Bool.not_true, Bool.false_eq_true, if_false]
      split
      next status after result =>
        rw [result] at left
        exact congrArg some left
      next rows after result =>
        rw [result] at left
        exact congrArg some left

/-- A query that is let through leaves the contents and the options exactly when it is harmless. -/
theorem query_unchanged_iff (documented : sqlite.Documented) (accepted : Accepted sqlite db sql) :
    (query sqlite (some (some db)) sql).2 = some (some db) ↔ Harmless sqlite db sql := by
  obtain ⟨statement, prepared, readonly, after⟩ := query_accepted accepted
  have contents : (rows sqlite statement SqliteBackend.kRowLimit 0 db).2.contents = db.contents := by
    have step (n : ℕ) (now : Connection C K) (same : now.contents = db.contents) :
        (sqlite.step statement n now).2.contents = db.contents :=
      (documented.readonly statement n now readonly).trans same
    exact rows_after step _ _ _ (step 0 db rfl)
  have options (kept : ∀ n now, (sqlite.step statement n now).2.options = now.options) :
      (rows sqlite statement SqliteBackend.kRowLimit 0 db).2.options = db.options := by
    have step (n : ℕ) (now : Connection C K) (same : now.options = db.options) :
        (sqlite.step statement n now).2.options = db.options := (kept n now).trans same
    exact rows_after step _ _ _ (step 0 db rfl)
  have unchanged : (query sqlite (some (some db)) sql).2 = some (some db) ↔
      (rows sqlite statement SqliteBackend.kRowLimit 0 db).2.options = db.options := by
    rw [after]
    constructor
    · intro same
      rw [Option.some.inj (Option.some.inj same)]
    · intro same
      rw [Connection.ext contents same]
  rw [unchanged]
  rcases statement_kind documented accepted.readOnly prepared with ⟨t, rfl⟩ | ⟨t, rfl⟩ | ⟨name, argument, rfl⟩
  · refine iff_of_true (options (documented.selects t)) fun name argument other => ?_
    cases other.symm.trans prepared
  · refine iff_of_true (options (documented.explains t)) fun name argument other => ?_
    cases other.symm.trans prepared
  · cases argument with
    | none =>
      refine iff_of_true (options (documented.asks name)) fun name argument other => ?_
      cases other.symm.trans prepared
    | some argument =>
      have assigned := documented.assigns name argument
      have again (n : ℕ) (now : Connection C K) (same : now.options = sqlite.assigned name argument db.options) :
          (sqlite.step (.PRAGMA name (some argument)) n now).2.options = sqlite.assigned name argument db.options := by
        rw [assigned, same]
        exact documented.again name argument db.options
      rw [rows_after again _ _ _ (assigned 0 db)]
      constructor
      · intro same other value prepared_
        cases prepared_.symm.trans prepared
        exact same
      · exact fun harmless => harmless name argument prepared

/-! ## An option -/

/-- SQLite, as far as `query_only` goes. -/
def queryOnly : Sqlite Tables Bool Unit where
  prepare text _ :=
    let word := firstWord text
    .ok (if word.take 6 = ascii "SELECT" then some (.SELECT text)
    else if word = ascii "EXPLAIN" then some (.EXPLAIN text)
    else if word.take 6 = ascii "PRAGMA" then
      let body := text.drop 7
      some (.PRAGMA (body.takeWhile fun c => c ≠ 0x3D) ((body.dropWhile fun c => c ≠ 0x3D).tail?))
    else none)
  readonly _ := true
  step statement _ db :=
    match statement with
    | .PRAGMA name (some argument) =>
      (.done, { db with options := if name = ascii "query_only" then argument = ascii "1" else db.options })
    | _ => (.done, db)
  assigned name argument options := if name = ascii "query_only" then argument = ascii "1" else options

theorem queryOnly_documented : queryOnly.Documented where
  select text _ statement prepared word := by
    simp only [queryOnly, if_pos word] at prepared
    cases prepared
    exact ⟨text, rfl⟩
  explain text _ statement prepared word := by
    have other : ¬ (firstWord text).take 6 = ascii "SELECT" := by
      rw [word]
      decide
    simp only [queryOnly, if_neg other, if_pos word] at prepared
    cases prepared
    exact ⟨text, rfl⟩
  pragma text _ statement prepared word := by
    have first : ¬ (firstWord text).take 6 = ascii "SELECT" := by
      rw [word]
      decide
    have second : ¬ firstWord text = ascii "EXPLAIN" := by
      intro same
      rw [same] at word
      exact absurd word (by decide)
    simp only [queryOnly, if_neg first, if_neg second, if_pos word] at prepared
    cases prepared
    exact ⟨_, _, rfl⟩
  readonly statement n db _ := by
    cases statement with
    | PRAGMA name argument => cases argument <;> rfl
    | _ => rfl
  selects _ _ _ := rfl
  explains _ _ _ := rfl
  asks _ _ _ := rfl
  assigns _ _ _ _ := rfl
  again name argument options := by
    simp only [queryOnly]
    split_ifs <;> rfl

/-- `PRAGMA query_only=1` is accepted, and later writes fail. -/
theorem query_sets : ¬ ∀ (sqlite : Sqlite Tables Bool Unit) (db : Connection Tables Bool) (sql : Bytes), sqlite.Documented →
    Accepted sqlite db sql → (query sqlite (some (some db)) sql).2 = some (some db) := by
  intro claim
  have same := claim queryOnly ⟨⟨[], []⟩, false⟩ (ascii "PRAGMA query_only=1") queryOnly_documented
    ⟨rfl, rfl, rfl, _, rfl, rfl⟩
  exact absurd same (by decide)

/-- A SELECT leaves everything. -/
theorem query_unchanged_select :
    (query queryOnly (some (some ⟨⟨[], []⟩, false⟩)) (ascii "SELECT count(*) FROM records")).2 =
      some (some ⟨⟨[], []⟩, false⟩) := by
  refine (query_unchanged_iff queryOnly_documented ⟨rfl, rfl, rfl, _, rfl, rfl⟩).mpr fun name argument prepared => ?_
  cases prepared

end RawQuery

end Illuminator
