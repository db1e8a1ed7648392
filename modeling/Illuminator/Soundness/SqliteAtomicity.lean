import Illuminator.Model.SqliteBackend
import Mathlib.Data.List.Basic

/-! # Writes that happen wholly or not at all

Every exit of a write but two undoes its `BEGIN`. An exception from a serializer leaves the transaction
open and the statement prepared, and a `COMMIT` that fails without a rollback leaves the transaction
open. And the status of `BEGIN` is not looked at: without a transaction each row is committed by itself.
A write on a clean connection is all or nothing exactly when none of these happens.
-/

namespace Illuminator

namespace SqliteBackend

open Transactions

variable {X D : Type} {insert : X → Option (Tables → Tables)}

/-- The write inserted every item and returned `Ok`, or left the connection as it was. -/
def AllOrNothing (insert : X → Option (Tables → Tables)) (items : List X) (db_ : Option (Connection Tables))
    (result : Option (Connection Tables) × Option Status) : Prop :=
  (result.2 = some .Ok ∧ ∃ changes, items.mapM insert = some changes ∧
      result.1 = db_.map fun c => { c with committed := applyEach changes c.committed }) ∨
    result.1 = db_

/-- Once the statement is prepared: no row that is reached throws, `COMMIT` does not fail with the
transaction open, and no row is inserted outside a transaction. -/
def Undisturbed (insert : X → Option (Tables → Tables)) (engine : Engine) (items : List X) : Prop :=
  engine.prepared = true → items ≠ [] →
    (∀ i x, items[i]? = some x → insert x = none → ∃ j < i, engine.steps j ≠ .done) ∧
      ((∀ i < items.length, engine.steps i = .done) → engine.commit ≠ .failed) ∧
      (engine.refused = true → engine.steps 0 ≠ .done)

private theorem done_succ {steps : ℕ → Outcome} {i n : ℕ} (first : steps i = .done)
    (later : ∀ j < n, steps (i + 1 + j) = .done) : ∀ j < n + 1, steps (i + j) = .done := by
  rintro (_ | j) small
  · exact first
  · rw [Nat.add_succ, ← Nat.succ_add]
    exact later j (Nat.lt_of_succ_lt_succ small)

private theorem mapM_cons_some {x : X} {rest : List X} {change : Tables → Tables}
    {changes : List (Tables → Tables)} (made : insert x = some change) (others : rest.mapM insert = some changes) :
    (x :: rest).mapM insert = some (change :: changes) := by
  rw [List.mapM_cons, made, others]
  rfl

/-- The ways the loop ends: after every row, at a row whose step fails, or at a row that throws. -/
theorem insertEach_cases (insert : X → Option (Tables → Tables)) (steps : ℕ → Outcome) (i : ℕ) (items : List X)
    (c : Connection Tables) :
    (∃ changes, items.mapM insert = some changes ∧ (∀ j < items.length, steps (i + j) = .done) ∧
        insertEach insert steps i items c = (c.stepEach changes, .finished)) ∨
      (∃ done x rest changes change, items = done ++ x :: rest ∧ done.mapM insert = some changes ∧
        insert x = some change ∧ (∀ j < done.length, steps (i + j) = .done) ∧ steps (i + done.length) ≠ .done ∧
        insertEach insert steps i items c =
          ((c.stepEach changes).step change (steps (i + done.length)), .failed)) ∨
      ∃ done x rest changes, items = done ++ x :: rest ∧ done.mapM insert = some changes ∧ insert x = none ∧
        (∀ j < done.length, steps (i + j) = .done) ∧
        insertEach insert steps i items c = (c.stepEach changes, .threw) := by
  induction items generalizing i c with
  | nil => exact Or.inl ⟨[], rfl, fun j small => absurd small (Nat.not_lt_zero j), rfl⟩
  | cons x rest ih =>
    cases made : insert x with
    | none =>
      refine Or.inr (Or.inr ⟨[], x, rest, [], rfl, rfl, made, fun j small => absurd small (Nat.not_lt_zero j), ?_⟩)
      rw [insertEach, made]
      rfl
    | some change =>
      by_cases first : steps i = .done
      · have turn : insertEach insert steps i (x :: rest) c =
            insertEach insert steps (i + 1) rest (c.step change .done) := by
          rw [insertEach, made]
          simp only [first]
        have shift (n : ℕ) : i + 1 + n = i + (n + 1) := by omega
        rw [turn]
        rcases ih (i + 1) (c.step change .done) with ⟨changes, others, later, ends⟩ |
          ⟨done, y, more, changes, last, rfl, others, stop, later, fails, ends⟩ |
          ⟨done, y, more, changes, rfl, others, stop, later, ends⟩
        · exact Or.inl ⟨change :: changes, mapM_cons_some made others, done_succ first later, ends⟩
        · rw [shift] at fails ends
          exact Or.inr (Or.inl ⟨x :: done, y, more, change :: changes, last, rfl, mapM_cons_some made others, stop,
            done_succ first later, fails, ends⟩)
        · exact Or.inr (Or.inr ⟨x :: done, y, more, change :: changes, rfl, mapM_cons_some made others, stop,
            done_succ first later, ends⟩)
      · refine Or.inr (Or.inl ⟨[], x, rest, [], change, rfl, rfl, made,
        fun j small => absurd small (Nat.not_lt_zero j), first, ?_⟩)
        rw [insertEach, made]
        cases outcome : steps i with
        | done => exact absurd outcome first
        | failed => rw [Connection.stepEach, List.foldl_nil]
        | rolledBack => rw [Connection.stepEach, List.foldl_nil]

/-- The rows of both tables. -/
def Tables.rows (t : Tables) : ℕ := t.records.length + t.stack_samples.length

/-- Each insertion adds one row. -/
def AddsOne (insert : X → Option (Tables → Tables)) : Prop :=
  ∀ x change, insert x = some change → ∀ t, Tables.rows (change t) = Tables.rows t + 1

theorem rows_applyEach (adds : AddsOne insert) {items : List X} {changes : List (Tables → Tables)}
    (made : items.mapM insert = some changes) (t : Tables) :
    Tables.rows (applyEach changes t) = Tables.rows t + items.length := by
  induction items generalizing changes t with
  | nil =>
    cases made
    rfl
  | cons x rest ih =>
    rw [List.mapM_cons] at made
    obtain ⟨change, first, made⟩ := Option.bind_eq_some_iff.mp made
    obtain ⟨others, later, made⟩ := Option.bind_eq_some_iff.mp made
    cases made
    have next : applyEach (change :: others) t = applyEach others (change t) := rfl
    rw [next, ih later, adds x change first, List.length_cons]
    omega

theorem insertRecord_addsOne (json : Json.Library D) (pipeline_name : Bytes) :
    AddsOne (insertRecord json pipeline_name) := by
  intro rec change made t
  obtain ⟨row, _, rfl⟩ := Option.map_eq_some_iff.mp made
  simp only [Tables.rows, List.length_append, List.length_singleton]
  omega

theorem insertStackSample_addsOne (json : Json.Library D) (pipeline_name : Bytes) :
    AddsOne (insertStackSample (D := D) json pipeline_name) := by
  intro s change made t
  obtain ⟨row, _, rfl⟩ := Option.map_eq_some_iff.mp made
  simp only [Tables.rows, List.length_append, List.length_singleton]
  omega

/-- In rows that were all made there is none that throws. -/
theorem not_throws {items : List X} {changes : List (Tables → Tables)} (made : items.mapM insert = some changes)
    {i : ℕ} {x : X} (here : items[i]? = some x) : insert x ≠ none := by
  induction items generalizing i changes with
  | nil => simp at here
  | cons y rest ih =>
    rw [List.mapM_cons] at made
    obtain ⟨change, first, made⟩ := Option.bind_eq_some_iff.mp made
    obtain ⟨others, later, _⟩ := Option.bind_eq_some_iff.mp made
    cases i with
    | zero =>
      cases here
      rw [first]
      exact Option.some_ne_none change
    | succ i => exact ih later here

/-- A row that is reached and throws disturbs the write. -/
private theorem disturbed_of_throw {engine : Engine} (prepared : engine.prepared = true) {done rest : List X} {x : X}
    (throws : insert x = none) (before : ∀ j < done.length, engine.steps j = .done) :
    ¬ Undisturbed insert engine (done ++ x :: rest) := by
  intro undisturbed
  obtain ⟨j, earlier, fails⟩ := (undisturbed prepared (by simp)).1 done.length x
    (by rw [List.getElem?_append_right (Nat.le_refl _), Nat.sub_self]; rfl) throws
  exact fails (before j earlier)

/-- A row whose step fails ends the write there, and the rows after it are not reached. -/
private theorem undisturbed_of_failure {engine : Engine} {done rest : List X} {x : X}
    {changes : List (Tables → Tables)} {change : Tables → Tables} (made : done.mapM insert = some changes)
    (last : insert x = some change) (fails : engine.steps done.length ≠ .done)
    (first : engine.refused = true → engine.steps 0 ≠ .done) : Undisturbed insert engine (done ++ x :: rest) := by
  refine fun _ _ => ⟨fun i y here throws => ⟨done.length, ?_, fails⟩, fun all => ?_, first⟩
  · rcases Nat.lt_trichotomy i done.length with before | same | after
    · rw [List.getElem?_append_left before] at here
      exact absurd throws (not_throws made here)
    · rw [same, List.getElem?_append_right (Nat.le_refl _), Nat.sub_self] at here
      cases here
      rw [last] at throws
      contradiction
    · exact after
  · exact absurd (all done.length (by simp)) fails

section Exits

variable {engine : Engine} {c begun left : Connection Tables} {items : List X}

/-- The three exits of a write whose statement was prepared. -/
theorem writeBatch_finished (context : String) (prepared : engine.prepared = true) (some_ : items ≠ [])
    (begins : (c.start engine.refused).prepare engine.prepared = begun)
    (ends : insertEach insert engine.steps 0 items begun = (left, .finished)) :
    writeBatch context insert engine (some c) items =
      (some (left.finalize.commit engine.commit).1,
        some (if (left.finalize.commit engine.commit).2 then .Ok
          else .Error .kInternal ("SQLite COMMIT failed: " ++ context))) := by
  rw [prepared] at begins
  rw [writeBatch, if_neg (by simpa using some_)]
  simp only [prepared, ↓reduceIte, begins, ends]
  rcases left.finalize.commit engine.commit with ⟨c, _ | _⟩ <;> rfl

theorem writeBatch_failed (context : String) (prepared : engine.prepared = true) (some_ : items ≠ [])
    (begins : (c.start engine.refused).prepare engine.prepared = begun)
    (ends : insertEach insert engine.steps 0 items begun = (left, .failed)) :
    writeBatch context insert engine (some c) items =
      (some left.finalize.rollback, some (.Error .kInternal ("SQLite step failed: " ++ context))) := by
  rw [prepared] at begins
  rw [writeBatch, if_neg (by simpa using some_)]
  simp only [prepared, ↓reduceIte, begins, ends]

theorem writeBatch_threw (context : String) (prepared : engine.prepared = true) (some_ : items ≠ [])
    (begins : (c.start engine.refused).prepare engine.prepared = begun)
    (ends : insertEach insert engine.steps 0 items begun = (left, .threw)) :
    writeBatch context insert engine (some c) items = (some left, none) := by
  rw [prepared] at begins
  rw [writeBatch, if_neg (by simpa using some_)]
  simp only [prepared, ↓reduceIte, begins, ends]

end Exits

/-- A write with a transaction open. -/
private theorem open_iff (context : String) {engine : Engine} (prepared : engine.prepared = true)
    (opens : engine.refused = false) (t : Tables) {items : List X} (some_ : items ≠ []) :
    AllOrNothing insert items (some ⟨t, none, 0⟩) (writeBatch context insert engine (some ⟨t, none, 0⟩) items) ↔
      Undisturbed insert engine items := by
  have accepted : ¬ engine.refused = true := by
    rw [opens]
    decide
  have begins : ((⟨t, none, 0⟩ : Connection Tables).start engine.refused).prepare engine.prepared = ⟨t, some t, 1⟩ := by
    rw [opens, prepared]
    rfl
  rcases insertEach_cases insert engine.steps 0 items ⟨t, some t, 1⟩ with ⟨changes, made, later, ends⟩ |
    ⟨done, x, rest, changes, change, rfl, made, last, later, fails, ends⟩ |
    ⟨done, x, rest, changes, rfl, made, throws, later, ends⟩
  · simp only [Nat.zero_add] at later
    rw [writeBatch_finished context prepared some_ begins ends, Connection.stepEach_working rfl]
    have calm (kept : engine.commit ≠ .failed) : Undisturbed insert engine items :=
      fun _ _ => ⟨fun i x here throws => absurd throws (not_throws made here), fun _ => kept,
        fun refused => absurd refused accepted⟩
    cases commits : engine.commit with
    | done => exact iff_of_true (Or.inl ⟨rfl, changes, made, rfl⟩) (calm (by rw [commits]; decide))
    | rolledBack => exact iff_of_true (Or.inr rfl) (calm (by rw [commits]; decide))
    | failed =>
      apply iff_of_false
      · rintro (⟨ok, _⟩ | same)
        · cases ok
        · cases same
      · exact fun undisturbed => (undisturbed prepared some_).2.1 later commits
  · simp only [Nat.zero_add] at fails ends
    rw [writeBatch_failed context prepared some_ begins ends, Connection.stepEach_working rfl]
    refine iff_of_true (Or.inr ?_) (undisturbed_of_failure made last fails fun refused => absurd refused accepted)
    cases outcome : engine.steps done.length with
    | done => exact absurd outcome fails
    | failed => rfl
    | rolledBack => rfl
  · simp only [Nat.zero_add] at later
    rw [writeBatch_threw context prepared some_ begins ends, Connection.stepEach_working rfl]
    apply iff_of_false
    · rintro (⟨ok, _⟩ | same)
      · cases ok
      · cases same
    · exact disturbed_of_throw prepared throws later

/-- A write for which `BEGIN` was refused. -/
private theorem refused_iff (adds : AddsOne insert) (context : String) {engine : Engine}
    (prepared : engine.prepared = true) (refused : engine.refused = true) (t : Tables) {items : List X}
    (some_ : items ≠ []) :
    AllOrNothing insert items (some ⟨t, none, 0⟩) (writeBatch context insert engine (some ⟨t, none, 0⟩) items) ↔
      Undisturbed insert engine items := by
  have begins : ((⟨t, none, 0⟩ : Connection Tables).start engine.refused).prepare engine.prepared = ⟨t, none, 1⟩ := by
    rw [refused, prepared]
    rfl
  have grown {done : List X} {changes : List (Tables → Tables)} (made : done.mapM insert = some changes)
      (nonempty : done ≠ []) : applyEach changes t ≠ t := by
    intro same
    have rows := rows_applyEach adds made t
    rw [same] at rows
    exact nonempty (List.eq_nil_of_length_eq_zero (by omega))
  rcases insertEach_cases insert engine.steps 0 items ⟨t, none, 1⟩ with ⟨changes, made, later, ends⟩ |
    ⟨done, x, rest, changes, change, rfl, made, last, later, fails, ends⟩ |
    ⟨done, x, rest, changes, rfl, made, throws, later, ends⟩
  · simp only [Nat.zero_add] at later
    rw [writeBatch_finished context prepared some_ begins ends, Connection.stepEach_autocommit rfl]
    apply iff_of_false
    · rintro (⟨ok, _⟩ | same)
      · cases ok
      · exact grown made some_ (congrArg Connection.committed (Option.some.inj same))
    · exact fun undisturbed => (undisturbed prepared some_).2.2 refused (later 0 (List.length_pos_iff.mpr some_))
  · simp only [Nat.zero_add] at fails ends later
    rw [writeBatch_failed context prepared some_ begins ends, Connection.stepEach_autocommit rfl]
    have left :
        ((⟨applyEach changes t, none, 1⟩ : Connection Tables).step change (engine.steps done.length)).finalize.rollback =
          ⟨applyEach changes t, none, 0⟩ := by
      cases outcome : engine.steps done.length with
      | done => exact absurd outcome fails
      | failed => rfl
      | rolledBack => rfl
    rcases done with _ | ⟨y, others⟩
    · cases made
      exact iff_of_true (Or.inr (congrArg some left)) (undisturbed_of_failure rfl last fails fun _ => fails)
    · apply iff_of_false
      · rintro (⟨ok, _⟩ | same)
        · cases ok
        · have kept := Option.some.inj same
          rw [left] at kept
          exact grown made (List.cons_ne_nil _ _) (congrArg Connection.committed kept)
      · exact fun undisturbed => (undisturbed prepared some_).2.2 refused (later 0 (Nat.succ_pos _))
  · simp only [Nat.zero_add] at later
    rw [writeBatch_threw context prepared some_ begins ends, Connection.stepEach_autocommit rfl]
    apply iff_of_false
    · rintro (⟨ok, _⟩ | same)
      · cases ok
      · exact absurd (congrArg Connection.statements (Option.some.inj same)) Nat.one_ne_zero
    · exact disturbed_of_throw prepared throws later

/-- A write on a clean connection is all or nothing exactly when nothing disturbs it. -/
theorem writeBatch_iff (adds : AddsOne insert) (context : String) (engine : Engine) {c : Connection Tables}
    (clean : c.Clean) (items : List X) :
    AllOrNothing insert items (some c) (writeBatch context insert engine (some c) items) ↔
      Undisturbed insert engine items := by
  obtain ⟨t, working, statements⟩ := c
  obtain ⟨rfl, rfl⟩ := clean
  rcases items with _ | ⟨x, rest⟩
  · exact iff_of_true (Or.inr rfl) fun _ nonempty => absurd rfl nonempty
  · cases prepared : engine.prepared with
    | false =>
      refine iff_of_true (Or.inr ?_) fun accepted => absurd (prepared.symm.trans accepted) (by decide)
      rw [writeBatch, if_neg (by simp), prepared]
      cases engine.refused <;> rfl
    | true =>
      cases refused : engine.refused with
      | false => exact open_iff context prepared refused t (List.cons_ne_nil x rest)
      | true => exact refused_iff adds context prepared refused t (List.cons_ne_nil x rest)

theorem writeBatch_open_iff (adds : AddsOne insert) (context : String) (engine : Engine)
    {db_ : Option (Connection Tables)} (clean : ∀ c ∈ db_, c.Clean) (items : List X) :
    AllOrNothing insert items db_ (writeBatch context insert engine db_ items) ↔
      (db_.isSome = true → Undisturbed insert engine items) := by
  cases db_ with
  | none => exact iff_of_true (Or.inr rfl) nofun
  | some c =>
    rw [writeBatch_iff adds context engine (clean c rfl)]
    exact ⟨fun undisturbed _ => undisturbed, fun undisturbed => undisturbed rfl⟩

/-- What a write that was all or nothing leaves is clean again. -/
theorem AllOrNothing.clean {db_ : Option (Connection Tables)} {items : List X}
    {result : Option (Connection Tables) × Option Status} (whole : AllOrNothing insert items db_ result)
    (before : ∀ c ∈ db_, c.Clean) : ∀ c ∈ result.1, c.Clean := by
  rcases whole with ⟨_, changes, _, inserted⟩ | same
  · rw [inserted]
    intro c member
    obtain ⟨first, present, rfl⟩ := Option.map_eq_some_iff.mp member
    exact before first present
  · rwa [same]

/-- From a clean connection, each of the two functions is all or nothing, and leaves a clean connection,
exactly when nothing disturbs the write. -/
theorem write_atomic_iff (json : Json.Library D) (engine : Engine) (pipeline_name : Bytes)
    {db_ : Option (Connection Tables)} (clean : ∀ c ∈ db_, c.Clean) :
    (∀ records : List (Record D),
      AllOrNothing (insertRecord json pipeline_name) records db_ (WriteRecords json engine db_ pipeline_name records) ∧
          (∀ c ∈ (WriteRecords json engine db_ pipeline_name records).1, c.Clean) ↔
        (db_.isSome = true → Undisturbed (insertRecord json pipeline_name) engine records)) ∧
      ∀ samples : List StackSample,
        AllOrNothing (insertStackSample json pipeline_name) samples db_
              (WriteStackSamples json engine db_ pipeline_name samples) ∧
            (∀ c ∈ (WriteStackSamples json engine db_ pipeline_name samples).1, c.Clean) ↔
          (db_.isSome = true → Undisturbed (insertStackSample json pipeline_name) engine samples) := by
  constructor
  · intro records
    have exactly := writeBatch_open_iff (insertRecord_addsOne json pipeline_name) "WriteRecords" engine clean records
    exact ⟨fun both => exactly.mp both.1, fun calm => ⟨exactly.mpr calm, (exactly.mpr calm).clean clean⟩⟩
  · intro samples
    have exactly := writeBatch_open_iff (insertStackSample_addsOne json pipeline_name) "WriteStackSamples" engine clean
      samples
    exact ⟨fun both => exactly.mp both.1, fun calm => ⟨exactly.mpr calm, (exactly.mpr calm).clean clean⟩⟩

/-- `dump` for an object with one ASCII string or none, and no other; it throws on the octet `FF`. -/
def smallJson : Json.Library ℕ where
  dump
    | .object [] => some [0x7B, 0x7D]
    | .object [(key, .string value)] =>
      if 0xFF ∈ value then none
      else some ([0x7B, 0x22] ++ key ++ [0x22, 0x3A, 0x22] ++ value ++ [0x22, 0x7D])
    | _ => none
  parse _ := none

/-- A record with one label. -/
def labelled (value : Bytes) : Record ℕ := ⟨0, [⟨[0x6B], value⟩], ∅⟩

/-- SQLite with nothing wrong but its `COMMIT`. -/
def working (commit : Outcome) : Engine := ⟨false, true, fun _ => .done, commit⟩

def emptyTables : Connection Tables := ⟨⟨[], []⟩, none, 0⟩

/-- A label that is not UTF-8 leaves the transaction open and the statement prepared; a `COMMIT` that finds
the database busy leaves the transaction open. -/
theorem left_open :
    ¬ AllOrNothing (insertRecord smallJson []) [labelled [0xFF]] (some emptyTables)
        (WriteRecords smallJson (working .done) (some emptyTables) [] [labelled [0xFF]]) ∧
      ¬ AllOrNothing (insertRecord smallJson []) [labelled [0x76]] (some emptyTables)
        (WriteRecords smallJson (working .failed) (some emptyTables) [] [labelled [0x76]]) := by
  constructor
  · rintro (⟨ok, _⟩ | same)
    · cases ok
    · cases same
  · rintro (⟨ok, _⟩ | same)
    · cases ok
    · cases same

/-- Two ASCII records are inserted, or nothing is: no row throws and `COMMIT` succeeds. -/
theorem write_atomic_iff_ascii :
    AllOrNothing (insertRecord smallJson []) [labelled [0x76], labelled []] (some emptyTables)
      (WriteRecords smallJson (working .done) (some emptyTables) [] [labelled [0x76], labelled []]) := by
  have clean : ∀ c ∈ some emptyTables, c.Clean := by
    rintro c same
    cases same
    exact ⟨rfl, rfl⟩
  refine (((write_atomic_iff smallJson (working .done) [] clean).1 _).mpr fun _ _ _ => ⟨?_, ?_, nofun⟩).1
  · rintro (_ | _ | i) x here throws
    · cases here
      cases throws
    · cases here
      cases throws
    · cases here
  · exact fun _ => nofun

end SqliteBackend

end Illuminator
