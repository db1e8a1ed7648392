import Illuminator.Model.LocalStorageSink
import Illuminator.Soundness.SqliteAtomicity

/-! # Batches with records and stack samples

The sink writes the two halves of a batch in two transactions. When the first has been committed and
the second does not go through, `Write` fails with the records stored, and writing the batch again
stores them twice. The write is whole exactly when both transactions go through, or the first one fails
in a way that leaves nothing of it.
-/

namespace Illuminator

namespace LocalStorageSink

open Transactions SqliteBackend

variable {X D : Type} {insert : X → Option (Tables → Tables)} {engine : Engine} {items : List X}

/-- The contents that a connection sees. -/
def visible (c : Connection Tables) : Tables := c.working.getD c.committed

/-- The rows of a write are inserted inside a transaction: `BEGIN` opens one, or one is open already. -/
def InTransaction (engine : Engine) (c : Connection Tables) : Prop := c.working.isSome = true ∨ engine.refused = false

/-- The serializers make the row of an item. -/
def Made (insert : X → Option (Tables → Tables)) (items : List X) (i : ℕ) : Prop :=
  ∀ x, items[i]? = some x → insert x ≠ none

/-- The item at which the loop over the items stops. -/
def StopsAt (insert : X → Option (Tables → Tables)) (engine : Engine) (items : List X) (k : ℕ) : Prop :=
  k < items.length ∧ (∀ i < k, Made insert items i ∧ engine.steps i = .done) ∧
    ¬ (Made insert items k ∧ engine.steps k = .done)

def EachRow (insert : X → Option (Tables → Tables)) (engine : Engine) (items : List X) : Prop :=
  ∀ i < items.length, Made insert items i ∧ engine.steps i = .done

/-- The transaction goes through. -/
def GoesThrough (insert : X → Option (Tables → Tables)) (engine : Engine) (c : Connection Tables) (items : List X) :
    Prop :=
  engine.prepared = true ∧ InTransaction engine c ∧ EachRow insert engine items ∧ engine.commit = .done

/-- The write fails without leaving a row: its statement is not prepared, its first item already stops it, or inside
a transaction a step fails or `COMMIT` rolls back. -/
def LeavesNothing (insert : X → Option (Tables → Tables)) (engine : Engine) (c : Connection Tables) (items : List X) :
    Prop :=
  engine.prepared = true → StopsAt insert engine items 0 ∨
    (InTransaction engine c ∧ ((∃ k, StopsAt insert engine items k ∧ Made insert items k) ∨
      (EachRow insert engine items ∧ engine.commit = .rolledBack)))

/-- No row of the write is stored: nothing is committed, and the connection sees what it saw before or has rolled its
transaction back. -/
def NothingStored (before after : Connection Tables) : Prop :=
  after.committed = before.committed ∧ (after.working = none ∨ visible after = visible before)

theorem StopsAt.unique {k l : ℕ} (first : StopsAt insert engine items k) (second : StopsAt insert engine items l) :
    k = l := by
  rcases Nat.lt_trichotomy k l with before | same | after
  · exact absurd (second.2.1 k before) first.2.2
  · exact same
  · exact absurd (first.2.1 l after) second.2.2

theorem StopsAt.not_each {k : ℕ} (stops : StopsAt insert engine items k) : ¬ EachRow insert engine items :=
  fun each => stops.2.2 (each k stops.1)

/-- How the loop ends, with what it leaves. -/
theorem insertEach_ends (insert : X → Option (Tables → Tables)) (engine : Engine) (items : List X)
    (c : Connection Tables) :
    (EachRow insert engine items ∧ ∃ changes, items.mapM insert = some changes ∧
        insertEach insert engine.steps 0 items c = (c.stepEach changes, .finished)) ∨
      ∃ (k : ℕ) (done : List X) (changes : List (Tables → Tables)), StopsAt insert engine items k ∧ done.length = k ∧ done.mapM insert = some changes ∧
        ((Made insert items k ∧ ∃ change, engine.steps k ≠ .done ∧
            insertEach insert engine.steps 0 items c = ((c.stepEach changes).step change (engine.steps k), .failed)) ∨
          (¬ Made insert items k ∧
            insertEach insert engine.steps 0 items c = (c.stepEach changes, .threw))) := by
  have before {done rest : List X} {x : X} {changes : List (Tables → Tables)} (made : done.mapM insert = some changes)
      (i : ℕ) (small : i < done.length) : Made insert (done ++ x :: rest) i := by
    intro y here
    rw [List.getElem?_append_left small] at here
    exact not_throws made here
  have middle (done rest : List X) (x : X) : (done ++ x :: rest)[done.length]? = some x := by
    rw [List.getElem?_append_right (Nat.le_refl _), Nat.sub_self]
    rfl
  rcases insertEach_cases insert engine.steps 0 items c with ⟨changes, made, later, ends⟩ |
    ⟨done, x, rest, changes, change, rfl, made, last, later, fails, ends⟩ |
    ⟨done, x, rest, changes, rfl, made, throws, later, ends⟩
  · simp only [Nat.zero_add] at later
    exact Or.inl ⟨fun i small => ⟨fun x here => not_throws made here, later i small⟩, changes, made, ends⟩
  · simp only [Nat.zero_add] at later fails ends
    have stops : StopsAt insert engine (done ++ x :: rest) done.length :=
      ⟨by simp, fun i small => ⟨before made i small, later i small⟩, fun both => fails both.2⟩
    refine Or.inr ⟨done.length, done, changes, stops, rfl, made, Or.inl ⟨fun y here => ?_, change, fails, ends⟩⟩
    rw [middle] at here
    cases here
    rw [last]
    exact Option.some_ne_none change
  · simp only [Nat.zero_add] at later
    have unmade : ¬ Made insert (done ++ x :: rest) done.length := fun made => made x (middle done rest x) throws
    have stops : StopsAt insert engine (done ++ x :: rest) done.length :=
      ⟨by simp, fun i small => ⟨before made i small, later i small⟩, fun both => unmade both.1⟩
    exact Or.inr ⟨done.length, done, changes, stops, rfl, made, Or.inr ⟨unmade, ends⟩⟩

/-- An exception, or a status other than `Ok`. -/
def Unsuccessful (status : Option Status) : Prop := ∀ s, status = some s → s.ok = false

theorem unsuccessful_error (message : String) : Unsuccessful (some (.Error .kInternal message)) := by
  intro s same
  cases same
  rfl

theorem unsuccessful_threw : Unsuccessful none := nofun

theorem Unsuccessful.ne_ok {status : Option Status} (failed : Unsuccessful status) : status ≠ some .Ok := by
  rintro rfl
  exact absurd (failed .Ok rfl) (by decide)

/-- What one call of the backend comes to: it goes through and stores every row, or it fails, and leaves nothing exactly
under the condition above. -/
def Outcome (context : String) (insert : X → Option (Tables → Tables)) (engine : Engine) (c : Connection Tables)
    (items : List X) : Prop :=
  (GoesThrough insert engine c items ∧ ∃ changes, items.mapM insert = some changes ∧
      writeBatch context insert engine (some c) items =
        (some ⟨applyEach changes (visible c), none, c.statements⟩, some .Ok)) ∨
    (¬ GoesThrough insert engine c items ∧
      ∃ after status, writeBatch context insert engine (some c) items = (some after, status) ∧ Unsuccessful status ∧
        (NothingStored c after ↔ LeavesNothing insert engine c items))

section Outcomes

variable {c : Connection Tables}

/-- More rows are not the same tables. -/
theorem applyEach_ne (adds : AddsOne insert) {done : List X} {changes : List (Tables → Tables)}
    (made : done.mapM insert = some changes) (nonempty : done ≠ []) (t : Tables) : applyEach changes t ≠ t := by
  intro same
  have rows := rows_applyEach adds made t
  rw [same] at rows
  exact nonempty (List.eq_nil_of_length_eq_zero (by omega))

theorem unprepared_outcome (context : String) (unprepared : engine.prepared = false) (some_ : items ≠ []) :
    Outcome context insert engine c items := by
  refine Or.inr ⟨fun through => absurd (unprepared.symm.trans through.1) (by decide),
    ((c.start engine.refused).prepare false).rollback, some (.Error .kInternal ("SQLite prepare failed: " ++ context)),
    ?_, unsuccessful_error _, ?_⟩
  · rw [writeBatch, if_neg (by simpa using some_), unprepared]
    rfl
  · refine iff_of_true ⟨?_, Or.inl rfl⟩ fun accepted => absurd (unprepared.symm.trans accepted) (by decide)
    unfold Connection.start
    cases c.working with
    | some version => rfl
    | none => cases engine.refused <;> rfl

theorem start_inside (prepared : engine.prepared = true) (inside : InTransaction engine c) :
    (c.start engine.refused).prepare engine.prepared = ⟨c.committed, some (visible c), c.statements + 1⟩ := by
  obtain ⟨committed, working, statements⟩ := c
  rw [prepared]
  cases working with
  | some version => rfl
  | none =>
    have opens : engine.refused = false := inside.resolve_left (by simp)
    rw [opens]
    rfl

theorem inside_outcome (adds : AddsOne insert) (context : String) (prepared : engine.prepared = true)
    (inside : InTransaction engine c) (some_ : items ≠ []) : Outcome context insert engine c items := by
  have begins := start_inside prepared inside
  rcases insertEach_ends insert engine items ⟨c.committed, some (visible c), c.statements + 1⟩ with
    ⟨each, changes, made, ends⟩ | ⟨k, done, changes, stops, length, made, (⟨row, change, fails, ends⟩ | ⟨unmade, ends⟩)⟩
  · have written := writeBatch_finished context prepared some_ begins ends
    rw [Connection.stepEach_working rfl] at written
    cases commits : engine.commit with
    | done =>
      rw [commits] at written
      exact Or.inl ⟨⟨prepared, inside, each, commits⟩, changes, made, written⟩
    | failed =>
      rw [commits] at written
      refine Or.inr ⟨fun through => absurd (commits.symm.trans through.2.2.2) (by decide), _, _, written,
        unsuccessful_error _, iff_of_false ?_ ?_⟩
      · rintro ⟨-, rolled | same⟩
        · cases rolled
        · exact applyEach_ne adds made some_ (visible c) same
      · intro leaves
        rcases leaves prepared with stops | ⟨-, ⟨k, stops, -⟩ | ⟨-, rolled⟩⟩
        · exact stops.not_each each
        · exact stops.not_each each
        · exact absurd (commits.symm.trans rolled) (by decide)
    | rolledBack =>
      rw [commits] at written
      exact Or.inr ⟨fun through => absurd (commits.symm.trans through.2.2.2) (by decide), _, _, written,
        unsuccessful_error _,
        iff_of_true ⟨rfl, Or.inl rfl⟩ fun _ => Or.inr ⟨inside, Or.inr ⟨each, commits⟩⟩⟩
  · have written := writeBatch_failed context prepared some_ begins ends
    rw [Connection.stepEach_working rfl] at written
    refine Or.inr ⟨fun through => stops.not_each through.2.2.1, _, _, written, unsuccessful_error _,
      iff_of_true ⟨?_, Or.inl rfl⟩ fun _ => Or.inr ⟨inside, Or.inl ⟨k, stops, row⟩⟩⟩
    cases outcome : engine.steps k with
    | done => exact absurd outcome fails
    | failed => rfl
    | rolledBack => rfl
  · have written := writeBatch_threw context prepared some_ begins ends
    rw [Connection.stepEach_working rfl] at written
    refine Or.inr ⟨fun through => stops.not_each through.2.2.1, _, _, written, unsuccessful_threw, ?_⟩
    have only : NothingStored c ⟨c.committed, some (applyEach changes (visible c)), c.statements + 1⟩ ↔ k = 0 := by
      constructor
      · rintro ⟨-, rolled | same⟩
        · cases rolled
        · by_contra positive
          have nonempty : done ≠ [] := by
            rintro rfl
            exact positive length.symm
          exact applyEach_ne adds made nonempty (visible c) same
      · rintro rfl
        rw [List.eq_nil_of_length_eq_zero length] at made
        cases made
        exact ⟨rfl, Or.inr rfl⟩
    rw [only]
    constructor
    · rintro rfl _
      exact Or.inl stops
    · intro leaves
      rcases leaves prepared with first | ⟨-, ⟨l, fails, row⟩ | ⟨each, -⟩⟩
      · exact stops.unique first
      · rw [fails.unique stops] at row
        exact absurd row unmade
      · exact absurd each stops.not_each

theorem outside_outcome (adds : AddsOne insert) (context : String) (prepared : engine.prepared = true)
    (outside : ¬ InTransaction engine c) (some_ : items ≠ []) : Outcome context insert engine c items := by
  obtain ⟨committed, working, statements⟩ := c
  obtain ⟨closed, refused⟩ := not_or.mp outside
  cases working with
  | some version => exact absurd rfl closed
  | none =>
    have begins : ((⟨committed, none, statements⟩ : Connection Tables).start engine.refused).prepare engine.prepared =
        ⟨committed, none, statements + 1⟩ := by
      rw [prepared, Bool.eq_true_of_not_eq_false refused]
      rfl
    have only {k : ℕ} {done : List X} {changes : List (Tables → Tables)} (stops : StopsAt insert engine items k)
        (length : done.length = k) (made : done.mapM insert = some changes) (after : Connection Tables)
        (stored : after.committed = applyEach changes committed) (ended : after.working = none) :
        NothingStored ⟨committed, none, statements⟩ after ↔ LeavesNothing insert engine ⟨committed, none, statements⟩ items := by
      have first : NothingStored ⟨committed, none, statements⟩ after ↔ k = 0 := by
        constructor
        · rintro ⟨same, -⟩
          by_contra positive
          have nonempty : done ≠ [] := by
            rintro rfl
            exact positive length.symm
          exact applyEach_ne adds made nonempty committed (stored.symm.trans same)
        · rintro rfl
          rw [List.eq_nil_of_length_eq_zero length] at made
          cases made
          exact ⟨stored, Or.inl ended⟩
      rw [first]
      constructor
      · rintro rfl _
        exact Or.inl stops
      · intro leaves
        exact stops.unique ((leaves prepared).resolve_right fun both => outside both.1)
    rcases insertEach_ends insert engine items ⟨committed, none, statements + 1⟩ with
      ⟨each, changes, made, ends⟩ | ⟨k, done, changes, stops, length, made, (⟨row, change, fails, ends⟩ | ⟨unmade, ends⟩)⟩
    · have written := writeBatch_finished context prepared some_ begins ends
      rw [Connection.stepEach_autocommit rfl] at written
      refine Or.inr ⟨fun through => outside through.2.1, _, _, written,
        unsuccessful_error _, iff_of_false ?_ ?_⟩
      · rintro ⟨same, -⟩
        exact applyEach_ne adds made some_ committed same
      · intro leaves
        exact ((leaves prepared).resolve_right fun both => outside both.1).not_each each
    · have written := writeBatch_failed context prepared some_ begins ends
      rw [Connection.stepEach_autocommit rfl] at written
      refine Or.inr ⟨fun through => outside through.2.1, _, _, written, unsuccessful_error _,
        only stops length made _ ?_ rfl⟩
      cases outcome : engine.steps k with
      | done => exact absurd outcome fails
      | failed => rfl
      | rolledBack => rfl
    · have written := writeBatch_threw context prepared some_ begins ends
      rw [Connection.stepEach_autocommit rfl] at written
      exact Or.inr ⟨fun through => outside through.2.1, _, _, written, unsuccessful_threw, only stops length made _ rfl rfl⟩

theorem writeBatch_outcome (adds : AddsOne insert) (context : String) (engine : Engine) (c : Connection Tables)
    (some_ : items ≠ []) : Outcome context insert engine c items := by
  cases prepared : engine.prepared with
  | false => exact unprepared_outcome context prepared some_
  | true =>
    by_cases inside : InTransaction engine c
    · exact inside_outcome adds context prepared inside some_
    · exact outside_outcome adds context prepared inside some_

end Outcomes

/-! ## Transactions that earlier writes left open -/

/-- A transaction that is open has not deleted rows. -/
def Ahead (c : Connection Tables) : Prop := ∀ version ∈ c.working, Tables.rows c.committed ≤ Tables.rows version

/-- What a step of a write keeps, and that it uncommits nothing. -/
def Grows (before after : Connection Tables) : Prop :=
  Ahead after ∧ Tables.rows before.committed ≤ Tables.rows after.committed

section Ahead

variable {c after : Connection Tables}

theorem Grows.trans {first second third : Connection Tables} (left : Grows first second) (right : Grows second third) :
    Grows first third := ⟨right.1, left.2.trans right.2⟩

theorem Ahead.visible_rows (ahead : Ahead c) : Tables.rows c.committed ≤ Tables.rows (visible c) := by
  obtain ⟨committed, working, statements⟩ := c
  cases working with
  | none => exact Nat.le_refl _
  | some version => exact ahead version rfl

theorem ahead_of_closed (closed : c.working = none) : Ahead c := by
  intro version inside
  rw [closed] at inside
  cases inside

theorem start_grows (ahead : Ahead c) (refused : Bool) : Grows c (c.start refused) := by
  obtain ⟨committed, working, statements⟩ := c
  cases working with
  | some version => exact ⟨ahead, Nat.le_refl _⟩
  | none =>
    cases refused with
    | true => exact ⟨ahead, Nat.le_refl _⟩
    | false =>
      refine ⟨fun version inside => ?_, Nat.le_refl _⟩
      cases inside
      exact Nat.le_refl _

theorem prepare_grows (ahead : Ahead c) (accepted : Bool) : Grows c (c.prepare accepted) := by
  cases accepted <;> exact ⟨ahead, Nat.le_refl _⟩

theorem rollback_grows (c : Connection Tables) : Grows c c.rollback := ⟨ahead_of_closed rfl, Nat.le_refl _⟩

theorem commit_grows (ahead : Ahead c) (outcome : Transactions.Outcome) : Grows c (c.commit outcome).1 := by
  obtain ⟨committed, working, statements⟩ := c
  cases working with
  | none => exact ⟨ahead, Nat.le_refl _⟩
  | some version =>
    cases outcome with
    | done => exact ⟨ahead_of_closed rfl, ahead version rfl⟩
    | failed => exact ⟨ahead, Nat.le_refl _⟩
    | rolledBack => exact rollback_grows _

theorem step_grows (ahead : Ahead c) {change : Tables → Tables} (one : ∀ t, Tables.rows (change t) = Tables.rows t + 1)
    (outcome : Transactions.Outcome) : Grows c (c.step change outcome) := by
  obtain ⟨committed, working, statements⟩ := c
  cases outcome with
  | failed => exact ⟨ahead, Nat.le_refl _⟩
  | rolledBack => exact ⟨ahead_of_closed rfl, Nat.le_refl _⟩
  | done =>
    cases working with
    | none =>
      have grown : Tables.rows committed ≤ Tables.rows (change committed) := by
        rw [one]
        exact Nat.le_succ _
      exact ⟨ahead_of_closed rfl, grown⟩
    | some version =>
      refine ⟨fun next inside => ?_, Nat.le_refl _⟩
      cases inside
      have before := ahead version rfl
      rw [one]
      exact Nat.le_succ_of_le before

theorem insertEach_grows (adds : AddsOne insert) (steps : ℕ → Transactions.Outcome) (i : ℕ) (items : List X)
    (ahead : Ahead c) : Grows c (insertEach insert steps i items c).1 := by
  induction items generalizing i c with
  | nil => exact ⟨ahead, Nat.le_refl _⟩
  | cons x rest ih =>
    rw [insertEach]
    cases made : insert x with
    | none => exact ⟨ahead, Nat.le_refl _⟩
    | some change =>
      have one := step_grows ahead (adds x change made) (steps i)
      cases outcome : steps i with
      | done =>
        rw [outcome] at one
        exact one.trans (ih (i + 1) one.1)
      | failed =>
        rw [outcome] at one
        exact one
      | rolledBack =>
        rw [outcome] at one
        exact one

theorem writeBatch_grows (adds : AddsOne insert) (context : String) (engine : Engine) (items : List X) (ahead : Ahead c)
    (left : (writeBatch context insert engine (some c) items).1 = some after) : Grows c after := by
  by_cases nothing : items = []
  · rw [writeBatch, if_pos (by simpa using nothing)] at left
    cases left
    exact ⟨ahead, Nat.le_refl _⟩
  · have started := start_grows ahead engine.refused
    have begun := started.trans (prepare_grows started.1 engine.prepared)
    cases prepared : engine.prepared with
    | false =>
      rw [prepared] at begun
      rw [writeBatch, if_neg (by simpa using nothing), prepared] at left
      cases left
      exact begun.trans (rollback_grows _)
    | true =>
      have looped := begun.trans (insertEach_grows adds engine.steps 0 items begun.1)
      cases ends : insertEach insert engine.steps 0 items ((c.start engine.refused).prepare engine.prepared) with
      | mk last ended =>
        rw [ends] at looped
        cases ended with
        | threw =>
          rw [writeBatch_threw context prepared nothing rfl ends] at left
          cases left
          exact looped
        | failed =>
          rw [writeBatch_failed context prepared nothing rfl ends] at left
          cases left
          exact looped.trans (rollback_grows _)
        | finished =>
          rw [writeBatch_finished context prepared nothing rfl ends] at left
          cases left
          exact looped.trans (commit_grows (c := last.finalize) looped.1 engine.commit)

end Ahead

/-- The condition on open transactions holds again after every write. -/
theorem Write_ahead (json : Json.Library D) (recordsEngine samplesEngine : Engine) (pipeline_name_ : Bytes)
    (batch : Option (DataBatch D)) {backend_ : Option (Option (Connection Tables))}
    (ahead : ∀ c, backend_ = some (some c) → Ahead c) :
    ∀ c, (Write json recordsEngine samplesEngine backend_ pipeline_name_ batch).1 = some (some c) → Ahead c := by
  have call {Y : Type} {insertY : Y → Option (Tables → Tables)} (adds : AddsOne insertY) (context : String)
      (engine : Engine) (items : List Y) (db_ : Option (Connection Tables)) (before : ∀ c, db_ = some c → Ahead c)
      (c : Connection Tables) (left : (writeBatch context insertY engine db_ items).1 = some c) : Ahead c := by
    cases db_ with
    | none => cases left
    | some first => exact (writeBatch_grows adds context engine items (before first rfl) left).1
  have proceeds (written : Option (Connection Tables) × Option Status)
      (next : Option (Connection Tables) → Option (Connection Tables) × Option Status)
      (before : ∀ c, written.1 = some c → Ahead c)
      (then_ : ∀ db_, (∀ c, db_ = some c → Ahead c) → ∀ c, (next db_).1 = some c → Ahead c) :
      ∀ c, (proceed written next).1 = some c → Ahead c := by
    obtain ⟨db_, status⟩ := written
    cases status with
    | none => exact before
    | some s =>
      unfold proceed
      by_cases good : s.ok = true
      · simp only [if_pos good]
        exact then_ db_ before
      · simp only [if_neg good]
        exact before
  intro c left
  rcases backend_ with _ | db_
  · cases left
  · cases batch with
    | none => exact ahead c left
    | some batch =>
      refine proceeds _ _ ?_ ?_ c (Option.some.inj left)
      · intro first here
        split_ifs at here with empty
        · exact ahead first (congrArg some here)
        · exact call (insertRecord_addsOne json pipeline_name_) _ _ _ db_ (fun c same => ahead c (congrArg some same)) first here
      · intro middle before
        refine proceeds _ _ ?_ fun last kept => kept
        intro first here
        split_ifs at here with empty
        · exact before first here
        · exact call (insertStackSample_addsOne (D := D) json pipeline_name_) _ _ _ middle before first here

/-! ## The whole batch -/

/-- The whole batch is stored when `Write` returns `Ok`, and nothing of it otherwise. -/
def Whole (json : Json.Library D) (pipeline_name_ : Bytes) (batch : DataBatch D)
    (before : Option (Option (Connection Tables))) (result : Option (Option (Connection Tables)) × Option Status) :
    Prop :=
  (result.2 = some .Ok → ∃ c after records samples, before = some (some c) ∧ result.1 = some (some after) ∧
      batch.records.mapM (insertRecord json pipeline_name_) = some records ∧
      batch.stack_samples.mapM (insertStackSample json pipeline_name_) = some samples ∧
      after.committed = applyEach samples (applyEach records (visible c)) ∧ after.working = none) ∧
    (result.2 ≠ some .Ok → ∃ c after, before = some (some c) ∧ result.1 = some (some after) ∧ NothingStored c after)

/-- The records go through and the stack samples do, or the records leave nothing. -/
def BothOrNothing (json : Json.Library D) (recordsEngine samplesEngine : Engine) (pipeline_name_ : Bytes)
    (batch : DataBatch D) (c : Connection Tables) : Prop :=
  LeavesNothing (insertRecord json pipeline_name_) recordsEngine c batch.records ∨
    (GoesThrough (insertRecord json pipeline_name_) recordsEngine c batch.records ∧
      GoesThrough (insertStackSample (D := D) json pipeline_name_) samplesEngine { c with working := none }
        batch.stack_samples)

theorem GoesThrough.leaves {c : Connection Tables} (through : GoesThrough insert engine c items) :
    ¬ LeavesNothing insert engine c items := by
  obtain ⟨prepared, inside, each, commits⟩ := through
  intro leaves
  rcases leaves prepared with stops | ⟨-, ⟨k, stops, -⟩ | ⟨-, rolled⟩⟩
  · exact stops.not_each each
  · exact stops.not_each each
  · exact absurd (commits.symm.trans rolled) (by decide)

section Calls

variable {json : Json.Library D} {recordsEngine samplesEngine : Engine} {c after : Connection Tables}
  {pipeline_name_ : Bytes} {batch : DataBatch D} {status : Option Status}

/-- A call for the records that does not return `Ok` ends the write. -/
theorem Write_failed (records : batch.records ≠ []) (failed : Unsuccessful status)
    (written : WriteRecords json recordsEngine (some c) pipeline_name_ batch.records = (some after, status)) :
    Write json recordsEngine samplesEngine (some (some c)) pipeline_name_ (some batch) = (some (some after), status) := by
  have present : ¬ batch.records.isEmpty = true := by simpa using records
  rw [Write]
  simp only [if_neg present, written, proceed]
  cases status with
  | none => rfl
  | some s =>
    simp only [failed s rfl, Bool.false_eq_true, if_false]

theorem Write_continued (records : batch.records ≠ []) (samples : batch.stack_samples ≠ []) {middle : Connection Tables}
    (written : WriteRecords json recordsEngine (some c) pipeline_name_ batch.records = (some middle, some .Ok))
    (next : WriteStackSamples (D := D) json samplesEngine (some middle) pipeline_name_ batch.stack_samples =
      (some after, status)) (ends : status = some .Ok ∨ Unsuccessful status) :
    Write json recordsEngine samplesEngine (some (some c)) pipeline_name_ (some batch) = (some (some after), status) := by
  have present : ¬ batch.records.isEmpty = true := by simpa using records
  have more : ¬ batch.stack_samples.isEmpty = true := by simpa using samples
  have good : Status.Ok.ok = true := rfl
  rw [Write]
  simp only [if_neg present, if_neg more, written, next, proceed, good, if_true]
  rcases ends with rfl | failed
  · rfl
  · cases status with
    | none => rfl
    | some s => simp only [failed s rfl, Bool.false_eq_true, if_false]

end Calls

theorem not_whole_closed (json : Json.Library D) (recordsEngine samplesEngine : Engine) (pipeline_name_ : Bytes)
    {batch : DataBatch D} {backend_ : Option (Option (Connection Tables))} (closed : ∀ c, backend_ ≠ some (some c)) :
    ¬ Whole json pipeline_name_ batch backend_
      (Write json recordsEngine samplesEngine backend_ pipeline_name_ (some batch)) := by
  rintro ⟨stored, failed⟩
  by_cases ok : (Write json recordsEngine samplesEngine backend_ pipeline_name_ (some batch)).2 = some .Ok
  · obtain ⟨c, _, _, _, same, -⟩ := stored ok
    exact closed c same
  · obtain ⟨c, _, same, -⟩ := failed ok
    exact closed c same

/-- A batch with records and samples is stored whole or not at all exactly when the sink has an open database and both
halves go through or the records leave nothing. A transaction that an earlier write left open is covered. -/
theorem Write_whole_iff (json : Json.Library D) (recordsEngine samplesEngine : Engine) (pipeline_name_ : Bytes)
    (batch : DataBatch D) (backend_ : Option (Option (Connection Tables))) (records : batch.records ≠ [])
    (samples : batch.stack_samples ≠ []) (ahead : ∀ c, backend_ = some (some c) → Ahead c) :
    Whole json pipeline_name_ batch backend_
        (Write json recordsEngine samplesEngine backend_ pipeline_name_ (some batch)) ↔
      ∃ c, backend_ = some (some c) ∧ BothOrNothing json recordsEngine samplesEngine pipeline_name_ batch c := by
  by_cases opened : ∃ c, backend_ = some (some c)
  · obtain ⟨c, rfl⟩ := opened
    have only : (∃ other, some (some c) = some (some other) ∧
        BothOrNothing json recordsEngine samplesEngine pipeline_name_ batch other) ↔
          BothOrNothing json recordsEngine samplesEngine pipeline_name_ batch c := by
      constructor
      · rintro ⟨other, same, both⟩
        cases same
        exact both
      · exact fun both => ⟨c, rfl, both⟩
    rw [only]
    have recordsAdd := insertRecord_addsOne json pipeline_name_
    have samplesAdd := insertStackSample_addsOne (D := D) json pipeline_name_
    rcases writeBatch_outcome recordsAdd "WriteRecords" recordsEngine c records with
      ⟨through, changes, made, written⟩ | ⟨stopped, after, status, written, failed, left⟩
    · rcases writeBatch_outcome samplesAdd "WriteStackSamples" samplesEngine
          ⟨applyEach changes (visible c), none, c.statements⟩ samples with
        ⟨second, more, others, next⟩ | ⟨stopped, after, status, next, failed, -⟩
      · have whole := Write_continued records samples written next (Or.inl rfl)
        rw [whole]
        refine iff_of_true ⟨fun _ => ⟨c, _, changes, more, rfl, rfl, made, others, rfl, rfl⟩, fun other => absurd rfl other⟩
          (Or.inr ⟨through, second⟩)
      · have whole := Write_continued records samples written next (Or.inr failed)
        rw [whole]
        apply iff_of_false
        · rintro ⟨-, nothing⟩
          obtain ⟨_, _, same, kept, stored, -⟩ := nothing failed.ne_ok
          cases same
          cases kept
          have grown := (writeBatch_grows samplesAdd "WriteStackSamples" samplesEngine batch.stack_samples
            (c := ⟨applyEach changes (visible c), none, c.statements⟩) (ahead_of_closed rfl)
            (congrArg Prod.fst next)).2
          have more := rows_applyEach recordsAdd made (visible c)
          have before := (ahead c rfl).visible_rows
          have positive := List.length_pos_iff.mpr records
          rw [stored] at grown
          change Tables.rows (applyEach changes (visible c)) ≤ _ at grown
          omega
        · rintro (leaves | ⟨-, second⟩)
          · exact through.leaves leaves
          · exact stopped second
    · have ended : Write json recordsEngine samplesEngine (some (some c)) pipeline_name_ (some batch) =
          (some (some after), status) := Write_failed records failed written
      rw [ended]
      constructor
      · rintro ⟨-, nothing⟩
        obtain ⟨_, _, same, kept, stored⟩ := nothing failed.ne_ok
        cases same
        cases kept
        exact Or.inl (left.mp stored)
      · rintro (leaves | ⟨through, -⟩)
        · exact ⟨fun ok => absurd ok failed.ne_ok, fun _ => ⟨c, after, rfl, rfl, left.mpr leaves⟩⟩
        · exact absurd through stopped
  · refine iff_of_false (not_whole_closed json recordsEngine samplesEngine pipeline_name_ (not_exists.mp opened)) ?_
    rintro ⟨c, same, -⟩
    exact opened ⟨c, same⟩

/-- `dump` for the objects that `smallJson` dumps and the empty array. -/
def sinkJson : Json.Library ℕ where
  dump value := if value = .array [] then some [0x5B, 0x5D] else smallJson.dump value
  parse _ := none

/-- One record and one stack sample. -/
def oneOfEach : DataBatch ℕ where
  type := .kGeneric
  records := [labelled [0x76]]
  stack_samples := [{ timestamp := 0 }]

/-- The statement for the samples is not prepared. -/
def unprepared : Engine := ⟨false, false, fun _ => .done, .done⟩

/-- When the samples fail the record is stored, and a second write that succeeds stores it again. -/
theorem Write_half :
    (¬ Whole sinkJson [] oneOfEach (some (some emptyTables))
      (Write sinkJson (working .done) unprepared (some (some emptyTables)) [] (some oneOfEach))) ∧
    ∃ row sample,
      (Write sinkJson (working .done) unprepared (some (some emptyTables)) [] (some oneOfEach)).1 =
          some (some ⟨⟨[row], []⟩, none, 0⟩) ∧
        (Write sinkJson (working .done) (working .done)
            (Write sinkJson (working .done) unprepared (some (some emptyTables)) [] (some oneOfEach)).1 []
            (some oneOfEach)) =
          (some (some ⟨⟨[row, row], [sample]⟩, none, 0⟩), some .Ok) := by
  have first : Write sinkJson (working .done) unprepared (some (some emptyTables)) [] (some oneOfEach) =
      (some (some ⟨⟨[⟨[], 0, [0x7B, 0x22, 0x6B, 0x22, 0x3A, 0x22, 0x76, 0x22, 0x7D], [0x7B, 0x7D]⟩], []⟩, none, 0⟩),
        some (.Error .kInternal ("SQLite prepare failed: " ++ "WriteStackSamples"))) := by rfl
  rw [first]
  refine ⟨?_, ⟨[], 0, [0x7B, 0x22, 0x6B, 0x22, 0x3A, 0x22, 0x76, 0x22, 0x7D], [0x7B, 0x7D]⟩,
    ⟨[], 0, 0, 0, [], [0x5B, 0x5D], 1⟩, rfl, by rfl⟩
  rintro ⟨-, nothing⟩
  obtain ⟨_, _, same, kept, stored, -⟩ := nothing (unsuccessful_error _).ne_ok
  cases same
  cases kept
  exact absurd (congrArg Tables.rows stored) (by decide)

theorem Write_whole_iff_oneOfEach :
    Whole sinkJson [] oneOfEach (some (some emptyTables))
        (Write sinkJson (working .done) (working .done) (some (some emptyTables)) [] (some oneOfEach)) ↔
      ∃ c, some (some emptyTables) = some (some c) ∧ BothOrNothing sinkJson (working .done) (working .done) [] oneOfEach c := by
  refine Write_whole_iff sinkJson (working .done) (working .done) [] oneOfEach (some (some emptyTables)) (by simp [oneOfEach])
    (by simp [oneOfEach]) ?_
  rintro c same
  cases same
  exact ahead_of_closed rfl

end LocalStorageSink

end Illuminator
