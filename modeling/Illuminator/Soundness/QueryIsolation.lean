import Illuminator.Machine.Components
import Illuminator.Model.SqliteThreads
import Illuminator.Soundness.SqliteAtomicity
import Mathlib.Data.List.Sort

/-! # What queries see of writes

A reader's statement is stepped on the connection that a writer has its transaction open on. A query that
is kept apart from the writes, and whose steps do not fail, answers from the initial contents with some of
the committed batches inserted, each of them whole. The log of committed batches is the abstract state:
the committed contents are the initial ones with the log applied.
-/

namespace Illuminator

open Transactions Interleaving

namespace SqliteBackend

variable {D O J τ : Type} [DecidableEq τ]

/-- The moves of a thread. -/
inductive Move (sqlite : Sqlite O J) (b : Backend) : Pc O J → Backend → Pc O J → Event J → Prop
  | passes (status : Option Status) : Move sqlite b .idle b .idle (.wrote status)
  | refuses (request : Request) (status : Status) : Move sqlite b .idle b .idle (.answered request (.error status))
  | enters (w : Write) : Move sqlite b .idle b (.locking w) .local
  | opens (request : Request) (reading : Reading O J) : Move sqlite b .idle b (.opening request reading) .local
  | locks (w : Write) (free : b.write_mutex_ = false) :
      Move sqlite b (.locking w) { b with write_mutex_ := true } (.beginning w) .local
  | begins (w : Write) : Move sqlite b (.beginning w) (b.put (b.db_.start w.engine.refused)) (.preparing w) .local
  | prepares (w : Write) : Move sqlite b (.preparing w) (b.put (b.db_.prepare true)) (.inserting w 0 w.items) .local
  | unprepared (w : Write) (what : String) : Move sqlite b (.preparing w) b (.rollingBack w what) .local
  | inserts (w : Write) (i : ℕ) (change : Tables → Tables) (rest : List (Option (Tables → Tables))) :
      Move sqlite b (.inserting w i (some change :: rest)) (b.put (b.db_.step change .done)) (.inserting w (i + 1) rest)
        .local
  | stops (w : Write) (i : ℕ) (change : Tables → Tables) (rest : List (Option (Tables → Tables))) (outcome : Outcome) :
      Move sqlite b (.inserting w i (some change :: rest)) (b.put (b.db_.step change outcome)) (.finalizing w) .local
  | finishes (w : Write) (i : ℕ) : Move sqlite b (.inserting w i []) (b.put b.db_.finalize) (.committing w) .local
  | throws (w : Write) (i : ℕ) (rest : List (Option (Tables → Tables))) :
      Move sqlite b (.inserting w i (none :: rest)) { b with write_mutex_ := false } .idle (.wrote none)
  | finalizes (w : Write) (what : String) :
      Move sqlite b (.finalizing w) (b.put b.db_.finalize) (.rollingBack w what) .local
  | rollsBack (w : Write) (what : String) (status : Option Status) :
      Move sqlite b (.rollingBack w what) (b.put b.db_.rollback) (.unlocking status) .local
  | commits (w : Write) (next : Connection Tables) (done : b.db_.commit w.engine.commit = (next, true)) :
      Move sqlite b (.committing w) (b.put next) (.unlocking (some .Ok)) (.committed w.changes)
  | misses (w : Write) (next : Connection Tables) (status : Option Status)
      (failed : b.db_.commit w.engine.commit = (next, false)) :
      Move sqlite b (.committing w) (b.put next) (.unlocking status) .local
  | unlocks (status : Option Status) :
      Move sqlite b (.unlocking status) { b with write_mutex_ := false } .idle (.wrote status)
  | prepared (request : Request) (reading : Reading O J) :
      Move sqlite b (.opening request reading) (b.put (b.db_.prepare true)) (.stepping request reading none []) .local
  | rejects (request : Request) (reading : Reading O J) (status : Status) :
      Move sqlite b (.opening request reading) (b.put (b.db_.prepare true)) (.closing request (.error status)) .local
  | fails (request : Request) (reading : Reading O J) (status : Status) :
      Move sqlite b (.opening request reading) b (.answering request (.error status)) .local
  | steps (request : Request) (reading : Reading O J) (since : Option (ℕ × List (RecordRow ⊕ J)))
      (fetched : List (RecordRow ⊕ J)) :
      Move sqlite b (.stepping request reading since fetched) b
        (step b request reading (since.getD (b.changes, answer sqlite reading.order (current b.db_) request)) fetched)
        .local
  | closes (request : Request) (result : Result J) :
      Move sqlite b (.closing request result) (b.put b.db_.finalize) (.answering request result) .local
  | answers (request : Request) (result : Result J) :
      Move sqlite b (.answering request result) b .idle (.answered request result)

theorem enter_move {sqlite : Sqlite O J} {b next : Backend} {w : Write} {after : Pc O J} {event : Event J}
    (enters : enter b w = (next, after, event)) : Move sqlite b .idle next after event := by
  unfold enter at enters
  split_ifs at enters
  · cases enters
    exact .passes _
  · cases enters
    exact .enters w

theorem writeAct_move {sqlite : Sqlite O J} {b next : Backend} {pc after : Pc O J} {event : Event J}
    (acts : writeAct b pc = some (next, after, event)) : Move sqlite b pc next after event := by
  cases pc with
  | locking w =>
    simp only [writeAct] at acts
    split_ifs at acts with busy
    cases acts
    exact .locks w (Bool.eq_false_iff.mpr busy)
  | beginning w =>
    cases acts
    exact .begins w
  | preparing w =>
    simp only [writeAct] at acts
    split_ifs at acts
    · cases acts
      exact .prepares w
    · cases acts
      exact .unprepared w _
  | inserting w i rest =>
    rcases rest with _ | ⟨_ | change, rest⟩
    · cases acts
      exact .finishes w i
    · cases acts
      exact .throws w i rest
    · simp only [writeAct] at acts
      split at acts
      · cases acts
        exact .inserts w i change rest
      · cases acts
        exact .stops w i change rest _
  | finalizing w =>
    cases acts
    exact .finalizes w _
  | rollingBack w what =>
    cases acts
    exact .rollsBack w what _
  | committing w =>
    simp only [writeAct] at acts
    split at acts
    · next next done =>
      cases acts
      exact .commits w next done
    · next next failed =>
      cases acts
      exact .misses w next _ failed
  | unlocking status =>
    cases acts
    exact .unlocks status
  | _ => cases acts

theorem readAct_move {sqlite : Sqlite O J} {b next : Backend} {pc after : Pc O J} {event : Event J}
    (acts : readAct sqlite b pc = some (next, after, event)) : Move sqlite b pc next after event := by
  cases pc with
  | opening request reading =>
    simp only [readAct] at acts
    split_ifs at acts
    · cases acts
      exact .rejects request reading _
    · cases acts
      exact .prepared request reading
    · cases acts
      exact .fails request reading _
  | stepping request reading since fetched =>
    cases acts
    exact .steps request reading since fetched
  | closing request result =>
    cases acts
    exact .closes request result
  | answering request result =>
    cases acts
    exact .answers request result
  | _ => cases acts

/-- Every enabled action is a move. -/
theorem act_move {json : Json.Library D} {sqlite : Sqlite O J} {b next : Backend} {pc after : Pc O J}
    {choice : Choice D O J} {event : Event J} (enabled : act json sqlite b pc choice = some (next, after, event)) :
    Move sqlite b pc next after event := by
  unfold act at enabled
  split at enabled
  · exact enter_move (Option.some.inj enabled)
  · exact enter_move (Option.some.inj enabled)
  · cases enabled
    exact .opens _ _
  · split_ifs at enabled
    · cases enabled
      exact .opens _ _
    · cases enabled
      exact .refuses _ _
  · cases enabled
  · cases writes : writeAct b pc with
    | some _ =>
      rw [writes] at enabled
      exact writeAct_move (writes.trans enabled)
    | none =>
      rw [writes] at enabled
      exact readAct_move enabled
  · cases enabled

/-! ## The mutex -/

/-- From the lock to the unlock. -/
def Pc.locked : Pc O J → Bool
  | .beginning _ | .preparing _ | .inserting _ _ _ | .finalizing _ | .rollingBack _ _ | .committing _ | .unlocking _ =>
    true
  | _ => false

/-- What a move does to the mutex. -/
inductive Guarded (b next : Backend) (pc after : Pc O J) : Prop where
  | still (mutex : next.write_mutex_ = b.write_mutex_) (locked : after.locked = pc.locked)
  | takes (free : b.write_mutex_ = false) (held : next.write_mutex_ = true)
  | gives (inside : pc.locked = true) (outside : after.locked = false)

theorem step_unlocked (b : Backend) (request : Request) (reading : Reading O J) (began : ℕ × List (RecordRow ⊕ J))
    (fetched : List (RecordRow ⊕ J)) : (step b request reading began fetched).locked = false := by
  unfold step
  repeat' split
  all_goals rfl

theorem Move.guarded {sqlite : Sqlite O J} {b next : Backend} {pc after : Pc O J} {event : Event J}
    (move : Move sqlite b pc next after event) : Guarded b next pc after := by
  cases move with
  | locks w free => exact .takes free rfl
  | throws => exact .gives rfl rfl
  | unlocks => exact .gives rfl rfl
  | steps => exact .still rfl (step_unlocked ..)
  | _ => exact .still rfl rfl

/-- The mutex is held by the one thread between its lock and its unlock. -/
structure Exclusion (s : State Backend (Pc O J) τ) : Prop where
  held : ∀ t, (s.pc t).locked = true → s.shared.write_mutex_ = true
  alone : ∀ t u, (s.pc t).locked = true → (s.pc u).locked = true → t = u

theorem Exclusion.move {s : State Backend (Pc O J) τ} (exclusion : Exclusion s) {thread : τ} {next : Backend}
    {after : Pc O J} (guarded : Guarded s.shared next (s.pc thread) after) : Exclusion (s.move thread next after) := by
  have kept (locked : after.locked = true → (s.pc thread).locked = true) (t : τ)
      (inside : ((s.move thread next after).pc t).locked = true) : (s.pc t).locked = true := by
    rw [State.move_pc] at inside
    split_ifs at inside with same
    · rw [same]
      exact locked inside
    · exact inside
  cases guarded with
  | still mutex locked =>
    have before := kept (by rw [locked]; exact id)
    exact ⟨fun t inside => mutex.trans (exclusion.held t (before t inside)),
      fun t u first second => exclusion.alone t u (before t first) (before u second)⟩
  | takes free held =>
    have nobody (t : τ) (inside : ((s.move thread next after).pc t).locked = true) : t = thread := by
      by_contra other
      rw [s.move_pc_of_ne next after other] at inside
      exact Bool.false_ne_true (free.symm.trans (exclusion.held t inside))
    exact ⟨fun _ _ => held, fun t u first second => (nobody t first).trans (nobody u second).symm⟩
  | gives inside outside =>
    have before := kept fun locked => absurd (outside.symm.trans locked) Bool.false_ne_true
    have nobody (t : τ) (locked : ((s.move thread next after).pc t).locked = true) : False := by
      have same := exclusion.alone t thread (before t locked) inside
      rw [same, State.move_pc_self, outside] at locked
      exact Bool.false_ne_true locked
    exact ⟨fun t locked => (nobody t locked).elim, fun t _ locked => (nobody t locked).elim⟩

/-! ## Whole batches -/

/-- The batch that an event commits. -/
def Event.batch? : Event J → Option (List (Tables → Tables))
  | .committed changes => some changes
  | _ => none

/-- The batches committed in a history, in order. -/
def batches (history : List (τ × Event J)) : List (List (Tables → Tables)) :=
  history.filterMap fun entry => entry.2.batch?

/-- The contents with a log of batches inserted. -/
def contents (t : Tables) (log : List (List (Tables → Tables))) : Tables := applyEach log.flatten t

/-- Rows that a request may return from given contents. -/
def Answers (sqlite : Sqlite O J) (t : Tables) : Request → List (RecordRow ⊕ J) → Prop
  | .Query req, rows => ∃ selected, rows = selected.map .inl ∧ Selects t req selected
  | .ExecuteRawQuery sql, rows => ∃ order, rows = ((sqlite.raw order sql t).take kRowLimit).map .inr

/-- Rows returned from contents with some first batches of a log, each of them whole. -/
def FromWhole (sqlite : Sqlite O J) (t : Tables) (log : List (List (Tables → Tables))) (request : Request)
    (rows : List (RecordRow ⊕ J)) : Prop :=
  ∃ n ≤ log.length, Answers sqlite (contents t (log.take n)) request rows

/-- Every result of a history is returned from whole committed batches. -/
def Isolated (sqlite : Sqlite O J) (t : Tables) (history : List (τ × Event J)) : Prop :=
  ∀ entry ∈ history, ∀ request rows, entry.2 = .answered request (.ok rows) →
    FromWhole sqlite t (batches history) request rows

omit [DecidableEq τ] in
theorem batches_append (first second : List (τ × Event J)) :
    batches (first ++ second) = batches first ++ batches second := List.filterMap_append

theorem FromWhole.append {sqlite : Sqlite O J} {t : Tables} {log : List (List (Tables → Tables))} {request : Request}
    {rows : List (RecordRow ⊕ J)} (whole : FromWhole sqlite t log request rows) (later : List (List (Tables → Tables))) :
    FromWhole sqlite t (log ++ later) request rows := by
  obtain ⟨n, bound, answers⟩ := whole
  refine ⟨n, by rw [List.length_append]; omega, ?_⟩
  rwa [List.take_append_of_le_length bound]

/-- What the loop keeps of an answer is one. -/
theorem answers_kept {sqlite : Sqlite O J} (documented : ∀ order req t, Selects t req (sqlite.select order req t))
    (order : O) (t : Tables) (request : Request) :
    Answers sqlite t request (kept (answer sqlite order t request) request) := by
  cases request with
  | Query req => exact ⟨_, rfl, documented order req t⟩
  | ExecuteRawQuery sql => exact ⟨order, List.map_take.symm⟩

/-! ## Where the threads stand -/

/-- A write with its transaction open has its rows so far in it. -/
def Pc.Writes (c : Connection Tables) : Pc O J → Prop
  | .preparing _ => c.working = some c.committed
  | .inserting w _ rest => ∃ done, w.items = done.map some ++ rest ∧ c.working = some (applyEach done c.committed)
  | .committing w => c.working = some (applyEach w.changes c.committed)
  | _ => True

/-- A statement that has been stepped and not finalized. -/
def Pc.fetching : Pc O J → Bool
  | .stepping _ _ (some _) _ => true
  | _ => false

/-- A statement being stepped has a first part of its answer from the committed contents, and a result is
from whole batches. -/
def Pc.Reads (sqlite : Sqlite O J) (t : Tables) (log : List (List (Tables → Tables))) (b : Backend) : Pc O J → Prop
  | .stepping _ _ none fetched => fetched = []
  | .stepping request reading (some (since, rest)) fetched =>
    since = b.changes ∧ b.db_.working = none ∧ fetched ++ rest = answer sqlite reading.order b.db_.committed request ∧
      kept fetched request = fetched
  | .closing request (.ok rows) | .answering request (.ok rows) => FromWhole sqlite t log request rows
  | _ => True

theorem Pc.writes_of_unlocked {pc : Pc O J} (unlocked : pc.locked = false) (c : Connection Tables) : pc.Writes c := by
  cases pc with
  | preparing | inserting | committing => cases unlocked
  | _ => trivial

theorem Pc.Reads.append {sqlite : Sqlite O J} {t : Tables} {log : List (List (Tables → Tables))} {b next : Backend}
    {pc : Pc O J} (reads : pc.Reads sqlite t log b) (idle : pc.fetching = false)
    (later : List (List (Tables → Tables))) : pc.Reads sqlite t (log ++ later) next := by
  rcases pc with _ | _ | _ | _ | _ | _ | _ | _ | _ | _ | ⟨_, _, _ | _, _⟩ | ⟨_, _ | _⟩ | ⟨_, _ | _⟩
  case stepping.some => cases idle
  case stepping.none => exact reads
  case closing.ok => exact FromWhole.append reads later
  case answering.ok => exact FromWhole.append reads later
  all_goals trivial

section Reading

variable {sqlite : Sqlite O J} {t : Tables} {log : List (List (Tables → Tables))} {b : Backend} {request : Request}
  {reading : Reading O J} {fetched : List (RecordRow ⊕ J)}

/-- A fetched answer is a result. -/
theorem whole_of_kept (documented : ∀ order req t, Selects t req (sqlite.select order req t))
    (committed : b.db_.committed = contents t log)
    (all : kept (answer sqlite reading.order b.db_.committed request) request = fetched) :
    FromWhole sqlite t log request fetched := by
  refine ⟨log.length, le_rfl, ?_⟩
  rw [List.take_length, ← committed, ← all]
  exact answers_kept documented ..

/-- A turn of the loop keeps to the answer, unless a step of `Query` fails. -/
theorem step_reads (documented : ∀ order req t, Selects t req (sqlite.select order req t))
    (committed : b.db_.committed = contents t log) (calm : b.db_.working = none)
    {rest : List (RecordRow ⊕ J)} (all : fetched ++ rest = answer sqlite reading.order b.db_.committed request)
    (bounded : kept fetched request = fetched)
    (fine : ∀ req, request = .Query req → reading.fails fetched.length = false) :
    (step b request reading (b.changes, rest) fetched).Reads sqlite t log b := by
  unfold step fetch
  cases fails : reading.fails fetched.length with
  | true =>
    cases request with
    | Query req => exact absurd (fails.symm.trans (fine req rfl)) (by decide)
    | ExecuteRawQuery sql => trivial
  | false =>
    cases rest with
    | nil =>
      rw [List.append_nil] at all
      rw [all] at bounded
      have whole := whole_of_kept documented committed bounded
      rw [← all] at whole
      simp only [Bool.false_eq_true, ↓reduceIte]
      exact whole
    | cons row rest =>
      simp only [Bool.false_eq_true, ↓reduceIte]
      split_ifs with goesOn
      · refine ⟨rfl, calm, by rw [List.append_assoc]; exact all, ?_⟩
        cases request with
        | Query req => rfl
        | ExecuteRawQuery sql =>
          refine List.take_of_length_le ?_
          rw [List.length_append, List.length_singleton]
          exact of_decide_eq_true goesOn
      · cases request with
        | Query req => exact absurd rfl goesOn
        | ExecuteRawQuery sql =>
          have full : kRowLimit ≤ fetched.length := not_lt.mp fun less => goesOn (decide_eq_true less)
          have all' : kept (answer sqlite reading.order b.db_.committed (.ExecuteRawQuery sql)) (.ExecuteRawQuery sql) =
              fetched := by
            rw [← all]
            exact (List.take_append_of_le_length full).trans bounded
          exact whole_of_kept documented committed all'

end Reading

/-- The contents that a connection sees are changed by no other thread. -/
structure Same (b next : Backend) : Prop where
  committed : next.db_.committed = b.db_.committed
  working : next.db_.working = b.db_.working
  changes : next.changes = b.changes

theorem Same.put {b : Backend} {next : Connection Tables} (committed : next.committed = b.db_.committed)
    (working : next.working = b.db_.working) : Same b (b.put next) := by
  refine ⟨committed, working, if_pos ?_⟩
  rw [current, current, committed, working]

theorem Same.writes {b next : Backend} (same : Same b next) {pc : Pc O J} (writes : pc.Writes b.db_) :
    pc.Writes next.db_ := by
  cases pc with
  | preparing | inserting | committing =>
    simp only [Pc.Writes, same.committed, same.working] at writes ⊢
    exact writes
  | _ => trivial

theorem Same.reads {b next : Backend} (same : Same b next) {sqlite : Sqlite O J} {t : Tables}
    {log : List (List (Tables → Tables))} {pc : Pc O J} (reads : pc.Reads sqlite t log b) :
    pc.Reads sqlite t log next := by
  cases fetching : pc.fetching with
  | false =>
    rw [← List.append_nil log]
    exact reads.append fetching []
  | true =>
    rcases pc with _ | _ | _ | _ | _ | _ | _ | _ | _ | _ | ⟨_, _, _ | _, _⟩ | _ | _
    case stepping.some =>
      simp only [Pc.Reads, same.committed, same.working, same.changes] at reads ⊢
      exact reads
    all_goals cases fetching

/-- A `BEGIN` that is not refused finds no transaction open and no statement being stepped; a statement is
stepped while no transaction is open, and no step of a `Query` fails. -/
def Apart (s : State Backend (Pc O J) τ) (thread : τ) : Prop :=
  match s.pc thread with
  | .beginning w =>
    w.engine.refused = false ∧ s.shared.db_.working = none ∧ ∀ t, (s.pc t).fetching = false
  | .stepping (.Query _) reading _ fetched => s.shared.db_.working = none ∧ reading.fails fetched.length = false
  | .stepping (.ExecuteRawQuery _) _ _ _ => s.shared.db_.working = none
  | _ => True

structure Kept (sqlite : Sqlite O J) (t : Tables) (history : List (τ × Event J)) (s : State Backend (Pc O J) τ) :
    Prop where
  exclusion : Exclusion s
  committed : s.shared.db_.committed = contents t (batches history)
  writes : ∀ u, (s.pc u).Writes s.shared.db_
  reads : ∀ u, (s.pc u).Reads sqlite t (batches history) s.shared
  isolated : Isolated sqlite t history

section Steps

variable {sqlite : Sqlite O J} {t : Tables} {history : List (τ × Event J)} {s : State Backend (Pc O J) τ} {thread : τ}
  {next : Backend} {after : Pc O J} {event : Event J}

omit [DecidableEq τ] in
theorem Isolated.snoc (isolated : Isolated sqlite t history)
    (mine : ∀ request rows, event = .answered request (.ok rows) → FromWhole sqlite t (batches history) request rows) :
    Isolated sqlite t (history ++ [(thread, event)]) := by
  intro entry member request rows answered
  rw [batches_append]
  rcases List.mem_append.mp member with earlier | last
  · exact (isolated entry earlier request rows answered).append _
  · rw [List.mem_singleton.mp last] at answered
    exact (mine request rows answered).append _

/-- The rows that an event returns. -/
def Event.rows? : Event J → Option (Request × List (RecordRow ⊕ J))
  | .answered request (.ok rows) => some (request, rows)
  | .answered _ (.error _) | .local | .committed _ | .wrote _ => none

omit [DecidableEq τ] in
theorem fromWhole_of_silent {log : List (List (Tables → Tables))} {event : Event J} (silent : event.rows? = none)
    (request : Request) (rows : List (RecordRow ⊕ J)) (answered : event = .answered request (.ok rows)) :
    FromWhole sqlite t log request rows := by
  rw [answered, Event.rows?] at silent
  cases silent

/-- A move that leaves what the connection sees alone. -/
theorem Kept.quiet (kept : Kept sqlite t history s) (exclusion : Exclusion (s.move thread next after))
    (same : Same s.shared next) (silent : event.batch? = none) (writes : after.Writes next.db_)
    (reads : after.Reads sqlite t (batches history) next)
    (mine : ∀ request rows, event = .answered request (.ok rows) → FromWhole sqlite t (batches history) request rows) :
    Kept sqlite t (history ++ [(thread, event)]) (s.move thread next after) := by
  have log : batches (history ++ [(thread, event)]) = batches history := by
    rw [batches_append, batches, batches, List.filterMap_cons, silent, List.filterMap_nil, List.append_nil]
  refine ⟨exclusion, ?_, ?_, ?_, kept.isolated.snoc mine⟩
  · rw [log]
    exact same.committed.trans kept.committed
  · exact State.forall_move (fun _ => Pc.Writes next.db_) (fun u _ => same.writes (kept.writes u)) writes
  · rw [log]
    exact State.forall_move (fun _ => Pc.Reads sqlite t (batches history) next)
      (fun u _ => same.reads (kept.reads u)) reads

/-- A move of the writer, while no statement is being stepped. -/
theorem Kept.write (kept : Kept sqlite t history s) (exclusion : Exclusion (s.move thread next after))
    (inside : (s.pc thread).locked = true) (alone : ∀ u, (s.pc u).fetching = false)
    (committed : next.db_.committed = contents t (batches (history ++ [(thread, event)])))
    (writes : after.Writes next.db_) (idle : after.fetching = false)
    (reads : after.Reads sqlite t (batches history) s.shared)
    (silent : event.rows? = none) :
    Kept sqlite t (history ++ [(thread, event)]) (s.move thread next after) := by
  refine ⟨exclusion, committed, ?_, ?_, kept.isolated.snoc (fromWhole_of_silent silent)⟩
  · refine State.forall_move (fun _ => Pc.Writes next.db_) (fun u other => ?_) writes
    refine Pc.writes_of_unlocked (Bool.eq_false_iff.mpr fun locked => ?_) _
    exact other (kept.exclusion.alone u thread locked inside)
  · rw [batches_append]
    exact State.forall_move (fun _ => Pc.Reads sqlite t (batches history ++ batches [(thread, event)]) next)
      (fun u _ => (kept.reads u).append (alone u) _) (reads.append idle _)

omit [DecidableEq τ] in
/-- While a transaction is open no statement is being stepped. -/
theorem Kept.nobody_fetching (kept : Kept sqlite t history s) {version : Tables}
    (opened : s.shared.db_.working = some version) (u : τ) : (s.pc u).fetching = false := by
  have reads := kept.reads u
  generalize s.pc u = pc at reads ⊢
  rcases pc with _ | _ | _ | _ | _ | _ | _ | _ | _ | _ | ⟨_, _, _ | _, _⟩ | _ | _
  case stepping.some => exact absurd (opened.symm.trans reads.2.1) (Option.some_ne_none version)
  all_goals rfl

end Steps

section Runs

variable {json : Json.Library D} {sqlite : Sqlite O J} {t : Tables} {history : List (τ × Event J)}
  {s : State Backend (Pc O J) τ} {thread : τ}

omit [DecidableEq τ] in
theorem Kept.writes_at (kept : Kept sqlite t history s) {pc : Pc O J} (here : s.pc thread = pc) :
    pc.Writes s.shared.db_ := by
  rw [← here]
  exact kept.writes thread

omit [DecidableEq τ] in
theorem Kept.reads_at (kept : Kept sqlite t history s) {pc : Pc O J} (here : s.pc thread = pc) :
    pc.Reads sqlite t (batches history) s.shared := by
  rw [← here]
  exact kept.reads thread

omit [DecidableEq τ] in
theorem batches_local (history : List (τ × Event J)) : batches (history ++ [(thread, Event.local)]) = batches history := by
  rw [batches_append]
  exact List.append_nil _

theorem applyEach_append (first second : List (Tables → Tables)) (t : Tables) :
    applyEach (first ++ second) t = applyEach second (applyEach first t) := List.foldl_append

omit [DecidableEq τ] in
theorem contents_committed (t : Tables) (history : List (τ × Event J)) (changes : List (Tables → Tables)) :
    contents t (batches (history ++ [(thread, Event.committed changes)])) =
      applyEach changes (contents t (batches history)) := by
  have last : (batches [(thread, (Event.committed changes : Event J))]).flatten = changes := List.append_nil changes
  rw [batches_append, contents, List.flatten_append, applyEach_append, last, contents]

/-- Every move of a thread that is kept apart keeps the books. -/
theorem Kept.step (documented : ∀ order req t, Selects t req (sqlite.select order req t))
    (kept : Kept sqlite t history s) (apart : Apart s thread) {next : Backend} {after : Pc O J} {event : Event J}
    (move : Move sqlite s.shared (s.pc thread) next after event) :
    Kept sqlite t (history ++ [(thread, event)]) (s.move thread next after) := by
  have exclusion := kept.exclusion.move move.guarded
  unfold Apart at apart
  generalize here : s.pc thread = pc at move apart
  have writes := kept.writes_at here
  have reads := kept.reads_at here
  cases move with
  | passes => exact kept.quiet exclusion ⟨rfl, rfl, rfl⟩ rfl trivial trivial (fromWhole_of_silent rfl)
  | refuses => exact kept.quiet exclusion ⟨rfl, rfl, rfl⟩ rfl trivial trivial (fromWhole_of_silent rfl)
  | enters => exact kept.quiet exclusion ⟨rfl, rfl, rfl⟩ rfl trivial trivial (fromWhole_of_silent rfl)
  | opens => exact kept.quiet exclusion ⟨rfl, rfl, rfl⟩ rfl trivial trivial (fromWhole_of_silent rfl)
  | locks => exact kept.quiet exclusion ⟨rfl, rfl, rfl⟩ rfl trivial trivial (fromWhole_of_silent rfl)
  | unprepared => exact kept.quiet exclusion ⟨rfl, rfl, rfl⟩ rfl trivial trivial (fromWhole_of_silent rfl)
  | throws => exact kept.quiet exclusion ⟨rfl, rfl, rfl⟩ rfl trivial trivial (fromWhole_of_silent rfl)
  | unlocks => exact kept.quiet exclusion ⟨rfl, rfl, rfl⟩ rfl trivial trivial (fromWhole_of_silent rfl)
  | finalizes => exact kept.quiet exclusion (.put rfl rfl) rfl trivial trivial (fromWhole_of_silent rfl)
  | prepares w => exact kept.quiet exclusion (.put rfl rfl) rfl ⟨[], rfl, writes⟩ trivial (fromWhole_of_silent rfl)
  | finishes w i =>
    obtain ⟨done, items, opened⟩ := writes
    have all : w.changes = done := by
      rw [Write.changes, items, List.append_nil]
      change (done.map some).filterMap id = done
      rw [List.filterMap_map]
      exact List.filterMap_some
    refine kept.quiet exclusion (.put rfl rfl) rfl ?_ trivial (fromWhole_of_silent rfl)
    change s.shared.db_.working = some (applyEach w.changes s.shared.db_.committed)
    rw [all]
    exact opened
  | begins w =>
    obtain ⟨accepted, calm, alone⟩ := apart
    have begun : s.shared.db_.start w.engine.refused =
        { s.shared.db_ with working := some s.shared.db_.committed } := by
      rw [Connection.start, calm, accepted]
      rfl
    refine kept.write exclusion (by rw [here]; rfl) alone ?_ ?_ rfl trivial rfl
    · rw [batches_local, begun]
      exact kept.committed
    · rw [begun]
      rfl
  | inserts w i change rest =>
    obtain ⟨done, items, opened⟩ := writes
    have stepped : s.shared.db_.step change .done =
        { s.shared.db_ with working := some (change (applyEach done s.shared.db_.committed)) } := by
      rw [Connection.step, opened]
    refine kept.write exclusion (by rw [here]; rfl) (kept.nobody_fetching opened) ?_ ?_ rfl trivial rfl
    · rw [batches_local, stepped]
      exact kept.committed
    · rw [stepped]
      refine ⟨done ++ [change], ?_, ?_⟩
      · rw [items, List.map_append, List.append_assoc]
        rfl
      · rw [applyEach_append]
        rfl
  | stops w i change rest outcome =>
    obtain ⟨done, items, opened⟩ := writes
    refine kept.write exclusion (by rw [here]; rfl) (kept.nobody_fetching opened) ?_ trivial rfl trivial rfl
    rw [batches_local]
    refine Eq.trans ?_ kept.committed
    cases outcome with
    | done =>
      change (s.shared.db_.step change .done).committed = _
      rw [Connection.step, opened]
    | failed => rfl
    | rolledBack => rfl
  | rollsBack w what status =>
    cases opened : s.shared.db_.working with
    | none => exact kept.quiet exclusion (.put rfl opened.symm) rfl trivial trivial (fromWhole_of_silent rfl)
    | some version =>
      refine kept.write exclusion (by rw [here]; rfl) (kept.nobody_fetching opened) ?_ trivial rfl trivial rfl
      rw [batches_local]
      exact kept.committed
  | commits w left done =>
    have version : s.shared.db_.working = some (applyEach w.changes s.shared.db_.committed) := writes
    refine kept.write exclusion (by rw [here]; rfl) (kept.nobody_fetching version) ?_ trivial rfl trivial rfl
    rw [Connection.commit, version] at done
    cases outcome : w.engine.commit with
    | done =>
      rw [outcome] at done
      cases done
      rw [contents_committed, ← kept.committed]
      rfl
    | failed =>
      rw [outcome] at done
      cases done
    | rolledBack =>
      rw [outcome] at done
      cases done
  | misses w left status failed =>
    have version : s.shared.db_.working = some (applyEach w.changes s.shared.db_.committed) := writes
    refine kept.write exclusion (by rw [here]; rfl) (kept.nobody_fetching version) ?_ trivial rfl trivial rfl
    rw [batches_local]
    refine Eq.trans ?_ kept.committed
    rw [Connection.commit, version] at failed
    cases outcome : w.engine.commit with
    | done =>
      rw [outcome] at failed
      cases failed
    | failed =>
      rw [outcome] at failed
      cases failed
      rfl
    | rolledBack =>
      rw [outcome] at failed
      cases failed
      rfl
  | prepared request reading => exact kept.quiet exclusion (.put rfl rfl) rfl trivial rfl (fromWhole_of_silent rfl)
  | rejects request reading status => exact kept.quiet exclusion (.put rfl rfl) rfl trivial trivial (fromWhole_of_silent rfl)
  | fails request reading status => exact kept.quiet exclusion ⟨rfl, rfl, rfl⟩ rfl trivial trivial (fromWhole_of_silent rfl)
  | steps request reading since fetched =>
    have calm : s.shared.db_.working = none := by
      cases request with
      | Query req => exact apart.1
      | ExecuteRawQuery sql => exact apart
    have fine : ∀ req, request = .Query req → reading.fails fetched.length = false := by
      rintro req rfl
      exact apart.2
    refine kept.quiet exclusion ⟨rfl, rfl, rfl⟩ rfl (Pc.writes_of_unlocked (step_unlocked ..) _) ?_ (fromWhole_of_silent rfl)
    rcases since with _ | ⟨began, rest⟩
    · cases reads
      refine step_reads documented kept.committed calm ?_ ?_ fine
      · rw [current, calm]
        rfl
      · cases request <;> rfl
    · obtain ⟨rfl, _, all, bounded⟩ := reads
      exact step_reads documented kept.committed calm all bounded fine
  | closes request result =>
    refine kept.quiet exclusion (.put rfl rfl) rfl trivial ?_ (fromWhole_of_silent rfl)
    cases result with
    | ok rows => exact reads
    | error status => trivial
  | answers request result =>
    refine kept.quiet exclusion ⟨rfl, rfl, rfl⟩ rfl trivial trivial ?_
    rintro request' rows answered
    cases answered
    exact reads

/-- In a run that keeps queries and writes apart every result is from whole committed batches. -/
theorem isolated_of_apart (documented : ∀ order req t, Selects t req (sqlite.select order req t))
    (conditional : (program json sqlite).RunWhere Apart (opened τ O J t) history s) : Isolated sqlite t history := by
  refine Kept.isolated (s := s) (conditional.invariant (fun history s => Kept sqlite t history s) ?_ ?_)
  · exact ⟨⟨nofun, nofun⟩, rfl, fun _ => trivial, fun _ => trivial, nofun⟩
  · intro history s thread choice next after event _ kept apart enabled
    exact kept.step documented apart (act_move enabled)

end Runs

instance (req : QueryRequest) : DecidableRel (QueryOrder req) := fun _ _ => inferInstanceAs (Decidable (ite ..))

/-- Rows in the order of their timestamps, and where two are the same in the order of the table. A raw query
counts as one row for each record. -/
def sorting : Sqlite Unit Unit where
  select _ req t := ((t.records.filter fun row => QueryMatches req row).insertionSort (QueryOrder req)).take req.limit.toNat
  raw _ _ t := t.records.map fun _ => ()

theorem sorting_documented (order : Unit) (req : QueryRequest) (t : Tables) :
    Selects t req (sorting.select order req t) := by
  have total (first second : RecordRow) : QueryOrder req first second ∨ QueryOrder req second first := by
    unfold QueryOrder
    split_ifs
    · exact Int64.le_total ..
    · exact Int64.le_total ..
  have trans {first second third : RecordRow} (left : QueryOrder req first second)
      (right : QueryOrder req second third) : QueryOrder req first third := by
    unfold QueryOrder at left right ⊢
    split_ifs at left right ⊢
    · exact Int64.le_trans right left
    · exact Int64.le_trans left right
  have : Std.Total (QueryOrder req) := ⟨total⟩
  have : IsTrans RecordRow (QueryOrder req) := ⟨fun _ _ _ => trans⟩
  exact ⟨_, List.perm_insertionSort _ _, List.pairwise_insertionSort _ _, rfl⟩

instance [Fintype τ] (s : State Backend (Pc O J) τ) (thread : τ) : Decidable (Apart s thread) := by
  unfold Apart
  split <;> infer_instance

/-- How many rows an event returns. -/
def Event.count? : Event J → Option ℕ
  | .answered _ (.ok rows) => some rows.length
  | _ => none

/-- A read with nothing wrong. -/
def plainRead : Reading Unit Unit := ⟨true, true, (), "", fun _ => false, fun _ => none⟩

/-- Everything of one pipeline. -/
def everything : QueryRequest := ⟨[], {}, 1000, true⟩

def twoRecords : List (Record ℕ) := [labelled [0x76], labelled []]

/-- A writer's thread and a reader's. -/
def writes (choices : List (Choice ℕ Unit Unit)) : List (Bool × Choice ℕ Unit Unit) := choices.map (false, ·)

def reads (choices : List (Choice ℕ Unit Unit)) : List (Bool × Choice ℕ Unit Unit) := choices.map (true, ·)

/-- A query before a write of two records and one after it. -/
theorem isolated_of_apart_two : ∃ history target,
    (program smallJson sorting).RunWhere Apart (opened Bool Unit Unit ⟨[], []⟩) history target ∧
      history.filterMap (fun entry => entry.2.count?) = [0, 2] ∧ Isolated sorting ⟨[], []⟩ history := by
  obtain ⟨history, target, conditional, counts⟩ := Program.exists_runWhere_of_check (program smallJson sorting) Apart
    (opened Bool Unit Unit ⟨[], []⟩) (fun _ history => history.filterMap (fun entry => entry.2.count?) = [0, 2])
    (reads (.Query everything plainRead :: List.replicate 4 .proceed) ++
      writes (.WriteRecords [] twoRecords (working .done) :: List.replicate 8 .proceed) ++
      reads (.Query everything plainRead :: List.replicate 6 .proceed)) (by decide +kernel)
  exact ⟨history, target, conditional, counts, isolated_of_apart sorting_documented conditional⟩

/-- How many rows of the contents match a request. -/
def matching (req : QueryRequest) (t : Tables) : ℕ := (t.records.filter fun row => QueryMatches req row).length

/-- A result of `Query` has as many rows as the contents have for it, up to its limit. -/
def Event.fits (t : Tables) : Event J → Bool
  | .answered (.Query req) (.ok rows) => rows.length = min req.limit.toNat (matching req t)
  | _ => true

/-- Every result fits the contents with some first batches. -/
def fitting (t : Tables) (history : List (τ × Event J)) : Bool :=
  history.all fun entry => (List.range ((batches history).length + 1)).any fun n =>
    entry.2.fits (contents t ((batches history).take n))

omit [DecidableEq τ] in
theorem Isolated.fitting {sqlite : Sqlite O J} {t : Tables} {history : List (τ × Event J)}
    (isolated : Isolated sqlite t history) : fitting t history = true := by
  refine List.all_eq_true.mpr fun entry member => List.any_eq_true.mpr ?_
  have always (event : Event J) (trivially : ∀ u, event.fits u = true) :
      ∃ n ∈ List.range ((batches history).length + 1),
        event.fits (contents t ((batches history).take n)) = true :=
    ⟨0, List.mem_range.mpr (Nat.succ_pos _), trivially _⟩
  obtain ⟨thread, event⟩ := entry
  rcases event with _ | _ | _ | ⟨req | sql, status | rows⟩
  case answered.Query.ok =>
    obtain ⟨n, bound, selected, rfl, order, permutes, _, rfl⟩ := isolated _ member _ _ rfl
    refine ⟨n, List.mem_range.mpr (Nat.lt_succ_of_le bound), decide_eq_true ?_⟩
    rw [List.length_map, List.length_take, permutes.length_eq, matching]
  all_goals exact always _ fun _ => rfl

/-- A query between the two rows of a batch, whose second step comes to an outcome. -/
def between (outcome : Outcome) : List (Bool × Choice ℕ Unit Unit) :=
  writes (.WriteRecords [] twoRecords ⟨false, true, fun i => if i = 1 then outcome else .done, .done⟩ ::
      List.replicate 4 .proceed) ++
    reads (.Query everything plainRead :: List.replicate 5 .proceed) ++ writes (List.replicate 4 .proceed)

/-- A query that runs between the two rows of a batch returns one of them. -/
theorem half_batch_seen : ¬ ∀ history target,
    (program smallJson sorting).Run (opened Bool Unit Unit ⟨[], []⟩) history target →
      Isolated sorting ⟨[], []⟩ history := by
  intro always
  obtain ⟨history, target, run, _, _, unfit⟩ := Program.exists_run_of_check (program smallJson sorting)
    (opened Bool Unit Unit ⟨[], []⟩)
    (fun _ history => history.filterMap (fun entry => entry.2.count?) = [1] ∧
      (batches history).map List.length = [2] ∧ fitting ⟨[], []⟩ history = false) (between .done) (by decide +kernel)
  exact Bool.false_ne_true (unfit.symm.trans (always history target run).fitting)

/-- A query that runs before a rollback returns what is rolled back. -/
theorem rolled_back_seen : ∃ history target,
    (program smallJson sorting).Run (opened Bool Unit Unit ⟨[], []⟩) history target ∧
      history.filterMap (fun entry => entry.2.count?) = [1] ∧ (batches history).length = 0 ∧
      target.shared.db_ = ⟨⟨[], []⟩, none, 0⟩ := by
  apply Program.exists_run_of_check (program smallJson sorting) (opened Bool Unit Unit ⟨[], []⟩)
    (fun target history => history.filterMap (fun entry => entry.2.count?) = [1] ∧ (batches history).length = 0 ∧
      target.shared.db_ = ⟨⟨[], []⟩, none, 0⟩) (between .failed)
  decide +kernel

end SqliteBackend

end Illuminator
