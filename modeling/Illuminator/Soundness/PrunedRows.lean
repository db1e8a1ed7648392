import Illuminator.Model.SqlitePrune

/-! # Pruned rows

The oldest time to keep is now less the age to keep, and a row is expired when it is older. `Prune` compares with
that difference as 64 unsigned bits hold it. The two agree as long as the age does not reach back behind the epoch;
past it the difference wraps around to a time in the future, and rows that are younger than the age go with the
expired ones.
-/

namespace Illuminator

open SqliteBackend

/-- The column that `Prune` compares. -/
def timestamps (database : Database) : Table → List (Option Int64)
  | .records => database.records.map fun row => some row.timestamp_ns
  | .stack_samples => database.stack_samples.map fun row => some row.timestamp_ns
  | .profiles => database.profiles.map ProfileRow.start_ns

/-- More than the age before now. -/
def Expired (now : Int64) (age : UInt64) (column : Option Int64) : Prop :=
  ∃ ts ∈ column, ts.toInt < now.toInt - age.toNat

instance (now : Int64) (age : UInt64) (column : Option Int64) : Decidable (Expired now age column) :=
  match column with
  | none => isFalse fun ⟨_, member, _⟩ => Option.not_mem_none _ member
  | some ts => decidable_of_iff (ts.toInt < now.toInt - age.toNat) (by simp [Expired])

/-- What pruning owes to a database: each table keeps its rows that are not expired, in their order. -/
structure PrunedExactly (now : Int64) (age : UInt64) (before after : Database) : Prop where
  records : after.records = before.records.filter fun row => ¬ Expired now age (some row.timestamp_ns)
  stack_samples : after.stack_samples = before.stack_samples.filter fun row => ¬ Expired now age (some row.timestamp_ns)
  profiles : after.profiles = before.profiles.filter fun row => ¬ Expired now age row.start_ns

/-- Old enough to be below the wrapped difference, though not expired. -/
def CaughtByWrap (now : Int64) (age : UInt64) (column : Option Int64) : Prop :=
  ∃ ts ∈ column, now.toInt - age.toNat ≤ ts.toInt ∧
    (ts.toInt < (now.toUInt64 - age).toNat ∨ 2 ^ 63 ≤ (now.toUInt64 - age).toNat)

/-- When a statement deletes the expired rows of its table and no others. It has to be carried out, unless no row is
expired, and the age must not exceed now, unless no row lies where the difference wraps to. -/
def Spares (carried : Bool) (now : Int64) (age : UInt64) (columns : List (Option Int64)) : Prop :=
  if carried then (age.toNat : ℤ) ≤ now.toInt ∨ ∀ column ∈ columns, ¬ CaughtByWrap now age column
  else ∀ column ∈ columns, ¬ Expired now age column

/-! ## One column -/

variable {now : Int64} {age : UInt64}

/-- The comparison that SQLite makes of the digits. -/
theorem isBelow_literal (cutoff : UInt64) (column : Option Int64) :
    isBelow column (literal (to_string cutoff.toNat)) = true ↔
      ∃ ts ∈ column, ts.toInt < cutoff.toNat ∨ 2 ^ 63 ≤ cutoff.toNat := by
  rw [literal, of_decimal_to_string]
  cases column with
  | none => split_ifs <;> simp [isBelow]
  | some ts =>
    simp only [Option.mem_def, Option.some.injEq, exists_eq_left']
    split_ifs with fits
    · have value : (Int64.ofNat cutoff.toNat).toInt = cutoff.toNat := Int64.toInt_ofNat_of_lt fits
      change decide (ts < Int64.ofNat cutoff.toNat) = true ↔ _
      rw [decide_eq_true_iff, Int64.lt_iff_toInt_lt, value]
      exact (or_iff_left (not_le.mpr fits)).symm
    · exact ⟨fun _ => Or.inr (not_lt.mp fits), fun _ => rfl⟩

/-- The difference is exact while the age does not exceed now; a wrapped one exceeds it. -/
theorem cutoff_cases (now : Int64) (age : UInt64) :
    ((age.toNat : ℤ) ≤ now.toInt ∧ ((now.toUInt64 - age).toNat : ℤ) = now.toInt - age.toNat) ∨
      now.toInt - age.toNat < 0 := by
  have value : now.toInt = now.toBitVec.toInt := rfl
  have count : now.toUInt64.toNat = now.toBitVec.toNat := rfl
  have range := now.toBitVec.isLt
  have most := age.toNat_lt
  rw [UInt64.toNat_sub, value, count, BitVec.toInt_eq_toNat_cond]
  split_ifs <;> omega

/-- What a statement deletes: the expired rows, and those that the wrapped difference catches. -/
theorem isBelow_iff (now : Int64) (age : UInt64) (column : Option Int64) :
    isBelow column (literal (to_string (now.toUInt64 - age).toNat)) = true ↔
      Expired now age column ∨ CaughtByWrap now age column := by
  have least : now.toInt - age.toNat ≤ ((now.toUInt64 - age).toNat : ℤ) := by
    rcases cutoff_cases now age with ⟨_, exact⟩ | wrapped <;> omega
  rw [isBelow_literal]
  constructor
  · rintro ⟨ts, member, deleted⟩
    rcases lt_or_ge ts.toInt (now.toInt - age.toNat) with old | young
    · exact Or.inl ⟨ts, member, old⟩
    · exact Or.inr ⟨ts, member, young, deleted⟩
  · rintro (⟨ts, member, old⟩ | ⟨ts, member, _, caught⟩)
    · exact ⟨ts, member, Or.inl (lt_of_lt_of_le old least)⟩
    · exact ⟨ts, member, caught⟩

theorem not_caught_of_le (covered : (age.toNat : ℤ) ≤ now.toInt) (column : Option Int64) :
    ¬ CaughtByWrap now age column := by
  rintro ⟨ts, _, young, caught⟩
  have most := now.toInt_lt
  rcases cutoff_cases now age with ⟨_, exact⟩ | wrapped <;> omega

/-! ## One table -/

/-- Filters keep the same rows exactly when they agree on each row. -/
theorem filter_eq_filter_iff {R : Type} {keep other : R → Bool} (rows : List R) :
    rows.filter keep = rows.filter other ↔ ∀ row ∈ rows, keep row = other row := by
  refine ⟨fun same row member => ?_, List.filter_congr⟩
  have kept : (row ∈ rows.filter keep) = (row ∈ rows.filter other) := by rw [same]
  rw [List.mem_filter, List.mem_filter] at kept
  exact Bool.eq_iff_iff.mpr (by simpa [member] using kept)

/-- A row is kept as it should be unless the wrapped difference catches it. -/
theorem kept_iff (now : Int64) (age : UInt64) (column : Option Int64) :
    (!isBelow column (literal (to_string (now.toUInt64 - age).toNat))) = decide (¬ Expired now age column) ↔
      ¬ CaughtByWrap now age column := by
  have deleted := isBelow_iff now age column
  have apart : CaughtByWrap now age column → ¬ Expired now age column := by
    rintro ⟨ts, member, young, _⟩ ⟨other, found, old⟩
    obtain rfl := Option.mem_unique member found
    omega
  rw [decide_not, Bool.not_inj_iff, Bool.eq_iff_iff, decide_eq_true_iff, deleted]
  tauto

/-- A statement keeps the rows that are not expired exactly when it spares the others. -/
theorem statement_exact_iff {R : Type} (column : R → Option Int64) (carried : Bool) (now : Int64) (age : UInt64)
    (rows : List R) :
    (if carried then rows.filter fun row => !isBelow (column row) (literal (to_string (now.toUInt64 - age).toNat))
      else rows) = rows.filter (fun row => ¬ Expired now age (column row)) ↔
      Spares carried now age (rows.map column) := by
  rw [Spares]
  simp only [List.forall_mem_map]
  cases carried with
  | false => rw [if_neg Bool.false_ne_true, if_neg Bool.false_ne_true, eq_comm, List.filter_eq_self]; simp
  | true =>
    rw [if_pos rfl, if_pos rfl, filter_eq_filter_iff]
    simp only [kept_iff]
    refine ⟨Or.inr, ?_⟩
    rintro (covered | spared)
    · exact fun row _ => not_caught_of_le covered (column row)
    · exact spared

/-! ## All tables -/

/-- The tables after pruning. -/
theorem prune_tables (carried : Table → Bool) (now : Int64) (positive : age ≠ 0) (database : Database) :
    Prune carried now (some database) age = (some
      { records := if carried .records then database.records.filter fun row =>
          !isBelow (some row.timestamp_ns) (literal (to_string (now.toUInt64 - age).toNat)) else database.records
        stack_samples := if carried .stack_samples then database.stack_samples.filter fun row =>
          !isBelow (some row.timestamp_ns) (literal (to_string (now.toUInt64 - age).toNat)) else database.stack_samples
        profiles := if carried .profiles then database.profiles.filter fun row =>
          !isBelow row.start_ns (literal (to_string (now.toUInt64 - age).toNat)) else database.profiles }, .Ok) := by
  rw [Prune, if_neg positive]
  simp only [Execute]
  split_ifs <;> rfl

/-- A row whose time is not before the epoch is not expired when the age exceeds now. -/
theorem not_expired_of_lt (beyond : now.toInt < age.toNat) {column : Option Int64}
    (later : ∀ ts ∈ column, 0 ≤ ts.toInt) : ¬ Expired now age column := by
  rintro ⟨ts, member, old⟩
  have nonnegative := later ts member
  omega

theorem Expired.of_le {smaller larger : UInt64} (order : smaller ≤ larger) {column : Option Int64}
    (expired : Expired now larger column) : Expired now smaller column := by
  obtain ⟨ts, member, old⟩ := expired
  have grown := UInt64.le_iff_toNat_le.mp order
  exact ⟨ts, member, by omega⟩

/-- Rows that one condition keeps are kept by a weaker one. -/
theorem filter_sublist_filter {R : Type} {keep other : R → Prop} [DecidablePred keep] [DecidablePred other]
    (weaker : ∀ row, keep row → other row) (rows : List R) : (rows.filter keep).Sublist (rows.filter other) := by
  apply List.monotone_filter_right
  intro row kept
  exact decide_eq_true (weaker row (of_decide_eq_true kept))

namespace PrunedExactly

variable {before after : Database}

/-- Nothing goes when the age exceeds now. -/
theorem of_beyond (exact : PrunedExactly now age before after) (beyond : now.toInt < age.toNat)
    (later : ∀ table, ∀ column ∈ timestamps before table, ∀ ts ∈ column, 0 ≤ ts.toInt) : after = before := by
  have all {R : Type} (column : R → Option Int64) (rows : List R)
      (later : ∀ row ∈ rows, ∀ ts ∈ column row, 0 ≤ ts.toInt) :
      rows.filter (fun row => ¬ Expired now age (column row)) = rows :=
    List.filter_eq_self.mpr fun row member => decide_eq_true (not_expired_of_lt beyond (later row member))
  have records := exact.records.trans (all _ _ fun row member => later .records _ (List.mem_map_of_mem member))
  have samples := exact.stack_samples.trans
    (all _ _ fun row member => later .stack_samples _ (List.mem_map_of_mem member))
  have profiles := exact.profiles.trans (all _ _ fun row member => later .profiles _ (List.mem_map_of_mem member))
  obtain ⟨⟨_, _⟩, _⟩ := after
  subst records samples profiles
  rfl

/-- A greater age keeps what a smaller one keeps. -/
theorem mono {smaller larger : UInt64} {more : Database} (exact : PrunedExactly now smaller before after)
    (other : PrunedExactly now larger before more) (order : smaller ≤ larger) :
    after.records.Sublist more.records ∧ after.stack_samples.Sublist more.stack_samples ∧
      after.profiles.Sublist more.profiles := by
  rw [exact.records, exact.stack_samples, exact.profiles, other.records, other.stack_samples, other.profiles]
  exact ⟨filter_sublist_filter (fun _ kept expired => kept (expired.of_le order)) _,
    filter_sublist_filter (fun _ kept expired => kept (expired.of_le order)) _,
    filter_sublist_filter (fun _ kept expired => kept (expired.of_le order)) _⟩

end PrunedExactly

/-- What a call owes: it succeeds and deletes the expired rows and no others, nothing if the age exceeds now. -/
def Prunes (carried : Table → Bool) (now : Int64) (database : Database) (age : UInt64) : Prop :=
  ∃ after, Prune carried now (some database) age = (some after, .Ok) ∧ PrunedExactly now age database after ∧
    (now.toInt < age.toNat → (∀ table, ∀ column ∈ timestamps database table, ∀ ts ∈ column, 0 ≤ ts.toInt) →
      after = database)

theorem prunes_iff_spares (carried : Table → Bool) (now : Int64) (database : Database) (positive : age ≠ 0) :
    Prunes carried now database age ↔ ∀ table, Spares (carried table) now age (timestamps database table) := by
  have records := statement_exact_iff (fun row : RecordRow => some row.timestamp_ns) (carried .records) now age
    database.records
  have samples := statement_exact_iff (fun row : StackRow => some row.timestamp_ns) (carried .stack_samples) now age
    database.stack_samples
  have profiles := statement_exact_iff ProfileRow.start_ns (carried .profiles) now age database.profiles
  constructor
  · rintro ⟨after, pruned, exact, _⟩ table
    rw [prune_tables carried now positive database] at pruned
    obtain rfl := Option.some.inj (congrArg Prod.fst pruned)
    cases table with
    | records => exact records.mp exact.records
    | stack_samples => exact samples.mp exact.stack_samples
    | profiles => exact profiles.mp exact.profiles
  · intro spares
    refine ⟨_, prune_tables carried now positive database, ?_⟩
    refine (fun exact => ⟨exact, exact.of_beyond⟩ : PrunedExactly now age database _ → _) ?_
    exact ⟨records.mpr (spares .records), samples.mpr (spares .stack_samples), profiles.mpr (spares .profiles)⟩

/-- **When pruning deletes exactly the expired rows.** A call does exactly when, in each table, its statement is
carried out and the age does not exceed now or no row lies where the difference wraps to; a statement that is not
carried out does no harm only where no row is expired. Of two such calls the one with the greater age keeps at least
what the other keeps. -/
theorem prunes_iff (carried : Table → Bool) (now : Int64) (database : Database) :
    (∀ age ≠ 0, Prunes carried now database age ↔
      ∀ table, Spares (carried table) now age (timestamps database table)) ∧
    ∀ smaller ≠ 0, ∀ larger, smaller ≤ larger →
      (∀ table, Spares (carried table) now smaller (timestamps database table)) →
      (∀ table, Spares (carried table) now larger (timestamps database table)) →
      ∃ after more, Prune carried now (some database) smaller = (some after, .Ok) ∧
        Prune carried now (some database) larger = (some more, .Ok) ∧ after.records.Sublist more.records ∧
        after.stack_samples.Sublist more.stack_samples ∧ after.profiles.Sublist more.profiles := by
  refine ⟨fun age positive => prunes_iff_spares carried now database positive, ?_⟩
  intro smaller positive larger order spares sparesLarger
  have positiveLarger : larger ≠ 0 := by
    rintro rfl
    exact positive (UInt64.le_zero_iff.mp order)
  obtain ⟨after, pruned, exact, _⟩ := (prunes_iff_spares carried now database positive).mpr spares
  obtain ⟨more, prunedMore, exactMore, _⟩ := (prunes_iff_spares carried now database positiveLarger).mpr sparesLarger
  exact ⟨after, more, pruned, prunedMore, exact.mono exactMore order⟩

/-- A record of one second ago, at a time in 2023. -/
def recent : Database :=
  { records := [⟨[], 1699999999000000000, [], []⟩], stack_samples := [], profiles := [] }

/-- Five minutes to keep, and then ten. -/
theorem prunes_iff_recent : ∃ after more,
    Prune (fun _ => true) 1700000000000000000 (some recent) 300000000000 = (some after, .Ok) ∧
      Prune (fun _ => true) 1700000000000000000 (some recent) 600000000000 = (some more, .Ok) ∧
      after.records.Sublist more.records ∧ after.stack_samples.Sublist more.stack_samples ∧
      after.profiles.Sublist more.profiles :=
  (prunes_iff (fun _ => true) 1700000000000000000 recent).2 300000000000 (by decide) 600000000000 (by decide)
    (fun _ => Or.inl (by decide)) (fun _ => Or.inl (by decide))

/-- The greatest age, which is to keep everything, deletes the record of one second ago. -/
theorem greatest_age_deletes : ¬ ∀ (carried : Table → Bool) (now : Int64) (database : Database) (age : UInt64),
    age ≠ 0 → Prunes carried now database age := by
  intro prunes
  have spares := (prunes_iff_spares (fun _ => true) 1700000000000000000 recent (by decide)).mp
    (prunes (fun _ => true) 1700000000000000000 recent 18446744073709551615 (by decide)) .records
  rcases spares with covered | spared
  · exact absurd covered (by decide)
  · exact spared (some 1699999999000000000) (List.mem_singleton_self _)
      ⟨1699999999000000000, rfl, by decide, Or.inl (by decide)⟩

end Illuminator
