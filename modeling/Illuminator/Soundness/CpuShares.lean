import Illuminator.Model.CpuUtilization
import Mathlib.Algebra.Order.Field.Rat
import Mathlib.Tactic.FieldSimp
import Mathlib.Tactic.Linarith
import Mathlib.Tactic.Positivity
import Mathlib.Tactic.Ring

/-! # CPU shares

The fields of a record, read back from what the loop over the cores emits. A counter that moves backwards
wraps, so the shares of a core are percentages exactly when none of its counters does.
-/

namespace Illuminator

namespace CpuUtilization

/-! ## Fields of a record -/

section

variable {D : Type}

theorem fields_of_notMem {key : Bytes} {fields : List (Bytes × FieldValue D)} (outside : key ∉ fields.map Prod.fst)
    (rec : Record D) :
    (fields.foldl (fun rec field => rec.SetField field.1 field.2) rec).GetField key = rec.GetField key := by
  induction fields generalizing rec with
  | nil => rfl
  | cons field rest ih =>
    obtain ⟨other, absent⟩ := List.ne_and_not_mem_of_not_mem_cons outside
    rw [List.foldl_cons, ih absent]
    exact AList.lookup_insert_ne other

theorem fields_of_mem {key : Bytes} {value : FieldValue D} {fields : List (Bytes × FieldValue D)}
    (distinct : (fields.map Prod.fst).Nodup) (member : (key, value) ∈ fields) (rec : Record D) :
    (fields.foldl (fun rec field => rec.SetField field.1 field.2) rec).GetField key = some value := by
  induction fields generalizing rec with
  | nil => exact absurd member List.not_mem_nil
  | cons field rest ih =>
    obtain ⟨absent, distinct⟩ := List.nodup_cons.mp distinct
    rw [List.foldl_cons]
    rcases List.mem_cons.mp member with rfl | later
    · rw [fields_of_notMem absent]
      exact AList.lookup_insert ..
    · exact ih distinct later _

/-- A record shows the fields that it was made with. -/
theorem record_field {key : Bytes} {value : FieldValue D} {labels : List Label} {fields : List (Bytes × FieldValue D)}
    {names : List Bytes} (distinct : names.Nodup) (same : fields.map Prod.fst = names) (member : (key, value) ∈ fields) :
    (record labels fields).GetField key = some value :=
  fields_of_mem (same ▸ distinct) member _

theorem record_labels (labels : List Label) (fields : List (Bytes × FieldValue D)) :
    (record labels fields).labels = labels := by
  have kept (rec : Record D) :
      (fields.foldl (fun rec field => rec.SetField field.1 field.2) rec).labels = rec.labels := by
    induction fields generalizing rec with
    | nil => rfl
    | cons field rest ih => exact ih _
  exact kept _

end

/-- The fields of the eight states. -/
def stateFields : List Bytes :=
  [ascii "user_pct", ascii "nice_pct", ascii "system_pct", ascii "idle_pct", ascii "iowait_pct", ascii "irq_pct",
    ascii "softirq_pct", ascii "steal_pct"]

def pctFields : List Bytes := stateFields ++ [ascii "busy_pct"]

/-- Each average, with the share that it averages. -/
def averages : List (Bytes × Bytes) :=
  [(ascii "user_pct_ema", ascii "user_pct"), (ascii "system_pct_ema", ascii "system_pct"),
    (ascii "busy_pct_ema", ascii "busy_pct")]

/-! ## The record of a core -/

/-- The fields that `coreRecord` sets. -/
def coreFields (config : Config ℚ) (c p : CoreJiffies) (ema : EmaState ℚ) : List (Bytes × FieldValue ℚ) :=
  let dt := deltaTotal c p
  [(ascii "user_pct", .double (pct dt c.user p.user)),
    (ascii "nice_pct", .double (pct dt c.nice p.nice)),
    (ascii "system_pct", .double (pct dt c.system p.system)),
    (ascii "idle_pct", .double (pct dt c.idle p.idle)),
    (ascii "iowait_pct", .double (pct dt c.iowait p.iowait)),
    (ascii "irq_pct", .double (pct dt c.irq p.irq)),
    (ascii "softirq_pct", .double (pct dt c.softirq p.softirq)),
    (ascii "steal_pct", .double (pct dt c.steal p.steal)),
    (ascii "busy_pct", .double (pct dt c.Busy p.Busy))] ++
  if ((0 : ℕ) : ℚ) < config.ema_alpha_ then
    [(ascii "user_pct_ema", .double ema.user), (ascii "system_pct_ema", .double ema.system),
      (ascii "busy_pct_ema", .double ema.busy)]
  else []

variable {config : Config ℚ} {c p : CoreJiffies} {ema : EmaState ℚ}

theorem coreFields_distinct : ((coreFields config c p ema).map Prod.fst).Nodup := by
  have all : (pctFields ++ averages.map Prod.fst).Nodup := by decide
  have part : pctFields.Nodup := by decide
  rw [coreFields]
  split_ifs
  · exact all
  · exact part

theorem coreRecord_field {key : Bytes} {value : FieldValue ℚ} (member : (key, value) ∈ coreFields config c p ema) :
    (coreRecord config c p ema).GetField key = some value :=
  fields_of_mem coreFields_distinct member _

/-! ## Counters -/

/-- The eight counters of a line, in the order of `stateFields`. -/
def CoreJiffies.counters (c : CoreJiffies) : List UInt64 :=
  [c.user, c.nice, c.system, c.idle, c.iowait, c.irq, c.softirq, c.steal]

def CoreJiffies.Bounded (c : CoreJiffies) : Prop := ∀ n ∈ c.counters, n.toNat < 2 ^ 60

/-- No counter of the line has moved backwards. -/
def NoneDecreases (c p : CoreJiffies) : Prop := List.Forall₂ (fun now before => before ≤ now) c.counters p.counters

theorem Total_toNat (bounded : c.Bounded) : c.Total.toNat = (c.counters.map UInt64.toNat).sum := by
  simp only [CoreJiffies.Bounded, CoreJiffies.counters, List.forall_mem_cons] at bounded
  obtain ⟨_, _, _, _, _, _, _, _, -⟩ := bounded
  simp only [CoreJiffies.Total, CoreJiffies.counters, UInt64.toNat_add, List.map_cons, List.map_nil, List.sum_cons,
    List.sum_nil]
  omega

theorem Total_lt (bounded : c.Bounded) : c.Total.toNat < 2 ^ 63 := by
  rw [Total_toNat bounded]
  simp only [CoreJiffies.Bounded, CoreJiffies.counters, List.forall_mem_cons] at bounded
  obtain ⟨_, _, _, _, _, _, _, _, -⟩ := bounded
  simp only [CoreJiffies.counters, List.map_cons, List.map_nil, List.sum_cons, List.sum_nil]
  omega

theorem deltaTotal_toNat (more : p.Total < c.Total) :
    (deltaTotal c p).toNat = c.Total.toNat - p.Total.toNat ∧ 0 < (deltaTotal c p).toNat := by
  have step := UInt64.toNat_sub_of_le _ _ (UInt64.le_of_lt more)
  rw [UInt64.lt_iff_toNat_lt] at more
  have nonzero : c.Total - p.Total ≠ 0 := by
    intro none
    rw [none, UInt64.toNat_zero] at step
    omega
  rw [deltaTotal, if_neg nonzero, step]
  omega

/-- A share of at most 100 comes from a counter that has not moved backwards. -/
theorem le_of_pct_le {dt cv pv : UInt64} (positive : 0 < dt.toNat) (small : dt.toNat < 2 ^ 63)
    (before : pv.toNat < 2 ^ 60) (share : (pct dt cv pv : ℚ) ≤ 100) : pv ≤ cv := by
  by_contra less
  have less := UInt64.not_le.mp less
  rw [UInt64.lt_iff_toNat_lt] at less
  have wrapped : dt.toNat < (cv - pv).toNat := by
    rw [UInt64.toNat_sub]
    omega
  have positive : (0 : ℚ) < dt.toNat := by exact_mod_cast positive
  have wrapped : (dt.toNat : ℚ) < (cv - pv).toNat := by exact_mod_cast wrapped
  rw [pct, div_le_iff₀ positive] at share
  norm_num at share
  linarith

/-! ## Percentages -/

/-- The value of a field that holds a `double`. -/
def share (rec : Record ℚ) (field : Bytes) : ℚ :=
  match rec.GetField field with
  | some (.double x) => x
  | _ => 0

/-- Every share is there and between 0 and 100, and the eight states have all of the time. -/
structure Percentages (rec : Record ℚ) : Prop where
  within : ∀ field ∈ pctFields, ∃ x, rec.GetField field = some (.double x) ∧ 0 ≤ x ∧ x ≤ 100
  sum : (stateFields.map (share rec)).sum = 100

theorem pct_nonneg (dt cv pv : UInt64) : (0 : ℚ) ≤ pct dt cv pv := by
  unfold pct
  positivity

theorem pct_le {dt cv pv : UInt64} (positive : 0 < dt.toNat) (part : (cv - pv).toNat ≤ dt.toNat) :
    (pct dt cv pv : ℚ) ≤ 100 := by
  have positive : (0 : ℚ) < dt.toNat := by exact_mod_cast positive
  have part : ((cv - pv).toNat : ℚ) ≤ dt.toNat := by exact_mod_cast part
  rw [pct, div_le_iff₀ positive]
  norm_num
  linarith

/-- How much each counter has grown. -/
def growth (now before : List UInt64) : List ℕ := List.zipWith (fun cv pv => (cv - pv).toNat) now before

theorem growth_cons (cv pv : UInt64) (now before : List UInt64) :
    growth (cv :: now) (pv :: before) = (cv - pv).toNat :: growth now before := rfl

theorem growth_sum {now before : List UInt64} (none : List.Forall₂ (fun cv pv => pv ≤ cv) now before) :
    (growth now before).sum + (before.map UInt64.toNat).sum = (now.map UInt64.toNat).sum := by
  induction none with
  | nil => rfl
  | cons below _ ih =>
    rw [growth_cons, List.sum_cons, List.map_cons, List.sum_cons, List.map_cons, List.sum_cons, ← ih,
      UInt64.toNat_sub_of_le _ _ below]
    rw [UInt64.le_iff_toNat_le] at below
    omega

theorem forall₂_of_growth {now before : List UInt64} {dt : UInt64} (positive : 0 < dt.toNat)
    (small : dt.toNat < 2 ^ 63) (length : now.length = before.length) (bounded : ∀ n ∈ before, n.toNat < 2 ^ 60)
    (shares : ∀ x ∈ List.zipWith (pct dt) now before, x ≤ (100 : ℚ)) :
    List.Forall₂ (fun cv pv => pv ≤ cv) now before := by
  induction now generalizing before with
  | nil =>
    cases before with
    | nil => exact .nil
    | cons => exact absurd length.symm (Nat.succ_ne_zero _)
  | cons cv now ih =>
    cases before with
    | nil => exact absurd length (Nat.succ_ne_zero _)
    | cons pv before =>
      rw [List.zipWith_cons_cons, List.forall_mem_cons] at shares
      rw [List.forall_mem_cons] at bounded
      exact .cons (le_of_pct_le positive small bounded.1 shares.1) (ih (Nat.succ.inj length) bounded.2 shares.2)

theorem pct_sum (dt : UInt64) (now before : List UInt64) :
    (List.zipWith (pct dt) now before : List ℚ).sum = 100 * ((growth now before).sum : ℚ) / dt.toNat := by
  induction now generalizing before with
  | nil => simp [growth]
  | cons cv now ih =>
    cases before with
    | nil => simp [growth]
    | cons pv before =>
      rw [List.zipWith_cons_cons, List.sum_cons, ih, growth_cons, List.sum_cons, pct]
      push_cast
      ring

theorem shares_within {dt : UInt64} {now before : List UInt64} (positive : 0 < dt.toNat)
    (part : (growth now before).sum ≤ dt.toNat) : ∀ x ∈ List.zipWith (pct dt) now before, 0 ≤ x ∧ x ≤ (100 : ℚ) := by
  induction now generalizing before with
  | nil => exact nofun
  | cons cv now ih =>
    cases before with
    | nil => exact nofun
    | cons pv before =>
      rw [growth_cons, List.sum_cons] at part
      rw [List.zipWith_cons_cons, List.forall_mem_cons]
      exact ⟨⟨pct_nonneg .., pct_le positive (by omega)⟩, ih (by omega)⟩

theorem share_of_mem {key : Bytes} {x : ℚ} (member : (key, .double x) ∈ coreFields config c p ema) :
    share (coreRecord config c p ema) key = x := by
  rw [share, coreRecord_field member]

/-- The fields of the states, with the shares of the counters. -/
def stateShares (c p : CoreJiffies) : List (Bytes × ℚ) :=
  stateFields.zip (List.zipWith (pct (deltaTotal c p)) c.counters p.counters)

theorem mem_coreFields {entry : Bytes × ℚ} (member : entry ∈ stateShares c p) :
    (entry.1, .double entry.2) ∈ coreFields config c p ema := by
  have first : (stateShares c p).map (fun entry => (entry.1, FieldValue.double entry.2)) =
      (coreFields config c p ema).take 8 := rfl
  refine List.mem_of_mem_take (i := 8) ?_
  rw [← first]
  exact List.mem_map_of_mem member

theorem stateFields_shares : stateFields.map (share (coreRecord config c p ema)) =
    List.zipWith (pct (deltaTotal c p)) c.counters p.counters := by
  change (stateShares c p).map (fun entry => share _ entry.1) = (stateShares c p).map fun entry => entry.2
  exact List.map_congr_left fun entry member => share_of_mem (mem_coreFields member)

theorem Busy_toNat (bounded : c.Bounded) : c.Busy.toNat + c.idle.toNat + c.iowait.toNat = c.Total.toNat := by
  have total := Total_toNat bounded
  have small := Total_lt bounded
  simp only [CoreJiffies.counters, List.map_cons, List.map_nil, List.sum_cons, List.sum_nil] at total
  rw [CoreJiffies.Busy, UInt64.toNat_sub, UInt64.toNat_sub]
  omega

theorem Busy_part (now : c.Bounded) (before : p.Bounded) (none : NoneDecreases c p) :
    (c.Busy - p.Busy).toNat ≤ c.Total.toNat - p.Total.toNat := by
  have busyNow := Busy_toNat now
  have busyBefore := Busy_toNat before
  have totalNow := Total_toNat now
  have totalBefore := Total_toNat before
  have small := Total_lt now
  simp only [NoneDecreases, CoreJiffies.counters, List.forall₂_cons, UInt64.le_iff_toNat_le] at none
  obtain ⟨_, _, _, _, _, _, _, _, -⟩ := none
  simp only [CoreJiffies.counters, List.map_cons, List.map_nil, List.sum_cons, List.sum_nil] at totalNow totalBefore
  rw [UInt64.toNat_sub]
  omega

/-- The shares of a core are percentages where no counter has moved backwards, and only there. -/
theorem coreRecord_percentages (now : c.Bounded) (before : p.Bounded) (more : p.Total < c.Total) :
    Percentages (coreRecord config c p ema) ↔ NoneDecreases c p := by
  obtain ⟨delta, positive⟩ := deltaTotal_toNat more
  have small := Total_lt now
  constructor
  · intro percentages
    refine forall₂_of_growth positive (by omega) rfl before ?_
    rw [← @stateFields_shares config c p ema, List.forall_mem_map]
    intro field member
    obtain ⟨x, found, -, below⟩ := percentages.within field (List.mem_append_left _ member)
    rw [share, found]
    exact below
  · intro none
    have sum := growth_sum none
    rw [← Total_toNat now, ← Total_toNat before] at sum
    have grown : (growth c.counters p.counters).sum = (deltaTotal c p).toNat := by omega
    refine ⟨fun field member => ?_, ?_⟩
    · rcases List.mem_append.mp member with state | busy
      · have named : stateFields = (stateShares c p).map Prod.fst := rfl
        rw [named] at state
        obtain ⟨entry, listed, rfl⟩ := List.mem_map.mp state
        have shares : List.zipWith (pct (deltaTotal c p)) c.counters p.counters = (stateShares c p).map Prod.snd := rfl
        have within := shares_within positive grown.le
        rw [shares, List.forall_mem_map] at within
        exact ⟨_, coreRecord_field (mem_coreFields listed), within entry listed⟩
      · obtain rfl := List.mem_singleton.mp busy
        have held : (ascii "busy_pct", .double (pct (deltaTotal c p) c.Busy p.Busy)) ∈ coreFields config c p ema :=
          List.mem_append_left _ (by simp)
        exact ⟨_, coreRecord_field held, pct_nonneg .., pct_le positive (delta ▸ Busy_part now before none)⟩
    · rw [stateFields_shares, pct_sum, grown]
      have nonzero : ((deltaTotal c p).toNat : ℚ) ≠ 0 := by exact_mod_cast positive.ne'
      field_simp

end CpuUtilization

end Illuminator
