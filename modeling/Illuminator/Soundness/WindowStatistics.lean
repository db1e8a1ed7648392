import Illuminator.Soundness.RecordSeries
import Illuminator.ToMathlib.Interpolation
import Mathlib.Data.List.Sort
import Mathlib.Data.Rat.Floor
import Mathlib.Tactic.NormNum

/-! # Statistics of a window

The aggregator sorts the values of a series and reads its statistics from the sorted list: the least and the
greatest value, the mean, and two percentiles between neighbouring values. Sorting leaves no trace of the order
in which the values came, and with it the statistics of a flush none of the order of the window's batches.
-/

namespace Illuminator

open CpuStatsAggregator Interpolation

/-- The rank of a percentile among `size` values. -/
def rankOf (size : ℕ) (pct : ℚ) : ℚ := pct * (size - 1 : ℕ)

/-- What the statistics of values are, whichever order the values are in. -/
structure Summarised (vals : List ℚ) : Prop where
  sorted : (sort vals).Perm vals ∧ (sort vals).Pairwise (· ≤ ·)
  ordered : (ComputeStats vals).min ≤ (ComputeStats vals).p50 ∧ (ComputeStats vals).p50 ≤ (ComputeStats vals).p99 ∧
    (ComputeStats vals).p99 ≤ (ComputeStats vals).max
  averaged : (ComputeStats vals).min ≤ (ComputeStats vals).avg ∧ (ComputeStats vals).avg ≤ (ComputeStats vals).max
  median : (ComputeStats vals).p50 = interpolate (sort vals) (1 / 2 * (vals.length - 1 : ℕ))
  percentile : (ComputeStats vals).p99 = interpolate (sort vals) (99 / 100 * (vals.length - 1 : ℕ))
  inside : ∀ pct ∈ ([Double.half, Double.p99] : List ℚ),
    (neighbours vals.length pct).1 < vals.length ∧ (neighbours vals.length pct).2 < vals.length
  permuted : ∀ other : List ℚ, other.Perm vals → ComputeStats other = ComputeStats vals

/-! ## Sorting -/

theorem sort_perm (vals : List ℚ) : (sort vals).Perm vals := List.mergeSort_perm _ _

theorem sort_sorted (vals : List ℚ) : (sort vals).Pairwise (· ≤ ·) := by
  have order := @List.pairwise_mergeSort ℚ (fun left right => !Double.lt right left)
    (fun first second third => by simpa [Double.lt] using le_trans)
    (fun first second => by simpa [Double.lt] using le_total first second) vals
  exact order.imp fun {first second} below => by simpa [Double.lt] using below

/-- Sorting forgets the order. -/
theorem sort_congr {vals other : List ℚ} (perm : other.Perm vals) : sort other = sort vals :=
  (((sort_perm other).trans perm).trans (sort_perm vals).symm).eq_of_pairwise' (sort_sorted other) (sort_sorted vals)

theorem sort_length (vals : List ℚ) : (sort vals).length = vals.length := (sort_perm vals).length_eq

theorem sort_nonempty {vals : List ℚ} (nonempty : vals ≠ []) : sort vals ≠ [] := by
  intro empty
  have size := sort_length vals
  rw [empty] at size
  exact nonempty (List.length_eq_zero_iff.mp size.symm)

theorem computeStats_congr {vals other : List ℚ} (perm : other.Perm vals) : ComputeStats other = ComputeStats vals := by
  rw [ComputeStats, ComputeStats, sort_congr perm, perm.isEmpty_eq]

/-! ## Percentiles -/

theorem neighbours_eq (size : ℕ) (pct : ℚ) : neighbours size pct = (⌊rankOf size pct⌋₊, ⌈rankOf size pct⌉₊) := by
  change ((rankOf size pct).floor.toNat, (rankOf size pct).ceil.toNat) = _
  rw [Rat.ceil_eq_neg_floor_neg, ← Int.floor_toNat, ← Int.ceil_toNat]
  rfl

theorem rank_bounds {size : ℕ} {pct : ℚ} (nonnegative : 0 ≤ pct) (most : pct ≤ 1) :
    0 ≤ rankOf size pct ∧ rankOf size pct ≤ (size - 1 : ℕ) :=
  ⟨mul_nonneg nonnegative (Nat.cast_nonneg _), mul_le_of_le_one_left (Nat.cast_nonneg _) most⟩

/-- Both neighbours of a rank are indices. -/
theorem neighbours_inside {size : ℕ} {pct : ℚ} (filled : 0 < size) (nonnegative : 0 ≤ pct) (most : pct ≤ 1) :
    (neighbours size pct).1 < size ∧ (neighbours size pct).2 < size := by
  have last : rankOf size pct ≤ (size - 1 : ℕ) := (rank_bounds nonnegative most).2
  have upper : ⌈rankOf size pct⌉₊ ≤ size - 1 := Nat.ceil_le.mpr last
  have lower := Nat.floor_le_ceil (rankOf size pct)
  rw [neighbours_eq]
  constructor
  · change ⌊rankOf size pct⌋₊ < size
    omega
  · change ⌈rankOf size pct⌉₊ < size
    omega

/-- A percentile is the value at its rank. -/
theorem percentile_eq {ranked : List ℚ} {pct : ℚ} (nonempty : ranked ≠ []) (nonnegative : 0 ≤ pct) (most : pct ≤ 1) :
    Percentile ranked pct = interpolate ranked (rankOf ranked.length pct) := by
  have positive : 0 ≤ rankOf ranked.length pct := (rank_bounds nonnegative most).1
  obtain ⟨_, upper⟩ := neighbours_inside (List.length_pos_iff.mpr nonempty) nonnegative most
  rw [Percentile, if_neg (by simpa using nonempty)]
  rw [neighbours_eq] at upper ⊢
  change (if _ = _ ∨ _ then _ else _) = _
  have floor := Nat.floor_le positive
  split_ifs with meet
  · have whole : ⌊rankOf ranked.length pct⌋₊ = ⌈rankOf ranked.length pct⌉₊ := meet.resolve_right (not_le.mpr upper)
    have same : rankOf ranked.length pct = ⌊rankOf ranked.length pct⌋₊ := by
      refine le_antisymm ?_ floor
      rw [whole]
      exact Nat.le_ceil _
    rw [same, interpolate_natCast, Nat.floor_natCast]
    rfl
  · have next : ⌈rankOf ranked.length pct⌉₊ = ⌊rankOf ranked.length pct⌋₊ + 1 := by
      have above := Nat.ceil_le_floor_add_one (rankOf ranked.length pct)
      have below := Nat.floor_le_ceil (rankOf ranked.length pct)
      omega
    have mixed (lower upper part : ℚ) : lower * (1 - part) + upper * part = lower + part * (upper - lower) := by ring
    rw [next]
    exact mixed _ _ _

/-- A greater percentile is a greater value. -/
theorem percentile_mono {vals : List ℚ} {pct later : ℚ} (nonempty : vals ≠ []) (nonnegative : 0 ≤ pct)
    (order : pct ≤ later) (most : later ≤ 1) : Percentile (sort vals) pct ≤ Percentile (sort vals) later := by
  have filled := sort_nonempty nonempty
  rw [percentile_eq filled nonnegative (order.trans most), percentile_eq filled (nonnegative.trans order) most]
  exact interpolate_mono (sort_sorted vals) filled (rank_bounds nonnegative (order.trans most)).1
    (mul_le_mul_of_nonneg_right order (Nat.cast_nonneg _)) (rank_bounds (nonnegative.trans order) most).2

/-- The percentiles begin at the first sorted value and end at the last. -/
theorem percentile_ends {vals : List ℚ} (nonempty : vals ≠ []) :
    Percentile (sort vals) 0 = (sort vals).getD 0 0 ∧
      Percentile (sort vals) 1 = (sort vals).getD ((sort vals).length - 1) 0 := by
  have filled := sort_nonempty nonempty
  rw [percentile_eq filled (le_refl _) zero_le_one, percentile_eq filled zero_le_one (le_refl _), rankOf, rankOf,
    zero_mul, one_mul, interpolate_natCast]
  have first := interpolate_natCast (sort vals) 0
  rw [Nat.cast_zero] at first
  exact ⟨first, rfl⟩

/-! ## The statistics -/

/-- The statistics, read from the sorted values. -/
theorem computeStats_eq {vals : List ℚ} (nonempty : vals ≠ []) : ComputeStats vals =
    { min := (sort vals).getD 0 0
      max := (sort vals).getD ((sort vals).length - 1) 0
      avg := (sort vals).sum / (sort vals).length
      p50 := Percentile (sort vals) (1 / 2)
      p99 := Percentile (sort vals) (99 / 100) } := by
  have filled := sort_nonempty nonempty
  have first : (sort vals).headD 0 = (sort vals).getD 0 0 := by cases sort vals <;> rfl
  have last : (sort vals).getLastD 0 = (sort vals).getD ((sort vals).length - 1) 0 := by
    rw [List.getLastD_eq_getLast?, List.getLast?_eq_getElem?, List.getD_eq_getElem?_getD]
  have total : (sort vals).foldl (· + ·) 0 = (sort vals).sum := List.sum_eq_foldl.symm
  rw [ComputeStats, if_neg (by simpa using nonempty), ← first, ← last, ← total]
  rfl

theorem summarised {vals : List ℚ} (nonempty : vals ≠ []) : Summarised vals := by
  have filled := sort_nonempty nonempty
  obtain ⟨first, last⟩ := percentile_ends nonempty
  have middle : (1 / 2 : ℚ) ≤ 99 / 100 := by norm_num
  have most : (99 / 100 : ℚ) ≤ 1 := by norm_num
  have least : (0 : ℚ) ≤ 1 / 2 := by norm_num
  have size := List.length_pos_iff.mpr nonempty
  constructor
  case sorted => exact ⟨sort_perm vals, sort_sorted vals⟩
  case ordered =>
    rw [computeStats_eq nonempty, ← first, ← last]
    exact ⟨percentile_mono nonempty (le_refl _) least (middle.trans most), percentile_mono nonempty least middle most,
      percentile_mono nonempty (least.trans middle) most (le_refl _)⟩
  case averaged =>
    rw [computeStats_eq nonempty]
    exact mean_bounds (sort_sorted vals) filled
  case median =>
    rw [computeStats_eq nonempty, ← sort_length vals]
    exact percentile_eq filled least (middle.trans most)
  case percentile =>
    rw [computeStats_eq nonempty, ← sort_length vals]
    exact percentile_eq filled (least.trans middle) most
  case inside =>
    intro pct listed
    rcases List.mem_pair.mp listed with rfl | rfl
    · exact neighbours_inside size least (middle.trans most)
    · exact neighbours_inside size (least.trans middle) most
  case permuted =>
    intro other perm
    exact computeStats_congr perm

/-! ## Flushed statistics -/

section Window

variable (merger : StackMergerProcessor) {arrivals others : List (Arrival ℚ)}

/-- The values of a key's records are those of the other window, in another order. -/
theorem groupValues_perm (perm : arrivals.Perm others) (key fname : Bytes) :
    (groupValues ((addedRecords merger arrivals).filter fun rec => MakeRecordKey rec = key) fname).Perm
      (groupValues ((addedRecords merger others).filter fun rec => MakeRecordKey rec = key) fname) :=
  ((perm.flatMap_right _).filter _).filterMap _

theorem statFields_perm {values permuted : List ℚ} (perm : values.Perm permuted) (fname : Bytes) :
    statFields fname values = statFields fname permuted := by
  rw [statFields, statFields, perm.isEmpty_eq, perm.length_eq, computeStats_congr perm]

/-- Entries of one key in windows with the same arrivals have the same series, up to order. -/
theorem series_perm (perm : arrivals.Perm others) {entry other : Sigma fun _ : Bytes => RecordSeries ℚ}
    (member : entry ∈ (window merger arrivals).record_buffer_.entries)
    (otherMember : other ∈ (window merger others).record_buffer_.entries) (same : entry.1 = other.1)
    {series : Sigma fun _ : Bytes => List ℚ} (kept : series ∈ entry.2.field_values.entries) :
    ∃ twin ∈ other.2.field_values.entries, statFields twin.1 twin.2 = statFields series.1 series.2 := by
  have found := AList.mem_lookup_iff.mpr kept
  have values := groupValues_perm merger perm entry.1 series.1
  rw [Option.mem_def, (record_entry merger arrivals member).2, stored] at found
  split_ifs at found with empty
  have held := Option.some.inj found
  have twin := (record_entry merger others otherMember).2 series.1
  rw [← same, stored, if_neg (by rwa [← values.isEmpty_eq])] at twin
  exact ⟨⟨series.1, _⟩, AList.mem_lookup_iff.mp twin, by rw [← held, statFields_perm values]⟩

/-- A flushed record has its twin, with the same fields, in the flush of the same arrivals in another order. -/
theorem flushed_perm (perm : arrivals.Perm others) (order otherOrder : FlushOrder ℚ) {rec : Record ℚ}
    (flushed : rec ∈ ((window merger arrivals).Flush order).1.flatMap DataBatch.records) :
    ∃ twin ∈ ((window merger others).Flush otherOrder).1.flatMap DataBatch.records,
      MakeRecordKey twin = MakeRecordKey rec ∧ ∀ name, twin.GetField name = rec.GetField name := by
  obtain ⟨entry, member, rfl⟩ := (mem_flush_records merger arrivals order).mp flushed
  obtain ⟨⟨one, added, key, labels⟩, _⟩ := record_entry merger arrivals member
  have otherAdded : one ∈ addedRecords merger others := (perm.flatMap_right _).mem_iff.mp added
  obtain ⟨other, otherMember, otherKey⟩ := AList.exists_entry_of_mem MakeRecordKey addRecord otherAdded
  obtain ⟨⟨two, _, twoKey, twoLabels⟩, _⟩ := record_entry merger others otherMember
  have same : entry.1 = other.1 := key.symm.trans otherKey.symm
  refine ⟨_, (mem_flush_records merger others otherOrder).mpr ⟨other, otherMember, rfl⟩, ?_, fun name => ?_⟩
  · have twin : MakeRecordKey (flushRecord otherOrder other) = MakeRecordKey two := makeRecordKey_congr twoLabels.symm
    have own : MakeRecordKey (flushRecord order entry) = MakeRecordKey one := makeRecordKey_congr labels.symm
    rw [twin, own, twoKey, key, same]
  · refine Option.ext fun value => ?_
    rw [flushRecord_fields, flushRecord_fields]
    constructor
    · rintro ⟨series, kept, set⟩
      obtain ⟨twin, twinKept, fields⟩ := series_perm merger perm.symm otherMember member same.symm kept
      exact ⟨twin, twinKept, by rwa [fields]⟩
    · rintro ⟨series, kept, set⟩
      obtain ⟨twin, twinKept, fields⟩ := series_perm merger perm member otherMember same kept
      exact ⟨twin, twinKept, by rwa [fields]⟩

end Window

/-- **Window statistics.** The statistics of a non-empty list of values lie in order, the percentiles are
interpolated between sorted neighbours inside the list, and no order of the values is told apart. Windows of
runs to which the same arrivals came, in any orders, flush records with the same keys and the same statistics. -/
theorem window_statistics : (∀ vals : List ℚ, vals ≠ [] → Summarised vals) ∧
    ∀ (merger : StackMergerProcessor) (operations others : List (Operation ℚ)),
      ∀ w ∈ (Session.run merger operations).flushed, ∀ v ∈ (Session.run merger others).flushed,
        w.arrivals.Perm v.arrivals → ∀ rec ∈ w.records, ∃ twin ∈ v.records,
          MakeRecordKey twin = MakeRecordKey rec ∧ ∀ name, twin.GetField name = rec.GetField name := by
  refine ⟨fun vals nonempty => summarised nonempty, ?_⟩
  intro merger operations others w ended v otherEnded perm rec flushed
  obtain ⟨order, batches⟩ := (Session.run_recorded merger operations).flushed w ended
  obtain ⟨otherOrder, otherBatches⟩ := (Session.run_recorded merger others).flushed v otherEnded
  rw [Window.records, batches] at flushed
  rw [Window.records, otherBatches]
  exact flushed_perm merger perm order otherOrder flushed

/-- The statistics of four values that came out of order. -/
theorem window_statistics_four : [8, 2, 4, 6] ≠ ([] : List ℚ) ∧ Summarised [8, 2, 4, 6] :=
  ⟨by decide, window_statistics.1 [8, 2, 4, 6] (by decide)⟩

end Illuminator
