import Illuminator.Model.InternalMetrics
import Illuminator.Standards.PrometheusText
import Mathlib.Algebra.BigOperators.Group.List.Basic
import Mathlib.Algebra.Group.Action.Defs
import Mathlib.Algebra.GroupWithZero.Nat
import Mathlib.Algebra.Order.BigOperators.Group.List

/-! # The page of self-metrics

The names of the engine's gauges are its own, but for the pipelines' names inside. A `TYPE` line stands before each
sample and shows the name once more, so a name that is none of Prometheus breaks the page whatever it is made of, and
a page whose names are all legal has each series once. Latencies are summed up in 64 bits.
-/

namespace Illuminator

namespace InternalMetrics

open PrometheusText

variable {D : Type}

/-- The page is read, and is well formed. -/
def Exposed (numbers : Numbers D) (order : ExportOrder D) (m : InternalMetrics D) : Prop :=
  ∃ lines, page numbers.parse (m.ExportPrometheus numbers.text order) = some lines ∧ WellFormed lines

/-! ## The engine's gauges -/

/-- Calls that set gauges leave the other maps empty. -/
theorem run_gauges {calls : List (Call D)} (gauges : ∀ call ∈ calls, ∃ name value, call = .SetGauge name value) :
    (run calls).counters_ = ∅ ∧ (run calls).histograms_ = ∅ ∧
      ∀ name, name ∈ (run calls).gauges_ ↔ ∃ value, .SetGauge name value ∈ calls := by
  induction calls using List.reverseRecOn with
  | nil => exact ⟨rfl, rfl, fun name => by simp [run, AList.notMem_empty]⟩
  | append_singleton calls call ih =>
    obtain ⟨counters, histograms, names⟩ := ih fun call member => gauges call (List.mem_append_left _ member)
    obtain ⟨name, value, rfl⟩ := gauges call (List.mem_append_right _ List.mem_cons_self)
    have last : run (calls ++ [.SetGauge name value]) = (run calls).SetGauge name value := by
      rw [run, List.foldl_append]
      rfl
    rw [last]
    refine ⟨counters, histograms, fun other => ?_⟩
    change other ∈ (run calls).gauges_.insert name value ↔ _
    rw [AList.mem_insert, names]
    simp only [List.mem_append, List.mem_singleton, Call.SetGauge.injEq, exists_or]
    constructor
    · rintro (rfl | before)
      · exact Or.inr ⟨value, rfl, rfl⟩
      · exact Or.inl before
    · rintro (before | ⟨_, rfl, _⟩)
      · exact Or.inr before
      · exact Or.inl rfl

theorem EngineCall.of_pipeline {cfg : GlobalConfig} {call : EngineCall D cfg} {p : PipelineConfig}
    (reports : p ∈ call.pipeline) : ∃ s listed, call = .syncChannel p listed s := by
  cases call with
  | syncMetrics fires active collect sink => cases reports
  | Check rss_bytes => cases reports
  | syncChannel q listed s =>
    cases reports
    exact ⟨s, listed, rfl⟩

/-- The engine sets gauges, and every name that it uses, but for the pipelines', is made of the characters of names. -/
theorem engine_calls {cfg : GlobalConfig} (call : EngineCall D cfg) :
    ∀ one ∈ call.calls, ∃ name value, one = .SetGauge name value ∧
      ((∀ p ∈ call.pipeline, ∀ c ∈ utf8 p.name, isMetricChar c = true) → ∀ c ∈ name, isMetricChar c = true) := by
  cases call with
  | syncMetrics fires active collect sink =>
    intro one member
    simp only [EngineCall.calls, List.mem_append, List.mem_cons, List.not_mem_nil, or_false, Option.mem_toList,
      Option.map_eq_some_iff] at member
    rcases member with ((rfl | rfl) | ⟨tasks, _, rfl⟩) | ⟨tasks, _, rfl⟩
    · exact ⟨_, _, rfl, fun _ => by decide⟩
    · exact ⟨_, _, rfl, fun _ => by decide⟩
    · exact ⟨_, _, rfl, fun _ => by decide⟩
    · exact ⟨_, _, rfl, fun _ => by decide⟩
  | Check rss_bytes =>
    intro one member
    obtain rfl := List.mem_singleton.mp member
    exact ⟨_, _, rfl, fun _ => by decide⟩
  | syncChannel p listed s =>
    have named {suffix : Bytes} (clean : ∀ c ∈ suffix, isMetricChar c = true)
        (legal : ∀ q ∈ (EngineCall.syncChannel p listed s).pipeline, ∀ c ∈ utf8 q.name, isMetricChar c = true) :
        ∀ c ∈ channelPrefix (utf8 p.name) ++ suffix, isMetricChar c = true := by
      intro c member
      rw [channelPrefix, List.mem_append, List.mem_append, List.mem_append] at member
      rcases member with ((front | inside) | back) | last
      · exact (by decide : ∀ c ∈ ascii "pipeline_", isMetricChar c = true) c front
      · exact legal p rfl c inside
      · exact (by decide : ∀ c ∈ ascii "_channel_", isMetricChar c = true) c back
      · exact clean c last
    intro one member
    simp only [EngineCall.calls, SyncChannelMetrics, List.mem_cons, List.not_mem_nil, or_false] at member
    rcases member with rfl | rfl | rfl | rfl | rfl | rfl | rfl
    · exact ⟨_, _, rfl, named (by decide)⟩
    · exact ⟨_, _, rfl, named (by decide)⟩
    · exact ⟨_, _, rfl, named (by decide)⟩
    · exact ⟨_, _, rfl, named (by decide)⟩
    · exact ⟨_, _, rfl, named (by decide)⟩
    · exact ⟨_, _, rfl, named (by decide)⟩
    · exact ⟨_, _, rfl, named (by decide)⟩

/-! ## Illegal names -/

/-- A blank in a name makes another token of what follows, and the kind is not the last one. -/
theorem kind_followed (before after : Bytes) {blank : UInt8} (stops : isBlank blank = true) :
    skip (token (skip (token (ascii "illuminator_pipeline_" ++ (before ++ blank :: after ++
      (ascii "_channel_size" ++ 0x20 :: ascii "gauge")))).2)).2 ≠ [] := by
  have whole : ascii "illuminator_pipeline_" ++ (before ++ blank :: after ++
      (ascii "_channel_size" ++ 0x20 :: ascii "gauge")) =
      (ascii "illuminator_pipeline_" ++ before) ++ blank :: (after ++ 0x5F ::
        (ascii "channel_size" ++ 0x20 :: ascii "gauge")) := by
    simp only [List.append_assoc, List.cons_append]
    rfl
  obtain ⟨first, name⟩ := token_rest stops (ascii "illuminator_pipeline_" ++ before)
    (after ++ 0x5F :: (ascii "channel_size" ++ 0x20 :: ascii "gauge"))
  have inner : first ++ blank :: (after ++ 0x5F :: (ascii "channel_size" ++ 0x20 :: ascii "gauge")) =
      (first ++ blank :: after) ++ 0x5F :: (ascii "channel_size" ++ 0x20 :: ascii "gauge") := by
    rw [List.append_assoc, List.cons_append]
  obtain ⟨second, skipped⟩ := skip_rest (by decide : isBlank 0x5F = false) (first ++ blank :: after)
    (ascii "channel_size" ++ 0x20 :: ascii "gauge")
  have next : second ++ 0x5F :: (ascii "channel_size" ++ 0x20 :: ascii "gauge") =
      (second ++ 0x5F :: ascii "channel_size") ++ 0x20 :: ascii "gauge" := by
    rw [List.append_assoc, List.cons_append]
  obtain ⟨third, kind⟩ := token_rest (by decide : isBlank 0x20 = true) (second ++ 0x5F :: ascii "channel_size")
    (ascii "gauge")
  have last : third ++ 0x20 :: ascii "gauge" = (third ++ [0x20]) ++ 0x67 :: ascii "auge" := by
    rw [List.append_assoc]
    rfl
  obtain ⟨fourth, more⟩ := skip_rest (by decide : isBlank 0x67 = false) (third ++ [0x20]) (ascii "auge")
  rw [whole, name, inner, skipped, next, kind, last, more]
  exact List.append_ne_nil_of_right_ne_nil _ (List.cons_ne_nil _ _)

/-- A name whose `TYPE` line and sample can be read is legal, though what is inside of it may be anything. -/
theorem legal_of_rows (numbers : Numbers D) {name value : Bytes}
    (read : ∀ row ∈ plainRows (ascii "gauge") (channelPrefix name ++ ascii "size") value,
      ∀ part ∈ row.splitOn 0x0A, (line numbers.parse part).isSome = true) :
    ∀ c ∈ name, isMetricChar c = true := by
  have front : MetricName (ascii "illuminator_pipeline_") = true := by decide
  have typed := read _ List.mem_cons_self
  have shown := read _ (List.mem_cons_of_mem _ List.mem_cons_self)
  have typeRow : ascii "# TYPE " ++ (ascii "illuminator_" ++ (channelPrefix name ++ ascii "size") ++ 0x20 ::
      ascii "gauge") = ascii "# TYPE " ++ (ascii "illuminator_pipeline_" ++ name) ++
        (ascii "_channel_size" ++ 0x20 :: ascii "gauge") := by
    simp only [channelPrefix, List.append_assoc]
    rfl
  have sampleRow : ascii "illuminator_" ++ (channelPrefix name ++ ascii "size") ++ 0x20 :: value =
      ascii "illuminator_pipeline_" ++ name ++ (ascii "_channel_size" ++ 0x20 :: value) := by
    simp only [channelPrefix, List.append_assoc]
    rfl
  rw [typeRow] at typed
  rw [sampleRow] at shown
  by_cases broken : 0x0A ∈ name
  · obtain ⟨before, after, rfl, unbroken⟩ := List.eq_append_cons_of_mem broken
    have cut (start rest : Bytes) (clean : 0x0A ∉ start) :
        start ++ before ∈ (start ++ (before ++ 0x0A :: after) ++ rest).splitOn 0x0A := by
      have apart : start ++ (before ++ 0x0A :: after) ++ rest = (start ++ before) ++ 0x0A :: (after ++ rest) := by simp
      rw [apart, List.splitOn_append_cons_self_of_not_mem (by simp [clean, unbroken])]
      exact List.mem_cons_self
    have first := typed _ (List.append_assoc _ _ _ ▸ cut (ascii "# TYPE " ++ ascii "illuminator_pipeline_") _ (by decide))
    have second := shown _ (cut (ascii "illuminator_pipeline_") _ (by decide))
    have skipped : skip (ascii "illuminator_pipeline_" ++ before) = ascii "illuminator_pipeline_" ++ before := rfl
    rw [List.append_assoc, line_type_eq, skipped] at first
    split_ifs at first with found
    · obtain ⟨parts, blank⟩ := token_split (ascii "illuminator_pipeline_" ++ before)
      rw [parts, line_kind numbers found.1 blank found.2.1] at second
      cases second
    · cases first
  · have whole := typed _ (by
      rw [List.splitOn_eq_singleton (by simp [broken]; decide)]
      exact List.mem_cons_self)
    have skipped (rest : Bytes) : skip (ascii "illuminator_pipeline_" ++ rest) = ascii "illuminator_pipeline_" ++ rest :=
      rfl
    rw [List.append_assoc, List.append_assoc, line_type_eq, skipped] at whole
    split_ifs at whole with found
    · by_cases parted : ∃ c ∈ name, isBlank c = true
      · obtain ⟨c, member, blank⟩ := parted
        obtain ⟨before, after, rfl⟩ := List.append_of_mem member
        exact absurd found.2.2 (kind_followed before after blank)
      · have solid : ∀ c ∈ ascii "illuminator_pipeline_" ++ name ++ ascii "_channel_size", isBlank c = false := by
          intro c member
          rw [List.mem_append, List.mem_append] at member
          rcases member with (first | inside) | last
          · exact (by decide : ∀ c ∈ ascii "illuminator_pipeline_", isBlank c = false) c first
          · exact Bool.eq_false_iff.mpr fun blank => parted ⟨c, inside, blank⟩
          · exact (by decide : ∀ c ∈ ascii "_channel_size", isBlank c = false) c last
        have word := found.1
        rw [← List.append_assoc, ← List.append_assoc, token_append solid (by decide), List.append_assoc] at word
        intro c member
        exact (metricName_append front).mp word c (List.mem_append_left _ member)
    · cases whole

/-! ## Legal names -/

/-- The lines that a gauge is read as. -/
def gaugeLines (numbers : Numbers D) (entry : Sigma fun _ : Bytes => D) : List (Line D) :=
  [.type (ascii "illuminator_" ++ entry.1) (ascii "gauge"),
    .sample (ascii "illuminator_" ++ entry.1) [] (numbers.back entry.2)]

theorem gaugeRows_read (numbers : Numbers D) {entry : Sigma fun _ : Bytes => D}
    (legal : ∀ c ∈ entry.1, isMetricChar c = true) :
    (plainRows (ascii "gauge") entry.1 (numbers.text entry.2)).mapM (line numbers.parse) =
      some (gaugeLines numbers entry) := by
  have named : MetricName (ascii "illuminator_" ++ entry.1) = true := (metricName_append (by decide)).mpr legal
  rw [plainRows, List.mapM_cons, List.mapM_cons, List.mapM_nil, line_type named (by decide), line_sample numbers named]
  rfl

/-- A row of a gauge is a line. -/
theorem gaugeRows_clean (numbers : Numbers D) {entry : Sigma fun _ : Bytes => D}
    (legal : ∀ c ∈ entry.1, isMetricChar c = true) :
    ∀ row ∈ plainRows (ascii "gauge") entry.1 (numbers.text entry.2), 0x0A ∉ row := by
  have named : 0x0A ∉ entry.1 := fun member => absurd (legal _ member) (by decide)
  have written : 0x0A ∉ numbers.text entry.2 := fun member =>
    ((numbers.solid _ (numbers.parses entry.2)).2 _ member).2.1 rfl
  have texts : 0x0A ∉ ascii "# TYPE " ∧ 0x0A ∉ ascii "illuminator_" ∧ 0x0A ∉ ascii "gauge" := by decide
  have blank : (0x0A : UInt8) ≠ 0x20 := by decide
  intro row member
  simp only [plainRows, List.mem_cons, List.not_mem_nil, or_false] at member
  rcases member with rfl | rfl
  · simp only [List.mem_append, List.mem_cons, not_or]
    exact ⟨texts.1, ⟨texts.2.1, named⟩, blank, texts.2.2⟩
  · simp only [List.mem_append, List.mem_cons, not_or]
    exact ⟨⟨texts.2.1, named⟩, blank, written⟩

/-- Gauges of different names have a line for their type and one for their value each. -/
theorem gaugeLines_wellFormed (numbers : Numbers D) {entries : List (Sigma fun _ : Bytes => D)}
    (distinct : (entries.map Sigma.fst).Nodup) : WellFormed (entries.flatMap (gaugeLines numbers)) := by
  have apart : entries.Pairwise fun left right => ascii "illuminator_" ++ left.1 ≠ ascii "illuminator_" ++ right.1 :=
    (List.pairwise_map.mp distinct).imp fun different same => different (List.append_cancel_left same)
  have helped : (entries.flatMap (gaugeLines numbers)).filterMap Line.helped = [] := by
    rw [List.filterMap_flatMap]
    exact List.flatMap_eq_nil_iff.mpr fun entry _ => rfl
  have typed : (entries.flatMap (gaugeLines numbers)).filterMap Line.typed =
      entries.map fun entry => ascii "illuminator_" ++ entry.1 := by
    rw [List.filterMap_flatMap]
    exact List.flatMap_pure_eq_map _ _
  have sampled : (entries.flatMap (gaugeLines numbers)).filterMap Line.sampled =
      entries.map fun entry => (ascii "illuminator_" ++ entry.1, [], numbers.back entry.2) := by
    rw [List.filterMap_flatMap]
    exact List.flatMap_pure_eq_map _ _
  constructor
  · rw [helped]
    exact List.nodup_nil
  · rw [typed]
    exact List.pairwise_map.mpr apart
  · rw [List.pairwise_flatMap]
    refine ⟨fun entry _ => by simp [gaugeLines, Line.typed, Line.sampled], apart.imp fun different => ?_⟩
    intro earlier first later second
    simp only [gaugeLines, List.mem_cons, List.not_mem_nil, or_false] at first second
    rcases first with rfl | rfl
    · intro name _ sample none
      cases none
    · rcases second with rfl | rfl
      · rintro name ⟨⟩ sample ⟨⟩
        exact different
      · intro name none
        cases none
  · rw [sampled]
    rintro sample member
    obtain ⟨entry, _, rfl⟩ := List.mem_map.mp member
    exact List.nodup_nil
  · rw [sampled]
    rintro sample member
    obtain ⟨entry, _, rfl⟩ := List.mem_map.mp member
    exact fun label none => absurd none List.not_mem_nil
  · rw [sampled]
    exact List.pairwise_map.mpr (apart.imp fun different same => different same.1)

/-- Only gauges. -/
theorem rows_of_gauges {text : D → Bytes} {order : ExportOrder D} {m : InternalMetrics D} (counters : m.counters_ = ∅)
    (histograms : m.histograms_ = ∅) : rows text order m =
      (order.gauges.visit m.gauges_).flatMap fun entry => plainRows (ascii "gauge") entry.1 (text entry.2) := by
  have first : order.counters.visit m.counters_ = [] := by
    rw [counters]
    exact List.Perm.eq_nil (order.counters.perm ∅)
  have last : order.histograms.visit m.histograms_ = [] := by
    rw [histograms]
    exact List.Perm.eq_nil (order.histograms.perm ∅)
  rw [rows, first, last, List.flatMap_nil, List.flatMap_nil, List.nil_append, List.append_nil]

theorem engine_flatMap {cfg : GlobalConfig} (engine : List (EngineCall D cfg)) :
    ∀ one ∈ engine.flatMap EngineCall.calls, ∃ name value, one = .SetGauge name value := by
  intro one member
  obtain ⟨call, _, inside⟩ := List.mem_flatMap.mp member
  obtain ⟨name, value, same, _⟩ := engine_calls call one inside
  exact ⟨name, value, same⟩

/-- The page is read exactly when the pipelines that report have legal names. -/
theorem exposed_engine_iff (numbers : Numbers D) (order : ExportOrder D) {cfg : GlobalConfig}
    (engine : List (EngineCall D cfg)) :
    Exposed numbers order (run (engine.flatMap EngineCall.calls)) ↔
      ∀ call ∈ engine, ∀ p ∈ call.pipeline, ∀ c ∈ utf8 p.name, isMetricChar c = true := by
  obtain ⟨counters, histograms, names⟩ := run_gauges (engine_flatMap engine)
  rw [Exposed, ExportPrometheus, rows_of_gauges counters histograms]
  constructor
  · rintro ⟨lines, read, _⟩ call member p reports
    obtain ⟨s, listed, rfl⟩ := EngineCall.of_pipeline reports
    rw [page_pieces] at read
    have each := (List.isSome_mapM _ _).mp (Option.isSome_of_eq_some read)
    have present : channelPrefix (utf8 p.name) ++ ascii "size" ∈
        (run (engine.flatMap EngineCall.calls)).gauges_ := by
      rw [names]
      exact ⟨s.size, List.mem_flatMap.mpr ⟨_, member, List.mem_cons_self⟩⟩
    obtain ⟨entry, inside, named⟩ := List.mem_map.mp (AList.mem_keys.mp present)
    apply legal_of_rows numbers
    intro row shown part cut
    refine each part (List.mem_flatMap.mpr ⟨row, List.mem_flatMap.mpr ⟨entry, ?_, ?_⟩, cut⟩)
    · exact order.gauges.mem_visit.mpr inside
    · rw [← named] at shown
      exact shown
  · intro legal
    have each : ∀ entry ∈ order.gauges.visit (run (engine.flatMap EngineCall.calls)).gauges_,
        ∀ c ∈ entry.1, isMetricChar c = true := by
      intro entry member
      have present := AList.mem_keys.mpr (List.mem_map_of_mem (order.gauges.mem_visit.mp member))
      obtain ⟨value, called⟩ := (names entry.1).mp present
      obtain ⟨call, inside, one⟩ := List.mem_flatMap.mp called
      obtain ⟨name, value', same, clean⟩ := engine_calls call _ one
      cases same
      exact clean (legal call inside)
    refine ⟨_, page_rows ?_ (List.mapM_flatMap_eq_some fun entry member => gaugeRows_read numbers (each entry member)),
      gaugeLines_wellFormed numbers (order.gauges.nodup_visit _)⟩
    intro row member
    obtain ⟨entry, inside, shown⟩ := List.mem_flatMap.mp member
    exact gaugeRows_clean numbers (each entry inside) row shown

/-! ## Latencies -/

def Call.latency (name : Bytes) : Call D → Option UInt64
  | .RecordLatency other us => if other = name then some us else none
  | _ => none

/-- The latencies that calls record under a name. -/
def latencies (name : Bytes) (calls : List (Call D)) : List UInt64 := calls.filterMap (Call.latency name)

/-- What the page says of some latencies: their number, their sum, and bounds on either side of the mean. -/
structure Summarizes (hist : Histogram) (observed : List UInt64) : Prop where
  count : hist.count.toNat = observed.length
  sum : hist.sum.toNat = (observed.map UInt64.toNat).sum
  least : hist.min.toNat * observed.length ≤ (observed.map UInt64.toNat).sum
  greatest : (observed.map UInt64.toNat).sum ≤ hist.max.toNat * observed.length
  average : hist.min ≤ hist.sum / hist.count ∧ hist.sum / hist.count ≤ hist.max

/-- The page has the lines of a name's histogram, and they are right. -/
def Reported (text : D → Bytes) (order : ExportOrder D) (calls : List (Call D)) (name : Bytes) : Prop :=
  ∃ hist, (run calls).histograms_.lookup name = some hist ∧
    (∀ row ∈ histogramRows name hist, row ∈ rows text order (run calls)) ∧ Summarizes hist (latencies name calls)

/-- A name's histogram is the one its latencies make. -/
theorem lookup_histograms (name : Bytes) (calls : List (Call D)) :
    (run calls).histograms_.lookup name = AList.collect addLatency none (latencies name calls) := by
  induction calls using List.reverseRecOn with
  | nil => rfl
  | append_singleton calls call ih =>
    have last : run (calls ++ [call]) = step (run calls) call := by
      rw [run, List.foldl_append]
      rfl
    have parts : latencies name (calls ++ [call]) = latencies name calls ++ (call.latency name).toList := by
      rw [latencies, List.filterMap_append, List.filterMap_cons]
      cases Call.latency name call <;> rfl
    rw [last, parts, AList.collect_append, ← ih]
    cases call with
    | Inc other delta => rfl
    | SetGauge other value => rfl
    | RecordLatency other us =>
      rw [step, RecordLatency, AList.lookup_update, Call.latency]
      split_ifs with same different
      · rw [same]
        rfl
      · exact absurd same.symm different
      · exact absurd ‹other = name›.symm same
      · rfl

/-- A histogram counts and sums up modulo 2^64, and its bounds are bounds. -/
theorem collect_addLatency (observed : List UInt64) :
    ((AList.collect addLatency none observed).getD {}).count.toNat = observed.length % 2 ^ 64 ∧
      ((AList.collect addLatency none observed).getD {}).sum.toNat =
        (observed.map UInt64.toNat).sum % 2 ^ 64 ∧
      ∀ us ∈ observed, ((AList.collect addLatency none observed).getD {}).min ≤ us ∧
        us ≤ ((AList.collect addLatency none observed).getD {}).max := by
  induction observed using List.reverseRecOn with
  | nil => exact ⟨rfl, rfl, fun us member => absurd member List.not_mem_nil⟩
  | append_singleton observed us ih =>
    obtain ⟨count, sum, bounds⟩ := ih
    rw [AList.collect_append]
    generalize AList.collect addLatency none observed = held at count sum bounds
    change (addLatency held us).count.toNat = _ ∧ (addLatency held us).sum.toNat = _ ∧
      ∀ other ∈ observed ++ [us], (addLatency held us).min ≤ other ∧ other ≤ (addLatency held us).max
    refine ⟨?_, ?_, fun other member => ?_⟩
    · rw [addLatency, UInt64.toNat_add, count, List.length_append, UInt64.toNat_one, Nat.mod_add_mod]
      rfl
    · rw [addLatency, UInt64.toNat_add, sum, List.map_append, List.sum_append, Nat.mod_add_mod]
      rfl
    · have within : other ∈ observed → (held.getD {}).min ≤ other ∧ other ≤ (held.getD {}).max := bounds other
      rw [List.mem_append, List.mem_singleton] at member
      simp only [addLatency, UInt64.le_iff_toNat_le, UInt64.lt_iff_toNat_lt, apply_ite UInt64.toNat] at within ⊢
      rcases member with before | rfl
      · have inner := within before
        constructor <;> split_ifs <;> omega
      · constructor <;> split_ifs <;> omega

theorem summarizes_iff {hist : Histogram} {observed : List UInt64} (present : observed ≠ [])
    (count : hist.count.toNat = observed.length % 2 ^ 64)
    (sum : hist.sum.toNat = (observed.map UInt64.toNat).sum % 2 ^ 64)
    (bounds : ∀ us ∈ observed, hist.min ≤ us ∧ us ≤ hist.max) :
    Summarizes hist observed ↔ observed.length < 2 ^ 64 ∧ (observed.map UInt64.toNat).sum < 2 ^ 64 := by
  have least : hist.min.toNat * observed.length ≤ (observed.map UInt64.toNat).sum := by
    have lower := List.card_nsmul_le_sum (observed.map UInt64.toNat) hist.min.toNat fun us member => by
      obtain ⟨us, inside, rfl⟩ := List.mem_map.mp member
      exact UInt64.le_iff_toNat_le.mp (bounds us inside).1
    rwa [List.length_map, smul_eq_mul, Nat.mul_comm] at lower
  have greatest : (observed.map UInt64.toNat).sum ≤ hist.max.toNat * observed.length := by
    have upper := List.sum_le_card_nsmul (observed.map UInt64.toNat) hist.max.toNat fun us member => by
      obtain ⟨us, inside, rfl⟩ := List.mem_map.mp member
      exact UInt64.le_iff_toNat_le.mp (bounds us inside).2
    rwa [List.length_map, smul_eq_mul, Nat.mul_comm] at upper
  constructor
  · rintro ⟨exactCount, exactSum, _, _, _⟩
    rw [count] at exactCount
    rw [sum] at exactSum
    exact ⟨(Nat.mod_eq_iff_lt (by decide)).mp exactCount, (Nat.mod_eq_iff_lt (by decide)).mp exactSum⟩
  · rintro ⟨fewer, smaller⟩
    rw [Nat.mod_eq_of_lt fewer] at count
    rw [Nat.mod_eq_of_lt smaller] at sum
    have positive : 0 < observed.length := List.length_pos_of_ne_nil present
    refine ⟨count, sum, least, greatest, ?_, ?_⟩
    · rw [UInt64.le_iff_toNat_le, UInt64.toNat_div, count, sum]
      exact (Nat.le_div_iff_mul_le positive).mpr least
    · rw [UInt64.le_iff_toNat_le, UInt64.toNat_div, count, sum]
      exact Nat.div_le_of_le_mul (Nat.mul_comm _ _ ▸ greatest)

/-- The lines of a histogram are on the page, and they are right unless its count or its sum has wrapped around. -/
theorem reported_iff (text : D → Bytes) (order : ExportOrder D) (calls : List (Call D)) (name : Bytes) :
    Reported text order calls name ↔ latencies name calls ≠ [] ∧
      (latencies name calls).length < 2 ^ 64 ∧ ((latencies name calls).map UInt64.toNat).sum < 2 ^ 64 := by
  have held := lookup_histograms name calls
  by_cases present : latencies name calls = []
  · refine iff_of_false ?_ fun some => some.1 present
    rintro ⟨hist, found, _⟩
    rw [held, present] at found
    cases found
  · obtain ⟨hist, found⟩ := Option.isSome_iff_exists.mp ((AList.collect_isSome addLatency none _).mpr (Or.inr present))
    obtain ⟨count, sum, bounds⟩ := collect_addLatency (latencies name calls)
    rw [found, Option.getD_some] at count sum bounds
    rw [← summarizes_iff present count sum bounds, and_iff_right present]
    rw [found] at held
    have shown : ∀ row ∈ histogramRows name hist, row ∈ rows text order (run calls) := by
      intro row member
      refine List.mem_append_right _ (List.mem_flatMap.mpr ⟨⟨name, hist⟩, ?_, member⟩)
      exact order.histograms.mem_visit.mpr (AList.mem_lookup_iff.mp held)
    constructor
    · rintro ⟨other, other_found, _, right⟩
      rw [held] at other_found
      cases other_found
      exact right
    · exact fun right => ⟨hist, held, shown, right⟩

/-! ## The exposition -/

/-- Whatever the engine does, its page is well formed exactly when the names of the pipelines that report are made of the
characters of metric names. Whatever is recorded, a histogram is reported rightly exactly when count and sum fit. -/
theorem exposition_iff (numbers : Numbers D) (order : ExportOrder D) :
    (∀ (cfg : GlobalConfig) (engine : List (EngineCall D cfg)),
      (Exposed numbers order (run (engine.flatMap EngineCall.calls)) ∧
        ∀ name ∈ (run (engine.flatMap EngineCall.calls)).histograms_,
          Reported numbers.text order (engine.flatMap EngineCall.calls) name) ↔
        ∀ call ∈ engine, ∀ p ∈ call.pipeline, ∀ c ∈ utf8 p.name, isMetricChar c = true) ∧
    ∀ (calls : List (Call D)) (name : Bytes), Reported numbers.text order calls name ↔ latencies name calls ≠ [] ∧
      (latencies name calls).length < 2 ^ 64 ∧ ((latencies name calls).map UInt64.toNat).sum < 2 ^ 64 := by
  refine ⟨fun cfg engine => ?_, reported_iff numbers.text order⟩
  rw [← exposed_engine_iff numbers order engine]
  refine and_iff_left fun name member => ?_
  rw [(run_gauges (engine_flatMap engine)).2.1] at member
  exact absurd member (AList.notMem_empty name)

/-- A pipeline with a hyphen in its name. -/
def hyphened : PipelineConfig where
  name := "my-pipeline"
  source := { type := "mock", config := .empty }
  processors := []
  aggregator := none
  sinks := [{ type := "local_storage", config := .empty }]

def acceptedConfig : GlobalConfig := { pipelines := [hyphened] }

/-- The configuration is accepted, and the page is not read. -/
theorem hyphen_breaks : (YamlConfigLoader.ValidateConfig acceptedConfig).ok = true ∧
    ¬ Exposed naturals ⟨.listed _, .listed _, .listed _⟩
      (run (SyncChannelMetrics (utf8 hyphened.name) ⟨0, 0, 0, 0, 0, 0, 0⟩)) := by
  refine ⟨by decide +kernel, fun exposed => ?_⟩
  let report : EngineCall ℕ acceptedConfig := .syncChannel hyphened List.mem_cons_self ⟨0, 0, 0, 0, 0, 0, 0⟩
  have called : SyncChannelMetrics (utf8 hyphened.name) ⟨0, 0, 0, 0, 0, 0, 0⟩ =
      [report].flatMap EngineCall.calls := rfl
  rw [called, exposed_engine_iff] at exposed
  exact absurd (exposed report List.mem_cons_self hyphened rfl 0x2D (by decide)) (by decide)

end InternalMetrics

end Illuminator
