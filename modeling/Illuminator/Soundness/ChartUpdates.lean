import Illuminator.Model.TimeSeries
import Illuminator.ToMathlib.LastEntries
import Mathlib.Data.List.Nodup

/-! # What the charts show

The store holds the last points of a series, less old ones that were collected from the front. The listeners of a series
are just those of the mounted charts that show it, so whatever happens in between, a mounted chart shows what the store
held of its range when the last point of the series came.
-/

namespace Illuminator

namespace TimeSeries

variable {K N : Type}

/-- The points that are held for a key. -/
def stored (page : Page K N) (key : K) : List (DataPoint N) := (page.series key).getD []

def listening (page : Page K N) (key : K) : List (Callback K N) := (page.listeners key).getD []

theorem push_eq (data : List (DataPoint N)) (p : DataPoint N) : push data p = (data ++ [p]).rtake MAX_POINTS := by
  unfold push
  split_ifs with long
  · rfl
  · rw [List.rtake, Nat.sub_eq_zero_of_le (Nat.not_lt.mp long), List.drop_zero]

/-- The points that were appended for a key. -/
def appended [DecidableEq K] (key : K) : List (Event K N) → List (DataPoint N)
  | [] => []
  | .append other time values :: later =>
    if other = key then point time values :: appended key later else appended key later
  | _ :: later => appended key later

/-- The times before which points were collected. -/
def cutoffs [Sub N] [NatCast N] : List (Event K N) → List N
  | [] => []
  | .gc now :: later => (now - (MAX_AGE_MS : N)) :: cutoffs later
  | _ :: later => cutoffs later

theorem appended_append [DecidableEq K] (key : K) (first second : List (Event K N)) :
    appended key (first ++ second) = appended key first ++ appended key second := by
  induction first with
  | nil => rfl
  | cons event rest ih =>
    cases event with
    | append other time values =>
      rw [List.cons_append, appended, appended, ih]
      split_ifs <;> rfl
    | _ => exact ih

theorem cutoffs_append [Sub N] [NatCast N] (first second : List (Event K N)) :
    cutoffs (first ++ second) = cutoffs first ++ cutoffs second := by
  induction first with
  | nil => rfl
  | cons event rest ih =>
    cases event with
    | gc now => rw [List.cons_append, cutoffs, cutoffs, ih, List.cons_append]
    | _ => exact ih

/-- The function of a chart's last effect. -/
def callback? (page : Page K N) (id : ℕ) : Option (Callback K N) := (page.charts id).map Chart.callback

/-- The listeners of a key are those of the mounted charts that show it, and each is there once. -/
structure Listened (page : Page K N) : Prop where
  named : ∀ id cb, callback? page id = some cb → cb.chart = id
  mem_iff : ∀ key cb, cb ∈ listening page key ↔ callback? page cb.chart = some cb ∧ key ∈ cb.keys
  once : ∀ key, (listening page key).Nodup

theorem Listened.unchanged {page after : Page K N} (listened : Listened page)
    (listeners : after.listeners = page.listeners) (callbacks : ∀ id, callback? after id = callback? page id) :
    Listened after := by
  have same (key : K) : listening after key = listening page key := by rw [listening, listeners, listening]
  refine ⟨fun id cb => ?_, fun key cb => ?_, fun key => ?_⟩
  · rw [callbacks]
    exact listened.named id cb
  · rw [same, callbacks]
    exact listened.mem_iff key cb
  · rw [same]
    exact listened.once key

variable [LinearOrder N]

theorem query_eq (page : Page K N) (key : K) (range : TimeRange N) :
    query page key range = (stored page key).filter range.holds := by
  unfold query stored
  cases page.series key <;> rfl

/-! ## Listeners -/

theorem notify_eq (page : Page K N) (key : K) : notify page key = (listening page key).foldl call page := by
  unfold notify listening
  cases page.listeners key <;> rfl

/-- A call changes nothing but the points of the chart. -/
theorem call_frame (page : Page K N) (cbs : List (Callback K N)) :
    (cbs.foldl call page).series = page.series ∧ (cbs.foldl call page).listeners = page.listeners ∧
      (cbs.foldl call page).time = page.time := by
  induction cbs generalizing page with
  | nil => exact ⟨rfl, rfl, rfl⟩
  | cons cb rest ih => exact ih (call page cb)

variable [DecidableEq K]

/-- The charts that are called show what is there, and the others stay. -/
theorem call_charts {cbs : List (Callback K N)} {page : Page K N}
    (own : ∀ cb ∈ cbs, ∀ chart, page.charts cb.chart = some chart → chart.callback = cb)
    (named : ∀ id chart, page.charts id = some chart → chart.callback.chart = id) (id : ℕ) :
    (cbs.foldl call page).charts id = (page.charts id).map fun chart =>
      if chart.callback ∈ cbs then { chart with data := found page chart.callback } else chart := by
  induction cbs generalizing page with
  | nil => simp
  | cons cb rest ih =>
    have same (other : ℕ) : (call page cb).charts other = (page.charts other).map fun chart =>
        if chart.callback = cb then { chart with data := found page chart.callback } else chart := by
      change Function.update page.charts cb.chart _ other = _
      by_cases here : other = cb.chart
      · subst here
        rw [Function.update_self]
        refine Option.map_congr fun chart there => ?_
        have mine := own cb List.mem_cons_self chart there
        rw [if_pos mine, mine]
      · rw [Function.update_of_ne here]
        cases there : page.charts other with
        | none => rfl
        | some chart =>
          have apart : chart.callback ≠ cb := fun equal => here (by rw [← named other chart there, equal])
          rw [Option.map_some, if_neg apart]
    have callbacks {other : ℕ} {chart : Chart K N} (there : (call page cb).charts other = some chart) :
        ∃ before, page.charts other = some before ∧ before.callback = chart.callback := by
      rw [same] at there
      obtain ⟨before, was, rfl⟩ := Option.map_eq_some_iff.mp there
      refine ⟨before, was, ?_⟩
      split_ifs <;> rfl
    have later := @ih (call page cb) (fun other listed chart there => by
        obtain ⟨before, was, equal⟩ := callbacks there
        rw [← equal]
        exact own other (List.mem_cons_of_mem _ listed) before was) (fun other chart there => by
        obtain ⟨before, was, equal⟩ := callbacks there
        rw [← equal]
        exact named other before was)
    rw [List.foldl_cons, later, same, Option.map_map]
    refine Option.map_congr fun chart _ => ?_
    have queries (other : Callback K N) : found (call page cb) other = found page other := rfl
    simp only [Function.comp_apply, List.mem_cons]
    by_cases here : chart.callback = cb
    · simp only [here, if_true, true_or, queries]
      split_ifs <;> rfl
    · simp only [here, if_false, false_or, queries]

theorem mem_subscribed {cb other : Callback K N} {keys : List K} {page : Page K N} {key : K} :
    other ∈ listening (keys.foldl (subscribe cb) page) key ↔ other ∈ listening page key ∨ other = cb ∧ key ∈ keys := by
  induction keys generalizing page with
  | nil => simp
  | cons first rest ih =>
    have one : other ∈ listening (subscribe cb page first) key ↔
        other ∈ listening page key ∨ other = cb ∧ key = first := by
      unfold listening subscribe
      by_cases here : key = first
      · subst here
        simp only [Function.update_self, Option.getD_some]
        split_ifs with inside
        · constructor
          · exact Or.inl
          · rintro (before | ⟨rfl, -⟩)
            · exact before
            · exact List.contains_iff_mem.mp inside
        · simp
      · simp only [Function.update_of_ne here, here, and_false, or_false]
    rw [List.foldl_cons, ih, one, List.mem_cons, or_assoc, ← and_or_left]

theorem mem_unsubscribed {cb other : Callback K N} {keys : List K} {page : Page K N} {key : K} :
    other ∈ listening (keys.foldl (unsubscribe cb) page) key ↔
      other ∈ listening page key ∧ ¬ (other = cb ∧ key ∈ keys) := by
  induction keys generalizing page with
  | nil => simp
  | cons first rest ih =>
    have one : other ∈ listening (unsubscribe cb page first) key ↔
        other ∈ listening page key ∧ ¬ (other = cb ∧ key = first) := by
      unfold listening unsubscribe
      by_cases here : key = first
      · subst here
        simp only [Function.update_self]
        cases page.listeners key with
        | none => simp
        | some set => simp
      · simp only [Function.update_of_ne here, here, and_false, not_false_eq_true, and_true]
    rw [List.foldl_cons, ih, one, List.mem_cons, and_assoc, and_or_left, not_or]

theorem subscribed_frame (cb : Callback K N) (keys : List K) (page : Page K N) :
    (keys.foldl (subscribe cb) page).series = page.series ∧ (keys.foldl (subscribe cb) page).charts = page.charts ∧
      (keys.foldl (subscribe cb) page).time = page.time := by
  induction keys generalizing page with
  | nil => exact ⟨rfl, rfl, rfl⟩
  | cons first rest ih => exact ih (subscribe cb page first)

theorem unsubscribed_frame (cb : Callback K N) (keys : List K) (page : Page K N) :
    (keys.foldl (unsubscribe cb) page).series = page.series ∧
      (keys.foldl (unsubscribe cb) page).charts = page.charts ∧
      (keys.foldl (unsubscribe cb) page).time = page.time := by
  induction keys generalizing page with
  | nil => exact ⟨rfl, rfl, rfl⟩
  | cons first rest ih => exact ih (unsubscribe cb page first)

/-- A chart that listens to the key shows what is there now, and the others stay. -/
theorem Listened.notified {page : Page K N} (listened : Listened page) (key : K) (id : ℕ) :
    (notify page key).charts id = (page.charts id).map fun chart =>
      if key ∈ chart.callback.keys then { chart with data := found page chart.callback } else chart := by
  have named (other : ℕ) (chart : Chart K N) (there : page.charts other = some chart) : chart.callback.chart = other :=
    listened.named other chart.callback (by rw [callback?, there, Option.map_some])
  rw [notify_eq, call_charts _ named]
  · refine Option.map_congr fun chart there => ?_
    have mine : callback? page chart.callback.chart = some chart.callback := by
      rw [callback?, named id chart there, there, Option.map_some]
    have listens : chart.callback ∈ listening page key ↔ key ∈ chart.callback.keys := by
      rw [listened.mem_iff, and_iff_right mine]
    rw [if_congr listens rfl rfl]
  · intro cb listens chart there
    have mine := ((listened.mem_iff key cb).mp listens).1
    rw [callback?, there, Option.map_some] at mine
    exact Option.some.inj mine

theorem Listened.notify {page : Page K N} (listened : Listened page) (key : K) : Listened (notify page key) := by
  refine listened.unchanged ?_ fun id => ?_
  · rw [notify_eq]
    exact (call_frame page _).2.1
  · rw [callback?, listened.notified, Option.map_map, callback?]
    refine Option.map_congr fun chart _ => ?_
    rw [Function.comp_apply]
    split_ifs <;> rfl

theorem nodup_subscribed {cb : Callback K N} {keys : List K} {page : Page K N} {key : K}
    (before : (listening page key).Nodup) : (listening (keys.foldl (subscribe cb) page) key).Nodup := by
  induction keys generalizing page with
  | nil => exact before
  | cons first rest ih =>
    refine ih ?_
    unfold listening subscribe at *
    by_cases here : key = first
    · subst here
      simp only [Function.update_self, Option.getD_some]
      split_ifs with inside
      · exact before
      · refine List.Nodup.append before (List.nodup_singleton cb) (List.disjoint_singleton.mpr fun listed => ?_)
        exact inside (List.contains_iff_mem.mpr listed)
    · simp only [Function.update_of_ne here]
      exact before

theorem nodup_unsubscribed {cb : Callback K N} {keys : List K} {page : Page K N} {key : K}
    (before : (listening page key).Nodup) : (listening (keys.foldl (unsubscribe cb) page) key).Nodup := by
  induction keys generalizing page with
  | nil => exact before
  | cons first rest ih =>
    refine ih ?_
    unfold listening unsubscribe at *
    by_cases here : key = first
    · subst here
      simp only [Function.update_self]
      cases there : page.listeners key with
      | none => exact List.nodup_nil
      | some set =>
        rw [there] at before
        exact before.filter _
    · simp only [Function.update_of_ne here]
      exact before

/-- The page without a chart, whose listener is taken away. -/
def removed (page : Page K N) (id : ℕ) (cb : Callback K N) : Page K N :=
  { cleanup page cb with charts := Function.update page.charts id none }

theorem Listened.removed {page : Page K N} (listened : Listened page) {id : ℕ} {chart : Chart K N}
    (there : page.charts id = some chart) : Listened (removed page id chart.callback) := by
  have mine : callback? page id = some chart.callback := by rw [callback?, there, Option.map_some]
  have others (other : ℕ) :
      callback? (TimeSeries.removed page id chart.callback) other =
        if other = id then none else callback? page other := by
    change Option.map _ (Function.update page.charts id none other) = _
    rw [Function.update_apply]
    split_ifs <;> rfl
  have listens (key : K) (cb : Callback K N) : cb ∈ listening (TimeSeries.removed page id chart.callback) key ↔
      cb ∈ listening page key ∧ ¬ (cb = chart.callback ∧ key ∈ chart.callback.keys) :=
    mem_unsubscribed
  refine ⟨fun other cb found => ?_, fun key cb => ?_, fun key => nodup_unsubscribed (listened.once key)⟩
  · rw [others] at found
    split_ifs at found with here
    exact listened.named other cb found
  · rw [listens, listened.mem_iff, others]
    split_ifs with here
    · constructor
      · rintro ⟨⟨found, shows⟩, apart⟩
        rw [here, mine] at found
        obtain rfl := Option.some.inj found
        exact absurd ⟨rfl, shows⟩ apart
      · rintro ⟨found, -⟩
        cases found
    · refine and_iff_left_of_imp ?_
      rintro - ⟨rfl, -⟩
      exact here (listened.named id chart.callback mine)

theorem effect_charts (page : Page K N) (id : ℕ) (keys : List K) :
    (effect page id keys).charts = Function.update page.charts id
      (some ⟨⟨id, page.runs, keys, page.time.range⟩, found page ⟨id, page.runs, keys, page.time.range⟩⟩) :=
  (subscribed_frame _ keys _).2.1

theorem effect_callback (page : Page K N) (id : ℕ) (keys : List K) (other : ℕ) : callback? (effect page id keys) other =
    if other = id then some ⟨id, page.runs, keys, page.time.range⟩ else callback? page other := by
  rw [callback?, effect_charts, Function.update_apply]
  split_ifs <;> rfl

/-- A cleaned up chart runs its effect as if it were not there. -/
theorem effect_cleanup (page : Page K N) (id : ℕ) (keys : List K) (cb : Callback K N) :
    effect (cleanup page cb) id keys = effect (removed page id cb) id keys := by
  have same (value : Option (Chart K N)) : Function.update (removed page id cb).charts id value =
      Function.update (cleanup page cb).charts id value := by
    have before : (cleanup page cb).charts = page.charts := (unsubscribed_frame cb cb.keys page).2.1
    rw [before]
    exact Function.update_idem _ _ _
  simp only [effect, same]
  rfl

/-- An effect of a chart that has no listener yet. -/
theorem Listened.effect {page : Page K N} (listened : Listened page) {id : ℕ} (gone : page.charts id = none)
    (keys : List K) : Listened (effect page id keys) := by
  have listens (key : K) (cb : Callback K N) : cb ∈ listening (TimeSeries.effect page id keys) key ↔
      cb ∈ listening page key ∨ cb = ⟨id, page.runs, keys, page.time.range⟩ ∧ key ∈ keys :=
    mem_subscribed
  refine ⟨fun other cb found => ?_, fun key cb => ?_, fun key => nodup_subscribed (listened.once key)⟩
  · rw [effect_callback] at found
    split_ifs at found with here
    · rw [here, ← Option.some.inj found]
    · exact listened.named other cb found
  · rw [listens, listened.mem_iff, effect_callback]
    by_cases here : cb.chart = id
    · rw [if_pos here, here, callback?, gone, Option.map_none]
      constructor
      · rintro (⟨found, -⟩ | ⟨rfl, shows⟩)
        · cases found
        · exact ⟨rfl, shows⟩
      · rintro ⟨found, shows⟩
        obtain rfl := Option.some.inj found
        exact Or.inr ⟨rfl, shows⟩
    · rw [if_neg here]
      constructor
      · rintro (before | ⟨rfl, -⟩)
        · exact before
        · exact absurd rfl here
      · exact Or.inl

/-! ## Runs -/

variable [Sub N] [NatCast N]

/-- The store holds the last points of a key, less some at the front that are older than a cutoff. -/
def Held (history : List (Event K N)) (page : Page K N) : Prop :=
  ∀ key, ∃ dropped, (appended key history).rtake MAX_POINTS = dropped ++ stored page key ∧
    ∀ p ∈ dropped, ∃ cutoff ∈ cutoffs history, p.time < cutoff

def run (time : TimeState N) (history : List (Event K N)) : Page K N := history.foldl act (start time)

theorem run_concat (time : TimeState N) (history : List (Event K N)) (event : Event K N) :
    run time (history ++ [event]) = act (run time history) event := List.foldl_concat ..

/-- A chart shows of each of its keys what was held of its range when the last point of the key came, or later. -/
def Shown (time : TimeState N) (history : List (Event K N)) : Prop :=
  ∀ id chart, (run time history).charts id = some chart → chart.data.map Prod.fst = chart.callback.keys ∧
    ∀ entry ∈ chart.data, ∃ before later, history = before ++ later ∧ appended entry.1 later = [] ∧
      entry.2 = query (run time before) entry.1 chart.callback.range

theorem Held.unchanged {history : List (Event K N)} {page after : Page K N} (held : Held history page)
    {event : Event K N} (series : after.series = page.series) (appends : ∀ key, appended key [event] = [])
    (collects : cutoffs [event] = []) : Held (history ++ [event]) after := by
  intro key
  rw [appended_append, appends, cutoffs_append, collects, List.append_nil, List.append_nil, stored, series]
  exact held key

theorem Held.append {history : List (Event K N)} {page after : Page K N} (held : Held history page) {key : K}
    {time : N} {values : List (Bytes × N)} (series : after.series =
      Function.update page.series key (some (push (stored page key) (point time values)))) :
    Held (history ++ [.append key time values]) after := by
  intro other
  obtain ⟨dropped, same, old⟩ := held other
  have collects : cutoffs [Event.append key time values] = [] := rfl
  rw [appended_append, cutoffs_append, collects, List.append_nil, stored, series]
  by_cases here : other = key
  · subst here
    have added : appended other [Event.append other time values] = [point time values] := if_pos rfl
    rw [added, Function.update_self, Option.getD_some, push_eq, ← List.rtake_append_rtake, same, List.append_assoc,
      List.rtake_append]
    exact ⟨_, rfl, fun p inside => old p (List.mem_of_mem_rtake inside)⟩
  · have added : appended other [Event.append key time values] = [] := if_neg fun equal => here equal.symm
    rw [added, List.append_nil, Function.update_of_ne here]
    exact ⟨dropped, same, old⟩

theorem Held.gc {history : List (Event K N)} {page : Page K N} (held : Held history page) (now : N) :
    Held (history ++ [.gc now]) (gc page now) := by
  intro key
  obtain ⟨dropped, same, old⟩ := held key
  have collects : cutoffs [(Event.gc now : Event K N)] = [now - (MAX_AGE_MS : N)] := rfl
  have appends : appended key [Event.gc now] = [] := rfl
  have left : stored (TimeSeries.gc page now) key =
      (stored page key).dropWhile fun p => p.time < now - (MAX_AGE_MS : N) := by
    change ((page.series key).map _).getD [] = ((page.series key).getD []).dropWhile _
    cases page.series key <;> rfl
  rw [appended_append, cutoffs_append, collects, appends, List.append_nil, left]
  refine ⟨dropped ++ (stored page key).takeWhile fun p => p.time < now - (MAX_AGE_MS : N), ?_, fun p inside => ?_⟩
  · rw [same, List.append_assoc, List.takeWhile_append_dropWhile]
  · rcases List.mem_append.mp inside with before | collected
    · obtain ⟨cutoff, listed, older⟩ := old p before
      exact ⟨cutoff, List.mem_append_left _ listed, older⟩
    · have older := List.mem_takeWhile_imp collected
      exact ⟨_, List.mem_append_right _ (List.mem_singleton.mpr rfl), by simpa using older⟩

/-- A chart that stays, and has no key that got a point, shows what it should. -/
theorem Shown.kept {time : TimeState N} {history : List (Event K N)} (shown : Shown time history) {event : Event K N}
    {id : ℕ} {chart : Chart K N} (there : (run time history).charts id = some chart)
    (apart : ∀ key ∈ chart.callback.keys, appended key [event] = []) :
    chart.data.map Prod.fst = chart.callback.keys ∧ ∀ entry ∈ chart.data, ∃ before later,
      history ++ [event] = before ++ later ∧ appended entry.1 later = [] ∧
        entry.2 = query (run time before) entry.1 chart.callback.range := by
  obtain ⟨keys, shows⟩ := shown id chart there
  refine ⟨keys, fun entry inside => ?_⟩
  obtain ⟨before, later, rfl, quiet, same⟩ := shows entry inside
  have listed : entry.1 ∈ chart.callback.keys := by
    rw [← keys]
    exact List.mem_map_of_mem inside
  refine ⟨before, later ++ [event], List.append_assoc .., ?_, same⟩
  rw [appended_append, quiet, apart entry.1 listed, List.append_nil]

/-- What a listener finds is what the store holds. -/
theorem found_shows (time : TimeState N) (history later : List (Event K N)) (cb : Callback K N)
    (quiet : ∀ key, appended key later = []) (page : Page K N) (series : page.series = (run time history).series) :
    (found page cb).map Prod.fst = cb.keys ∧ ∀ entry ∈ found page cb, ∃ before rest,
      history ++ later = before ++ rest ∧ appended entry.1 rest = [] ∧
        entry.2 = query (run time before) entry.1 cb.range := by
  constructor
  · rw [found, List.map_map]
    exact List.map_id' _
  · intro entry inside
    obtain ⟨key, -, rfl⟩ := List.mem_map.mp inside
    refine ⟨history, later, rfl, quiet key, ?_⟩
    rw [query_eq, query_eq, stored, series, stored]

/-- What holds after every event. -/
structure Current (time : TimeState N) (history : List (Event K N)) : Prop where
  listened : Listened (run time history)
  held : Held history (run time history)
  shown : Shown time history

theorem current_start (time : TimeState N) : Current time ([] : List (Event K N)) := by
  refine ⟨⟨fun id cb found => ?_, fun key cb => ?_, fun key => List.nodup_nil⟩,
    fun key => ⟨[], List.rtake_nil _, fun p inside => ?_⟩,
    fun id chart there => ?_⟩
  · cases found
  · constructor
    · intro inside
      cases inside
    · rintro ⟨found, -⟩
      cases found
  · cases inside
  · cases there

/-- An event that leaves the charts, the listeners and the store as they are. -/
theorem Current.idle {time : TimeState N} {history : List (Event K N)} (current : Current time history)
    {event : Event K N} (charts : (run time (history ++ [event])).charts = (run time history).charts)
    (listeners : (run time (history ++ [event])).listeners = (run time history).listeners)
    (series : (run time (history ++ [event])).series = (run time history).series)
    (appends : ∀ key, appended key [event] = []) (collects : cutoffs [event] = []) :
    Current time (history ++ [event]) := by
  refine ⟨current.listened.unchanged listeners fun id => ?_, current.held.unchanged series appends collects,
    fun id chart there => ?_⟩
  · rw [callback?, charts, callback?]
  · rw [charts] at there
    exact current.shown.kept there fun key _ => appends key

theorem Current.append {time : TimeState N} {history : List (Event K N)} (current : Current time history) (key : K)
    (at_ : N) (values : List (Bytes × N)) : Current time (history ++ [.append key at_ values]) := by
  obtain ⟨before, filled⟩ : ∃ before : Page K N, before = { run time history with
    series := Function.update (run time history).series key
      (some (push (stored (run time history) key) (point at_ values))) } := ⟨_, rfl⟩
  have next : run time (history ++ [.append key at_ values]) = notify before key := by
    rw [run_concat, filled]
    rfl
  have listened : Listened before := by
    rw [filled]
    exact current.listened.unchanged rfl fun id => rfl
  have series : (notify before key).series = before.series := by
    rw [notify_eq]
    exact (call_frame before _).1
  refine ⟨?_, ?_, fun id chart there => ?_⟩
  · rw [next]
    exact listened.notify key
  · rw [next]
    refine current.held.append ?_
    rw [series, filled]
  · rw [next, listened.notified] at there
    obtain ⟨was, mounted, same⟩ := Option.map_eq_some_iff.mp there
    split_ifs at same with shows
    · rw [← same]
      have answer := found_shows time (history ++ [.append key at_ values]) [] was.callback (fun _ => rfl) before
        (by rw [next, series])
      rwa [List.append_nil] at answer
    · rw [← same]
      rw [filled] at mounted
      refine current.shown.kept mounted fun other listed => if_neg ?_
      rintro rfl
      exact shows listed

theorem Current.rendered {time : TimeState N} {history : List (Event K N)} (current : Current time history)
    {event : Event K N} {page : Page K N} {id : ℕ} (keys : List K) (gone : page.charts id = none)
    (listened : Listened page) (series : page.series = (run time history).series)
    (others : ∀ other, other ≠ id → page.charts other = (run time history).charts other)
    (next : run time (history ++ [event]) = effect page id keys) (appends : ∀ key, appended key [event] = [])
    (collects : cutoffs [event] = []) : Current time (history ++ [event]) := by
  have kept : (effect page id keys).series = (run time history).series := by
    rw [← series]
    exact (subscribed_frame _ keys _).1
  refine ⟨?_, ?_, fun other chart there => ?_⟩
  · rw [next]
    exact listened.effect gone keys
  · rw [next]
    exact current.held.unchanged kept appends collects
  · rw [next, effect_charts, Function.update_apply] at there
    split_ifs at there with here
    · rw [← Option.some.inj there]
      exact found_shows time history [event] _ appends page series
    · rw [others other here] at there
      exact current.shown.kept there fun key _ => appends key

theorem Current.unmounted {time : TimeState N} {history : List (Event K N)} (current : Current time history) {id : ℕ}
    {mounted : Chart K N} (there : (run time history).charts id = some mounted) :
    Current time (history ++ [.unmount id]) := by
  have frame := unsubscribed_frame mounted.callback mounted.callback.keys (run time history)
  have next : run time (history ++ [.unmount id]) = removed (run time history) id mounted.callback := by
    rw [run_concat]
    simp only [act, there]
    rfl
  refine ⟨?_, ?_, fun other chart stays => ?_⟩
  · rw [next]
    exact current.listened.removed there
  · rw [next]
    exact current.held.unchanged frame.1 (fun _ => rfl) rfl
  · rw [next] at stays
    change Function.update (run time history).charts id none other = some chart at stays
    rw [Function.update_apply] at stays
    split_ifs at stays with here
    exact current.shown.kept stays fun key _ => rfl

theorem Current.event {time : TimeState N} {history : List (Event K N)} (current : Current time history)
    (event : Event K N) : Current time (history ++ [event]) := by
  have next := run_concat time history event
  cases event with
  | append key at_ values => exact current.append key at_ values
  | gc now =>
    refine ⟨?_, ?_, fun id chart there => ?_⟩
    · rw [next]
      exact current.listened.unchanged rfl fun id => rfl
    · rw [next]
      exact current.held.gc now
    · rw [next] at there
      exact current.shown.kept there fun key _ => rfl
  | mount id keys =>
    cases there : (run time history).charts id with
    | none =>
      refine current.rendered keys there current.listened rfl (fun _ _ => rfl) ?_ (fun _ => rfl) rfl
      rw [next]
      simp only [act, there]
    | some mounted =>
      have same : run time (history ++ [.mount id keys]) = run time history := by
        rw [next]
        simp only [act, there]
      exact current.idle (by rw [same]) (by rw [same]) (by rw [same]) (fun _ => rfl) rfl
  | rerender id keys anew =>
    cases there : (run time history).charts id with
    | none =>
      have same : run time (history ++ [.rerender id keys anew]) = run time history := by
        rw [next]
        simp only [act, there]
      exact current.idle (by rw [same]) (by rw [same]) (by rw [same]) (fun _ => rfl) rfl
    | some mounted =>
      simp only [act, there] at next
      split_ifs at next with renew
      · rw [effect_cleanup] at next
        refine current.rendered keys (Function.update_self ..) (current.listened.removed there) ?_
          (fun other apart => ?_) next (fun _ => rfl) rfl
        · exact (unsubscribed_frame mounted.callback mounted.callback.keys (run time history)).1
        · exact Function.update_of_ne apart ..
      · exact current.idle (by rw [next]) (by rw [next]) (by rw [next]) (fun _ => rfl) rfl
  | unmount id =>
    cases there : (run time history).charts id with
    | none =>
      have same : run time (history ++ [.unmount id]) = run time history := by
        rw [next]
        simp only [act, there]
      exact current.idle (by rw [same]) (by rw [same]) (by rw [same]) (fun _ => rfl) rfl
    | some mounted => exact current.unmounted there
  | _ => exact current.idle (by rw [next]; rfl) (by rw [next]; rfl) (by rw [next]; rfl) (fun _ => rfl) rfl

theorem current_run (time : TimeState N) (history : List (Event K N)) : Current time history := by
  induction history using List.reverseRecOn with
  | nil => exact current_start time
  | append_singleton before event ih => exact ih.event event

/-- A chart that is rendered has its new keys and the range of the moment. -/
theorem rerendered (page : Page K N) (id : ℕ) (keys : List K) (anew : Bool) {mounted : Chart K N}
    (there : page.charts id = some mounted) :
    (callback? (act page (.rerender id keys anew)) id).map (fun cb => (cb.keys, cb.range)) =
      some (keys, page.time.range) := by
  simp only [act, there]
  split_ifs with renew
  · rw [effect_callback, if_pos rfl, cleanup, (unsubscribed_frame mounted.callback mounted.callback.keys page).2.2]
    rfl
  · simp only [not_or, not_not] at renew
    rw [callback?, there, renew.2.1, renew.2.2]
    rfl

/-- After any events: the store holds the last points of each key, but for some at the front that are older than what
was collected; the listeners of a key are, once each, those of the mounted charts that show it; each mounted chart shows
of each of its keys what was held of its range when the last point of the key came, or later; and to render it brings
its keys and its range up to date. -/
theorem charts_current (time : TimeState N) (history : List (Event K N)) :
    Held history (run time history) ∧ Listened (run time history) ∧ Shown time history ∧
      ∀ id keys anew, (callback? (run time history) id).isSome →
        (callback? (run time (history ++ [.rerender id keys anew])) id).map (fun cb => (cb.keys, cb.range)) =
          some (keys, (run time history).time.range) := by
  obtain ⟨listened, held, shown⟩ := current_run time history
  refine ⟨held, listened, shown, fun id keys anew mounted => ?_⟩
  rw [callback?, Option.isSome_map] at mounted
  obtain ⟨chart, there⟩ := Option.isSome_iff_exists.mp mounted
  rw [run_concat]
  exact rerendered _ id keys anew there

end TimeSeries

end Illuminator
