import Mathlib.Algebra.BigOperators.Group.List.Basic
import Mathlib.Algebra.GroupWithZero.Nat
import Mathlib.Data.List.AList

/-! # Gathering a list into a keyed map

A loop that looks up each item's key and replaces the value found there groups the items by key. The
value held under a key is the fold of the items with that key, in their order, and an additive
measure of the values grows by what each item adds. Maps are Mathlib's association lists.
-/

namespace AList

variable {K V X : Type*} [DecidableEq K]

/-- Replace what a key maps to, given what it mapped to before. -/
def update (m : AList fun _ : K => V) (key : K) (change : Option V → V) : AList fun _ : K => V :=
  m.insert key (change (m.lookup key))

/-- Update the entry of each item's key in turn. -/
def gather (key : X → K) (step : Option V → X → V) (m : AList fun _ : K => V) (items : List X) :
    AList fun _ : K => V :=
  items.foldl (fun m item => m.update (key item) fun old => step old item) m

/-- The value that a list of items with one key leaves under that key. -/
def collect (step : Option V → X → V) (old : Option V) (items : List X) : Option V :=
  items.foldl (fun old item => some (step old item)) old

theorem lookup_update (m : AList fun _ : K => V) (key other : K) (change : Option V → V) :
    (m.update key change).lookup other = if other = key then some (change (m.lookup key)) else m.lookup other := by
  split_ifs with same
  · rw [same]
    exact lookup_insert m
  · exact lookup_insert_ne same

@[simp] theorem gather_nil (key : X → K) (step : Option V → X → V) (m : AList fun _ : K => V) :
    m.gather key step [] = m := rfl

@[simp] theorem gather_append (key : X → K) (step : Option V → X → V) (m : AList fun _ : K => V)
    (first second : List X) :
    m.gather key step (first ++ second) = (m.gather key step first).gather key step second :=
  List.foldl_append

@[simp] theorem collect_append (step : Option V → X → V) (old : Option V) (first second : List X) :
    collect step old (first ++ second) = collect step (collect step old first) second :=
  List.foldl_append

/-- Under each key stands the fold of the items with that key. -/
theorem lookup_gather (key : X → K) (step : Option V → X → V) (m : AList fun _ : K => V) (items : List X) (k : K) :
    (m.gather key step items).lookup k = collect step (m.lookup k) (items.filter fun item => key item = k) := by
  induction items generalizing m with
  | nil => rfl
  | cons item rest ih =>
    have first : m.gather key step (item :: rest) = (m.update (key item) (step · item)).gather key step rest := rfl
    rw [first, ih, lookup_update]
    by_cases same : key item = k
    · rw [if_pos same.symm, List.filter_cons_of_pos (by simpa using same), same]
      rfl
    · rw [if_neg (Ne.symm same), List.filter_cons_of_neg (by simpa using same)]

theorem collect_isSome (step : Option V → X → V) (old : Option V) (items : List X) :
    (collect step old items).isSome ↔ old.isSome ∨ items ≠ [] := by
  induction items generalizing old with
  | nil => simp [collect]
  | cons item rest ih =>
    change (collect step (some (step old item)) rest).isSome ↔ _
    simp [ih]

/-- What every step establishes holds of the value collected. -/
theorem collect_induction {P : V → Prop} {step : Option V → X → V} {old : Option V} {items : List X}
    (before : ∀ value, old = some value → P value)
    (kept : ∀ old, ∀ item ∈ items, (∀ value, old = some value → P value) → P (step old item)) :
    ∀ value, collect step old items = some value → P value := by
  induction items generalizing old with
  | nil => exact before
  | cons item rest ih =>
    refine ih ?_ fun old item inside => kept old item (List.mem_cons_of_mem _ inside)
    rintro value ⟨⟩
    exact kept old item (List.mem_cons_self ..) before

/-- The keys gathered are the items' keys. -/
theorem mem_gather (key : X → K) (step : Option V → X → V) (items : List X) (k : K) :
    k ∈ (∅ : AList fun _ : K => V).gather key step items ↔ ∃ item ∈ items, key item = k := by
  rw [← lookup_isSome, lookup_gather, collect_isSome]
  simp [List.filter_eq_nil_iff]

/-- An entry of the gathered map comes from the items with its key, of which there are some. -/
theorem exists_of_mem_gather {key : X → K} {step : Option V → X → V} {items : List X}
    {entry : Sigma fun _ : K => V} (member : entry ∈ ((∅ : AList fun _ : K => V).gather key step items).entries) :
    collect step none (items.filter fun item => key item = entry.1) = some entry.2 ∧
      ∃ item ∈ items, key item = entry.1 := by
  have found := mem_lookup_iff.mpr member
  rw [Option.mem_def, lookup_gather, lookup_empty] at found
  refine ⟨found, (mem_gather key step items entry.1).mp ?_⟩
  exact mem_keys.mpr (List.mem_keys_of_mem member)

/-- Conversely every item's key has its entry. -/
theorem exists_entry_of_mem (key : X → K) (step : Option V → X → V) {items : List X} {item : X}
    (member : item ∈ items) :
    ∃ entry ∈ ((∅ : AList fun _ : K => V).gather key step items).entries, entry.1 = key item := by
  have present := (mem_gather key step items (key item)).mpr ⟨item, member, rfl⟩
  obtain ⟨entry, inside, same⟩ := List.mem_map.mp (mem_keys.mp present)
  exact ⟨entry, inside, same⟩

omit [DecidableEq K] in
theorem entry_ext {m : AList fun _ : K => V} {first second : Sigma fun _ : K => V}
    (left : first ∈ m.entries) (right : second ∈ m.entries) (same : first.1 = second.1) : first = second :=
  m.nodupKeys.eq_of_fst_eq left right same

/-- Entries with distinct keys can all be read back after they have been inserted in turn. -/
theorem lookup_foldl_insert {entries : List (Sigma fun _ : K => V)} (distinct : (entries.map Sigma.fst).Nodup)
    (m : AList fun _ : K => V) (key : K) (value : V) :
    (entries.foldl (fun m entry => m.insert entry.1 entry.2) m).lookup key = some value ↔
      ⟨key, value⟩ ∈ entries ∨ key ∉ entries.map Sigma.fst ∧ m.lookup key = some value := by
  induction entries generalizing m with
  | nil => simp
  | cons entry rest ih =>
    obtain ⟨first, written⟩ := entry
    rw [List.map_cons, List.nodup_cons] at distinct
    rw [List.foldl_cons, ih distinct.2]
    by_cases same : key = first
    · obtain rfl := same
      have fresh : ⟨key, value⟩ ∉ rest := fun inside =>
        distinct.1 (List.mem_map.mpr ⟨_, inside, rfl⟩)
      simp only [lookup_insert, distinct.1, fresh, not_false_eq_true, true_and, false_or, List.mem_cons, or_false,
        List.map_cons, not_true_eq_false, false_and, Option.some.injEq, Sigma.mk.injEq, heq_eq_eq]
      exact eq_comm
    · simp [lookup_insert_ne same, same]

/-! ## The last value of each key -/

/-- Insert the value of each item under its key, so that the last one of a key stays. -/
def latest (key : X → K) (value : X → V) (items : List X) : AList fun _ : K => V :=
  (∅ : AList fun _ : K => V).gather key (fun _ item => value item) items

theorem mem_latest {key : X → K} {value : X → V} {items : List X} {k : K} :
    k ∈ latest key value items ↔ ∃ item ∈ items, key item = k := mem_gather key _ items k

theorem collect_map {W : Type*} (change : V → W) (value : X → V) (old : Option V) (items : List X) :
    collect (fun _ item => change (value item)) (old.map change) items =
      (collect (fun _ item => value item) old items).map change := by
  induction items generalizing old with
  | nil => rfl
  | cons item rest ih => exact ih (some (value item))

/-- Keys that are renamed apart keep their values, which may be changed. -/
theorem latest_perm {L W : Type*} [DecidableEq L] {key : X → K} {value : X → V} {items : List X} (rename : K → L)
    (change : V → W) (apart : ∀ k ∈ latest key value items, ∀ l ∈ latest key value items, rename k = rename l → k = l) :
    (latest (fun item => rename (key item)) (fun item => change (value item)) items).entries.Perm
      ((latest key value items).entries.map fun entry => ⟨rename entry.1, change entry.2⟩) := by
  have renamed : ∀ k ∈ latest key value items,
      (latest (fun item => rename (key item)) (fun item => change (value item)) items).lookup (rename k) =
        ((latest key value items).lookup k).map change := by
    intro k member
    have same : (items.filter fun item => rename (key item) = rename k) = items.filter fun item => key item = k := by
      refine List.filter_congr fun item inside => decide_eq_decide.mpr ⟨fun clash => ?_, congrArg rename⟩
      exact apart _ (mem_latest.mpr ⟨item, inside, rfl⟩) _ member clash
    rw [latest, latest, lookup_gather, lookup_gather, same]
    exact collect_map change value none _
  have distinct : ((latest key value items).entries.map fun entry : Sigma fun _ : K => V =>
      (⟨rename entry.1, change entry.2⟩ : Sigma fun _ : L => W)).Nodup := by
    refine List.Nodup.map_on (fun first left second right clash => ?_) (latest key value items).nodupKeys.nodup
    have keys := congrArg Sigma.fst clash
    refine entry_ext left right (apart _ ?_ _ ?_ keys)
    · exact mem_keys.mpr (List.mem_map_of_mem left)
    · exact mem_keys.mpr (List.mem_map_of_mem right)
  refine (List.perm_ext_iff_of_nodup (nodupKeys _).nodup distinct).mpr fun entry => ?_
  rw [List.mem_map]
  constructor
  · intro member
    obtain ⟨item, inside, named⟩ := mem_latest.mp (mem_keys.mpr (List.mem_map_of_mem member))
    have found := mem_lookup_iff.mpr member
    rw [← named, renamed _ (mem_latest.mpr ⟨item, inside, rfl⟩)] at found
    obtain ⟨held, before, changed⟩ := Option.map_eq_some_iff.mp found
    refine ⟨⟨key item, held⟩, mem_lookup_iff.mp before, ?_⟩
    exact Sigma.ext named (heq_of_eq changed)
  · rintro ⟨held, member, rfl⟩
    apply mem_lookup_iff.mp
    rw [renamed _ (mem_keys.mpr (List.mem_map_of_mem member)), mem_lookup_iff.mpr member]
    exact Option.mem_some_self _

/-! ## Additive measures -/

variable {M : Type*} [AddCommMonoid M]

/-- A measure of the entries summed over a map. -/
def total (weight : K → V → M) (m : AList fun _ : K => V) : M :=
  (m.entries.map fun entry => weight entry.1 entry.2).sum

omit [DecidableEq K] in
@[simp] theorem total_empty (weight : K → V → M) : total weight (∅ : AList fun _ : K => V) = 0 := rfl

private theorem total_insert (weight : K → V → M) (m : AList fun _ : K => V) (key : K) (value : V) :
    (m.insert key value).total weight =
      weight key value + ((List.kerase key m.entries).map fun entry => weight entry.1 entry.2).sum := by
  rw [total, entries_insert, List.map_cons, List.sum_cons]

private theorem total_kerase (weight : K → V → M) (m : AList fun _ : K => V) (key : K) :
    m.total weight = (m.lookup key).elim 0 (weight key) +
      ((List.kerase key m.entries).map fun entry => weight entry.1 entry.2).sum := by
  cases found : m.lookup key with
  | none =>
    have absent : key ∉ m.entries.keys := lookup_eq_none.mp found
    rw [List.kerase_of_notMem_keys absent, Option.elim_none, zero_add, total]
  | some value =>
    obtain ⟨same, front, back, _, whole, erased⟩ :=
      List.exists_of_kerase (List.mem_keys_of_mem (mem_lookup_iff.mp found))
    have stored : same = value := by
      have inside : (⟨key, same⟩ : Sigma fun _ : K => V) ∈ m.entries := by
        rw [whole]
        exact List.mem_append_right _ (List.mem_cons_self ..)
      have read := mem_lookup_iff.mpr inside
      rw [Option.mem_def, found] at read
      exact (Option.some.inj read).symm
    rw [erased, total, whole, stored]
    simp only [List.map_append, List.map_cons, List.sum_append, List.sum_cons, Option.elim_some]
    rw [← add_assoc, add_comm _ (weight key value), add_assoc]

theorem total_update (weight : K → V → M) (m : AList fun _ : K => V) (key : K) (change : Option V → V) (gain : M)
    (adds : ∀ old, weight key (change old) = old.elim 0 (weight key) + gain) :
    (m.update key change).total weight = m.total weight + gain := by
  rw [update, total_insert, adds, total_kerase weight m key, add_assoc, add_assoc, add_comm gain]

/-- What the items add to a measure is what the map gains. -/
theorem total_gather (weight : K → V → M) (gain : X → M) (key : X → K) (step : Option V → X → V)
    (adds : ∀ old item, weight (key item) (step old item) = old.elim 0 (weight (key item)) + gain item)
    (m : AList fun _ : K => V) (items : List X) :
    (m.gather key step items).total weight = m.total weight + (items.map gain).sum := by
  induction items generalizing m with
  | nil => simp
  | cons item rest ih =>
    have first : m.gather key step (item :: rest) = (m.update (key item) (step · item)).gather key step rest := rfl
    rw [first, ih, total_update weight m (key item) _ (gain item) fun old => adds old item,
      List.map_cons, List.sum_cons, add_assoc]

/-- The same for the items of one key. -/
theorem weight_collect (weight : V → M) (gain : X → M) (step : Option V → X → V)
    (adds : ∀ old item, weight (step old item) = old.elim 0 weight + gain item) (old : Option V) (items : List X) :
    (collect step old items).elim 0 weight = old.elim 0 weight + (items.map gain).sum := by
  induction items generalizing old with
  | nil => simp [collect]
  | cons item rest ih =>
    change (collect step (some (step old item)) rest).elim 0 weight = _
    rw [ih, Option.elim_some, adds, List.map_cons, List.sum_cons, add_assoc]

end AList

namespace List

variable {A B : Type*} [DecidableEq B]

private theorem sum_map_one {groups : List B} (distinct : groups.Nodup) {own : B} (member : own ∈ groups) (amount : ℕ) :
    (groups.map fun g => if own = g then amount else 0).sum = amount := by
  induction groups with
  | nil => exact absurd member not_mem_nil
  | cons g rest ih =>
    obtain ⟨fresh, later⟩ := nodup_cons.mp distinct
    rw [map_cons, sum_cons]
    by_cases here : own = g
    · subst here
      have others : ∀ n ∈ rest.map fun g => if own = g then amount else 0, n = 0 := by
        intro n inside
        obtain ⟨g, later, rfl⟩ := mem_map.mp inside
        exact if_neg fun same => fresh (by rwa [same])
      rw [if_pos rfl, sum_eq_zero others, Nat.add_zero]
    · rw [if_neg here, Nat.zero_add, ih later ((mem_cons.mp member).resolve_left here)]

/-- What the members of the groups amount to, group by group, is what all items amount to. -/
theorem sum_map_fibers {groups : List B} (distinct : groups.Nodup) {items : List A} (group : A → B)
    (covered : ∀ x ∈ items, group x ∈ groups) (amount : A → ℕ) :
    (groups.map fun g => ((items.filter fun x => group x = g).map amount).sum).sum = (items.map amount).sum := by
  induction items with
  | nil => simp
  | cons x rest ih =>
    obtain ⟨own, others⟩ := forall_mem_cons.mp covered
    have split (g : B) : (((x :: rest).filter fun x => group x = g).map amount).sum =
        (if group x = g then amount x else 0) + ((rest.filter fun x => group x = g).map amount).sum := by
      rw [filter_cons]
      by_cases here : group x = g
      · simp [here]
      · simp [here]
    rw [map_congr_left fun g _ => split g, sum_map_add, sum_map_one distinct own, ih others, map_cons, sum_cons]

end List
