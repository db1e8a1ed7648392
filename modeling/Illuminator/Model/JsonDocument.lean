import Illuminator.Model.Strings
import Mathlib.Data.UInt
import Mathlib.Order.Basic
import Mathlib.Tactic.Tauto

/-! # JSON documents

The values of `nlohmann::json` in full. A number is an integer, an unsigned integer or a `double`, by
what it was made from. An object lists its members in ascending order of their keys. The library's
`dump` and `parse` are outside the repository.
-/

namespace Illuminator

inductive JsonValue (D : Type) where
  | null
  | boolean (value : Bool)
  | number_integer (value : Int64)
  | number_unsigned (value : UInt64)
  | number_float (value : D)
  | string (value : Bytes)
  | array (elements : List (JsonValue D))
  | object (members : List (Bytes × JsonValue D))

namespace JsonValue

variable {D : Type}

abbrev Members (D : Type) := List (Bytes × JsonValue D)

/-- `j[key] = value` for the members of an object `j`. -/
def Members.set (key : Bytes) (value : JsonValue D) : Members D → Members D
  | [] => [(key, value)]
  | (k, v) :: rest =>
    if key = k then (key, value) :: rest
    else if key < k then (key, value) :: (k, v) :: rest
    else (k, v) :: Members.set key value rest

/-- `j[key] = value` for each entry in turn. -/
def Members.setAll (entries : Members D) (j : Members D) : Members D :=
  entries.foldl (fun j entry => Members.set entry.1 entry.2 j) j

mutual

/-- The strings of a value, the keys of its objects included. -/
def strings : JsonValue D → List Bytes
  | .string s => [s]
  | .array elements => stringsOf elements
  | .object members => stringsIn members
  | _ => []

def stringsOf : List (JsonValue D) → List Bytes
  | [] => []
  | v :: rest => v.strings ++ stringsOf rest

def stringsIn : List (Bytes × JsonValue D) → List Bytes
  | [] => []
  | (k, v) :: rest => k :: (v.strings ++ stringsIn rest)

end

mutual

/-- The keys of every object ascend. -/
def Ordered : JsonValue D → Prop
  | .array elements => OrderedOf elements
  | .object members => (members.map Prod.fst).Pairwise (· < ·) ∧ OrderedIn members
  | _ => True

def OrderedOf : List (JsonValue D) → Prop
  | [] => True
  | v :: rest => v.Ordered ∧ OrderedOf rest

def OrderedIn : List (Bytes × JsonValue D) → Prop
  | [] => True
  | (_, v) :: rest => v.Ordered ∧ OrderedIn rest

end

mutual

/-- What a value is after it was written and parsed: a number that is not finite is written as `null`, and
an integer literal without a sign is unsigned. -/
def reparsed (isfinite : D → Bool) : JsonValue D → JsonValue D
  | .number_integer i => if 0 ≤ i then .number_unsigned i.toUInt64 else .number_integer i
  | .number_float d => if isfinite d then .number_float d else .null
  | .array elements => .array (reparsedOf isfinite elements)
  | .object members => .object (reparsedIn isfinite members)
  | other => other

def reparsedOf (isfinite : D → Bool) : List (JsonValue D) → List (JsonValue D)
  | [] => []
  | v :: rest => v.reparsed isfinite :: reparsedOf isfinite rest

def reparsedIn (isfinite : D → Bool) : List (Bytes × JsonValue D) → List (Bytes × JsonValue D)
  | [] => []
  | (k, v) :: rest => (k, v.reparsed isfinite) :: reparsedIn isfinite rest

end

/-- The library's `dump`, which may throw, and `parse`, which throws on a text that is not JSON. -/
structure Library (D : Type) where
  dump : JsonValue D → Option Bytes
  parse : Bytes → Option (JsonValue D)

/-- The library's documented behaviour: `dump` throws on a string that is not UTF-8 and on nothing else,
and parsing the text that it makes gives the value back. -/
structure Library.Documented (isfinite : D → Bool) (json : Library D) : Prop where
  throws : ∀ v, json.dump v = none ↔ ∃ s ∈ v.strings, ¬ ValidUtf8 s
  reads : ∀ v text, v.Ordered → json.dump v = some text → json.parse text = some (v.reparsed isfinite)

theorem stringsOf_eq (elements : List (JsonValue D)) : stringsOf elements = elements.flatMap strings := by
  induction elements with
  | nil => rfl
  | cons v rest ih => rw [stringsOf, ih, List.flatMap_cons]

theorem mem_stringsIn {members : Members D} {s : Bytes} :
    s ∈ stringsIn members ↔ ∃ entry ∈ members, s = entry.1 ∨ s ∈ entry.2.strings := by
  induction members with
  | nil => simp [stringsIn]
  | cons entry rest ih =>
    obtain ⟨k, v⟩ := entry
    rw [stringsIn, List.mem_cons, List.mem_append, ih, List.exists_mem_cons_iff]
    exact or_assoc.symm

theorem orderedOf_iff {elements : List (JsonValue D)} : OrderedOf elements ↔ ∀ v ∈ elements, v.Ordered := by
  induction elements with
  | nil => simp [OrderedOf]
  | cons v rest ih => rw [OrderedOf, ih, List.forall_mem_cons]

theorem orderedIn_iff {members : Members D} : OrderedIn members ↔ ∀ entry ∈ members, entry.2.Ordered := by
  induction members with
  | nil => simp [OrderedIn]
  | cons entry rest ih =>
    obtain ⟨k, v⟩ := entry
    rw [OrderedIn, ih, List.forall_mem_cons]

theorem reparsedOf_eq (isfinite : D → Bool) (elements : List (JsonValue D)) :
    reparsedOf isfinite elements = elements.map (reparsed isfinite) := by
  induction elements with
  | nil => rfl
  | cons v rest ih => rw [reparsedOf, ih, List.map_cons]

theorem lookup_reparsedIn (isfinite : D → Bool) (members : Members D) (key : Bytes) :
    (reparsedIn isfinite members).lookup key = (members.lookup key).map (reparsed isfinite) := by
  induction members with
  | nil => rfl
  | cons entry rest ih =>
    obtain ⟨k, v⟩ := entry
    rw [reparsedIn, List.lookup_cons, List.lookup_cons, ih]
    cases key == k <;> rfl

theorem keys_reparsedIn (isfinite : D → Bool) (members : Members D) :
    (reparsedIn isfinite members).map Prod.fst = members.map Prod.fst := by
  induction members with
  | nil => rfl
  | cons entry rest ih =>
    obtain ⟨k, v⟩ := entry
    rw [reparsedIn, List.map_cons, List.map_cons, ih]

/-! ## Members -/

theorem Members.lookup_set (key other : Bytes) (value : JsonValue D) (j : Members D) :
    (Members.set key value j).lookup other = ((key, value) :: j).lookup other := by
  induction j with
  | nil => rfl
  | cons entry rest ih =>
    obtain ⟨k, v⟩ := entry
    unfold Members.set
    split_ifs with here less
    · subst here
      rw [List.lookup_cons, List.lookup_cons, List.lookup_cons]
      cases other == key <;> rfl
    · rfl
    · rw [List.lookup_cons, ih, List.lookup_cons, List.lookup_cons, List.lookup_cons]
      by_cases same : other = k
      · have apart : (other == key) = false := beq_eq_false_iff_ne.mpr fun equal => here (equal.symm.trans same)
        rw [apart]
      · rw [beq_eq_false_iff_ne.mpr same]

/-- Of several entries with one key the last one counts. -/
theorem Members.lookup_setAll (entries j : Members D) (key : Bytes) :
    (Members.setAll entries j).lookup key = (entries.reverse ++ j).lookup key := by
  induction entries generalizing j with
  | nil => rfl
  | cons entry rest ih =>
    rw [Members.setAll, List.foldl_cons, ← Members.setAll, ih, List.lookup_append, Members.lookup_set,
      ← List.lookup_append, List.reverse_cons, List.append_assoc, List.singleton_append]

theorem Members.keys_set (key : Bytes) (value : JsonValue D) (j : Members D) (other : Bytes) :
    other ∈ (Members.set key value j).map Prod.fst ↔ other = key ∨ other ∈ j.map Prod.fst := by
  induction j with
  | nil => simp [Members.set]
  | cons entry rest ih =>
    obtain ⟨k, v⟩ := entry
    unfold Members.set
    split_ifs with same less
    · subst same
      simp
    · simp
    · simp only [List.map_cons, List.mem_cons, ih]
      tauto

/-- Members stay in ascending order of their keys. -/
theorem Members.set_ascending (key : Bytes) (value : JsonValue D) {j : Members D}
    (ascending : (j.map Prod.fst).Pairwise (· < ·)) : ((Members.set key value j).map Prod.fst).Pairwise (· < ·) := by
  induction j with
  | nil => exact List.pairwise_singleton ..
  | cons entry rest ih =>
    obtain ⟨k, v⟩ := entry
    obtain ⟨least, later⟩ := List.pairwise_cons.mp ascending
    unfold Members.set
    split_ifs with same less
    · subst same
      exact ascending
    · refine List.pairwise_cons.mpr ⟨?_, ascending⟩
      intro other member
      rcases List.mem_cons.mp member with rfl | after
      · exact less
      · exact List.lt_trans less (least other after)
    · refine List.pairwise_cons.mpr ⟨?_, ih later⟩
      intro other member
      rcases (Members.keys_set key value rest other).mp member with rfl | after
      · by_contra notLess
        exact same (List.le_antisymm notLess less)
      · exact least other after

theorem Members.setAll_ascending (entries : Members D) {j : Members D}
    (ascending : (j.map Prod.fst).Pairwise (· < ·)) : ((Members.setAll entries j).map Prod.fst).Pairwise (· < ·) := by
  induction entries generalizing j with
  | nil => exact ascending
  | cons entry rest ih => exact ih (Members.set_ascending entry.1 entry.2 ascending)

theorem Members.set_last {key : Bytes} {j : Members D} (value : JsonValue D)
    (last : ∀ k ∈ j.map Prod.fst, k < key) : Members.set key value j = j ++ [(key, value)] := by
  induction j with
  | nil => rfl
  | cons entry rest ih =>
    obtain ⟨k, v⟩ := entry
    have below : k < key := last k List.mem_cons_self
    have apart : key ≠ k := by
      rintro rfl
      exact List.lt_irrefl _ below
    rw [Members.set, if_neg apart, if_neg (List.lt_asymm below),
      ih fun other later => last other (List.mem_cons_of_mem _ later)]
    rfl

/-- Members that are set in ascending order stand in this order. -/
theorem Members.setAll_append (entries j : Members D) (ascending : ((j ++ entries).map Prod.fst).Pairwise (· < ·)) :
    Members.setAll entries j = j ++ entries := by
  induction entries generalizing j with
  | nil => exact (List.append_nil j).symm
  | cons entry rest ih =>
    obtain ⟨key, value⟩ := entry
    have last : ∀ k ∈ j.map Prod.fst, k < key := by
      intro k before
      rw [List.map_append, List.pairwise_append] at ascending
      exact ascending.2.2 k before key List.mem_cons_self
    rw [List.append_cons] at ascending
    rw [Members.setAll, List.foldl_cons, ← Members.setAll, Members.set_last value last, ih _ ascending, ← List.append_cons]

/-- With distinct keys a member is found under its key. -/
theorem Members.mem_iff_lookup {j : Members D} (distinct : (j.map Prod.fst).Nodup) {key : Bytes}
    {value : JsonValue D} : (key, value) ∈ j ↔ j.lookup key = some value := by
  induction j with
  | nil => simp
  | cons entry rest ih =>
    obtain ⟨k, v⟩ := entry
    obtain ⟨fresh, later⟩ := List.nodup_cons.mp distinct
    rw [List.mem_cons, ih later, List.lookup_cons]
    by_cases same : key = k
    · subst same
      rw [beq_self_eq_true]
      constructor
      · rintro (here | after)
        · cases here
          rfl
        · exact absurd (List.mem_map_of_mem ((ih later).mpr after)) fresh
      · intro here
        cases here
        exact Or.inl rfl
    · rw [beq_eq_false_iff_ne.mpr same]
      constructor
      · rintro (here | after)
        · cases here
          exact absurd rfl same
        · exact after
      · exact Or.inr

theorem Members.setAll_nodup (entries : Members D) : ((Members.setAll entries []).map Prod.fst).Nodup := by
  have ascending := Members.setAll_ascending entries (j := []) List.Pairwise.nil
  refine ascending.imp ?_
  intro key other less same
  subst same
  exact List.lt_irrefl _ less

theorem Members.mem_setAll {entries : Members D} {key : Bytes} {value : JsonValue D} :
    (key, value) ∈ Members.setAll entries [] ↔ entries.reverse.lookup key = some value := by
  rw [Members.mem_iff_lookup (Members.setAll_nodup entries), Members.lookup_setAll, List.append_nil]

/-- An object that is given distinct keys has just these members. -/
theorem Members.mem_setAll_of_nodup {entries : Members D} (distinct : (entries.map Prod.fst).Nodup)
    {entry : Bytes × JsonValue D} : entry ∈ Members.setAll entries [] ↔ entry ∈ entries := by
  have reversed : (entries.reverse.map Prod.fst).Nodup := by
    rw [List.map_reverse, List.nodup_reverse]
    exact distinct
  rw [Members.mem_setAll, ← Members.mem_iff_lookup reversed, List.mem_reverse]

theorem Members.lookup_setAll_of_nodup {entries : Members D} (distinct : (entries.map Prod.fst).Nodup) (key : Bytes) :
    (Members.setAll entries []).lookup key = entries.lookup key := by
  refine Option.ext fun value => ?_
  rw [← Members.mem_iff_lookup (Members.setAll_nodup entries), Members.mem_setAll_of_nodup distinct,
    Members.mem_iff_lookup distinct]

/-- An object whose members are ordered is ordered. -/
theorem ordered_setAll {entries : Members D} (each : ∀ entry ∈ entries, entry.2.Ordered) :
    (JsonValue.object (Members.setAll entries [])).Ordered := by
  refine ⟨Members.setAll_ascending entries (j := []) List.Pairwise.nil, orderedIn_iff.mpr ?_⟩
  rintro ⟨key, value⟩ member
  obtain ⟨before, after, split, _⟩ := List.lookup_eq_some_iff.mp (Members.mem_setAll.mp member)
  refine each (key, value) (List.mem_reverse.mp ?_)
  rw [split]
  exact List.mem_append_right _ List.mem_cons_self

/-! ## Values of UTF-8 strings -/

/-- Every string of a value is UTF-8. -/
def Utf8 (v : JsonValue D) : Prop := ∀ s ∈ v.strings, ValidUtf8 s

@[simp] theorem utf8_string {s : Bytes} : (JsonValue.string s : JsonValue D).Utf8 ↔ ValidUtf8 s :=
  List.forall_mem_singleton

@[simp] theorem utf8_unsigned (u : UInt64) : (JsonValue.number_unsigned u : JsonValue D).Utf8 :=
  List.forall_mem_nil _

@[simp] theorem utf8_integer (i : Int64) : (JsonValue.number_integer i : JsonValue D).Utf8 :=
  List.forall_mem_nil _

@[simp] theorem utf8_array {elements : List (JsonValue D)} :
    (JsonValue.array elements).Utf8 ↔ ∀ v ∈ elements, v.Utf8 := by
  simp only [Utf8, strings, stringsOf_eq, List.mem_flatMap]
  constructor
  · intro each v inside s shown
    exact each s ⟨v, inside, shown⟩
  · rintro each s ⟨v, inside, shown⟩
    exact each v inside s shown

theorem utf8_object {members : Members D} :
    (JsonValue.object members).Utf8 ↔ ∀ entry ∈ members, ValidUtf8 entry.1 ∧ entry.2.Utf8 := by
  simp only [Utf8, strings, mem_stringsIn]
  constructor
  · intro each entry inside
    exact ⟨each entry.1 ⟨entry, inside, Or.inl rfl⟩, fun s shown => each s ⟨entry, inside, Or.inr shown⟩⟩
  · rintro each s ⟨entry, inside, rfl | shown⟩
    · exact (each entry inside).1
    · exact (each entry inside).2 s shown

/-- Of several entries with one key only the last one is shown. -/
theorem utf8_setAll {entries : Members D} :
    (JsonValue.object (Members.setAll entries [])).Utf8 ↔
      ∀ key value, entries.reverse.lookup key = some value → ValidUtf8 key ∧ value.Utf8 := by
  rw [utf8_object]
  exact ⟨fun each key value found => each (key, value) (Members.mem_setAll.mpr found),
    fun each entry inside => each entry.1 entry.2 (Members.mem_setAll.mp inside)⟩

theorem utf8_setAll_of_nodup {entries : Members D} (distinct : (entries.map Prod.fst).Nodup) :
    (JsonValue.object (Members.setAll entries [])).Utf8 ↔ ∀ entry ∈ entries, ValidUtf8 entry.1 ∧ entry.2.Utf8 := by
  rw [utf8_object]
  exact forall_congr' fun entry => imp_congr_left (Members.mem_setAll_of_nodup distinct)

theorem Library.Documented.dump_some {isfinite : D → Bool} {json : Library D} (documented : json.Documented isfinite)
    {v : JsonValue D} : (∃ text, json.dump v = some text) ↔ v.Utf8 := by
  rw [← Option.isSome_iff_exists, ← Option.ne_none_iff_isSome, ne_eq, documented.throws]
  simp only [Utf8, not_exists, not_and, not_not]

end JsonValue

end Illuminator
