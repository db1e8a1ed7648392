import Illuminator.Model.ConfigValue
import Illuminator.ToMathlib.SeparatedPaths

/-! # Flattening keeps the tree

The table that `ParseConfigValue` builds holds, at every dotted path, exactly what the YAML tree has
there: the text of a scalar, the joined text of a sequence of scalars, and the size of a sequence under
`_size`. Keys without dots cannot collide, so each write touches one path, and `operator[]` reads the
subtree below a path.
-/

namespace Illuminator

open SeparatedPaths

namespace ConfigValue

variable {c : ConfigValue} {key : Bytes}

theorem lookup_Set (c : ConfigValue) (key value other : Bytes) :
    (c.Set key value).values_.lookup other = if other = key then some value else c.values_.lookup other := by
  split_ifs with same
  · rw [same]
    exact AList.lookup_insert _
  · exact AList.lookup_insert_ne same

/-- One turn of the loops that write, under a new key, the entries which `rename` keeps. -/
def copyEntry (rename : Bytes → Option Bytes) (c : ConfigValue) (entry : Sigma fun _ : Bytes => Bytes) : ConfigValue :=
  match rename entry.1 with
  | some key => c.Set key entry.2
  | none => c

section Copy

variable {rename : Bytes → Option Bytes} {entries : List (Sigma fun _ : Bytes => Bytes)} {source target : Bytes}

theorem lookup_copyEntry (entry : Sigma fun _ : Bytes => Bytes) :
    (copyEntry rename c entry).values_.lookup target =
      if rename entry.1 = some target then some entry.2 else c.values_.lookup target := by
  unfold copyEntry
  cases rename entry.1 with
  | none => rw [if_neg (by simp)]
  | some key => simp only [lookup_Set, Option.some.injEq, eq_comm]

theorem lookup_copy_of_notMem (unused : ∀ source, rename source ≠ some target) :
    (entries.foldl (copyEntry rename) c).values_.lookup target = c.values_.lookup target := by
  induction entries generalizing c with
  | nil => rfl
  | cons entry rest ih => rw [List.foldl_cons, ih, lookup_copyEntry, if_neg (unused entry.1)]

theorem lookup_copy (distinct : entries.NodupKeys)
    (injective : ∀ left right target, rename left = some target → rename right = some target → left = right)
    (renamed : rename source = some target) :
    (entries.foldl (copyEntry rename) c).values_.lookup target =
      (entries.dlookup source).or (c.values_.lookup target) := by
  induction entries generalizing c with
  | nil => rfl
  | cons entry rest ih =>
    obtain ⟨key, value⟩ := entry
    rw [List.nodupKeys_cons] at distinct
    rw [List.foldl_cons, ih distinct.2, lookup_copyEntry]
    by_cases same : key = source
    · cases same
      rw [List.dlookup_eq_none.mpr distinct.1, List.dlookup_cons_eq, if_pos renamed, Option.none_or, Option.some_or]
    · have other : rename key ≠ some target := fun equal => same (injective _ _ target equal renamed)
      rw [List.dlookup_cons_ne _ _ (Ne.symm same), if_neg other]

end Copy

theorem SetNested_eq (c : ConfigValue) (key : Bytes) (nested : ConfigValue) :
    c.SetNested key nested =
      nested.values_.entries.foldl (copyEntry fun source => some (extend 0x2E key source)) c := rfl

theorem lookup_SetNested (c : ConfigValue) (key : Bytes) (nested : ConfigValue) (tail : Bytes) :
    (c.SetNested key nested).values_.lookup (extend 0x2E key tail) =
      (nested.values_.lookup tail).or (c.values_.lookup (extend 0x2E key tail)) := by
  rw [SetNested_eq]
  refine lookup_copy nested.values_.nodupKeys (fun left right target first second => ?_) rfl
  exact extend_injective key (Option.some.inj (first.trans second.symm))

theorem lookup_SetNested_of_ne (c : ConfigValue) (nested : ConfigValue) {key text : Bytes}
    (outside : ∀ tail, extend 0x2E key tail ≠ text) :
    (c.SetNested key nested).values_.lookup text = c.values_.lookup text := by
  rw [SetNested_eq]
  exact lookup_copy_of_notMem fun source same => outside source (Option.some.inj same)

/-- The part of a key after a prefix. -/
def suffix (keyPrefix key : Bytes) : Option Bytes :=
  if key.take keyPrefix.length = keyPrefix then some (key.drop keyPrefix.length) else none

theorem suffix_eq_some {keyPrefix key tail : Bytes} : suffix keyPrefix key = some tail ↔ key = keyPrefix ++ tail := by
  unfold suffix
  constructor
  · intro found
    split_ifs at found with same
    rw [← Option.some.inj found]
    conv_rhs => enter [1]; rw [← same]
    exact (List.take_append_drop ..).symm
  · rintro rfl
    rw [if_pos List.take_left, List.drop_left]

theorem lookup_child (c : ConfigValue) (key tail : Bytes) :
    (c.child key).values_.lookup tail = if tail = [] then c.values_.lookup key else none := by
  unfold child
  cases c.values_.lookup key with
  | none => exact (ite_self _).symm
  | some value => exact lookup_Set empty [] value tail

theorem subscript_eq (c : ConfigValue) (key : Bytes) :
    c.subscript key = c.values_.entries.foldl (copyEntry (suffix (key ++ [0x2E]))) (c.child key) := by
  refine congrArg (fun step => c.values_.entries.foldl step _) ?_
  funext child entry
  unfold copyEntry suffix
  split_ifs <;> rfl

theorem lookup_subscript (c : ConfigValue) (key tail : Bytes) :
    (c.subscript key).values_.lookup tail =
      (if tail = [] then c.values_.lookup (key ++ [0x2E]) else none).or (c.values_.lookup (extend 0x2E key tail)) := by
  have injective : ∀ left right target, suffix (key ++ [0x2E]) left = some target →
      suffix (key ++ [0x2E]) right = some target → left = right := by
    intro left right target first second
    rw [suffix_eq_some.mp first, suffix_eq_some.mp second]
  rw [subscript_eq, lookup_copy c.values_.nodupKeys injective (suffix_eq_some.mpr rfl)]
  change (c.values_.lookup ((key ++ [0x2E]) ++ tail)).or _ = _
  by_cases empty : tail = []
  · subst empty
    rw [List.append_nil, if_pos rfl, extend, if_pos rfl, lookup_child, if_pos rfl]
  · rw [if_neg empty, Option.none_or, extend, if_neg empty, List.append_assoc, List.singleton_append, lookup_child,
      if_neg empty, Option.or_none]

theorem isNull_iff (c : ConfigValue) : c.IsNull = true ↔ ∀ key, c.values_.lookup key = none := by
  rw [IsNull, List.isEmpty_iff]
  constructor
  · intro empty key
    change c.values_.entries.dlookup key = none
    rw [empty]
    rfl
  · intro nothing
    rw [List.eq_nil_iff_forall_not_mem]
    intro entry member
    have found := List.mem_dlookup c.values_.nodupKeys member
    exact absurd (nothing entry.1) (by rw [AList.lookup, found]; exact Option.some_ne_none _)

/-- What a table has at each text. -/
abbrev Holds (c : ConfigValue) (tree : List Bytes → Option Bytes) : Prop :=
  SeparatedPaths.Holds 0x2E (fun text => c.values_.lookup text) tree

end ConfigValue

namespace YAML

/-- A path component: not empty, and without a dot. -/
abbrev Component (part : Bytes) : Prop := Part 0x2E part

def itemAt (i : ℕ) (items : List Node) (part : Bytes) : Option Node :=
  ((items.zipIdx i).find? fun item => to_string item.2 = part).map Prod.fst

def entryAt (entries : List (Bytes × Node)) (part : Bytes) : Option Node :=
  (entries.find? fun entry => entry.1 = part).map Prod.snd

/-- The child of a node under a map key or the decimal index of an item. -/
def Node.child : Node → Bytes → Option Node
  | .map entries, part => entryAt entries part
  | .sequence items, part => itemAt 0 items part
  | _, _ => none

/-- The node at a path. -/
def Node.get : Node → List Bytes → Option Node
  | node, [] => some node
  | node, part :: path => (node.child part).bind fun child => child.get path

/-- The trees whose keys cannot be confused: the keys of a map are distinct components other than `_size`, and a
sequence has a length that `size_t` can hold. -/
inductive Node.Plain : Node → Prop
  | null : Plain .null
  | scalar (text : Bytes) : Plain (.scalar text)
  | sequence {items : List Node} (fits : items.length < 2 ^ 64) (each : ∀ item ∈ items, Plain item) :
      Plain (.sequence items)
  | map {entries : List (Bytes × Node)} (distinct : (entries.map Prod.fst).Nodup)
      (keys : ∀ entry ∈ entries, Component entry.1 ∧ entry.1 ≠ ascii "_size")
      (each : ∀ entry ∈ entries, Plain entry.2) : Plain (.map entries)

/-- The text stored for the node itself: the text of a scalar, and the joined items of a sequence. -/
def Node.own : Node → Option Bytes
  | .scalar text => some text
  | .sequence items =>
    let loop := ParseItems [] 0 ⟨.empty, [], true⟩ items
    if loop.all_scalar then some loop.joined else none
  | _ => none

def Node.size : Node → Option Bytes
  | .sequence items => some (to_string items.length)
  | _ => none

/-- What is stored at a path below a node. -/
def stored : Node → List Bytes → Option Bytes
  | node, [] => node.own
  | node, part :: path =>
    (if part = ascii "_size" ∧ path = [] then node.size else none).or
      ((node.child part).bind fun child => stored child path)

theorem component_to_string (n : ℕ) : Component (to_string n) := by
  refine ⟨to_string_ne_nil n, fun dot => ?_⟩
  have range := to_string_range dot
  exact absurd range.1 (by decide)

theorem component_size : Component (ascii "_size") := by
  refine ⟨?_, ?_⟩ <;> decide

theorem to_string_ne_size (n : ℕ) : to_string n ≠ ascii "_size" := by
  intro same
  have member : (0x5F : UInt8) ∈ to_string n := by
    rw [same]
    decide
  have range := to_string_range member
  exact absurd range.2 (by decide)

theorem itemAt_cons (i : ℕ) (item : Node) (rest : List Node) (part : Bytes) :
    itemAt i (item :: rest) part = if to_string i = part then some item else itemAt (i + 1) rest part := by
  unfold itemAt
  rw [List.zipIdx_cons, List.find?_cons]
  by_cases same : to_string i = part
  · simp [same]
  · simp [same]

theorem itemAt_eq_some {i : ℕ} {items : List Node} {part : Bytes} {item : Node} :
    itemAt i items part = some item ↔ ∃ k, part = to_string (i + k) ∧ items[k]? = some item := by
  induction items generalizing i with
  | nil => simp [itemAt]
  | cons head rest ih =>
    rw [itemAt_cons]
    split_ifs with same
    · constructor
      · intro found
        exact ⟨0, same.symm, by simpa using found⟩
      · rintro ⟨k, named, found⟩
        have zero : i + k = i := to_string_injective (named.symm.trans same.symm)
        have start : k = 0 := by omega
        subst start
        simpa using found
    · rw [ih]
      constructor
      · rintro ⟨k, named, found⟩
        exact ⟨k + 1, by rw [named]; congr 1; omega, by simpa using found⟩
      · rintro ⟨k, named, found⟩
        cases k with
        | zero => exact absurd named.symm same
        | succ k => exact ⟨k, by rw [named]; congr 1; omega, by simpa using found⟩

theorem entryAt_eq_some {entries : List (Bytes × Node)} {part : Bytes} {child : Node}
    (found : entryAt entries part = some child) : (part, child) ∈ entries := by
  obtain ⟨entry, first, rfl⟩ := Option.map_eq_some_iff.mp found
  have named : entry.1 = part := by simpa using List.find?_some first
  rw [← named]
  exact List.mem_of_find?_eq_some first

/-- A child of a plain node is plain and has a component other than `_size`. -/
theorem Node.Plain.child {node child : Node} {part : Bytes} (plain : node.Plain)
    (found : node.child part = some child) :
    child.Plain ∧ Component part ∧ part ≠ ascii "_size" := by
  cases plain with
  | null => cases found
  | scalar text => cases found
  | sequence fits each =>
    obtain ⟨k, rfl, inside⟩ := itemAt_eq_some.mp found
    exact ⟨each _ (List.mem_of_getElem? inside), component_to_string _, to_string_ne_size _⟩
  | map distinct keys each =>
    have member := entryAt_eq_some found
    exact ⟨each _ member, keys _ member⟩

theorem Node.Plain.get {node target : Node} {path : List Bytes} (plain : node.Plain)
    (found : node.get path = some target) :
    target.Plain ∧ ∀ part ∈ path, Component part := by
  induction path generalizing node with
  | nil =>
    cases found
    exact ⟨plain, by simp⟩
  | cons part rest ih =>
    obtain ⟨child, here, below⟩ := Option.bind_eq_some_iff.mp found
    have first := plain.child here
    have others := ih first.1 below
    exact ⟨others.1, List.forall_mem_cons.mpr ⟨first.2.1, others.2⟩⟩

theorem Node.Plain.clean {node : Node} (plain : node.Plain) : Clean (stored node) := by
  intro path
  induction path generalizing node with
  | nil => intro _ inside; cases inside
  | cons part rest ih =>
    intro present inside
    rw [stored] at present
    by_cases marker : part = ascii "_size" ∧ rest = []
    · obtain ⟨rfl, rfl⟩ := marker
      exact component_size.1 (List.mem_singleton.mp inside).symm
    · rw [if_neg marker, Option.none_or] at present
      obtain ⟨text, found⟩ := Option.ne_none_iff_exists'.mp present
      obtain ⟨child, here, below⟩ := Option.bind_eq_some_iff.mp found
      have first := plain.child here
      rcases List.mem_cons.mp inside with same | later
      · exact first.2.1.1 same.symm
      · exact ih first.1 (by simp [below]) later

/-! ## What the writes store -/

/-- A tree with another one below a path, which hides what was there. -/
def overlay (path : List Bytes) (tree old : List Bytes → Option Bytes) (whole : List Bytes) : Option Bytes :=
  (under path tree whole).or (old whole)

/-- The trees below the children of a node. -/
def ofChildren (child : Bytes → Option Node) : List Bytes → Option Bytes
  | [] => none
  | part :: path => (child part).bind fun node => stored node path

/-- A node whose value is stored below every path. -/
def Stores (node : Node) : Prop :=
  ∀ (cv : ConfigValue) (tree : List Bytes → Option Bytes) (path : List Bytes), path ≠ [] →
    (∀ part ∈ path, Component part) → cv.Holds tree →
    (Store cv (joined 0x2E path) node).Holds (overlay path (stored node) tree)

section Overlay

variable {path : List Bytes} {tree other old : List Bytes → Option Bytes}

theorem overlay_none (nothing : ∀ rest, tree rest = none) : overlay path tree old = old := by
  funext whole
  have empty : under path tree whole = none := by
    rw [Option.eq_none_iff_forall_ne_some]
    intro value found
    obtain ⟨rest, _, inside⟩ := under_eq_some.mp found
    rw [nothing] at inside
    cases inside
  rw [overlay, empty, Option.none_or]

/-- Writing twice below one path. -/
theorem overlay_overlay : overlay path other (overlay path tree old) =
    overlay path (fun rest => (other rest).or (tree rest)) old := by
  funext whole
  rw [overlay, overlay, overlay, ← Option.or_assoc, under_or]

theorem overlay_append (first second : List Bytes) :
    overlay (first ++ second) tree old = overlay first (under second tree) old := by
  funext whole
  rw [overlay, overlay, under_under]

theorem overlay_single {value : Bytes} : overlay path (fun rest => if rest = [] then some value else none) old =
    fun whole => if whole = path then some value else old whole := by
  funext whole
  by_cases same : whole = path
  · rw [if_pos same, same, overlay]
    have here := under_append path [] fun rest : List Bytes => if rest = [] then some value else none
    rw [List.append_nil, if_pos rfl] at here
    rw [here, Option.some_or]
  · have empty : under path (fun rest : List Bytes => if rest = [] then some value else none) whole = none := by
      rw [Option.eq_none_iff_forall_ne_some]
      intro found inside
      obtain ⟨rest, rfl, present⟩ := under_eq_some.mp inside
      split_ifs at present with nothing
      exact same (by rw [nothing, List.append_nil])
    rw [if_neg same, overlay, empty, Option.none_or]

end Overlay

theorem Holds_Set {cv : ConfigValue} {tree : List Bytes → Option Bytes} {path : List Bytes}
    (parts : ∀ part ∈ path, Component part) (holds : cv.Holds tree) (value : Bytes) :
    (cv.Set (joined 0x2E path) value).Holds
      (overlay path (fun rest => if rest = [] then some value else none) tree) := by
  rw [overlay_single]
  exact SeparatedPaths.Holds.write holds parts fun text => ConfigValue.lookup_Set cv _ value text

theorem Holds_empty : ConfigValue.empty.Holds fun _ => none := fun _ => rfl

theorem below_joined {path : List Bytes} (parts : ∀ part ∈ path, Component part) (part : Bytes) :
    below (joined 0x2E path) part = joined 0x2E (path ++ [part]) := by
  unfold below
  by_cases empty : path = []
  · rw [empty, joined_nil, if_pos rfl, List.nil_append, joined_singleton]
  · rw [if_neg (joined_ne_nil empty (nil_notMem_of_parts parts)), joined_append empty (List.cons_ne_nil _ _),
      joined_singleton]

theorem parts_snoc {path : List Bytes} (parts : ∀ part ∈ path, Component part) {part : Bytes}
    (component : Component part) : ∀ each ∈ path ++ [part], Component each := by
  intro each member
  rcases List.mem_append.mp member with earlier | last
  · exact parts each earlier
  · rw [List.mem_singleton.mp last]
    exact component

/-- The loop over the items stores each of them under its index. -/
theorem ParseItems_holds {items : List Node} (each : ∀ item ∈ items, Stores item) {path : List Bytes}
    (parts : ∀ part ∈ path, Component part) {loop : Items} {tree : List Bytes → Option Bytes}
    (holds : loop.cv.Holds tree) (i : ℕ) :
    (ParseItems (joined 0x2E path) i loop items).cv.Holds (overlay path (ofChildren (itemAt i items)) tree) := by
  induction items generalizing i loop tree with
  | nil =>
    have nothing : ∀ rest, ofChildren (itemAt i []) rest = none := by
      intro rest
      cases rest <;> rfl
    rw [overlay_none nothing]
    exact holds
  | cons item rest ih =>
    rw [ParseItems_cons]
    have written : (loop.next (joined 0x2E path) i item).cv.Holds
        (overlay (path ++ [to_string i]) (stored item) tree) := by
      change (Store loop.cv (below (joined 0x2E path) (to_string i)) item).Holds _
      rw [below_joined parts]
      exact each item List.mem_cons_self _ _ _ (by simp) (parts_snoc parts (component_to_string i)) holds
    have later := ih (fun other member => each other (List.mem_cons_of_mem _ member)) written (i + 1)
    rw [overlay_append, overlay_overlay] at later
    refine cast (congrArg _ (congrArg (overlay path · tree) (funext fun whole => ?_))) later
    cases whole with
    | nil => rfl
    | cons part below =>
      change ((itemAt (i + 1) rest part).bind _).or (under [to_string i] (stored item) (part :: below)) =
        (itemAt i (item :: rest) part).bind _
      rw [itemAt_cons]
      split_ifs with same
      · have unused : itemAt (i + 1) rest part = none := by
          rw [Option.eq_none_iff_forall_ne_some]
          intro other found
          obtain ⟨k, named, _⟩ := itemAt_eq_some.mp found
          have equal := to_string_injective (same.trans named)
          omega
        rw [unused, ← same]
        exact (Option.none_or).trans (under_append [to_string i] below (stored item))
      · have outside : under [to_string i] (stored item) (part :: below) = none := by
          refine under_eq_none fun within => same ?_
          exact (List.cons_prefix_cons.mp within).1
        rw [outside, Option.or_none]

/-- The joined text and the flag of the loop do not depend on where it writes. -/
theorem ParseItems_vars {items : List Node} {left right : Items} (joined : left.joined = right.joined)
    (flag : left.all_scalar = right.all_scalar) (pre other : Bytes) (i : ℕ) :
    (ParseItems pre i left items).joined = (ParseItems other i right items).joined ∧
      (ParseItems pre i left items).all_scalar = (ParseItems other i right items).all_scalar := by
  induction items generalizing i left right with
  | nil => exact ⟨joined, flag⟩
  | cons item rest ih =>
    rw [ParseItems_cons, ParseItems_cons]
    refine ih ?_ ?_ (i + 1)
    · cases item <;> simp only [Items.next, joined]
    · cases item <;> simp only [Items.next, flag]

/-- What is stored strictly below a node. -/
def storedBelow (node : Node) (rest : List Bytes) : Option Bytes := if rest = [] then none else stored node rest

theorem storedBelow_sequence (items : List Node) :
    storedBelow (.sequence items) = fun rest =>
      (under [ascii "_size"] (fun rest => if rest = [] then some (to_string items.length) else none) rest).or
        (ofChildren (itemAt 0 items) rest) := by
  funext rest
  cases rest with
  | nil =>
    rw [under_eq_none (by decide)]
    rfl
  | cons part more =>
    change (if part = ascii "_size" ∧ more = [] then some (to_string items.length) else none).or _ = _
    by_cases marker : part = ascii "_size"
    · subst marker
      have here := under_append [ascii "_size"] more fun rest : List Bytes =>
        if rest = [] then some (to_string items.length) else none
      rw [List.singleton_append] at here
      rw [here]
      simp only [true_and]
      rfl
    · have outside : ¬ [ascii "_size"] <+: part :: more :=
        fun within => marker (List.cons_prefix_cons.mp within).1.symm
      rw [if_neg fun both => marker both.1, under_eq_none outside]
      rfl

theorem ParseSequenceInto_below {items : List Node} (each : ∀ item ∈ items, Stores item) {path : List Bytes}
    (parts : ∀ part ∈ path, Component part) {cv : ConfigValue} {tree : List Bytes → Option Bytes}
    (holds : cv.Holds tree) :
    ((ParseItems (joined 0x2E path) 0 ⟨cv, [], true⟩ items).cv.Set
        (below (joined 0x2E path) (ascii "_size")) (to_string items.length)).Holds
      (overlay path (storedBelow (.sequence items)) tree) := by
  have loop : (ParseItems (joined 0x2E path) 0 ⟨cv, [], true⟩ items).cv.Holds
      (overlay path (ofChildren (itemAt 0 items)) tree) := ParseItems_holds each parts holds 0
  have sized := Holds_Set (parts_snoc parts component_size) loop (to_string items.length)
  rw [overlay_append, overlay_overlay, ← storedBelow_sequence] at sized
  rw [below_joined parts]
  exact sized

/-- A sequence is stored below a path: its items, its size, and its joined text at the path itself. -/
theorem ParseSequenceInto_holds {items : List Node} (each : ∀ item ∈ items, Stores item) :
    Stores (.sequence items) := by
  intro cv tree path below parts holds
  have sized := ParseSequenceInto_below each parts holds
  have vars : (ParseItems (joined 0x2E path) 0 ⟨cv, [], true⟩ items).joined =
        (ParseItems [] 0 ⟨.empty, [], true⟩ items).joined ∧
      (ParseItems (joined 0x2E path) 0 ⟨cv, [], true⟩ items).all_scalar =
        (ParseItems [] 0 ⟨.empty, [], true⟩ items).all_scalar := by
    apply ParseItems_vars <;> rfl
  have present : joined 0x2E path ≠ [] := joined_ne_nil below (nil_notMem_of_parts parts)
  have node : stored (.sequence items) = fun rest =>
      (if rest = [] then (Node.sequence items).own else none).or (storedBelow (.sequence items) rest) := by
    funext rest
    cases rest with
    | nil => exact Option.or_none.symm
    | cons part more => exact Option.none_or.symm
  have own : (Node.sequence items).own =
      if (ParseItems [] 0 ⟨.empty, [], true⟩ items).all_scalar then
        some (ParseItems [] 0 ⟨.empty, [], true⟩ items).joined else none := rfl
  change (finish (joined 0x2E path) items.length _).Holds _
  unfold finish
  rw [vars.1, vars.2, node, own]
  by_cases flag : (ParseItems [] 0 ⟨.empty, [], true⟩ items).all_scalar = true
  · rw [if_pos ⟨flag, present⟩, if_pos flag]
    have joinedText := Holds_Set parts sized (ParseItems [] 0 ⟨.empty, [], true⟩ items).joined
    rw [overlay_overlay] at joinedText
    exact joinedText
  · rw [if_neg fun both => flag both.1, if_neg flag]
    simpa only [ite_self, Option.none_or] using sized

/-- The loop over the entries of a map stores each of them under its key. -/
theorem ParseEntries_holds {entries : List (Bytes × Node)} (each : ∀ entry ∈ entries, Stores entry.2)
    (distinct : (entries.map Prod.fst).Nodup) (keys : ∀ entry ∈ entries, Component entry.1) {cv : ConfigValue}
    {tree : List Bytes → Option Bytes} (holds : cv.Holds tree) :
    (ParseEntries cv entries).Holds (overlay [] (ofChildren (entryAt entries)) tree) := by
  induction entries generalizing cv tree with
  | nil =>
    have nothing : ∀ rest, ofChildren (entryAt []) rest = none := by
      intro rest
      cases rest <;> rfl
    rw [overlay_none nothing]
    exact holds
  | cons entry rest ih =>
    obtain ⟨key, child⟩ := entry
    rw [List.map_cons, List.nodup_cons] at distinct
    have component : ∀ part ∈ [key], Component part := by
      intro part member
      rw [List.mem_singleton.mp member]
      exact keys _ List.mem_cons_self
    have written := each _ List.mem_cons_self cv tree [key] (List.cons_ne_nil _ _) component holds
    rw [joined_singleton] at written
    have later := ih (fun other member => each other (List.mem_cons_of_mem _ member)) distinct.2
      (fun other member => keys other (List.mem_cons_of_mem _ member)) written
    rw [← List.nil_append [key], overlay_append, overlay_overlay] at later
    rw [ParseEntries_cons]
    refine cast (congrArg _ (congrArg (overlay [] · tree) (funext fun whole => ?_))) later
    cases whole with
    | nil => rfl
    | cons part below =>
      change ((entryAt rest part).bind _).or (under [key] (stored child) (part :: below)) =
        (entryAt ((key, child) :: rest) part).bind _
      by_cases same : key = part
      · subst same
        have unused : entryAt rest key = none := by
          rw [Option.eq_none_iff_forall_ne_some]
          intro other found
          exact distinct.1 (List.mem_map.mpr ⟨_, entryAt_eq_some found, rfl⟩)
        have first : entryAt ((key, child) :: rest) key = some child := by simp [entryAt]
        rw [unused, first]
        exact (Option.none_or).trans (under_append [key] below (stored child))
      · have outside : under [key] (stored child) (part :: below) = none :=
          under_eq_none fun within => same (List.cons_prefix_cons.mp within).1
        have skipped : entryAt ((key, child) :: rest) part = entryAt rest part := by simp [entryAt, same]
        rw [outside, Option.or_none, skipped]

theorem stored_map (entries : List (Bytes × Node)) : stored (.map entries) = ofChildren (entryAt entries) := by
  funext rest
  cases rest with
  | nil => rfl
  | cons part more =>
    change (if part = ascii "_size" ∧ more = [] then none else none).or _ = _
    rw [ite_self, Option.none_or]
    rfl

/-- What is stored for a whole document: a sequence at the root has no joined text. -/
def flattened (root : Node) (path : List Bytes) : Option Bytes :=
  match root with
  | .sequence items => storedBelow (.sequence items) path
  | _ => stored root path

theorem overlay_root (tree : List Bytes → Option Bytes) : overlay [] tree (fun _ => none) = tree := by
  funext whole
  rw [overlay, under_nil, Option.or_none]

theorem Node.Plain.stores {node : Node} (plain : node.Plain) : Stores node := by
  induction plain with
  | null =>
    intro cv tree path _ _ holds
    have nothing : ∀ rest, stored .null rest = none := by
      intro rest
      cases rest with
      | nil => rfl
      | cons part more =>
        change (if part = ascii "_size" ∧ more = [] then none else none).or none = none
        rw [ite_self, Option.none_or]
    rw [overlay_none nothing]
    exact holds
  | scalar text =>
    intro cv tree path _ parts holds
    have single : stored (.scalar text) = fun rest => if rest = [] then some text else none := by
      funext rest
      cases rest with
      | nil => rfl
      | cons part more =>
        change (if part = ascii "_size" ∧ more = [] then none else none).or none = _
        rw [ite_self, Option.none_or]
        rfl
    rw [single]
    exact Holds_Set parts holds text
  | sequence fits each ih => exact ParseSequenceInto_holds ih
  | map distinct keys each ih =>
    rename_i entries
    intro cv tree path below parts holds
    have nested := ParseEntries_holds ih distinct (fun entry member => (keys entry member).1) Holds_empty
    rw [overlay_root, ← stored_map] at nested
    exact SeparatedPaths.Holds.graft holds nested (Node.Plain.map distinct keys each).clean below parts
      (fun tail => ConfigValue.lookup_SetNested cv _ _ tail)
      (fun text outside => ConfigValue.lookup_SetNested_of_ne cv _ outside)

/-- The table of a document holds the flattened document. -/
theorem ParseConfigValue_holds {root : Node} (plain : root.Plain) : (ParseConfigValue root).Holds (flattened root) := by
  have noParts : ∀ part ∈ ([] : List Bytes), Component part := by simp
  cases plain with
  | null =>
    intro text
    change none = stored .null (segments 0x2E text)
    cases segments 0x2E text with
    | nil => rfl
    | cons part more =>
      change none = (if part = ascii "_size" ∧ more = [] then none else none).or none
      rw [ite_self, Option.none_or]
  | scalar text =>
    have written := Holds_Set noParts Holds_empty text
    rw [overlay_root] at written
    refine cast (congrArg _ (funext fun rest => ?_)) written
    cases rest with
    | nil => rfl
    | cons part more =>
      change _ = (if part = ascii "_size" ∧ more = [] then none else none).or none
      rw [ite_self, Option.none_or]
      rfl
  | sequence fits each =>
    have sized := ParseSequenceInto_below (fun item member => (each item member).stores) noParts Holds_empty
    rw [overlay_root] at sized
    rename_i items
    change (finish [] items.length (ParseItems [] 0 ⟨.empty, [], true⟩ items)).Holds _
    unfold finish
    rw [if_neg (by simp)]
    exact sized
  | map distinct keys each =>
    have entries := ParseEntries_holds (fun entry member => (each entry member).stores) distinct
      (fun entry member => (keys entry member).1) Holds_empty
    rw [overlay_root, ← stored_map] at entries
    exact entries

theorem flattened_clean {root : Node} (plain : root.Plain) : Clean (flattened root) := by
  intro path present
  refine plain.clean path fun nothing => present ?_
  cases root with
  | sequence items =>
    change (if path = [] then none else stored (.sequence items) path) = none
    rw [nothing, ite_self]
  | null => exact nothing
  | scalar text => exact nothing
  | map entries => exact nothing

theorem flattened_cons (root : Node) (part : Bytes) (path : List Bytes) :
    flattened root (part :: path) = stored root (part :: path) := by
  cases root <;> rfl

/-- Reading a path component by component. -/
def subscripts (c : ConfigValue) (path : List Bytes) : ConfigValue := path.foldl ConfigValue.subscript c

theorem Holds_subscript {c : ConfigValue} {tree : List Bytes → Option Bytes} {path : List Bytes}
    (holds : c.Holds tree) (clean : Clean tree) (below : path ≠ []) (parts : ∀ part ∈ path, Component part) :
    (c.subscript (joined 0x2E path)).Holds fun rest => tree (path ++ rest) :=
  SeparatedPaths.Holds.below holds clean below parts fun tail => ConfigValue.lookup_subscript c _ tail

theorem Holds_subscripts {c : ConfigValue} {tree : List Bytes → Option Bytes} {path : List Bytes}
    (holds : c.Holds tree) (clean : Clean tree) (parts : ∀ part ∈ path, Component part) :
    (subscripts c path).Holds fun rest => tree (path ++ rest) := by
  induction path generalizing c tree with
  | nil => exact holds
  | cons part more ih =>
    have first := parts part List.mem_cons_self
    have component : ∀ each ∈ [part], Component each := by
      intro each member
      rw [List.mem_singleton.mp member]
      exact first
    have read := Holds_subscript holds clean (List.cons_ne_nil part []) component
    rw [joined_singleton] at read
    refine ih read (fun rest present inside => ?_) fun each member => parts each (List.mem_cons_of_mem _ member)
    exact clean _ present (List.mem_append_right _ inside)

/-- What is stored at the path of a node of the tree is what is stored for that node. -/
theorem stored_append {node target : Node} {path : List Bytes} (plain : node.Plain)
    (found : node.get path = some target) (rest : List Bytes) : stored node (path ++ rest) = stored target rest := by
  induction path generalizing node with
  | nil =>
    cases found
    rfl
  | cons part more ih =>
    obtain ⟨child, here, below⟩ := Option.bind_eq_some_iff.mp found
    have first := plain.child here
    rw [List.cons_append, stored, here, if_neg fun marker => first.2.2 marker.1, Option.none_or, Option.bind_some,
      ih first.1 below]

/-- Nothing is stored below a path that is neither a node nor the size of a sequence. -/
theorem stored_none {node : Node} {path : List Bytes} (missing : node.get path = none)
    (unmarked : ∀ front items, path = front ++ [ascii "_size"] → node.get front ≠ some (.sequence items))
    (rest : List Bytes) : stored node (path ++ rest) = none := by
  induction path generalizing node with
  | nil => cases missing
  | cons part more ih =>
    have marker : (if part = ascii "_size" ∧ more ++ rest = [] then node.size else none) = none := by
      split_ifs with both
      · obtain ⟨rfl, nothing⟩ := both
        rw [(List.append_eq_nil_iff.mp nothing).1] at unmarked
        cases node with
        | sequence items => exact absurd rfl (unmarked [] items rfl)
        | null => rfl
        | scalar text => rfl
        | map entries => rfl
      · rfl
    rw [List.cons_append, stored, marker, Option.none_or]
    cases here : node.child part with
    | none => rfl
    | some child =>
      have below : child.get more = none := by rwa [Node.get, here] at missing
      refine ih below fun front items split found => unmarked (part :: front) items (by rw [split]; rfl) ?_
      rw [Node.get, here]
      exact found

theorem AsString_of_holds {c : ConfigValue} {tree : List Bytes → Option Bytes} (holds : c.Holds tree) {text : Bytes}
    (here : tree [] = some text) (default : Bytes) : c.AsString default = text := by
  have found : c.values_.lookup [] = tree [] := holds []
  rw [ConfigValue.AsString, found, here, Option.getD_some]

theorem IsNull_of_holds {c : ConfigValue} {tree : List Bytes → Option Bytes} (holds : c.Holds tree)
    (nothing : ∀ rest, tree rest = none) : c.IsNull = true :=
  (ConfigValue.isNull_iff c).mpr fun key => (holds key).trans (nothing _)

theorem itemAt_to_string (items : List Node) (k : ℕ) : itemAt 0 items (to_string k) = items[k]? := by
  refine Option.ext fun item => ?_
  rw [itemAt_eq_some]
  constructor
  · rintro ⟨other, named, found⟩
    rw [to_string_injective named, Nat.zero_add]
    exact found
  · intro found
    exact ⟨k, by rw [Nat.zero_add], found⟩

theorem filterMap_getElem?_range (texts : List Bytes) :
    ((List.range texts.length).filterMap fun i => texts[i]?) = texts := by
  induction texts with
  | nil => rfl
  | cons text rest ih =>
    rw [List.length_cons, List.range_succ_eq_map, List.filterMap_cons, List.filterMap_map]
    exact congrArg (text :: ·) ih

/-- The list read from what is stored for a sequence of scalars. -/
theorem AsList_of_holds {c : ConfigValue} {texts : List Bytes} {tree : List Bytes → Option Bytes}
    (holds : c.Holds tree) (fits : texts.length < 2 ^ 64)
    (same : ∀ rest, rest ≠ [] → tree rest = stored (.sequence (texts.map .scalar)) rest) : c.AsList = texts := by
  have size : c.values_.lookup (ascii "_size") = some (to_string texts.length) := by
    have found : c.values_.lookup (ascii "_size") = tree (segments 0x2E (ascii "_size")) := holds _
    rw [found, segments_of_part component_size, same _ (List.cons_ne_nil _ _), stored, if_pos ⟨rfl, rfl⟩]
    change some (to_string (texts.map Node.scalar).length) = _
    rw [List.length_map]
  have item : ∀ i, c.values_.lookup (to_string i) = texts[i]? := by
    intro i
    have found : c.values_.lookup (to_string i) = tree (segments 0x2E (to_string i)) := holds _
    rw [found, segments_of_part (component_to_string i), same _ (List.cons_ne_nil _ _), stored,
      if_neg fun marker => to_string_ne_size i marker.1, Option.none_or]
    change ((itemAt 0 (texts.map Node.scalar) (to_string i)).bind fun child => stored child []) = _
    rw [itemAt_to_string, List.getElem?_map]
    cases texts[i]? <;> rfl
  unfold ConfigValue.AsList
  simp only [size, stoull_to_string fits, item]
  exact filterMap_getElem?_range texts

/-- The trees of the theorem below are read back through both forms of access: by one `operator[]` for each component
of a path, or by one for the dotted path. Scalars have their texts, sequences of scalars their items, and a path
that is no node of the tree, nor the size of a sequence, has nothing. A sequence at the root is read from the
document itself, since its empty path has no component to apply `operator[]` to. -/
theorem ParseConfigValue_faithful (root : Node) (plain : root.Plain) :
    (∀ path text default, root.get path = some (.scalar text) →
      (subscripts (ParseConfigValue root) path).AsString default = text ∧
      ((ParseConfigValue root).subscript (joined 0x2E path)).AsString default = text) ∧
    (∀ path texts, root.get path = some (.sequence (texts.map .scalar)) →
      (subscripts (ParseConfigValue root) path).AsList = texts ∧
      (path ≠ [] → ((ParseConfigValue root).subscript (joined 0x2E path)).AsList = texts)) ∧
    (∀ path, (∀ part ∈ path, Component part) → root.get path = none →
      (∀ front items, path = front ++ [ascii "_size"] → root.get front ≠ some (.sequence items)) →
      (subscripts (ParseConfigValue root) path).IsNull = true ∧
      ((ParseConfigValue root).subscript (joined 0x2E path)).IsNull = true) := by
  have holds := ParseConfigValue_holds plain
  have clean := flattened_clean plain
  have below : ∀ path, path ≠ [] → ∀ rest, flattened root (path ++ rest) = stored root (path ++ rest) := by
    intro path some rest
    obtain ⟨part, more, rfl⟩ := List.exists_cons_of_ne_nil some
    exact flattened_cons root part _
  refine ⟨fun path text default found => ?_, fun path texts found => ?_, fun path parts missing unmarked => ?_⟩
  · have parts := (plain.get found).2
    have here : flattened root (path ++ []) = some text := by
      by_cases empty : path = []
      · subst empty
        cases found
        rfl
      · rw [below path empty, stored_append plain found]
        rfl
    refine ⟨AsString_of_holds (Holds_subscripts holds clean parts) here default, ?_⟩
    by_cases empty : path = []
    · subst empty
      cases found
      rfl
    · exact AsString_of_holds (Holds_subscript holds clean empty parts) here default
  · obtain ⟨target, parts⟩ := plain.get found
    have fits : texts.length < 2 ^ 64 := by
      cases target with
      | sequence fits each => rwa [List.length_map] at fits
    have same : ∀ rest, rest ≠ [] → flattened root (path ++ rest) = stored (.sequence (texts.map .scalar)) rest := by
      intro rest some
      rw [← stored_append plain found rest]
      obtain ⟨part, more, split⟩ := List.exists_cons_of_ne_nil (List.append_ne_nil_of_right_ne_nil path some)
      rw [split, flattened_cons]
    exact ⟨AsList_of_holds (Holds_subscripts holds clean parts) fits same,
      fun some => AsList_of_holds (Holds_subscript holds clean some parts) fits same⟩
  · have some : path ≠ [] := by
      rintro rfl
      cases missing
    have nothing : ∀ rest, flattened root (path ++ rest) = none := by
      intro rest
      rw [below path some]
      exact stored_none missing unmarked rest
    exact ⟨IsNull_of_holds (Holds_subscripts holds clean parts) nothing,
      IsNull_of_holds (Holds_subscript holds clean some parts) nothing⟩

/-- A server section with two ports. -/
def serverConfig : Node :=
  .map [(ascii "server", .map [(ascii "ports", .sequence [.scalar (ascii "80"), .scalar (ascii "443")])])]

theorem serverConfig_plain : serverConfig.Plain := by
  refine .map (by decide) ?_ ?_
  · intro entry member
    cases List.mem_singleton.mp member
    exact ⟨⟨by decide, by decide⟩, by decide⟩
  · intro entry member
    cases List.mem_singleton.mp member
    refine .map (by decide) ?_ ?_
    · intro entry member
      cases List.mem_singleton.mp member
      exact ⟨⟨by decide, by decide⟩, by decide⟩
    · intro entry member
      cases List.mem_singleton.mp member
      refine .sequence (by decide) ?_
      intro item member
      rcases List.mem_pair.mp member with rfl | rfl
      · exact .scalar _
      · exact .scalar _

theorem ParseConfigValue_faithful_serverConfig :
    ((ParseConfigValue serverConfig).subscript (joined 0x2E [ascii "server", ascii "ports"])).AsList =
        [ascii "80", ascii "443"] ∧
      (subscripts (ParseConfigValue serverConfig) [ascii "server", ascii "ports", ascii "1"]).AsString [] = ascii "443" ∧
      ((ParseConfigValue serverConfig).subscript (joined 0x2E [ascii "server", ascii "host"])).IsNull = true := by
  obtain ⟨scalars, sequences, missing⟩ := ParseConfigValue_faithful serverConfig serverConfig_plain
  refine ⟨(sequences [ascii "server", ascii "ports"] [ascii "80", ascii "443"] rfl).2 (by decide),
    (scalars _ (ascii "443") [] rfl).1, (missing [ascii "server", ascii "host"] ?_ rfl ?_).2⟩
  · intro part member
    rcases List.mem_pair.mp member with rfl | rfl
    · exact ⟨by decide, by decide⟩
    · exact ⟨by decide, by decide⟩
  · intro front items split
    have last : ascii "host" = ascii "_size" := by simpa using congrArg List.getLast? split
    exact absurd last (by decide)

end YAML

end Illuminator
