import Illuminator.Soundness.StackDurations
import Illuminator.ToMathlib.Delimited

/-! # Merging stacks as grouping them

Samples belong together when they agree on what the configuration groups by, on the labels of the user
stack and, if it is included, on those of the kernel stack. The merger compares texts instead. It makes
one sample of each group exactly when different groups of the batch have different texts, and no group's
counts reach 2^64.
-/

namespace Illuminator

/-- A frame is known by its function, or by its address where it has no function's name. -/
inductive FrameLabel where
  | name (text : Bytes)
  | address (n : UInt64)
  deriving DecidableEq

def StackFrame.label (frame : StackFrame) : FrameLabel :=
  if frame.function_name.isEmpty then .address frame.address else .name frame.function_name

/-- What `group_by_` compares. -/
inductive GroupIdentity where
  | comm (comm : Bytes)
  | pid (pid : UInt32)
  | tid (pid tid : UInt32)
  | global
  deriving DecidableEq

/-- What samples that belong together have in common. -/
@[ext] structure StackGroup where
  identity : GroupIdentity
  kernel : Option (List FrameLabel)
  user : List FrameLabel
  deriving DecidableEq

/-- The samples of a group in a batch. -/
def inGroup (group : StackSample → StackGroup) (samples : List StackSample) (g : StackGroup) : List StackSample :=
  samples.filter fun x => group x = g

/-- The sum of the counts, which may not fit into 64 bits. -/
def countSum (samples : List StackSample) : ℕ := (samples.map fun x => x.count.toNat).sum

/-- One sample for each group, with the fields of the group's first sample and the sum of the counts. -/
structure Grouped (group : StackSample → StackGroup) (samples out : List StackSample) : Prop where
  once : (out.map group).Nodup
  each : ∀ x ∈ samples, ∃ s ∈ out, group s = group x
  first : ∀ s ∈ out, (inGroup group samples (group s)).head?.map (fun x => { x with count := s.count }) = some s
  counts : ∀ s ∈ out, s.count.toNat = countSum (inGroup group samples (group s))

namespace StackMergerProcessor

def identityOf (s : StackSample) : StackMergeGroupBy → GroupIdentity
  | .kComm => .comm s.comm
  | .kPid => .pid s.pid
  | .kTid => .tid s.pid s.tid
  | .kGlobal => .global

/-- The group that a sample belongs to. -/
def group (merger : StackMergerProcessor) (s : StackSample) : StackGroup where
  identity := identityOf s merger.group_by_
  kernel := if merger.include_kernel_ then some (s.kernel_stack.map StackFrame.label) else none
  user := s.user_stack.map StackFrame.label

/-- No two groups of a batch have the same text. -/
def KeysDistinguish (merger : StackMergerProcessor) (samples : List StackSample) : Prop :=
  ∀ x ∈ samples, ∀ y ∈ samples, merger.StackKey x = merger.StackKey y → merger.group x = merger.group y

/-- Every group's counts sum up to what 64 bits can hold. -/
def CountsFit (merger : StackMergerProcessor) (samples : List StackSample) : Prop :=
  ∀ x ∈ samples, countSum (inGroup merger.group samples (merger.group x)) < 2 ^ 64

/-! ## The text of a group -/

def labelText (mark : UInt8) : FrameLabel → Bytes
  | .name text => text
  | .address n => mark :: 0x3A :: to_string n.toNat

def identityText : GroupIdentity → Bytes
  | .comm comm => comm ++ [0x7C]
  | .pid pid => to_string pid.toNat ++ [0x7C]
  | .tid pid tid => to_string pid.toNat ++ 0x3A :: to_string tid.toNat ++ [0x7C]
  | .global => []

def groupText (g : StackGroup) : Bytes :=
  identityText g.identity ++ (g.kernel.elim [] fun kernel => Delimited.pieces 0x3B (labelText 0x6B) kernel ++ [0x7C]) ++
    Delimited.pieces 0x3B (labelText 0x75) g.user

theorem frames_text (mark : UInt8) (stack : List StackFrame) :
    stack.flatMap (frameKey mark) = Delimited.pieces 0x3B (labelText mark) (stack.map StackFrame.label) := by
  rw [Delimited.pieces, List.flatMap_map]
  refine congrArg (fun text => stack.flatMap text) (funext fun frame => ?_)
  rw [frameKey, StackFrame.label]
  split_ifs <;> rfl

/-- The key is the text of the group. -/
theorem StackKey_eq (merger : StackMergerProcessor) (s : StackSample) :
    merger.StackKey s = groupText (merger.group s) := by
  have identity : merger.groupPrefix s = identityText (merger.group s).identity := by
    rw [groupPrefix, group]
    cases merger.group_by_ <;> rfl
  have kernel : (if merger.include_kernel_ then s.kernel_stack.flatMap (frameKey 0x6B) ++ [0x7C] else []) =
      (merger.group s).kernel.elim [] fun kernel => Delimited.pieces 0x3B (labelText 0x6B) kernel ++ [0x7C] := by
    rw [group, frames_text]
    cases merger.include_kernel_ <;> rfl
  rw [StackKey, identity, kernel, frames_text]
  rfl

/-! ## What the merger makes -/

theorem totalCount_toNat (samples : List StackSample) : (totalCount samples).toNat = countSum samples % 2 ^ 64 := by
  induction samples with
  | nil => rfl
  | cons x rest ih =>
    change (x.count + totalCount rest).toNat = (x.count.toNat + countSum rest) % 2 ^ 64
    rw [UInt64.toNat_add, ih]
    omega

variable {D : Type} (merger : StackMergerProcessor) (order : Traversal StackSample) {samples : List StackSample}

/-- The records pass, and the samples are the entries of the map. -/
theorem Process_spec (batch : DataBatch D) :
    ∃ out, merger.Process order (some batch) = some out ∧ out.records = batch.records ∧
      out.stack_samples = (order.visit (merger.mergeSamples batch.stack_samples)).map Sigma.snd := by
  unfold Process
  by_cases none_ : batch.stack_samples = []
  · refine ⟨batch, by simp [none_], rfl, ?_⟩
    have nothing : order.visit (merger.mergeSamples []) = [] := List.perm_nil.mp (order.perm _)
    rw [none_, nothing]
    rfl
  · exact ⟨_, if_neg (by simpa using none_), rfl, rfl⟩

variable {merger}

theorem leader_spec {key : Bytes} {first : StackSample} (found : leader merger samples key = some first) :
    first ∈ samples ∧ merger.StackKey first = key :=
  ⟨List.mem_of_find?_eq_some found, by simpa using List.find?_some found⟩

theorem mem_StackKey {entry : Sigma fun _ : Bytes => StackSample}
    (member : entry ∈ (merger.mergeSamples samples).entries) : merger.StackKey entry.2 = entry.1 := by
  obtain ⟨first, found, same⟩ := mem_mergeSamples merger samples member
  rw [same]
  exact (leader_spec found).2

/-- Where texts tell groups apart, the samples with an entry's text are its group. -/
theorem KeysDistinguish.inGroup (distinguish : merger.KeysDistinguish samples)
    {entry : Sigma fun _ : Bytes => StackSample} (member : entry ∈ (merger.mergeSamples samples).entries) :
    (samples.filter fun y => merger.StackKey y = entry.1) = inGroup merger.group samples (merger.group entry.2) := by
  obtain ⟨first, found, same⟩ := mem_mergeSamples merger samples member
  obtain ⟨here, key⟩ := leader_spec found
  have group : merger.group entry.2 = merger.group first := by
    rw [same]
    rfl
  refine List.filter_congr fun y inside => decide_eq_decide.mpr ?_
  constructor
  · intro equal
    rw [group]
    exact distinguish y inside first here (equal.trans key.symm)
  · intro equal
    rw [StackKey_eq, equal, ← StackKey_eq, mem_StackKey member]

theorem grouped_of_distinguish (distinguish : merger.KeysDistinguish samples) (fit : merger.CountsFit samples) :
    Grouped merger.group samples ((order.visit (merger.mergeSamples samples)).map Sigma.snd) := by
  have entryOf {s : StackSample} (member : s ∈ (order.visit (merger.mergeSamples samples)).map Sigma.snd) :
      ∃ entry ∈ (merger.mergeSamples samples).entries, entry.2 = s := by
    obtain ⟨entry, visited, same⟩ := List.mem_map.mp member
    exact ⟨entry, order.mem_visit.mp visited, same⟩
  refine ⟨?_, ?_, ?_, ?_⟩
  · rw [List.map_map]
    refine List.Nodup.map_on ?_ (List.Nodup.of_map _ (order.nodup_visit _))
    intro left leftIn right rightIn same
    have leftKey := mem_StackKey (order.mem_visit.mp leftIn)
    have rightKey := mem_StackKey (order.mem_visit.mp rightIn)
    have keys : left.1 = right.1 := by
      rw [← leftKey, ← rightKey, StackKey_eq, StackKey_eq]
      exact congrArg groupText same
    exact AList.entry_ext (order.mem_visit.mp leftIn) (order.mem_visit.mp rightIn) keys
  · intro x inside
    obtain ⟨entry, member, key⟩ := AList.exists_entry_of_mem merger.StackKey mergeSample inside
    refine ⟨entry.2, List.mem_map.mpr ⟨entry, order.mem_visit.mpr member, rfl⟩, ?_⟩
    have own : x ∈ samples.filter fun y => merger.StackKey y = entry.1 := by
      rw [List.mem_filter]
      exact ⟨inside, decide_eq_true key.symm⟩
    rw [distinguish.inGroup member] at own
    exact (of_decide_eq_true (List.mem_filter.mp own).2).symm
  · intro s member
    obtain ⟨entry, inside, rfl⟩ := entryOf member
    obtain ⟨first, found, same⟩ := mem_mergeSamples merger samples inside
    rw [← distinguish.inGroup inside, List.head?_filter]
    change (leader merger samples entry.1).map _ = _
    rw [found, same]
    rfl
  · intro s member
    obtain ⟨entry, inside, rfl⟩ := entryOf member
    obtain ⟨first, found, same⟩ := mem_mergeSamples merger samples inside
    have fits := fit first (leader_spec found).1
    have group : merger.group first = merger.group entry.2 := by
      rw [same]
      rfl
    rw [group] at fits
    have summed : entry.2.count = totalCount (samples.filter fun y => merger.StackKey y = entry.1) := by rw [same]
    rw [summed, distinguish.inGroup inside, totalCount_toNat, Nat.mod_eq_of_lt fits]

theorem distinguish_of_grouped
    (grouped : Grouped merger.group samples ((order.visit (merger.mergeSamples samples)).map Sigma.snd)) :
    merger.KeysDistinguish samples := by
  have entryOf {x : StackSample} (inside : x ∈ samples) : ∃ entry ∈ (merger.mergeSamples samples).entries,
      merger.group entry.2 = merger.group x ∧ entry.1 = merger.StackKey x := by
    obtain ⟨s, member, same⟩ := grouped.each x inside
    obtain ⟨entry, visited, rfl⟩ := List.mem_map.mp member
    have here := order.mem_visit.mp visited
    exact ⟨entry, here, same, by rw [← mem_StackKey here, StackKey_eq, same, ← StackKey_eq]⟩
  intro x xIn y yIn keys
  obtain ⟨left, leftIn, leftGroup, leftKey⟩ := entryOf xIn
  obtain ⟨right, rightIn, rightGroup, rightKey⟩ := entryOf yIn
  have same := AList.entry_ext leftIn rightIn (leftKey.trans (keys.trans rightKey.symm))
  rw [← leftGroup, same, rightGroup]

theorem fit_of_grouped {out : List StackSample} (grouped : Grouped merger.group samples out) :
    merger.CountsFit samples := by
  intro x inside
  obtain ⟨s, member, same⟩ := grouped.each x inside
  rw [← same, ← grouped.counts s member]
  exact UInt64.toNat_lt s.count

/-- **When merging is grouping.** The records pass in order, and there is one sample for each group, exactly when no
two groups of the batch have the same text and the counts of no group reach 2^64. -/
theorem groups_iff (merger : StackMergerProcessor) (order : Traversal StackSample) (batch : DataBatch D) :
    (∃ out, merger.Process order (some batch) = some out ∧ out.records = batch.records ∧
      Grouped merger.group batch.stack_samples out.stack_samples) ↔
      merger.KeysDistinguish batch.stack_samples ∧ merger.CountsFit batch.stack_samples := by
  obtain ⟨made, processed, records, samples⟩ := merger.Process_spec order batch
  constructor
  · rintro ⟨out, same, -, grouped⟩
    obtain rfl : made = out := Option.some.inj (processed.symm.trans same)
    rw [samples] at grouped
    exact ⟨distinguish_of_grouped order grouped, fit_of_grouped grouped⟩
  · rintro ⟨distinguish, fit⟩
    refine ⟨made, processed, records, ?_⟩
    rw [samples]
    exact grouped_of_distinguish order distinguish fit

/-! ## Texts that tell groups apart -/

/-- A label that has neither separator and does not look like an address. -/
def PlainLabel (mark : UInt8) : FrameLabel → Prop
  | .name text => 0x3B ∉ text ∧ 0x7C ∉ text ∧ text.take 2 ≠ [mark, 0x3A]
  | .address _ => True

/-- A sample whose thread's name and labels are plain. -/
structure PlainSample (s : StackSample) : Prop where
  comm : 0x7C ∉ s.comm
  kernel : ∀ label ∈ s.kernel_stack.map StackFrame.label, PlainLabel 0x6B label
  user : ∀ label ∈ s.user_stack.map StackFrame.label, PlainLabel 0x75 label

section Plain

variable {mark delimiter : UInt8} {left right : FrameLabel}

theorem labelText_clean (either : delimiter = 0x3B ∨ delimiter = 0x7C) (other : mark ≠ delimiter)
    (plain : PlainLabel mark left) : delimiter ∉ labelText mark left := by
  cases left with
  | name text =>
    rcases either with rfl | rfl
    · exact plain.1
    · exact plain.2.1
  | address n =>
    have digits : delimiter ∉ to_string n.toNat := by
      rcases either with rfl | rfl <;> exact delimiter_notMem (by decide) n.toNat
    have colon : delimiter ≠ 0x3A := by
      rcases either with rfl | rfl <;> decide
    simp only [labelText, List.mem_cons, not_or]
    exact ⟨other.symm, colon, digits⟩

theorem labelText_injOn (leftPlain : PlainLabel mark left) (rightPlain : PlainLabel mark right)
    (same : labelText mark left = labelText mark right) : left = right := by
  cases left with
  | name text =>
    cases right with
    | name other => exact congrArg FrameLabel.name same
    | address n =>
      refine absurd ?_ leftPlain.2.2
      rw [show text = _ from same]
      rfl
  | address n =>
    cases right with
    | name other =>
      refine absurd ?_ rightPlain.2.2
      rw [← show _ = other from same]
      rfl
    | address other =>
      have digits : to_string n.toNat = to_string other.toNat := (List.cons.inj (List.cons.inj same).2).2
      rw [UInt64.toNat_inj.mp (to_string_injective digits)]

theorem labels_injOn (other : mark ≠ 0x3B) {lefts rights : List FrameLabel}
    (leftPlain : ∀ label ∈ lefts, PlainLabel mark label) (rightPlain : ∀ label ∈ rights, PlainLabel mark label)
    (same : Delimited.pieces 0x3B (labelText mark) lefts = Delimited.pieces 0x3B (labelText mark) rights) :
    lefts = rights :=
  Delimited.pieces_injOn (fun _ _ => labelText_injOn) (fun _ plain => labelText_clean (.inl rfl) other plain)
    leftPlain rightPlain same

/-- What a group is known by can be cut off its text. -/
theorem identity_cut {x y : StackSample} (plainX : 0x7C ∉ x.comm) (plainY : 0x7C ∉ y.comm) {restX restY : Bytes}
    (group_by : StackMergeGroupBy)
    (same : identityText (identityOf x group_by) ++ restX = identityText (identityOf y group_by) ++ restY) :
    identityOf x group_by = identityOf y group_by ∧ restX = restY := by
  cases group_by with
  | kComm =>
    simp only [identityOf, identityText, List.append_assoc, List.singleton_append] at same
    obtain ⟨comms, rests⟩ := Delimited.cut plainX plainY same
    exact ⟨congrArg GroupIdentity.comm comms, rests⟩
  | kPid =>
    simp only [identityOf, identityText, List.append_assoc, List.singleton_append] at same
    obtain ⟨pids, rests⟩ := Delimited.cut (delimiter_notMem (by decide) _) (delimiter_notMem (by decide) _) same
    exact ⟨congrArg GroupIdentity.pid (UInt32.toNat_inj.mp (to_string_injective pids)), rests⟩
  | kTid =>
    simp only [identityOf, identityText, List.append_assoc, List.cons_append, List.nil_append] at same
    obtain ⟨pids, later⟩ := Delimited.cut (delimiter_notMem (by decide) _) (delimiter_notMem (by decide) _) same
    obtain ⟨tids, rests⟩ := Delimited.cut (delimiter_notMem (by decide) _) (delimiter_notMem (by decide) _) later
    exact ⟨congrArg₂ GroupIdentity.tid (UInt32.toNat_inj.mp (to_string_injective pids))
      (UInt32.toNat_inj.mp (to_string_injective tids)), rests⟩
  | kGlobal => exact ⟨rfl, same⟩

end Plain

/-- Plain texts tell groups apart. -/
theorem keysDistinguish_of_plain (merger : StackMergerProcessor) {samples : List StackSample}
    (plain : ∀ s ∈ samples, PlainSample s) : merger.KeysDistinguish samples := by
  intro x xIn y yIn same
  have plainX := plain x xIn
  have plainY := plain y yIn
  rw [StackKey_eq, StackKey_eq, groupText, groupText, List.append_assoc, List.append_assoc] at same
  obtain ⟨identities, rests⟩ := identity_cut plainX.comm plainY.comm merger.group_by_ same
  have kernels : (merger.group x).kernel = (merger.group y).kernel ∧
      Delimited.pieces 0x3B (labelText 0x75) (merger.group x).user =
        Delimited.pieces 0x3B (labelText 0x75) (merger.group y).user := by
    cases included : merger.include_kernel_ with
    | false =>
      simp only [group, included, Bool.false_eq_true, if_false, Option.elim_none, List.nil_append] at rests ⊢
      exact ⟨trivial, rests⟩
    | true =>
      simp only [group, included, if_true, Option.elim_some, List.append_assoc, List.singleton_append] at rests ⊢
      obtain ⟨kernels, users⟩ := Delimited.cut
        (Delimited.notMem_pieces (by decide) fun label member =>
          labelText_clean (.inr rfl) (by decide) (plainX.kernel label member))
        (Delimited.notMem_pieces (by decide) fun label member =>
          labelText_clean (.inr rfl) (by decide) (plainY.kernel label member)) rests
      exact ⟨congrArg some (labels_injOn (by decide) plainX.kernel plainY.kernel kernels), users⟩
  have users : (merger.group x).user = (merger.group y).user :=
    labels_injOn (by decide) plainX.user plainY.user kernels.2
  exact StackGroup.ext identities kernels.1 users

/-- A thread in two functions, and one in a function whose name has a semicolon. -/
def semicolon : DataBatch ℚ :=
  { type := .kProfile
    stack_samples := [
      { timestamp := 1, comm := ascii "java", user_stack := [⟨64, ascii "a", [], 0, []⟩, ⟨128, ascii "b", [], 0, []⟩] },
      { timestamp := 2, comm := ascii "java", user_stack := [⟨192, ascii "a;b", [], 0, []⟩] }] }

/-- They become one sample. -/
theorem semicolon_merged : ¬ ∃ out, StackMergerProcessor.Process {} (.listed _) (some semicolon) = some out ∧
    out.records = semicolon.records ∧
      Grouped (StackMergerProcessor.group {}) semicolon.stack_samples out.stack_samples := by
  rintro ⟨out, processed, -, grouped⟩
  cases processed
  obtain ⟨s, member, same⟩ := grouped.each _ (List.mem_cons_of_mem _ (List.mem_cons_self ..))
  obtain rfl := List.mem_singleton.mp member
  exact absurd same (by decide)

end StackMergerProcessor

end Illuminator
