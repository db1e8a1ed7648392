import Mathlib.Data.List.Nodup
import Mathlib.Data.List.Count
import Mathlib.Data.Multiset.UnionInter
import Mathlib.Data.Multiset.ZeroCons

/-! # Reused names

A kernel hands out names, such as descriptor numbers, and hands a name out again once what it stood
for is closed. A log of calls is disciplined when nothing is used or closed unless it is open, and
nothing is opened under the name of something open. In such a log each thing is closed at most once,
it is open exactly from its opening to its closing, and nothing refers to it after that, whoever has
its name by then.
-/

namespace Descriptors

/-- A call about one thing that has a name. -/
inductive Call (α : Type*) where
  | opened (a : α)
  | used (a : α)
  | closed (a : α)
  deriving DecidableEq

variable {α ν : Type*} [DecidableEq α] [DecidableEq ν]

/-- What stays open when a name is closed. -/
def close (name : α → ν) (live : List α) (a : α) : List α := live.filter fun b => name b ≠ name a

/-- The logs in which every call is about something open, with what is open at their end. -/
inductive Disciplined (name : α → ν) : List (Call α) → List α → Prop
  | nil : Disciplined name [] []
  | opened {log : List (Call α)} {live : List α} {a : α} (prior : Disciplined name log live)
      (free : ∀ b ∈ live, name b ≠ name a) (fresh : .opened a ∉ log) :
      Disciplined name (log ++ [.opened a]) (a :: live)
  | used {log : List (Call α)} {live : List α} {a : α} (prior : Disciplined name log live) (here : a ∈ live) :
      Disciplined name (log ++ [.used a]) live
  | closed {log : List (Call α)} {live : List α} {a : α} (prior : Disciplined name log live) (here : a ∈ live) :
      Disciplined name (log ++ [.closed a]) (close name live a)

variable {name : α → ν} {log : List (Call α)} {live : List α} {a b : α}

omit [DecidableEq α] in
theorem mem_close : b ∈ close name live a ↔ b ∈ live ∧ name b ≠ name a := by
  rw [close, List.mem_filter, decide_eq_true_eq]

omit [DecidableEq α] in
theorem mem_foldl_close {l : List α} : b ∈ l.foldl (close name) live ↔ b ∈ live ∧ ∀ a ∈ l, name b ≠ name a := by
  induction l generalizing live with
  | nil => simp
  | cons a rest ih => simp only [List.foldl_cons, ih, mem_close, List.forall_mem_cons, and_assoc]

namespace Disciplined

omit [DecidableEq α] in
/-- Open things have different names. -/
theorem names (disciplined : Disciplined name log live) : (live.map name).Nodup := by
  induction disciplined with
  | nil => exact List.nodup_nil
  | opened _ free _ ih =>
    rw [List.map_cons, List.nodup_cons]
    refine ⟨fun shared => ?_, ih⟩
    obtain ⟨b, member, same⟩ := List.mem_map.mp shared
    exact free b member same
  | used _ _ ih => exact ih
  | closed _ _ ih => exact ih.sublist (List.filter_sublist.map name)

omit [DecidableEq α] in
theorem eq_of_name (disciplined : Disciplined name log live) (here : a ∈ live) (there : b ∈ live)
    (same : name a = name b) : a = b :=
  List.inj_on_of_nodup_map disciplined.names here there same

omit [DecidableEq α] in
/-- What is open, and what has been closed, was opened. -/
theorem opened_mem (disciplined : Disciplined name log live) (named : a ∈ live ∨ .closed a ∈ log) : .opened a ∈ log := by
  induction disciplined with
  | nil => simp at named
  | opened prior free fresh ih =>
    simp only [List.mem_cons, List.mem_append, reduceCtorEq, List.not_mem_nil, or_false] at named
    rcases named with (rfl | member) | closing
    · exact List.mem_append_right _ (List.mem_singleton_self _)
    · exact List.mem_append_left _ (ih (Or.inl member))
    · exact List.mem_append_left _ (ih (Or.inr closing))
  | used prior here ih =>
    simp only [List.mem_append, List.mem_cons, reduceCtorEq, List.not_mem_nil, or_false] at named
    exact List.mem_append_left _ (ih named)
  | closed prior here ih =>
    rw [mem_close] at named
    simp only [List.mem_append, List.mem_cons, Call.closed.injEq, List.not_mem_nil, or_false] at named
    rcases named with member | closing | rfl
    · exact List.mem_append_left _ (ih (Or.inl member.1))
    · exact List.mem_append_left _ (ih (Or.inr closing))
    · exact List.mem_append_left _ (ih (Or.inl here))

omit [DecidableEq α] in
/-- A thing is open from its opening to its closing. -/
theorem mem_iff (disciplined : Disciplined name log live) : a ∈ live ↔ .opened a ∈ log ∧ .closed a ∉ log := by
  induction disciplined with
  | nil => simp
  | @opened log live b prior free fresh ih =>
    have unclosed : .closed b ∉ log := fun closing => fresh (prior.opened_mem (Or.inr closing))
    simp only [List.mem_cons, List.mem_append, Call.opened.injEq, reduceCtorEq, List.not_mem_nil, or_false, ih]
    constructor
    · rintro (rfl | both)
      · exact ⟨Or.inr rfl, unclosed⟩
      · exact ⟨Or.inl both.1, both.2⟩
    · rintro ⟨before | rfl, still⟩
      · exact Or.inr ⟨before, still⟩
      · exact Or.inl rfl
  | used prior here ih =>
    simpa only [List.mem_append, List.mem_cons, reduceCtorEq, List.not_mem_nil, or_false] using ih
  | @closed log live b prior here ih =>
    have apart (member : a ∈ live) : name a ≠ name b ↔ a ≠ b :=
      not_congr ⟨prior.eq_of_name member here, congrArg name⟩
    simp only [mem_close, List.mem_append, List.mem_cons, Call.closed.injEq, reduceCtorEq, List.not_mem_nil,
      or_false, not_or]
    constructor
    · rintro ⟨member, other⟩
      exact ⟨(ih.mp member).1, (ih.mp member).2, (apart member).mp other⟩
    · rintro ⟨before, still, other⟩
      exact ⟨ih.mpr ⟨before, still⟩, (apart (ih.mpr ⟨before, still⟩)).mpr other⟩

/-- A thing that was opened has been closed once, or is open. -/
theorem count_closed (disciplined : Disciplined name log live) (before : .opened a ∈ log) :
    log.count (.closed a) = if a ∈ live then 0 else 1 := by
  have most : log.count (.closed a) ≤ 1 := by
    clear before
    induction disciplined with
    | nil => exact Nat.zero_le 1
    | opened _ _ _ ih => rwa [List.count_append, List.count_singleton, if_neg (by simp)]
    | used _ _ ih => rwa [List.count_append, List.count_singleton, if_neg (by simp)]
    | @closed log live b prior here ih =>
      rw [List.count_append, List.count_singleton]
      by_cases same : b = a
      · subst same
        rw [List.count_eq_zero.mpr (prior.mem_iff.mp here).2]
        split_ifs <;> decide
      · rwa [if_neg (by simpa using same)]
  split_ifs with member
  · exact List.count_eq_zero.mpr (disciplined.mem_iff.mp member).2
  · have closing : .closed a ∈ log := by
      by_contra unclosed
      exact member (disciplined.mem_iff.mpr ⟨before, unclosed⟩)
    exact Nat.le_antisymm most (List.count_pos_iff.mpr closing)

omit [DecidableEq α] in
/-- Nothing refers to a thing after its closing. -/
theorem quiet (disciplined : Disciplined name log live) :
    log.Pairwise fun earlier later => ∀ a, earlier = .closed a → later ≠ .used a ∧ later ≠ .closed a := by
  induction disciplined with
  | nil => exact .nil
  | opened _ _ _ ih =>
    refine List.pairwise_append.mpr ⟨ih, List.pairwise_singleton .., ?_⟩
    rintro _ _ later member a _
    rw [List.mem_singleton.mp member]
    exact ⟨nofun, nofun⟩
  | @used _ _ b prior here ih =>
    refine List.pairwise_append.mpr ⟨ih, List.pairwise_singleton .., ?_⟩
    rintro earlier before later member a rfl
    rw [List.mem_singleton.mp member]
    refine ⟨fun same => ?_, nofun⟩
    rw [← Call.used.inj same] at before
    exact (prior.mem_iff.mp here).2 before
  | @closed _ _ b prior here ih =>
    refine List.pairwise_append.mpr ⟨ih, List.pairwise_singleton .., ?_⟩
    rintro earlier before later member a rfl
    rw [List.mem_singleton.mp member]
    refine ⟨nofun, fun same => ?_⟩
    rw [← Call.closed.inj same] at before
    exact (prior.mem_iff.mp here).2 before

omit [DecidableEq α] in
/-- Each of several open things is used for the last time and closed. -/
theorem closeEach {l : List α} (disciplined : Disciplined name log live) (distinct : l.Nodup)
    (here : ∀ a ∈ l, a ∈ live) :
    Disciplined name (log ++ l.flatMap fun a => [.used a, .closed a]) (l.foldl (close name) live) := by
  induction l generalizing log live with
  | nil => rwa [List.flatMap_nil, List.append_nil]
  | cons a rest ih =>
    obtain ⟨first, later⟩ := List.nodup_cons.mp distinct
    obtain ⟨open_, others⟩ := List.forall_mem_cons.mp here
    have closed := ((disciplined.used open_).closed open_)
    rw [List.append_assoc] at closed
    rw [List.flatMap_cons, ← List.append_assoc, List.foldl_cons]
    apply ih closed later
    intro b member
    refine mem_close.mpr ⟨others b member, fun same => first ?_⟩
    rwa [← disciplined.eq_of_name (others b member) open_ same]

end Disciplined

/-- What is open at the end of a log, each thing once and in no order. -/
def Owns (name : α → ν) (log : List (Call α)) (owned : Multiset α) : Prop :=
  ∃ live, Disciplined name log live ∧ (live : Multiset α) = owned

namespace Owns

variable {owned rest : Multiset α}

omit [DecidableEq α] in
theorem opened (owns : Owns name log owned) (free : ∀ b ∈ owned, name b ≠ name a) (fresh : .opened a ∉ log) :
    Owns name (log ++ [.opened a]) (a ::ₘ owned) := by
  obtain ⟨live, disciplined, rfl⟩ := owns
  exact ⟨a :: live, disciplined.opened (fun b member => free b (Multiset.mem_coe.mpr member)) fresh, rfl⟩

omit [DecidableEq α] in
theorem used (owns : Owns name log owned) (here : a ∈ owned) : Owns name (log ++ [.used a]) owned := by
  obtain ⟨live, disciplined, rfl⟩ := owns
  exact ⟨live, disciplined.used (Multiset.mem_coe.mp here), rfl⟩

omit [DecidableEq α] in
theorem closed (owns : Owns name log (a ::ₘ rest)) : Owns name (log ++ [.closed a]) rest := by
  obtain ⟨live, disciplined, same⟩ := owns
  have distinct : ((a ::ₘ rest).map name).Nodup := by
    rw [← same]
    exact disciplined.names
  rw [Multiset.map_cons, Multiset.nodup_cons] at distinct
  have here : a ∈ live := by
    rw [← Multiset.mem_coe, same]
    exact Multiset.mem_cons_self a rest
  refine ⟨close name live a, disciplined.closed here, ?_⟩
  rw [close, ← Multiset.filter_coe, same, Multiset.filter_cons_of_neg rest fun apart : name a ≠ name a => apart rfl]
  refine Multiset.filter_eq_self.mpr fun b member same => distinct.1 ?_
  rw [← same]
  exact Multiset.mem_map_of_mem name member

omit [DecidableEq α] in
theorem closeAll {l : List α} (owns : Owns name log (↑l + rest)) : Owns name (log ++ l.map .closed) rest := by
  induction l generalizing log with
  | nil => rwa [Multiset.coe_nil, Multiset.zero_add, ← List.append_nil log] at owns
  | cons a later ih =>
    rw [← Multiset.cons_coe, Multiset.cons_add] at owns
    have next := ih owns.closed
    rwa [List.append_assoc] at next

omit [DecidableEq α] in
/-- Each of several open things is used for the last time and closed. -/
theorem closeEach {l : List α} (owns : Owns name log (↑l + rest)) :
    Owns name (log ++ l.flatMap fun a => [.used a, .closed a]) rest := by
  induction l generalizing log with
  | nil => rwa [Multiset.coe_nil, Multiset.zero_add, ← List.append_nil log] at owns
  | cons a later ih =>
    rw [← Multiset.cons_coe, Multiset.cons_add] at owns
    have next := ih (owns.used (Multiset.mem_cons_self a _)).closed
    rwa [List.append_assoc, List.append_assoc] at next

omit [DecidableEq α] in
theorem opened_mem (owns : Owns name log owned) (here : a ∈ owned) : .opened a ∈ log := by
  obtain ⟨live, disciplined, rfl⟩ := owns
  exact disciplined.opened_mem (Or.inl (Multiset.mem_coe.mp here))

omit [DecidableEq α] in
theorem nodup (owns : Owns name log owned) : owned.Nodup := by
  obtain ⟨live, disciplined, rfl⟩ := owns
  exact disciplined.names.of_map name

omit [DecidableEq α] in
theorem quiet (owns : Owns name log owned) :
    log.Pairwise fun earlier later => ∀ a, earlier = .closed a → later ≠ .used a ∧ later ≠ .closed a := by
  obtain ⟨live, disciplined, rfl⟩ := owns
  exact disciplined.quiet

/-- A thing that was opened has been closed once, or is owned. -/
theorem count_closed (owns : Owns name log owned) (before : .opened a ∈ log) :
    log.count (.closed a) = if a ∈ owned then 0 else 1 := by
  obtain ⟨live, disciplined, rfl⟩ := owns
  exact disciplined.count_closed before

end Owns

end Descriptors
