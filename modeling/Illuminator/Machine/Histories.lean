import Mathlib.Data.List.Induction
import Mathlib.Data.Nat.Notation

/-! # Histories whose events are admissible in their turn

What may happen next often depends on what has happened: a request completes after it was issued, a
block is freed while it is live. A history is admissible throughout when each of its events is
admissible after the events before it.
-/

namespace Histories

variable {E : Type*} {admissible : List E → E → Prop} {before events : List E} {event : E}

/-- Every event is admissible after the events before it. -/
def Throughout (admissible : List E → E → Prop) (events : List E) : Prop :=
  ∀ before event, before ++ [event] <+: events → admissible before event

theorem throughout_nil : Throughout admissible [] := by
  intro before event within
  have length := within.length_le
  rw [List.length_append] at length
  exact absurd length (by simp)

theorem Throughout.initial (throughout : Throughout admissible events) (earlier : before <+: events) :
    Throughout admissible before :=
  fun first event within => throughout first event (within.trans earlier)

theorem Throughout.last (throughout : Throughout admissible (events ++ [event])) : admissible events event :=
  throughout events event (List.prefix_refl _)

theorem Throughout.snoc (throughout : Throughout admissible events) (next : admissible events event) :
    Throughout admissible (events ++ [event]) := by
  intro before last within
  rcases List.prefix_concat_iff.mp within with whole | earlier
  · obtain ⟨rfl, rfl⟩ := List.append_inj' whole rfl |>.imp id List.singleton_inj.mp
    exact next
  · exact throughout before last earlier

/-- What the first event establishes and every admissible event keeps holds after an admissible history. -/
theorem Throughout.invariant (throughout : Throughout admissible events) (holds : List E → Prop) (start : holds [])
    (kept : ∀ before event, Throughout admissible before → holds before → admissible before event →
      holds (before ++ [event])) : holds events := by
  induction events using List.reverseRecOn with
  | nil => exact start
  | append_singleton before event ih =>
    have earlier := throughout.initial (List.prefix_append before [event])
    exact kept before event earlier (ih earlier) throughout.last

/-! ## What holds since -/

section Since

variable {began : List E → E → Prop} {lasts : E → Prop}

/-- Something began with one of the events, and every later one lets it last. -/
def Since (began : List E → E → Prop) (lasts : E → Prop) (events : List E) : Prop :=
  ∃ before event after, events = before ++ event :: after ∧ began before event ∧ ∀ later ∈ after, lasts later

theorem not_since_nil : ¬ Since began lasts [] := by
  rintro ⟨before, event, after, split, -⟩
  exact absurd split (by simp)

theorem since_concat : Since began lasts (events ++ [event]) ↔
    began events event ∨ Since began lasts events ∧ lasts event := by
  constructor
  · rintro ⟨before, first, after, split, start, quiet⟩
    rcases List.eq_nil_or_concat after with rfl | ⟨earlier, last, rfl⟩
    · obtain ⟨rfl, same⟩ := List.append_inj' split rfl
      rw [List.singleton_inj.mp same]
      exact Or.inl start
    · rw [List.concat_eq_append] at split quiet
      rw [← List.cons_append, ← List.append_assoc] at split
      obtain ⟨rfl, same⟩ := List.append_inj' split rfl
      rw [List.singleton_inj.mp same]
      refine Or.inr ⟨⟨before, first, earlier, rfl, start, fun later member => ?_⟩, ?_⟩
      · exact quiet later (List.mem_append_left _ member)
      · exact quiet last (List.mem_append_right _ (List.mem_singleton_self last))
  · rintro (start | ⟨⟨before, first, after, rfl, start, quiet⟩, last⟩)
    · exact ⟨events, event, [], rfl, start, fun later member => absurd member List.not_mem_nil⟩
    · refine ⟨before, first, after ++ [event], by simp, start, fun later member => ?_⟩
      rcases List.mem_append.mp member with earlier | final
      · exact quiet later earlier
      · rw [List.mem_singleton.mp final]
        exact last

end Since

end Histories
