import Illuminator.Machine.Insertions
import Illuminator.Model.CollectRequests
import Illuminator.Soundness.ProcessorMemory

/-! # Requests inserted into a run

A handler calls the same `Collect` and the same processors as the pipeline. The sinks see nothing of it as
long as its `Collect` finds nothing that it would take away: no cached sample, no entry of the map, and no
counter that has moved.
-/

namespace Illuminator

namespace CollectRequests

open Interleaving Processors

variable {D S Q A : Type} {source : Source D}

/-- An unwinding of a source: what acts on it does the same in related states, and a `Collect` of a request
that finds what it needs leaves the relation as it is and has no samples. -/
structure Source.Unwinding (source : Source D) (like : source.Shared → source.Shared → Prop) (quiet : source.Pc → Prop)
    (harmless : source.Shared → source.Pc → source.Choice → Prop) : Prop where
  refl : ∀ s, like s s
  begins : quiet source.caller
  follows : ∀ {s mirror next : source.Shared} {pc after : source.Pc} {choice : source.Choice}
    {result : Option (DataBatch D)}, like s mirror → source.act s pc choice = some (next, after, result) →
    ∃ next', source.act mirror pc choice = some (next', after, result) ∧ like next next'
  hides : ∀ {s mirror next : source.Shared} {pc after : source.Pc} {choice : source.Choice}
    {result : Option (DataBatch D)}, like s mirror → quiet pc → harmless s pc choice →
    source.act s pc choice = some (next, after, result) →
    quiet after ∧ like next mirror ∧ ∀ batch, result = some batch → batch.stack_samples = []

/-- What a step of a request has to find. -/
def finds (harmless : source.Shared → source.Pc → source.Choice → Prop) (p : Shared source S Q A) :
    Pc source → Choice source S → Prop
  | .requested pc, .act choice => harmless p.source_ pc choice
  | _, _ => True

instance (harmless : source.Shared → source.Pc → source.Choice → Prop) [∀ s pc choice, Decidable (harmless s pc choice)]
    (p : Shared source S Q A) (pc : Pc source) (choice : Choice source S) : Decidable (finds harmless p pc choice) := by
  cases pc <;> cases choice <;> unfold finds <;> infer_instance

structure Like (like : source.Shared → source.Shared → Prop) (p mirror : Shared source S Q A) : Prop where
  source_ : like p.source_ mirror.source_
  processors_ : List.Forall₂ (Alike D p.clock) p.processors_ mirror.processors_
  ingest_channel_ : p.ingest_channel_ = mirror.ingest_channel_
  aggregator_ : p.aggregator_ = mirror.aggregator_
  sinks_ : p.sinks_ = mirror.sinks_
  clock : mirror.clock ≤ p.clock

/-- A thread of the pipeline stands nowhere in a request. -/
def Stays : Pc source → Prop
  | .requested _ => False
  | .responding _ _ => False
  | _ => True

/-- A handler is in a quiet `Collect`, or has a batch without samples. -/
def Inserted (quiet : source.Pc → Prop) : Pc source → Prop
  | .requested pc => quiet pc
  | .responding _ batch => batch.stack_samples = []
  | _ => False

variable {like : source.Shared → source.Shared → Prop} {quiet : source.Pc → Prop}
  {harmless : source.Shared → source.Pc → source.Choice → Prop} {p mirror : Shared source S Q A}

theorem Like.withSource (related : Like like p mirror) {next next' : source.Shared} (moved : like next next') :
    Like like { p with source_ := next } { mirror with source_ := next' } :=
  ⟨moved, related.processors_, related.ingest_channel_, related.aggregator_, related.sinks_, related.clock⟩

theorem Like.enqueue (related : Like like p mirror) (plumbing : Plumbing D Q A) (result : Option (DataBatch D)) :
    Like like (Enqueue plumbing p result) (Enqueue plumbing mirror result) := by
  unfold Enqueue
  cases result with
  | none => exact related
  | some batch =>
    dsimp only
    split_ifs
    · exact related
    · exact ⟨related.source_, related.processors_, by rw [related.ingest_channel_], related.aggregator_,
        related.sinks_, related.clock⟩

private theorem forall₂_getElem {α β : Type*} {R : α → β → Prop} {as : List α} {bs : List β} (all : List.Forall₂ R as bs)
    {i : ℕ} {a : α} (found : as[i]? = some a) : ∃ b, bs[i]? = some b ∧ R a b := by
  induction all generalizing i with
  | nil => cases found
  | @cons first second rest others head _ ih =>
    cases i with
    | zero =>
      cases found
      exact ⟨second, rfl, head⟩
    | succ i => exact ih found

private theorem forall₂_set {α β : Type*} {R : α → β → Prop} {as : List α} {bs : List β} (all : List.Forall₂ R as bs)
    (i : ℕ) {a : α} {b : β} (related : R a b) : List.Forall₂ R (as.set i a) (bs.set i b) := by
  induction all generalizing i with
  | nil => exact .nil
  | cons head tail ih =>
    cases i with
    | zero => exact .cons related tail
    | succ i => exact .cons head (ih i)

private theorem forall₂_set_left {α β : Type*} {R : α → β → Prop} {as : List α} {bs : List β}
    (all : List.Forall₂ R as bs) {i : ℕ} {a : α} {b : β} (found : bs[i]? = some b) (related : R a b) :
    List.Forall₂ R (as.set i a) bs := by
  have kept : bs.set i b = bs := by
    obtain ⟨inside, rfl⟩ := List.getElem?_eq_some_iff.mp found
    exact List.set_getElem_self inside
  rw [← kept]
  exact forall₂_set all i related

/-- A processor does the same with a batch of the pipeline on both sides. -/
theorem Like.process (related : Like like p mirror) {done : ℕ} {world : World S} {batch output : DataBatch D}
    {next : Shared source S Q A} (processed : process p done world batch = some (next, output)) :
    ∃ next', CollectRequests.process mirror done world batch = some (next', output) ∧ Like like next next' := by
  unfold CollectRequests.process at processed
  split at processed
  · cases processed
  · next processor found =>
    split_ifs at processed with reached
    cases processed
    obtain ⟨other, there, alike⟩ := forall₂_getElem related.processors_ found
    have same := alike world batch reached
    refine ⟨{ mirror with
      processors_ := mirror.processors_.set done (processor.Process world batch).2, clock := world.now }, ?_, ?_⟩
    · rw [CollectRequests.process, there]
      dsimp only
      rw [if_pos (related.clock.trans reached), same]
    · refine ⟨related.source_, ?_, related.ingest_channel_, related.aggregator_, related.sinks_, le_refl _⟩
      exact forall₂_set (related.processors_.imp fun _ _ both => both.later reached) done (.refl _ _)

/-- A processor that has had a batch without samples for a request does as before. -/
theorem Like.answer (related : Like like p mirror) {done : ℕ} {world : World S} {batch output : DataBatch D}
    {next : Shared source S Q A} (processed : CollectRequests.process p done world batch = some (next, output))
    (none : batch.stack_samples = []) : output.stack_samples = [] ∧ Like like next mirror := by
  unfold CollectRequests.process at processed
  split at processed
  · cases processed
  · next processor found =>
    split_ifs at processed with reached
    cases processed
    obtain ⟨other, there, alike⟩ := forall₂_getElem related.processors_ found
    refine ⟨process_samples processor world none, related.source_, ?_, related.ingest_channel_, related.aggregator_,
      related.sinks_, related.clock.trans reached⟩
    exact forall₂_set_left (related.processors_.imp fun _ _ both => both.later reached) there
      (alike.process reached none)

/-- The processors are as many on both sides. -/
theorem Like.processors_length (related : Like like p mirror) : p.processors_.length = mirror.processors_.length :=
  related.processors_.length_eq

/-- A thread of the pipeline takes the same step on both sides. -/
theorem Like.follow (unwinds : source.Unwinding like quiet harmless) {plumbing : Plumbing D Q A}
    (related : Like like p mirror) {pc after : Pc source} {choice : Choice source S} {next : Shared source S Q A}
    {event : Unit} (stays : Stays pc) (enabled : act plumbing p pc choice = some (next, after, event)) :
    Stays after ∧ ∃ next', act plumbing mirror pc choice = some (next', after, event) ∧ Like like next next' := by
  unfold act at enabled
  split at enabled
  · obtain ⟨⟨moved, there, result⟩, acted, same⟩ := Option.map_eq_some_iff.mp enabled
    cases same
    obtain ⟨next', acted', like'⟩ := unwinds.follows related.source_ acted
    exact ⟨trivial, _, by rw [act, acted']; rfl, related.withSource like'⟩
  · obtain ⟨⟨moved, there, result⟩, acted, same⟩ := Option.map_eq_some_iff.mp enabled
    cases same
    obtain ⟨next', acted', like'⟩ := unwinds.follows related.source_ acted
    exact ⟨trivial, _, by rw [act, acted']; rfl, (related.withSource like').enqueue plumbing result⟩
  · cases enabled
    refine ⟨trivial, _, rfl, related.source_, related.processors_, ?_, related.aggregator_, related.sinks_, related.clock⟩
    exact congrArg plumbing.InjectFlush related.ingest_channel_
  · rw [related.ingest_channel_, related.aggregator_] at enabled
    split at enabled
    · cases enabled
    · next batch queue taken =>
      cases enabled
      refine ⟨trivial, _, by rw [act, taken], ?_⟩
      exact ⟨related.source_, related.processors_, rfl, rfl, related.sinks_, related.clock⟩
    · next queue taken =>
      cases enabled
      refine ⟨trivial, _, by rw [act, taken], ?_⟩
      exact ⟨related.source_, related.processors_, rfl, rfl, related.sinks_, related.clock⟩
  · obtain ⟨⟨moved, output⟩, processed, same⟩ := Option.map_eq_some_iff.mp enabled
    cases same
    obtain ⟨next', processed', like'⟩ := related.process processed
    refine ⟨?_, _, by rw [act, processed']; rfl, like'⟩
    dsimp only
    split_ifs <;> trivial
  · split_ifs at enabled with finished
    cases enabled
    refine ⟨trivial, _, by rw [act, if_pos (finished.trans related.processors_length), deliver, deliver,
      related.aggregator_], ?_⟩
    exact ⟨related.source_, related.processors_, related.ingest_channel_, by rw [deliver, related.aggregator_],
      related.sinks_, related.clock⟩
  · cases enabled
    exact ⟨trivial, _, rfl, related⟩
  · cases enabled
    refine ⟨trivial, _, rfl, related.source_, related.processors_, related.ingest_channel_, related.aggregator_, ?_,
      related.clock⟩
    rw [related.sinks_]
  · exact absurd stays id
  · exact absurd stays id
  · exact absurd stays id
  · cases enabled

/-- A step of a request that finds what it needs shows in nothing. -/
theorem Like.hide (unwinds : source.Unwinding like quiet harmless) {plumbing : Plumbing D Q A}
    (related : Like like p mirror) {pc after : Pc source} {choice : Choice source S} {next : Shared source S Q A}
    {event : Unit} (inserted : Inserted quiet pc) (found : finds harmless p pc choice)
    (enabled : act plumbing p pc choice = some (next, after, event)) : Inserted quiet after ∧ Like like next mirror := by
  cases pc with
  | requested pc =>
    cases choice with
    | act choice =>
      obtain ⟨⟨moved, there, result⟩, acted, same⟩ := Option.map_eq_some_iff.mp enabled
      cases same
      obtain ⟨still, like', none⟩ := unwinds.hides related.source_ inserted found acted
      refine ⟨?_, like', related.processors_, related.ingest_channel_, related.aggregator_, related.sinks_,
        related.clock⟩
      cases result with
      | none => exact still
      | some batch => exact none batch rfl
    | _ => cases enabled
  | responding done batch =>
    cases choice with
    | process world =>
      obtain ⟨⟨moved, output⟩, processed, same⟩ := Option.map_eq_some_iff.mp enabled
      cases same
      exact related.answer processed inserted
    | respond =>
      rw [act] at enabled
      split_ifs at enabled
      cases enabled
      exact ⟨unwinds.begins, related⟩
    | _ => cases enabled
  | _ => exact absurd inserted id

theorem program_unwinds (unwinds : source.Unwinding like quiet harmless) (plumbing : Plumbing D Q A) :
    (program (S := S) plumbing).Unwinding (Like like) Stays (Inserted quiet) (finds harmless) :=
  ⟨fun related stays enabled => related.follow unwinds stays enabled,
    fun related inserted found enabled => related.hide unwinds inserted found enabled⟩

variable {τ Handler : Type*} [DecidableEq τ] [DecidableEq Handler]

/-- With a source that can be unwound the sinks receive the same without the requests. -/
theorem sinks_without (unwinds : source.Unwinding like quiet harmless) {plumbing : Plumbing D Q A}
    {role : τ → Role source} {schedule : List ((τ ⊕ Handler) × Choice source S)}
    {target : State (Shared source S Q A) (Pc source) (τ ⊕ Handler)} {history : List ((τ ⊕ Handler) × Unit)}
    (spared : (program plumbing).Spared (finds harmless) (start Handler p role) schedule)
    (replayed : (program plumbing).replay? (start Handler p role) schedule = some (target, history)) :
    ∃ base steps, (program plumbing).replay? (start Handler p role) (without schedule) =
      some (base, steps) ∧ base.shared.sinks_ = target.shared.sinks_ := by
  have initial : Program.Mirrors (Like like) Stays (Inserted quiet) (start Handler p role) (start Handler p role) := by
    refine ⟨⟨unwinds.refl _, ?_, rfl, rfl, rfl, le_refl _⟩, fun _ => rfl, fun t => ?_, fun _ => unwinds.begins⟩
    · exact List.forall₂_same.mpr fun processor _ => .refl _ processor
    · change Stays (role t).start
      cases role t <;> trivial
  obtain ⟨base, based, mirrored⟩ := (program_unwinds unwinds plumbing).replay_without initial spared replayed
  exact ⟨base, _, based, mirrored.shared.sinks_.symm⟩

end CollectRequests

end Illuminator
