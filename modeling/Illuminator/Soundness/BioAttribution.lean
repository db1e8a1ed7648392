import Illuminator.Machine.Histories
import Illuminator.Machine.KeyedTable
import Illuminator.Model.BioLatency

/-! # Whose latency a block request is given

Requests are told apart by device and first sector, but `req_starts` has one slot for each sector. Each
completion is reported with its own latency and issuer, and the table holds exactly the requests in
flight, as long as the requests in flight start at distinct sectors; two devices with a request at the
same sector break both.
-/

namespace Illuminator

namespace BioLatency

open Histories KeyedTable

structure Request where
  dev : UInt32
  sector : UInt64
  deriving DecidableEq

/-- A request between its issue and its completion. -/
structure InFlight where
  request : Request
  issuer : Task
  issued : UInt64
  deriving DecidableEq

def InFlight.sector (flight : InFlight) : UInt64 := flight.request.sector

def InFlight.start (flight : InFlight) : NsRequestStart := requestStart flight.issuer flight.issued

def TraceEventRawBlockRq.request (ctx : TraceEventRawBlockRq) : Request := ⟨ctx.dev, ctx.sector⟩

def TraceEventRawBlockRqComplete.request (ctx : TraceEventRawBlockRqComplete) : Request := ⟨ctx.dev, ctx.sector⟩

def follow (live : List InFlight) : Event → List InFlight
  | .issue ctx task now => live ++ [⟨ctx.request, task, now⟩]
  | .complete ctx _ _ => live.filter fun flight => flight.request ≠ ctx.request

/-- The requests in flight after some events, in the order of their issue. -/
def inFlight (events : List Event) : List InFlight := events.foldl follow []

/-- A request is issued when it is not in flight, and completed when it is, with room in the ring buffer. -/
def Admissible (live : List InFlight) : Event → Prop
  | .issue ctx _ _ => ctx.request ∉ live.map InFlight.request
  | .complete ctx _ reserved => ctx.request ∈ live.map InFlight.request ∧ reserved = true

instance (live : List InFlight) : DecidablePred (Admissible live)
  | .issue ctx _ _ => inferInstanceAs (Decidable (ctx.request ∉ live.map InFlight.request))
  | .complete ctx _ reserved =>
    inferInstanceAs (Decidable (ctx.request ∈ live.map InFlight.request ∧ reserved = true))

/-- Every event is admissible after the events before it. -/
def WellFormed (events : List Event) : Prop :=
  ∀ before event, before ++ [event] <+: events → Admissible (inFlight before) event

/-- The event that a completion sends has the latency and the issuer of its own request. -/
def Attributed (own : InFlight) (now : UInt64) (event : IlBioEvent) : Prop :=
  event.latency_ns = now - own.issued ∧ event.pid = (own.issuer.pid_tgid >>> 32).toUInt32 ∧
    event.tid = own.issuer.pid_tgid.toUInt32 ∧ event.comm = own.issuer.comm

/-- Every completion sends one event, attributed to its own request. -/
def EventsAttributed (events : List Event) : Prop :=
  ∀ before ctx now reserved, before ++ [.complete ctx now reserved] <+: events →
    ∀ own ∈ inFlight before, own.request = ctx.request →
      ∃ event, (run (before ++ [.complete ctx now reserved])).bio_events = (run before).bio_events ++ [event] ∧
        Attributed own now event

/-- The table holds exactly the requests in flight. -/
def Exact (events : List Event) : Prop := Tracks InFlight.sector InFlight.start (run events).req_starts (inFlight events)

/-- The requests in flight start at distinct sectors. -/
def Separate (events : List Event) : Prop := ((inFlight events).map InFlight.sector).Nodup

theorem inFlight_snoc (events : List Event) (event : Event) :
    inFlight (events ++ [event]) = follow (inFlight events) event := List.foldl_concat ..

theorem run_snoc (events : List Event) (event : Event) : run (events ++ [event]) = step (run events) event :=
  List.foldl_concat ..

theorem issue_exact {before : List Event} {ctx : TraceEventRawBlockRq} {task : Task} {now : UInt64}
    (kept : Exact before) (separate : Separate (before ++ [.issue ctx task now])) :
    Exact (before ++ [.issue ctx task now]) := by
  unfold Separate at separate
  unfold Exact
  rw [inFlight_snoc] at separate ⊢
  rw [run_snoc]
  rw [follow, List.map_append, List.nodup_append] at separate
  have new : ctx.sector ∉ (inFlight before).map InFlight.sector := fun inside =>
    separate.2.2 _ inside _ (List.mem_singleton.mpr rfl) rfl
  exact Tracks.arrive kept (e := ⟨ctx.request, task, now⟩) new

/-- With distinct sectors, a completion finds its own note and deletes it. -/
theorem complete_exact {before : List Event} {ctx : TraceEventRawBlockRqComplete} {now : UInt64} {own : InFlight}
    (kept : Exact before) (separate : Separate before) (member : own ∈ inFlight before)
    (same : own.request = ctx.request) :
    Exact (before ++ [.complete ctx now true]) ∧
      (run (before ++ [.complete ctx now true])).bio_events =
        (run before).bio_events ++ [bioEvent ctx own.start now] := by
  have sector : own.sector = ctx.sector := congrArg Request.sector same
  have found : (run before).req_starts ctx.sector = some own.start := sector ▸ Tracks.lookup kept member
  have moved : step (run before) (.complete ctx now true) =
      { req_starts := Function.update (run before).req_starts ctx.sector none
        bio_events := (run before).bio_events ++ [bioEvent ctx own.start now] } := by
    rw [step, trace_block_rq_complete, found]
    rfl
  unfold Exact
  rw [run_snoc, moved, inFlight_snoc]
  refine ⟨Tracks.depart kept fun flight here => ?_, rfl⟩
  rw [decide_eq_false_iff_not, not_not]
  constructor
  · exact fun equal => congrArg Request.sector equal
  · intro equal
    rw [List.inj_on_of_nodup_map separate here member (equal.trans sector.symm), same]

theorem keptof_separate {events : List Event} (wellFormed : WellFormed events)
    (separate : ∀ before, before <+: events → Separate before) : Exact events := by
  induction events using List.reverseRecOn with
  | nil => exact tracks_empty
  | append_singleton before event ih =>
    have earlier : before <+: before ++ [event] := List.prefix_append ..
    have kept := ih (Throughout.initial wellFormed earlier) fun first within => separate first (within.trans earlier)
    have admissible : Admissible (inFlight before) event := Throughout.last wellFormed
    cases event with
    | issue ctx task now => exact issue_exact kept (separate _ (List.prefix_refl _))
    | complete ctx now reserved =>
      obtain ⟨present, rfl⟩ := admissible
      obtain ⟨own, member, same⟩ := List.mem_map.mp present
      exact (complete_exact kept (separate before earlier) member same).1

/-- In a run of requests that are issued and completed in turn, every completion is attributed to its own request and
the table holds exactly the requests in flight if and only if the requests in flight always start at distinct
sectors. -/
theorem attributed_iff (events : List Event) (wellFormed : WellFormed events) :
    (EventsAttributed events ∧ ∀ before, before <+: events → Exact before) ↔
      ∀ before, before <+: events → Separate before := by
  constructor
  · rintro ⟨-, each⟩ before within
    exact Tracks.distinct (each before within)
  · intro separate
    have each : ∀ before, before <+: events → Exact before := fun before within =>
      keptof_separate (Throughout.initial wellFormed within) fun first earlier => separate first (earlier.trans within)
    refine ⟨?_, each⟩
    intro before ctx now reserved within own member same
    have earlier : before <+: events := (List.prefix_append ..).trans within
    obtain ⟨-, rfl⟩ := wellFormed _ _ within
    exact ⟨_, (complete_exact (each before earlier) (separate before earlier) member same).2, rfl, rfl, rfl, rfl⟩

/-- Two disks with a request at the same sector, the first issued at 100 and the second at 200. -/
def twoDisks : List Event :=
  [.issue ⟨1, 2048⟩ ⟨0x1000000010, ascii "dd"⟩ 100, .issue ⟨2, 2048⟩ ⟨0x2000000020, ascii "cp"⟩ 200,
    .complete ⟨1, 2048, 8, Vector.replicate 8 0x57⟩ 300 true, .complete ⟨2, 2048, 8, Vector.replicate 8 0x57⟩ 400 true]

theorem twoDisks_wellFormed : WellFormed twoDisks :=
  (((throughout_nil.snoc (by decide)).snoc (by decide)).snoc (by decide)).snoc (by decide)

/-- The first completion is given the issuer and the latency of the other disk's request. -/
theorem twoDisks_confused :
    WellFormed twoDisks ∧ ¬ (EventsAttributed twoDisks ∧ ∀ before, before <+: twoDisks → Exact before) := by
  refine ⟨twoDisks_wellFormed, fun both => ?_⟩
  obtain ⟨event, sent, latency, -⟩ := both.1 (twoDisks.take 2) _ _ _ (List.take_prefix 3 twoDisks)
    ⟨⟨1, 2048⟩, ⟨0x1000000010, ascii "dd"⟩, 100⟩ (by decide) rfl
  have actual : (run (twoDisks.take 3)).bio_events.map IlBioEvent.latency_ns = [100] := by decide
  have own : (run (twoDisks.take 3)).bio_events.map IlBioEvent.latency_ns = [200] :=
    (congrArg (List.map IlBioEvent.latency_ns) sent).trans (by rw [List.map_append, List.map_singleton, latency]; rfl)
  exact absurd (actual.symm.trans own) (by decide)

theorem attributed_iff_twoDisks :
    (EventsAttributed twoDisks ∧ ∀ before, before <+: twoDisks → Exact before) ↔
      ∀ before, before <+: twoDisks → Separate before :=
  attributed_iff twoDisks twoDisks_wellFormed

end BioLatency

end Illuminator
