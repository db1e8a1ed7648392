import Illuminator.Model.Strings
import Mathlib.Logic.Function.Basic

/-! # Block I/O latency

`bio_latency.bpf.c` notes in `req_starts` when and by whom a block request was issued, under its first
sector, and turns the note into an event when a request at that sector completes. The tracepoints also
say which device a request is for, which neither probe reads; the field `dev` of an event is never
assigned. `req_starts` is never full; whether the ring buffer has room is the kernel's answer.
-/

namespace Illuminator

namespace BioLatency

/-- The task that a probe runs in. -/
structure Task where
  pid_tgid : UInt64
  comm : Bytes
  deriving DecidableEq

/-- What `block_rq_issue` passes. -/
structure TraceEventRawBlockRq where
  dev : UInt32
  sector : UInt64
  deriving DecidableEq

/-- What `block_rq_complete` passes. -/
structure TraceEventRawBlockRqComplete where
  dev : UInt32
  sector : UInt64
  nr_sector : UInt32
  rwbs : Vector UInt8 8
  deriving DecidableEq

structure NsRequestStart where
  start_ns : UInt64
  pid : UInt32
  tid : UInt32
  comm : Bytes
  deriving DecidableEq

/-- `struct il_bio_event`. -/
structure IlBioEvent where
  timestamp_ns : UInt64
  pid : UInt32
  tid : UInt32
  sector : UInt64
  nr_sector : UInt32
  latency_ns : UInt64
  comm : Bytes
  rwflag : UInt8
  deriving DecidableEq

structure Maps where
  req_starts : UInt64 → Option NsRequestStart
  bio_events : List IlBioEvent

def Maps.fresh : Maps := ⟨fun _ => none, []⟩

def requestStart (task : Task) (now : UInt64) : NsRequestStart where
  start_ns := now
  pid := (task.pid_tgid >>> 32).toUInt32
  tid := task.pid_tgid.toUInt32
  comm := task.comm

def trace_block_rq_issue (m : Maps) (ctx : TraceEventRawBlockRq) (task : Task) (now : UInt64) : Maps :=
  { m with req_starts := Function.update m.req_starts ctx.sector (some (requestStart task now)) }

def bioEvent (ctx : TraceEventRawBlockRqComplete) (start : NsRequestStart) (now : UInt64) : IlBioEvent where
  timestamp_ns := now
  pid := start.pid
  tid := start.tid
  sector := ctx.sector
  nr_sector := ctx.nr_sector
  latency_ns := now - start.start_ns
  comm := start.comm
  rwflag := if ctx.rwbs[0] = 0x57 then 1 else 0

/-- The event is lost when the ring buffer has no room for it, and the note is deleted all the same. -/
def trace_block_rq_complete (m : Maps) (ctx : TraceEventRawBlockRqComplete) (now : UInt64) (reserved : Bool) : Maps :=
  match m.req_starts ctx.sector with
  | none => m
  | some start =>
    if reserved then
      { req_starts := Function.update m.req_starts ctx.sector none
        bio_events := m.bio_events ++ [bioEvent ctx start now] }
    else { m with req_starts := Function.update m.req_starts ctx.sector none }

inductive Event where
  | issue (ctx : TraceEventRawBlockRq) (task : Task) (now : UInt64)
  | complete (ctx : TraceEventRawBlockRqComplete) (now : UInt64) (reserved : Bool)

def step (m : Maps) : Event → Maps
  | .issue ctx task now => trace_block_rq_issue m ctx task now
  | .complete ctx now reserved => trace_block_rq_complete m ctx now reserved

def run (events : List Event) : Maps := events.foldl step .fresh

end BioLatency

end Illuminator
