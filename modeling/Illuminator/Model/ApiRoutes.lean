import Illuminator.Model.PipelineController

/-! # Collect requests

The handler of `GET /api/v1/pipelines/<name>/collect` looks the pipeline up and calls `Collect` of its
source itself, on a thread of the HTTP server, beside the workers of the collect pool. The batch passes
the pipeline's processors and goes into the response. Any number of requests may be under way.
-/

namespace Illuminator

namespace ApiRoutes

open Interleaving

variable {n : ℕ} {B : Type*}

/-- Where a thread of the HTTP server stands in `pipeline_collect`. -/
inductive HandlerPc (n : ℕ) (B : Type*) where
  | listening
  | found (k : Fin n)
  | collecting (k : Fin n)
  | processing (k : Fin n) (batch : B)
  deriving DecidableEq

/-- A request names a pipeline, or none that there is; `Collect` and the processors may fail. -/
inductive HandlerChoice (n : ℕ) (B : Type*) where
  | get (pipeline : Option (Fin n))
  | proceed
  | collected (result : Option B)
  | processed (ok : Bool)

inductive HandlerEvent (n : ℕ) where
  | local
  | notFound
  | collecting (k : Fin n)
  | failed (k : Fin n)
  | answered (k : Fin n)
  deriving DecidableEq

def pipeline_collect : HandlerPc n B → HandlerChoice n B → Option (HandlerPc n B × HandlerEvent n)
  | .listening, .get none => some (.listening, .notFound)
  | .listening, .get (some k) => some (.found k, .local)
  | .found k, .proceed => some (.collecting k, .collecting k)
  | .collecting k, .collected none => some (.listening, .failed k)
  | .collecting k, .collected (some batch) => some (.processing k batch, .local)
  | .processing k _, .processed ok => some (.listening, if ok then .answered k else .failed k)
  | _, _ => none

abbrev Pc (n : ℕ) (B : Type*) := PipelineController.Pc n B ⊕ HandlerPc n B

abbrev Choice (n : ℕ) (B : Type*) := PipelineController.Choice n B ⊕ HandlerChoice n B

abbrev Event (n : ℕ) (B : Type*) := PipelineController.Event n B ⊕ HandlerEvent n

variable [Inhabited B]

/-- The controller's threads and those of the HTTP server. -/
def act (setup : PipelineController.Setup n B) (c : PipelineController n B) :
    Pc n B → Choice n B → Option (PipelineController n B × Pc n B × Event n B)
  | .inl pc, .inl choice =>
    (PipelineController.act setup c pc choice).map fun moved => (moved.1, .inl moved.2.1, .inl moved.2.2)
  | .inr pc, .inr choice => (pipeline_collect pc choice).map fun moved => (c, .inr moved.1, .inr moved.2)
  | _, _ => none

def program (setup : PipelineController.Setup n B) : Program (PipelineController n B) (Pc n B) (Choice n B) (Event n B) :=
  ⟨act setup⟩

/-- `StartAll` has returned or calls `StopAll`, and no request is under way. -/
def start (ι Handler : Type*) (collectors workers : ℕ) (channels : Fin n → AsyncChannel B) (running : Fin n → Bool) :
    State (PipelineController n B) (Pc n B) (PipelineController.Party n ι collectors workers ⊕ Handler) where
  shared := (PipelineController.initial ι collectors workers channels running).shared
  pc := Sum.elim (fun party => .inl (PipelineController.Party.start running party)) fun _ => .inr .listening

end ApiRoutes

end Illuminator
