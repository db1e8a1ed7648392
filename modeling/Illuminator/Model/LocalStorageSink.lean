import Illuminator.Model.SqliteBackend

/-! # The local storage sink

`LocalStorageSink::Write` hands a batch to its backend in two calls, one for the records and one for the
stack samples, and returns the first status that is not `Ok`. A sink that has not been started has no
backend, and a backend that has been closed has no database. What SQLite's calls come to is an input for
each of the two calls; an exception of the backend leaves `Write` as well.
-/

namespace Illuminator

open Transactions SqliteBackend

namespace LocalStorageSink

variable {D : Type}

/-- `if (!status.ok()) return status;` after a call of the backend. -/
def proceed (written : Option (Connection Tables) × Option Status)
    (next : Option (Connection Tables) → Option (Connection Tables) × Option Status) :
    Option (Connection Tables) × Option Status :=
  match written.2 with
  | none => written
  | some status => if status.ok then next written.1 else written

/-- What a write leaves of the backend, and the status it returns unless an exception leaves it. -/
def Write (json : Json.Library D) (recordsEngine samplesEngine : Engine)
    (backend_ : Option (Option (Connection Tables))) (pipeline_name_ : Bytes) (batch : Option (DataBatch D)) :
    Option (Option (Connection Tables)) × Option Status :=
  match backend_, batch with
  | some db_, some batch =>
    let written :=
      proceed
        (if batch.records.isEmpty then (db_, some .Ok)
          else WriteRecords json recordsEngine db_ pipeline_name_ batch.records)
        fun db_ =>
          proceed
            (if batch.stack_samples.isEmpty then (db_, some .Ok)
              else WriteStackSamples json samplesEngine db_ pipeline_name_ batch.stack_samples)
            fun db_ => (db_, some .Ok)
    (some written.1, written.2)
  | _, _ => (backend_, some .Ok)

end LocalStorageSink

end Illuminator
