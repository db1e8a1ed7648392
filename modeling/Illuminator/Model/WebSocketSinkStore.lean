import Illuminator.Machine.Interleaving
import Illuminator.Model.Strings
import Illuminator.ToMathlib.Gather
import Illuminator.ToMathlib.LastEntries

/-! # The WebSocket store

`WebSocketSinkStore` of `sinks/websocket_sink/websocket_sink.h` keeps the last batches that the sinks have
pushed under each pipeline's key. Each operation holds the store's lock throughout, so that any number of
threads interleave whole operations. A batch is known by its pointer, which is null where it is `none`.
-/

namespace Illuminator

structure WebSocketSinkStore (B : Type) where
  buffers_ : AList fun _ : Bytes => List (Option B)

namespace WebSocketSinkStore

variable {B : Type}

def empty : WebSocketSinkStore B := ⟨∅⟩

/-- `while (dq.size() > max_keep) dq.pop_front()`. -/
def trim (max_keep : ℕ) : List (Option B) → List (Option B)
  | [] => []
  | oldest :: rest => if max_keep < rest.length + 1 then trim max_keep rest else oldest :: rest

def PushBatch (store : WebSocketSinkStore B) (pipeline_key : Bytes) (batch : Option B) (max_keep : ℕ) :
    WebSocketSinkStore B :=
  ⟨store.buffers_.update pipeline_key fun dq => trim max_keep (dq.getD [] ++ [batch])⟩

def Latest (store : WebSocketSinkStore B) (pipeline_key : Bytes) : Option B :=
  match store.buffers_.lookup pipeline_key with
  | none => none
  | some dq =>
    match dq.getLast? with
    | none => none
    | some batch => batch

def SnapshotRecent (store : WebSocketSinkStore B) (pipeline_key : Bytes) (max_n : ℕ) : List (Option B) :=
  match store.buffers_.lookup pipeline_key with
  | none => []
  | some dq => dq.drop (if max_n < dq.length then dq.length - max_n else 0)

/-- What is kept under a key. -/
def buffer (store : WebSocketSinkStore B) (key : Bytes) : List (Option B) := (store.buffers_.lookup key).getD []

theorem trim_eq (max_keep : ℕ) (dq : List (Option B)) : trim max_keep dq = dq.rtake max_keep := by
  induction dq with
  | nil => rw [trim, List.rtake_nil]
  | cons oldest rest ih =>
    rw [trim, List.rtake, List.length_cons]
    split_ifs with long
    · rw [ih, List.rtake, Nat.succ_sub (by omega), List.drop_succ_cons]
    · rw [Nat.sub_eq_zero_of_le (by omega), List.drop_zero]

theorem buffer_PushBatch (store : WebSocketSinkStore B) (pushed key : Bytes) (batch : Option B) (max_keep : ℕ) :
    (store.PushBatch pushed batch max_keep).buffer key =
      if key = pushed then (store.buffer key ++ [batch]).rtake max_keep else store.buffer key := by
  unfold buffer PushBatch
  rw [AList.lookup_update]
  split_ifs with same
  · rw [Option.getD_some, trim_eq, same]
  · rfl

theorem Latest_eq (store : WebSocketSinkStore B) (key : Bytes) :
    store.Latest key = (store.buffer key).getLast?.join := by
  unfold Latest buffer
  cases store.buffers_.lookup key with
  | none => rfl
  | some dq =>
    simp only [Option.getD_some]
    cases dq.getLast? <;> rfl

theorem SnapshotRecent_eq (store : WebSocketSinkStore B) (key : Bytes) (max_n : ℕ) :
    store.SnapshotRecent key max_n = (store.buffer key).rtake max_n := by
  unfold SnapshotRecent buffer
  cases store.buffers_.lookup key with
  | none => exact (List.rtake_nil max_n).symm
  | some dq =>
    rw [Option.getD_some, List.rtake]
    have same : (if max_n < dq.length then dq.length - max_n else 0) = dq.length - max_n := by
      split_ifs <;> omega
    exact congrArg (dq.drop ·) same

/-! ## Threads -/

/-- An operation to be performed, and one with its answer. -/
inductive Operation (B : Type) where
  | PushBatch (key : Bytes) (batch : Option B)
  | Latest (key : Bytes)
  | SnapshotRecent (key : Bytes) (max_n : ℕ)

inductive Performed (B : Type) where
  | PushBatch (key : Bytes) (batch : Option B)
  | Latest (key : Bytes) (answer : Option B)
  | SnapshotRecent (key : Bytes) (max_n : ℕ) (answer : List (Option B))
  deriving DecidableEq

def Performed.key : Performed B → Bytes
  | .PushBatch key _ => key
  | .Latest key _ => key
  | .SnapshotRecent key _ _ => key

/-- The batch that an operation pushes under a key, if it pushes one there. -/
def Performed.pushes (key : Bytes) : Performed B → Option (Option B)
  | .PushBatch pushed batch => if pushed = key then some batch else none
  | _ => none

/-- One operation, where what is pushed under a key is trimmed to the key's `max_keep`. -/
def perform (max_keep : Bytes → ℕ) (store : WebSocketSinkStore B) :
    Operation B → WebSocketSinkStore B × Performed B
  | .PushBatch key batch => (store.PushBatch key batch (max_keep key), .PushBatch key batch)
  | .Latest key => (store, .Latest key (store.Latest key))
  | .SnapshotRecent key max_n => (store, .SnapshotRecent key max_n (store.SnapshotRecent key max_n))

/-- Any number of threads that use the store. -/
def program (max_keep : Bytes → ℕ) :
    Interleaving.Program (WebSocketSinkStore B) Unit (Operation B) (Performed B) :=
  ⟨fun store _ operation =>
    let (left, performed) := perform max_keep store operation
    some (left, (), performed)⟩

/-- The store before anything has been pushed. -/
def source (τ : Type) : Interleaving.State (WebSocketSinkStore B) Unit τ := ⟨empty, fun _ => ()⟩

end WebSocketSinkStore

end Illuminator
