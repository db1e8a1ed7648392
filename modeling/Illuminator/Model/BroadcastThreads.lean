import Illuminator.Model.WebSocketManager
import Illuminator.Model.WebSocketSinkStore

/-! # The store and the broadcast

The manager's threads run beside any number of threads that use the store. `BroadcastData` reads each
pipeline's latest batch from the store, and sends one frame to the subscribers that it copied in its first
phase. The serializer is a parameter, which throws where it is `none`; an exception leaves the broadcast
thread and ends the process.
-/

namespace Illuminator

namespace BroadcastThreads

open WebSocketManager (Manager Socket Party)

variable {B τ : Type}

/-- The two objects, and whether the process has been ended by an exception of the serializer. -/
structure Shared (B : Type) where
  manager : Manager
  store : WebSocketSinkStore B
  aborted : Bool

/-- Where one of the manager's threads stands, with the broadcast thread's `frame`, or a thread that uses
the store. -/
inductive Control where
  | manager (at_ : WebSocketManager.Control) (frame : Bytes)
  | user
  deriving DecidableEq

/-- What the program does not decide, and the clock's milliseconds. -/
inductive Choice (B : Type) where
  | manager (choice : WebSocketManager.Choice) (now : ℕ)
  | user (operation : WebSocketSinkStore.Operation B)

/-- What an action shows besides the manager's event: an operation on the store, the copy of the
subscriptions, or a frame that is written. -/
inductive Sight (B : Type) where
  | store (performed : WebSocketSinkStore.Performed B)
  | copied (snapshot : List (Bytes × List Socket))
  | sent (s : Socket) (frame : Bytes)
  deriving DecidableEq

structure Event (B : Type) where
  made : Option WebSocketManager.Event
  sight : Option (Sight B)
  deriving DecidableEq

/-- The text for a batch: without a serializer it shows the key and the time only. -/
def json (serializer_ : Option (Bytes → B → Option Bytes)) (key : Bytes) (batch : B) (now : ℕ) : Option Bytes :=
  match serializer_ with
  | some serializer => serializer key batch
  | none => some (ascii "\x7b\"pipeline\":\"" ++ key ++ ascii "\",\"ts\":" ++ to_string now ++ ascii "\x7d")

/-- What the second phase comes to for one pipeline before it writes. -/
inductive Prepared where
  | absent
  | throws
  | frame (bytes : Bytes)

def prepare (serializer_ : Option (Bytes → B → Option Bytes)) (store : WebSocketSinkStore B) (key : Bytes) (now : ℕ) :
    Prepared :=
  match store.Latest key with
  | none => .absent
  | some batch =>
    match json serializer_ key batch now with
    | none => .throws
    | some text => .frame (WebSocketCodec.EncodeFrame text .kText)

/-- The manager moves, and its thread goes on with a frame and shows something. -/
def goes (f : Shared B) (at_ : WebSocketManager.Control) (choice : WebSocketManager.Choice) (frame : Bytes)
    (sight : WebSocketManager.Control → Option (Sight B)) : Option (Shared B × Control × Event B) :=
  (WebSocketManager.act f.manager at_ choice).map fun moved =>
    ({ f with manager := moved.1 }, .manager moved.2.1 frame, ⟨some moved.2.2, sight moved.2.1⟩)

/-- What the first phase of `BroadcastData` has copied. -/
def copied : WebSocketManager.Control → Option (Sight B)
  | .broadcaster (.sending snapshot) => some (.copied snapshot)
  | _ => none

/-- An action of one of the manager's threads. The store decides whether a pipeline has a batch. -/
def managerAct (serializer_ : Option (Bytes → B → Option Bytes)) (f : Shared B) (at_ : WebSocketManager.Control)
    (frame : Bytes) (choice : WebSocketManager.Choice) (now : ℕ) : Option (Shared B × Control × Event B) :=
  match at_ with
  | .broadcaster .copying => goes f at_ choice frame copied
  | .broadcaster (.sending ((key, _) :: _)) =>
    let read : Option (Sight B) := some (.store (.Latest key (f.store.Latest key)))
    match prepare serializer_ f.store key now with
    | .absent => goes f at_ (.latest false) frame fun _ => read
    | .throws => some ({ f with aborted := true }, .manager at_ frame, ⟨none, read⟩)
    | .frame made => goes f at_ (.latest true) made fun _ => read
  | .broadcaster (.writing (s :: _) _ _) => goes f at_ choice frame fun _ => some (.sent s frame)
  | _ => goes f at_ choice frame fun _ => none

def act (serializer_ : Option (Bytes → B → Option Bytes)) (max_keep : Bytes → ℕ) (f : Shared B) :
    Control → Choice B → Option (Shared B × Control × Event B)
  | .manager at_ frame, .manager choice now =>
    if f.aborted ∨ f.manager.terminated then none else managerAct serializer_ f at_ frame choice now
  | .user, .user operation =>
    if f.aborted ∨ f.manager.terminated then none
    else
      let (store, performed) := WebSocketSinkStore.perform max_keep f.store operation
      some ({ f with store }, .user, ⟨none, some (.store performed)⟩)
  | _, _ => none

def program (serializer_ : Option (Bytes → B → Option Bytes)) (max_keep : Bytes → ℕ) :
    Interleaving.Program (Shared B) Control (Choice B) (Event B) :=
  ⟨act serializer_ max_keep⟩

def start : Party ⊕ τ → Control
  | .inl party => .manager party.start []
  | .inr _ => .user

/-- The manager just started, and nothing in the store. -/
def source (B τ : Type) : Interleaving.State (Shared B) Control (Party ⊕ τ) := ⟨⟨.started, .empty, false⟩, start⟩

end BroadcastThreads

end Illuminator
