import Illuminator.Machine.Mutex
import Illuminator.Model.WebSocketManager

/-! # The broadcast thread's locks

The blocks that the broadcast thread runs under `mu_`, with every lock that they and the functions
they call take. A read is handled frame by frame in place: the loop holds a reference to the
connection's receive buffer, and `HandleTextMessage`, which it calls under its own guard, takes a guard
as well. What the other threads do is the manager's program.
-/

namespace Illuminator

namespace WebSocketLocks

open WebSocketManager Mutex.Code

/-- What the broadcast thread does besides: calls on sockets, `HandleTextMessage` with a subscription,
and the connections that it moves. -/
inductive Deed where
  | call (call : Call)
  | asked (fd : ℕ) (key : Bytes)
  | moved (fd : ℕ) (key : Bytes)
  deriving DecidableEq

abbrev Code := Mutex.Code Manager Deed WsFault

/-- The receive buffer of a connection. -/
def recvBuf (m : Manager) (fd : ℕ) : Bytes := ((m.connections_.lookup fd).map ConnInfo.recv_buf).getD []

def setRecvBuf (fd : ℕ) (rb : Bytes) (m : Manager) : Manager :=
  match m.connections_.lookup fd with
  | none => m
  | some info => { m with connections_ := m.connections_.insert fd { info with recv_buf := rb } }

def HandleTextMessage (fd : ℕ) (msg : Bytes) : Code Unit :=
  if subscribePrefix.isPrefixOf msg then do
    does (.asked fd (msg.drop 10))
    guarded do
      let m ← state
      if (m.connections_.lookup fd).isSome then do
        modify fun m => WebSocketManager.HandleTextMessage m fd msg
        does (.moved fd (msg.drop 10))
      else pure ()
  else pure ()

/-- One turn's `switch`, with what it puts into `to_remove`. -/
def handleFrame (s : Socket) (frame : WsFrame) : Code (List Socket) :=
  if frame.opcode = .kPing then do
    does (.call (.used s))
    pure []
  else if frame.opcode = .kClose then pure [s]
  else if frame.opcode = .kText then do
    HandleTextMessage s.fd frame.payload
    pure []
  else pure []

/-- The loop `while (!rb.empty())`. -/
def decodeFrames (s : Socket) : ℕ → Code (List Socket)
  | 0 => throws .stuck
  | fuel + 1 => do
    let m ← state
    let rb := recvBuf m s.fd
    if rb.isEmpty then pure []
    else
      match WebSocketCodec.DecodeFrame rb with
      | .error fault => throws fault
      | .ok (none, _) => pure []
      | .ok (some frame, consumed) =>
        if rb.length < consumed.toNat then throws (.erase consumed)
        else do
          modify (setRecvBuf s.fd (rb.drop consumed.toNat))
          let removed ← handleFrame s frame
          let more ← decodeFrames s fuel
          pure (removed ++ more)

/-- The part of `ProcessIncoming` that handles the bytes of one read. -/
def handleRead (s : Socket) (buf : Bytes) : Code (List Socket) :=
  guarded do
    let m ← state
    match m.connections_.lookup s.fd with
    | none => pure []
    | some info =>
      let rb := info.recv_buf ++ buf
      if WebSocketCodec.maxSize < rb.length then throws (.length_error (.ofNat rb.length))
      else do
        modify (setRecvBuf s.fd rb)
        decodeFrames s (rb.length + 1)

/-- The part of `ProcessIncoming` that lists the connections. -/
def collect (fds : List ℕ) : Code (List Socket) :=
  guarded do
    let m ← state
    pure (fds.map m.socket)

def RemoveConnectionLocked (s : Socket) : Code Unit := do
  modify fun m => (WebSocketManager.RemoveConnectionLocked m s).1
  does (.call (.used s))
  does (.call (.closed s))

def RemoveConnection (s : Socket) : Code Unit := guarded (RemoveConnectionLocked s)

def removeEach : List Socket → Code Unit
  | [] => pure ()
  | s :: rest => do
    RemoveConnectionLocked s
    removeEach rest

/-- The first and the third phase of `BroadcastData`. -/
def snapshot (entries : List (Bytes × List ℕ)) : Code (List (Bytes × List Socket)) :=
  guarded do
    let m ← state
    pure (entries.map fun entry => (entry.1, entry.2.map m.socket))

def cleanUp (dead : List Socket) : Code Unit := guarded (removeEach dead)

/-- Run a block that finds the mutex free. A thread that waits for itself keeps it, and an exception
that leaves the thread ends the process. -/
def block {α : Type} (m : Manager) (code : Code α) (next : α → Broadcaster) :
    Option (Manager × Broadcaster × List (Mutex.Deed Deed)) :=
  if m.held then none
  else
    let out := code.run ⟨m, false⟩
    match out.result with
    | .ok a => some ({ out.final.state with held := out.final.held }, next a, out.deeds)
    | .error .waits => some ({ out.final.state with held := out.final.held }, .stuck, out.deeds)
    | .error (.throws _) => some ({ out.final.state with terminated := true }, .stuck, out.deeds)

/-- The broadcast thread's actions, those under the lock as the blocks above. -/
def broadcastAct (m : Manager) (at_ : Broadcaster) (choice : Choice) :
    Option (Manager × Broadcaster × List (Mutex.Deed Deed)) :=
  match at_, choice with
  | .collecting, .connections fds =>
    if fds.Perm m.connections_.keys then block m (collect fds) fun found => .polling found [] else none
  | .received s buf rest to_remove, .proceed =>
    block m (handleRead s buf) fun removed => .polling rest (to_remove ++ removed)
  | .removing (s :: rest), .proceed => block m (RemoveConnection s) fun _ => .removing rest
  | .copying, .subscriptions entries => if m.Traverses entries then block m (snapshot entries) .sending else none
  | .writing [] (s :: dead) rest, .proceed => block m (cleanUp (s :: dead)) fun _ => .sending rest
  | at_, choice =>
    (WebSocketManager.broadcastAct m at_ choice).map fun r => (r.1, r.2.1, r.2.2.map (.does ∘ .call))

/-- The calls among the deeds. -/
def callsOf (deeds : List (Mutex.Deed Deed)) : List Call :=
  deeds.filterMap fun
    | .does (.call call) => some call
    | _ => none

/-- The subscriptions that clients send, and the connections moved. -/
def askedOf (deeds : List (Mutex.Deed Deed)) : List (ℕ × Bytes) :=
  deeds.filterMap fun
    | .does (.asked fd key) => some (fd, key)
    | _ => none

def movedOf (deeds : List (Mutex.Deed Deed)) : List (ℕ × Bytes) :=
  deeds.filterMap fun
    | .does (.moved fd key) => some (fd, key)
    | _ => none

/-- The manager's event, with the broadcast thread's deeds. No subscription comes from elsewhere. -/
def act (m : Manager) (at_ : Control) (choice : Choice) :
    Option (Manager × Control × Event × List (Mutex.Deed Deed)) :=
  if m.terminated then none
  else
    match at_ with
    | .broadcaster b =>
      (broadcastAct m b choice).map fun r => (r.1, .broadcaster r.2.1, .calls (callsOf r.2.2), r.2.2)
    | .subscriber => none
    | other => (WebSocketManager.act m other choice).map fun r => (r.1, r.2.1, r.2.2, [])

def program : Interleaving.Program Manager Control Choice (Event × List (Mutex.Deed Deed)) := ⟨act⟩

end WebSocketLocks

end Illuminator
