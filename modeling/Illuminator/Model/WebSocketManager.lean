import Illuminator.Machine.Descriptors
import Illuminator.Machine.Interleaving
import Illuminator.Model.WebSocketHandshake
import Illuminator.Model.WebSocketCodec
import Illuminator.ToMathlib.Gather
import Mathlib.Data.Finset.Image
import Mathlib.Data.List.Perm.Basic

/-! # The WebSocket manager's threads

The broadcast thread alternates `ProcessIncoming` and `BroadcastData`, the accept thread adds
connections, and `Stop` joins both and closes what is left. Each takes the table's lock where the
program does, and what happens under one lock is one action. The kernel hands out any descriptor
number that is not open. A socket is a descriptor number with the client it was handed out for, which
the program does not see: the lists that the broadcast thread keeps hold sockets, so that a call can
be told from one on a later client with the same number.
-/

namespace Illuminator

namespace WebSocketManager

structure ConnInfo where
  pipeline_key : Bytes
  recv_buf : Bytes
  deriving DecidableEq

/-- A descriptor number, and which client it was handed out for. -/
structure Socket where
  fd : ℕ
  client : ℕ
  deriving DecidableEq

/-- The calls on descriptors: `accept`, `write` and `close`. -/
abbrev Call := Descriptors.Call Socket

/-- The manager's members, the sockets the kernel has open, and how many clients it has accepted. A
thread that locks `mu_` twice holds it for good, and an exception that leaves a thread ends the process. -/
structure Manager where
  connections_ : AList fun _ : ℕ => ConnInfo
  subscriptions_ : AList fun _ : Bytes => Finset ℕ
  running_ : Bool
  opened : List Socket
  clients : ℕ
  held : Bool
  terminated : Bool
  broadcastExited : Bool
  acceptExited : Bool

/-- The manager once `Start` has returned. -/
def Manager.started : Manager := ⟨∅, ∅, true, [], 0, false, false, false, false⟩

/-- `subscriptions_[key]`. -/
def Manager.subscribers (m : Manager) (key : Bytes) : Finset ℕ := (m.subscriptions_.lookup key).getD ∅

/-- The socket that a descriptor number stands for now. -/
def Manager.socket (m : Manager) (fd : ℕ) : Socket := (m.opened.find? fun s => s.fd = fd).getD ⟨fd, 0⟩

def Manager.close (m : Manager) (s : Socket) : Manager :=
  { m with opened := Descriptors.close Socket.fd m.opened s }

/-- The bytes of `"/ws/"` and `"default"`. -/
def wsPath : Bytes := [0x2F, 0x77, 0x73, 0x2F]
def defaultKey : Bytes := [0x64, 0x65, 0x66, 0x61, 0x75, 0x6C, 0x74]

def PathToPipelineKey (path : Bytes) : Bytes :=
  if 4 < path.length ∧ path.take 4 = wsPath then path.drop 4 else defaultKey

def AddConnection (m : Manager) (fd : ℕ) (subscribe_path : Bytes) : Manager :=
  let key := PathToPipelineKey subscribe_path
  { m with
    connections_ := m.connections_.insert fd ⟨key, []⟩
    subscriptions_ := m.subscriptions_.insert key (insert fd (m.subscribers key)) }

/-- `HandleTextMessage`, once it has the lock. -/
def HandleTextMessage (m : Manager) (fd : ℕ) (msg : Bytes) : Manager :=
  if subscribePrefix.isPrefixOf msg then
    match m.connections_.lookup fd with
    | none => m
    | some info =>
      let left := m.subscriptions_.insert info.pipeline_key ((m.subscribers info.pipeline_key).erase fd)
      let new_key := msg.drop 10
      { m with
        connections_ := m.connections_.insert fd { info with pipeline_key := new_key }
        subscriptions_ := left.insert new_key (insert fd ((left.lookup new_key).getD ∅)) }
  else m

/-- `RemoveConnectionLocked`, with its two calls. -/
def RemoveConnectionLocked (m : Manager) (s : Socket) : Manager × List Call :=
  let removed := match m.connections_.lookup s.fd with
    | none => m
    | some info =>
      { m with
        connections_ := m.connections_.erase s.fd
        subscriptions_ := m.subscriptions_.insert info.pipeline_key ((m.subscribers info.pipeline_key).erase s.fd) }
  (removed.close s, [.used s, .closed s])

/-- `RemoveConnectionLocked` for one socket after another. -/
def removeEach (m : Manager) : List Socket → Manager × List Call
  | [] => (m, [])
  | s :: rest =>
    let (removed, calls) := RemoveConnectionLocked m s
    let (left, more) := removeEach removed rest
    (left, calls ++ more)

/-- The loop `while (!rb.empty())` with what it has done before a fault: the bytes left, the frames
handled with the reactions to them, and the fault. A turn consumes octets, so `fuel` turns are
enough for fewer than `fuel` octets. -/
def decodeTurns : ℕ → Bytes → Bytes × List (WsFrame × List Reaction) × Option WsFault
  | 0, rb => (rb, [], some .stuck)
  | fuel + 1, rb =>
    if rb.isEmpty then (rb, [], none)
    else
      match WebSocketCodec.DecodeFrame rb with
      | .error fault => (rb, [], some fault)
      | .ok (none, _) => (rb, [], none)
      | .ok (some frame, consumed) =>
        if rb.length < consumed.toNat then (rb, [], some (.erase consumed))
        else
          match handleFrame frame with
          | .error fault => (rb.drop consumed.toNat, [], some fault)
          | .ok reactions =>
            let (left, handled, fault) := decodeTurns fuel (rb.drop consumed.toNat)
            (left, (frame, reactions) :: handled, fault)

/-- What a reaction calls on the frame's connection, and what it puts into `to_remove`. -/
def Reaction.calls (s : Socket) : Reaction → List Call
  | .write _ => [.used s]
  | .remove => []

def Reaction.removes (s : Socket) : Reaction → List Socket
  | .write _ => []
  | .remove => [s]

/-- The part of `ProcessIncoming` that handles the bytes of one read under the lock: the manager, the
calls made, and what is put into `to_remove`, unless the thread ends here. The receive buffer's
`insert` throws past the largest size. -/
def handleRead (m : Manager) (s : Socket) (buf : Bytes) : Manager × List Call × Option (List Socket) :=
  match m.connections_.lookup s.fd with
  | none => (m, [], some [])
  | some info =>
    let rb := info.recv_buf ++ buf
    if WebSocketCodec.maxSize < rb.length then ({ m with terminated := true }, [], none)
    else
      let (left, handled, fault) := decodeTurns (rb.length + 1) rb
      let reactions := handled.flatMap Prod.snd
      let kept := { m with connections_ := m.connections_.insert s.fd { info with recv_buf := left } }
      let calls := reactions.flatMap (Reaction.calls s)
      match fault with
      | none => (kept, calls, some (reactions.flatMap (Reaction.removes s)))
      | some .relock => ({ kept with held := true }, calls, none)
      | some _ => ({ kept with terminated := true }, calls, none)

/-- The broadcast thread, in `ProcessIncoming` and then in `BroadcastData`. -/
inductive Broadcaster where
  | loop
  | collecting
  | polling (rest to_remove : List Socket)
  | received (s : Socket) (buf : Bytes) (rest to_remove : List Socket)
  | removing (to_remove : List Socket)
  | copying
  | sending (snapshot : List (Bytes × List Socket))
  | writing (fds dead : List Socket) (snapshot : List (Bytes × List Socket))
  | stuck
  | exited
  deriving DecidableEq

/-- The accept thread. -/
inductive Acceptor where
  | loop
  | accepting
  | reading (s : Socket)
  | adding (s : Socket) (path : Bytes)
  | exited
  deriving DecidableEq

/-- The thread that started the manager and stops it. -/
inductive Main where
  | running
  | stopping
  | stopped
  deriving DecidableEq

inductive Control where
  | broadcaster (at_ : Broadcaster)
  | acceptor (at_ : Acceptor)
  | main (at_ : Main)
  | subscriber
  deriving DecidableEq

inductive Party where
  | broadcaster
  | acceptor
  | main
  | subscriber
  deriving DecidableEq

/-- What the program does not decide: the order of a hash table's entries, what `poll`, `read`,
`write` and `accept` return, whether a pipeline has a batch, and what a client sends. -/
inductive Choice where
  | proceed
  | connections (fds : List ℕ)
  | subscriptions (entries : List (Bytes × List ℕ))
  | notReady
  | hangUp
  | read (buf : Bytes)
  | latest (present : Bool)
  | write (succeeds : Bool)
  | refuse
  | accept (fd : ℕ)
  | request (arrived : Bytes) (written : ℤ)
  | text (fd : ℕ) (msg : Bytes)
  deriving DecidableEq

/-- What an action shows: the calls it makes, or the socket given to `AddConnection`. -/
inductive Event where
  | calls (calls : List Call)
  | added (s : Socket)
  deriving DecidableEq

/-- A traversal of the nonempty entries of `subscriptions_`. -/
def Manager.Traverses (m : Manager) (entries : List (Bytes × List ℕ)) : Prop :=
  (entries.map Prod.fst).Perm (m.subscriptions_.keys.filter fun key => m.subscribers key ≠ ∅) ∧
    ∀ entry ∈ entries, entry.2.Nodup ∧ entry.2.toFinset = m.subscribers entry.1

instance (m : Manager) (entries : List (Bytes × List ℕ)) : Decidable (m.Traverses entries) :=
  inferInstanceAs (Decidable (_ ∧ _))

def broadcastAct (m : Manager) : Broadcaster → Choice → Option (Manager × Broadcaster × List Call)
  | .loop, .proceed =>
    if m.running_ then some (m, .collecting, []) else some ({ m with broadcastExited := true }, .exited, [])
  | .collecting, .connections fds =>
    if m.held = false ∧ fds.Perm m.connections_.keys then some (m, .polling (fds.map m.socket) [], []) else none
  | .polling (_ :: rest) to_remove, .notReady => some (m, .polling rest to_remove, [])
  | .polling (s :: rest) to_remove, .hangUp => some (m, .polling rest (to_remove ++ [s]), [])
  | .polling (s :: rest) to_remove, .read buf =>
    if buf ≠ [] ∧ buf.length ≤ 4096 then some (m, .received s buf rest to_remove, []) else none
  | .polling [] to_remove, .proceed => some (m, .removing to_remove, [])
  | .received s buf rest to_remove, .proceed =>
    if m.held then none
    else
      match handleRead m s buf with
      | (next, calls, some removed) => some (next, .polling rest (to_remove ++ removed), calls)
      | (next, calls, none) => some (next, .stuck, calls)
  | .removing (s :: rest), .proceed =>
    if m.held then none
    else some ((RemoveConnectionLocked m s).1, .removing rest, (RemoveConnectionLocked m s).2)
  | .removing [], .proceed => some (m, .copying, [])
  | .copying, .subscriptions entries =>
    if m.held = false ∧ m.Traverses entries then
      some (m, .sending (entries.map fun entry => (entry.1, entry.2.map m.socket)), [])
    else none
  | .sending ((_, fds) :: rest), .latest present =>
    if present then some (m, .writing fds [] rest, []) else some (m, .sending rest, [])
  | .sending [], .proceed => some (m, .loop, [])
  | .writing (s :: fds) dead rest, .write succeeds =>
    some (m, .writing fds (if succeeds then dead else dead ++ [s]) rest, [.used s])
  | .writing [] dead rest, .proceed =>
    if dead = [] then some (m, .sending rest, [])
    else if m.held then none
    else some ((removeEach m dead).1, .sending rest, (removeEach m dead).2)
  | _, _ => none

def acceptAct (m : Manager) : Acceptor → Choice → Option (Manager × Acceptor × Event)
  | .loop, .proceed =>
    if m.running_ then some (m, .accepting, .calls []) else some ({ m with acceptExited := true }, .exited, .calls [])
  | .accepting, .refuse => some (m, .loop, .calls [])
  | .accepting, .accept fd =>
    if ∀ s ∈ m.opened, s.fd ≠ fd then
      let s : Socket := ⟨fd, m.clients + 1⟩
      some ({ m with opened := s :: m.opened, clients := m.clients + 1 }, .reading s, .calls [.opened s])
    else none
  | .reading s, .request arrived written =>
    match AcceptLoop arrived written with
    | .closed => some (m.close s, .loop, .calls [.closed s])
    | .badRequest => some (m.close s, .loop, .calls [.used s, .closed s])
    | .refused =>
      -- without a key `PerformHandshake` returns before its write
      let answered := (WebSocketCodec.PerformHandshake (readRequest arrived)).isSome
      some (m.close s, .loop, .calls ((if answered then [.used s] else []) ++ [.closed s]))
    | .accepted _ path => some (m, .adding s path, .calls [.used s])
  | .adding s path, .proceed => if m.held then none else some (AddConnection m s.fd path, .loop, .added s)
  | _, _ => none

def mainAct (m : Manager) : Main → Choice → Option (Manager × Main × List Call)
  | .running, .proceed => some ({ m with running_ := false }, .stopping, [])
  | .stopping, .connections fds =>
    if m.acceptExited ∧ m.broadcastExited ∧ m.held = false ∧ fds.Perm m.connections_.keys then
      let closed := fds.map m.socket
      some ({ closed.foldl Manager.close m with connections_ := ∅, subscriptions_ := ∅ }, .stopped,
        closed.flatMap fun s => [.used s, .closed s])
    else none
  | _, _ => none

/-- A subscription that finds the lock free. The call in `ProcessIncoming` never does, and ends its
thread in `handleRead`. -/
def subscribeAct (m : Manager) : Choice → Option Manager
  | .text fd msg => if m.held then none else some (HandleTextMessage m fd msg)
  | _ => none

def act (m : Manager) (at_ : Control) (choice : Choice) : Option (Manager × Control × Event) :=
  if m.terminated then none
  else
    match at_ with
    | .broadcaster b => (broadcastAct m b choice).map fun r => (r.1, .broadcaster r.2.1, .calls r.2.2)
    | .acceptor a => (acceptAct m a choice).map fun r => (r.1, .acceptor r.2.1, r.2.2)
    | .main t => (mainAct m t choice).map fun r => (r.1, .main r.2.1, .calls r.2.2)
    | .subscriber => (subscribeAct m choice).map fun next => (next, .subscriber, .calls [])

def program : Interleaving.Program Manager Control Choice Event := ⟨act⟩

/-- Where each thread begins. -/
def Party.start : Party → Control
  | .broadcaster => .broadcaster .loop
  | .acceptor => .acceptor .loop
  | .main => .main .running
  | .subscriber => .subscriber

def source : Interleaving.State Manager Control Party := ⟨.started, Party.start⟩

end WebSocketManager

end Illuminator
