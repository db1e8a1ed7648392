import Mathlib.Algebra.Order.Ring.Nat
import Mathlib.Logic.Function.Basic

/-! # The page's WebSocket manager

`WsManagerImpl` keeps a subscription for a pipeline key, and callbacks of its sockets and timers close over that object
whether or not the map still has it. Objects are numbered in the order they are made. What the browser does is an
event: it opens a socket, brings a message, reports an error or the end of a socket, or lets a timer fire. Listeners of
the status only read.
-/

namespace Illuminator

namespace WsManager

inductive ReadyState where
  | connecting
  | open_
  | closing
  | closed
  deriving DecidableEq

/-- The socket is connecting or open. -/
def ReadyState.Live (r : ReadyState) : Prop := r = .connecting ∨ r = .open_

instance (r : ReadyState) : Decidable r.Live := inferInstanceAs (Decidable (_ ∨ _))

/-- A socket, the key it was made for and the subscription its callbacks close over. -/
structure Socket (K : Type) where
  key : K
  sub : ℕ
  readyState : ReadyState

structure Timer (K : Type) where
  key : K
  delay : ℕ
  pending : Bool

structure Subscription (H : Type) where
  handlers : List H := []
  ws : Option ℕ := none
  retries : ℕ := 0
  reconnectTimer : Option ℕ := none

/-- The function that `subscribe` returns. -/
structure Unsubscribe (K H : Type) where
  key : K
  sub : ℕ
  handler : H

/-- `calls` are all calls of handlers with what they were given. -/
structure Manager (K H D : Type) where
  next : ℕ := 0
  records : ℕ → Subscription H := fun _ => {}
  subs : K → Option ℕ := fun _ => none
  sockets : ℕ → Option (Socket K) := fun _ => none
  timers : ℕ → Option (Timer K) := fun _ => none
  unsubscribes : List (Unsubscribe K H) := []
  calls : List (H × D) := []

variable {K H D : Type} [DecidableEq K] [DecidableEq H]

namespace Manager

def modify (s : Manager K H D) (id : ℕ) (change : Subscription H → Subscription H) : Manager K H D :=
  { s with records := Function.update s.records id (change (s.records id)) }

/-- `setTimeout` for another `connect`, later with every retry. -/
def reconnectLater (s : Manager K H D) (id : ℕ) (key : K) : Manager K H D :=
  let delay := min (1000 * 2 ^ (s.records id).retries) 30000
  { s.modify id fun sub => { sub with retries := sub.retries + 1, reconnectTimer := some s.next } with
    next := s.next + 1
    timers := Function.update s.timers s.next (some ⟨key, delay, true⟩) }

/-- `connect`. The constructor of the socket may throw. -/
def connect (s : Manager K H D) (key : K) (constructs : Bool) : Manager K H D :=
  match s.subs key with
  | none => s
  | some id =>
    if constructs then
      { s.modify id fun sub => { sub with ws := some s.next } with
        next := s.next + 1
        sockets := Function.update s.sockets s.next (some ⟨key, id, .connecting⟩) }
    else s.reconnectLater id key

def setReady (s : Manager K H D) (socket : ℕ) (readyState : ReadyState) : Manager K H D :=
  { s with sockets := Function.update s.sockets socket ((s.sockets socket).map fun ws => { ws with readyState }) }

/-- `ws.close()`. -/
def closeSocket (s : Manager K H D) (socket : ℕ) : Manager K H D :=
  match s.sockets socket with
  | none => s
  | some ws => if ws.readyState.Live then s.setReady socket .closing else s

/-- `clearTimeout`. -/
def clearTimer (s : Manager K H D) (timer : ℕ) : Manager K H D :=
  { s with timers := Function.update s.timers timer ((s.timers timer).map fun t => { t with pending := false }) }

/-- `if (sub.reconnectTimer) clearTimeout(sub.reconnectTimer)`. -/
def clearTimeout (s : Manager K H D) : Option ℕ → Manager K H D
  | some timer => s.clearTimer timer
  | none => s

/-- `sub.ws?.close()`. -/
def closeOwn (s : Manager K H D) : Option ℕ → Manager K H D
  | some socket => s.closeSocket socket
  | none => s

def disconnect (s : Manager K H D) (key : K) : Manager K H D :=
  match s.subs key with
  | none => s
  | some id =>
    let sub := s.records id
    let s := (s.clearTimeout sub.reconnectTimer).closeOwn sub.ws
    { s.modify id fun sub => { sub with ws := none } with subs := Function.update s.subs key none }

/-- `!sub.ws || sub.ws.readyState > WebSocket.OPEN`. -/
def idle (s : Manager K H D) (id : ℕ) : Bool :=
  match (s.records id).ws.bind s.sockets with
  | some ws => ¬ ws.readyState.Live
  | none => true

/-- The subscription of a key, made if there is none. -/
def ensure (s : Manager K H D) (key : K) : ℕ × Manager K H D :=
  match s.subs key with
  | some id => (id, s)
  | none => (s.next, { s with
      next := s.next + 1
      records := Function.update s.records s.next {}
      subs := Function.update s.subs key (some s.next) })

/-- `sub.handlers.add(handler)`. -/
def addHandler (s : Manager K H D) (id : ℕ) (handler : H) : Manager K H D :=
  s.modify id fun sub =>
    { sub with handlers := if handler ∈ sub.handlers then sub.handlers else sub.handlers ++ [handler] }

/-- `sub.handlers.delete(handler)`. -/
def deleteHandler (s : Manager K H D) (id : ℕ) (handler : H) : Manager K H D :=
  s.modify id fun sub => { sub with handlers := sub.handlers.erase handler }

def connectIdle (s : Manager K H D) (key : K) (id : ℕ) (constructs : Bool) : Manager K H D :=
  if s.idle id then s.connect key constructs else s

/-- `onclose`. -/
def onclose (s : Manager K H D) (id : ℕ) (key : K) : Manager K H D :=
  let s := s.modify id fun sub => { sub with ws := none }
  if (s.records id).handlers = [] then s else s.reconnectLater id key

end Manager

open Manager

inductive Event (K H D : Type) where
  /-- The constructor of a socket, if `connect` is called, throws or not. -/
  | subscribe (key : K) (handler : H) (constructs : Bool)
  | unsubscribe (index : ℕ)
  | opens (socket : ℕ)
  /-- The data are `none` if `JSON.parse` throws. Some handlers throw on them. -/
  | message (socket : ℕ) (data : Option D) (throws : H → Bool)
  | error (socket : ℕ)
  | close (socket : ℕ)
  | fires (timer : ℕ) (constructs : Bool)

/-- The handlers that the loop of `onmessage` calls. -/
def called (throws : H → Bool) : List H → List H
  | [] => []
  | handler :: rest => if throws handler then [handler] else handler :: called throws rest

/-- What an event does, if it can occur. -/
def step (s : Manager K H D) : Event K H D → Option (Manager K H D)
  | .subscribe key handler constructs =>
    let (id, s) := s.ensure key
    let s := (s.addHandler id handler).connectIdle key id constructs
    some { s with unsubscribes := s.unsubscribes ++ [⟨key, id, handler⟩] }
  | .unsubscribe index =>
    s.unsubscribes[index]?.map fun u =>
      let s := s.deleteHandler u.sub u.handler
      if (s.records u.sub).handlers = [] then s.disconnect u.key else s
  | .opens socket =>
    match s.sockets socket with
    | some ws =>
      if ws.readyState = .connecting then
        some ((s.setReady socket .open_).modify ws.sub fun sub => { sub with retries := 0 })
      else none
    | none => none
  | .message socket data throws =>
    match s.sockets socket with
    | some ws =>
      if ws.readyState = .open_ then
        match data with
        | some data =>
          some { s with calls := s.calls ++ (called throws (s.records ws.sub).handlers).map fun handler => (handler, data) }
        | none => some s
      else none
    | none => none
  | .error socket => (s.sockets socket).map fun _ => s.closeSocket socket
  | .close socket =>
    match s.sockets socket with
    | some ws =>
      if ws.readyState = .closed then none else some ((s.setReady socket .closed).onclose ws.sub ws.key)
    | none => none
  | .fires timer constructs =>
    match s.timers timer with
    | some t => if t.pending then some ((s.clearTimer timer).connect t.key constructs) else none
    | none => none

end WsManager

end Illuminator
