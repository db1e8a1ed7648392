import Illuminator.Machine.Components
import Illuminator.Model.BroadcastThreads
import Illuminator.Soundness.ConnectionRuns
import Illuminator.Soundness.StoreIsolation

/-! # Isolation of the broadcast

What `BroadcastData` writes to a descriptor is made from a batch that was pushed under the key under which
the round found the descriptor, whatever other threads push and whoever connects meanwhile. The
operations on the store that the whole program performs are a run of the store, and the manager's threads
run as they do alone.
-/

namespace Illuminator

open Interleaving

namespace BroadcastThreads

open WebSocketManager (Manager Socket Party Broadcaster)
open WebSocketSinkStore (Performed perform)

variable {B τ : Type} {serializer_ : Option (Bytes → B → Option Bytes)} {max_keep : Bytes → ℕ}

/-- What an action can do. -/
inductive Moves (serializer_ : Option (Bytes → B → Option Bytes)) (max_keep : Bytes → ℕ) (f : Shared B) :
    Control → Shared B → Control → Event B → Prop
  | user (operation : WebSocketSinkStore.Operation B) :
      Moves serializer_ max_keep f .user { f with store := (perform max_keep f.store operation).1 } .user
        ⟨none, some (.store (perform max_keep f.store operation).2)⟩
  | throws (key : Bytes) (fds : List Socket) (left : List (Bytes × List Socket)) (frame : Bytes) :
      Moves serializer_ max_keep f (.manager (.broadcaster (.sending ((key, fds) :: left))) frame)
        { f with aborted := true } (.manager (.broadcaster (.sending ((key, fds) :: left))) frame)
        ⟨none, some (.store (.Latest key (f.store.Latest key)))⟩
  | copies {choice : WebSocketManager.Choice} (frame : Bytes) {entries : List (Bytes × List ℕ)} {made}
      (traverses : f.manager.Traverses entries)
      (acts : WebSocketManager.act f.manager (.broadcaster .copying) choice = some (f.manager,
        .broadcaster (.sending (entries.map fun entry => (entry.1, entry.2.map f.manager.socket))), made)) :
      Moves serializer_ max_keep f (.manager (.broadcaster .copying) frame) f
        (.manager (.broadcaster (.sending (entries.map fun entry => (entry.1, entry.2.map f.manager.socket)))) frame)
        ⟨some made, some (.copied (entries.map fun entry => (entry.1, entry.2.map f.manager.socket)))⟩
  | skips {key : Bytes} {fds : List Socket} {left : List (Bytes × List Socket)} (frame : Bytes) {made}
      (acts : WebSocketManager.act f.manager (.broadcaster (.sending ((key, fds) :: left))) (.latest false) =
        some (f.manager, .broadcaster (.sending left), made)) :
      Moves serializer_ max_keep f (.manager (.broadcaster (.sending ((key, fds) :: left))) frame) f
        (.manager (.broadcaster (.sending left)) frame) ⟨some made, some (.store (.Latest key (f.store.Latest key)))⟩
  | takes {key : Bytes} {fds : List Socket} {left : List (Bytes × List Socket)} (frame : Bytes) {made}
      {batch : B} {now : ℕ} {text : Bytes} (stored : f.store.Latest key = some batch)
      (written : json serializer_ key batch now = some text)
      (acts : WebSocketManager.act f.manager (.broadcaster (.sending ((key, fds) :: left))) (.latest true) =
        some (f.manager, .broadcaster (.writing fds [] left), made)) :
      Moves serializer_ max_keep f (.manager (.broadcaster (.sending ((key, fds) :: left))) frame) f
        (.manager (.broadcaster (.writing fds [] left)) (WebSocketCodec.EncodeFrame text .kText))
        ⟨some made, some (.store (.Latest key (f.store.Latest key)))⟩
  | writes {s : Socket} {fds dead dead' : List Socket} {left : List (Bytes × List Socket)} (frame : Bytes)
      {choice : WebSocketManager.Choice} {made}
      (acts : WebSocketManager.act f.manager (.broadcaster (.writing (s :: fds) dead left)) choice =
        some (f.manager, .broadcaster (.writing fds dead' left), made)) :
      Moves serializer_ max_keep f (.manager (.broadcaster (.writing (s :: fds) dead left)) frame) f
        (.manager (.broadcaster (.writing fds dead' left)) frame) ⟨some made, some (.sent s frame)⟩
  | other {at_ place : WebSocketManager.Control} (frame : Bytes) {choice : WebSocketManager.Choice} {m : Manager} {made}
      (acts : WebSocketManager.act f.manager at_ choice = some (m, place, made))
      (sending : ∀ left, place = .broadcaster (.sending left) → ∃ dead, at_ = .broadcaster (.writing [] dead left))
      (writing : ∀ fds dead left, place ≠ .broadcaster (.writing fds dead left)) :
      Moves serializer_ max_keep f (.manager at_ frame) { f with manager := m } (.manager place frame) ⟨some made, none⟩

theorem goes_spec {f next : Shared B} {at_ : WebSocketManager.Control} {choice : WebSocketManager.Choice}
    {frame : Bytes} {sight : WebSocketManager.Control → Option (Sight B)} {after : Control} {event : Event B}
    (acts : goes f at_ choice frame sight = some (next, after, event)) :
    ∃ m place made, WebSocketManager.act f.manager at_ choice = some (m, place, made) ∧ next = { f with manager := m } ∧
      after = .manager place frame ∧ event = ⟨some made, sight place⟩ := by
  obtain ⟨moved, found, same⟩ := Option.map_eq_some_iff.mp acts
  cases same
  exact ⟨_, _, _, found, rfl, rfl, rfl⟩

theorem act_broadcaster {m next : Manager} {b : Broadcaster} {choice : WebSocketManager.Choice}
    {place : WebSocketManager.Control} {made : WebSocketManager.Event}
    (acts : WebSocketManager.act m (.broadcaster b) choice = some (next, place, made)) :
    ∃ after calls, WebSocketManager.broadcastAct m b choice = some (next, after, calls) ∧
      place = .broadcaster after := by
  unfold WebSocketManager.act at acts
  split_ifs at acts
  obtain ⟨moved, found, same⟩ := Option.map_eq_some_iff.mp acts
  cases same
  exact ⟨_, _, found, rfl⟩

theorem act_enters {m next : Manager} {at_ : WebSocketManager.Control} {choice : WebSocketManager.Choice}
    {after : Broadcaster} {made : WebSocketManager.Event}
    (acts : WebSocketManager.act m at_ choice = some (next, .broadcaster after, made)) : ∃ b, at_ = .broadcaster b := by
  unfold WebSocketManager.act at acts
  split_ifs at acts
  cases at_ with
  | broadcaster b => exact ⟨b, rfl⟩
  | acceptor a =>
    obtain ⟨_, _, same⟩ := Option.map_eq_some_iff.mp acts
    cases same
  | main t =>
    obtain ⟨_, _, same⟩ := Option.map_eq_some_iff.mp acts
    cases same
  | subscriber =>
    obtain ⟨_, _, same⟩ := Option.map_eq_some_iff.mp acts
    cases same

/-- The phases of `BroadcastData` are entered from each other only. -/
theorem broadcastAct_enters {m next : Manager} {b after : Broadcaster} {choice : WebSocketManager.Choice}
    {calls : List WebSocketManager.Call} (acts : WebSocketManager.broadcastAct m b choice = some (next, after, calls))
    (copying : b ≠ .copying) (sending : ∀ entry left, b ≠ .sending (entry :: left))
    (writing : ∀ s fds dead left, b ≠ .writing (s :: fds) dead left) :
    (∀ left, after = .sending left → ∃ dead, b = .writing [] dead left) ∧
      ∀ fds dead left, after ≠ .writing fds dead left := by
  unfold WebSocketManager.broadcastAct at acts
  split at acts
  · split_ifs at acts <;> cases acts <;> exact ⟨nofun, nofun⟩
  · split_ifs at acts
    cases acts
    exact ⟨nofun, nofun⟩
  · cases acts
    exact ⟨nofun, nofun⟩
  · cases acts
    exact ⟨nofun, nofun⟩
  · split_ifs at acts
    cases acts
    exact ⟨nofun, nofun⟩
  · cases acts
    exact ⟨nofun, nofun⟩
  · split_ifs at acts
    split at acts <;> cases acts <;> exact ⟨nofun, nofun⟩
  · split_ifs at acts
    cases acts
    exact ⟨nofun, nofun⟩
  · cases acts
    exact ⟨nofun, nofun⟩
  · exact absurd rfl copying
  · exact absurd rfl (sending _ _)
  · cases acts
    exact ⟨nofun, nofun⟩
  · exact absurd rfl (writing _ _ _ _)
  · split_ifs at acts <;> cases acts <;> exact ⟨fun left same => ⟨_, by cases same; rfl⟩, nofun⟩
  · contradiction

/-- An action does nothing else. -/
theorem Moves.of_act {f next : Shared B} {pc after : Control} {choice : Choice B} {event : Event B}
    (acts : act serializer_ max_keep f pc choice = some (next, after, event)) :
    Moves serializer_ max_keep f pc next after event := by
  unfold act at acts
  split at acts
  · next at_ frame choice now =>
    split_ifs at acts
    unfold managerAct at acts
    split at acts
    · obtain ⟨m, place, made, moved, rfl, rfl, rfl⟩ := goes_spec acts
      obtain ⟨went, calls, copies, rfl⟩ := act_broadcaster moved
      unfold WebSocketManager.broadcastAct at copies
      split at copies <;> try contradiction
      split_ifs at copies with free
      cases copies
      exact .copies frame free.2 moved
    · next key fds left =>
      unfold prepare at acts
      split at acts
      · next absent =>
        obtain ⟨m, place, made, moved, rfl, rfl, rfl⟩ := goes_spec acts
        obtain ⟨went, calls, skips, rfl⟩ := act_broadcaster moved
        cases skips
        exact .skips frame moved
      · cases acts
        exact .throws key fds left frame
      · next ready =>
        obtain ⟨m, place, made, moved, rfl, rfl, rfl⟩ := goes_spec acts
        obtain ⟨went, calls, takes, rfl⟩ := act_broadcaster moved
        cases takes
        split at ready
        · cases ready
        · next batch stored =>
          split at ready
          · cases ready
          · next text written =>
            cases ready
            exact .takes frame stored written moved
    · next s fds dead left =>
      obtain ⟨m, place, made, moved, rfl, rfl, rfl⟩ := goes_spec acts
      obtain ⟨went, calls, writes, rfl⟩ := act_broadcaster moved
      cases choice <;> cases writes
      exact .writes frame moved
    · next copying sending writing =>
      obtain ⟨m, place, made, moved, rfl, rfl, rfl⟩ := goes_spec acts
      have enters : ∀ after, place = .broadcaster after → (∀ left, after = .sending left →
          ∃ dead, at_ = .broadcaster (.writing [] dead left)) ∧ ∀ fds dead left, after ≠ .writing fds dead left := by
        rintro after rfl
        obtain ⟨b, rfl⟩ := act_enters moved
        obtain ⟨_, calls, went, same⟩ := act_broadcaster moved
        cases same
        obtain ⟨sends, writes⟩ := broadcastAct_enters went (fun same => copying (congrArg _ same))
          (fun entry left same => sending entry.1 entry.2 left (congrArg _ same))
          (fun s fds dead left same => writing s fds dead left (congrArg _ same))
        exact ⟨fun left same => (sends left same).imp fun _ here => congrArg _ here, writes⟩
      exact .other frame moved (fun left same => (enters _ same).1 left rfl)
        fun fds dead left same => (enters _ same).2 fds dead left rfl
  · split_ifs at acts
    cases acts
    exact .user _
  · contradiction

/-! ## The store's operations and the manager's actions -/

def Event.performed (event : Event B) : Option (Performed B) :=
  match event.sight with
  | some (.store performed) => some performed
  | _ => none

/-- The operations on the store in a history. -/
def operations (history : List ((Party ⊕ τ) × Event B)) : List ((Party ⊕ τ) × Performed B) :=
  history.filterMap fun entry => entry.2.performed.map (Prod.mk entry.1)

theorem operations_append (first second : List ((Party ⊕ τ) × Event B)) :
    operations (first ++ second) = operations first ++ operations second :=
  List.filterMap_append

/-- An action performs one operation on the store, or leaves it alone. -/
theorem Moves.store {f next : Shared B} {pc after : Control} {event : Event B}
    (moves : Moves serializer_ max_keep f pc next after event) :
    (event.performed = none ∧ next.store = f.store) ∨
      ∃ operation, event.performed = some (perform max_keep f.store operation).2 ∧
        next.store = (perform max_keep f.store operation).1 := by
  cases moves with
  | user operation => exact Or.inr ⟨operation, rfl, rfl⟩
  | throws key => exact Or.inr ⟨.Latest key, rfl, rfl⟩
  | copies => exact Or.inl ⟨rfl, rfl⟩
  | @skips key => exact Or.inr ⟨.Latest key, rfl, rfl⟩
  | @takes key => exact Or.inr ⟨.Latest key, rfl, rfl⟩
  | writes => exact Or.inl ⟨rfl, rfl⟩
  | other => exact Or.inl ⟨rfl, rfl⟩

/-- Where one of the manager's threads stands. -/
def Control.place : Control → WebSocketManager.Control
  | .manager at_ _ => at_
  | .user => .subscriber

/-- An action is one of the manager's, or leaves the manager alone. -/
theorem Moves.manager {f next : Shared B} {pc after : Control} {event : Event B}
    (moves : Moves serializer_ max_keep f pc next after event) :
    (event.made = none ∧ next.manager = f.manager ∧ after.place = pc.place) ∨
      ∃ choice made, event.made = some made ∧
        WebSocketManager.act f.manager pc.place choice = some (next.manager, after.place, made) := by
  cases moves with
  | user => exact Or.inl ⟨rfl, rfl, rfl⟩
  | throws => exact Or.inl ⟨rfl, rfl, rfl⟩
  | copies _ _ acts => exact Or.inr ⟨_, _, rfl, acts⟩
  | skips _ acts => exact Or.inr ⟨_, _, rfl, acts⟩
  | takes _ _ _ acts => exact Or.inr ⟨_, _, rfl, acts⟩
  | writes _ acts => exact Or.inr ⟨_, _, rfl, acts⟩
  | other _ acts => exact Or.inr ⟨_, _, rfl, acts⟩

section Runs

variable [DecidableEq τ] {history before after : List ((Party ⊕ τ) × Event B)}
  {s target : State (Shared B) Control (Party ⊕ τ)} {thread : Party ⊕ τ}

/-- The operations on the store are a run of the store. -/
theorem store_run (run : (program serializer_ max_keep).Run (source B τ) history target) :
    (WebSocketSinkStore.program max_keep).Run (WebSocketSinkStore.source (Party ⊕ τ)) (operations history)
      (target.view Shared.store fun _ => ()) := by
  refine run.project (WebSocketSinkStore.program max_keep) Shared.store (fun _ => ()) Event.performed ?_
  intro shared next pc after choice event enabled
  rcases (Moves.of_act enabled).store with ⟨hidden, same⟩ | ⟨operation, shown, same⟩
  · exact Or.inl ⟨hidden, same, rfl⟩
  · refine Or.inr ⟨operation, _, shown, ?_⟩
    rw [same]
    rfl

/-- A thread's round of `BroadcastData` that is going on: the copy that began it lists what was subscribed
in the state it was taken from. -/
def Round (serializer_ : Option (Bytes → B → Option Bytes)) (max_keep : Bytes → ℕ) (thread : Party ⊕ τ)
    (history : List ((Party ⊕ τ) × Event B)) (s : State (Shared B) Control (Party ⊕ τ))
    (copy : List (Bytes × List Socket)) : Prop :=
  ∃ early event since start, history = early ++ (thread, event) :: since ∧
    event.sight = some (.copied copy) ∧
    (∀ entry ∈ since, entry.1 = thread → ∀ other, entry.2.sight ≠ some (.copied other)) ∧
    (program serializer_ max_keep).Run (source B τ) early start ∧
    (program serializer_ max_keep).Run start ((thread, event) :: since) s ∧
    ∀ entry ∈ copy, ∀ socket ∈ entry.2, socket.fd ∈ start.shared.manager.subscribers entry.1 ∧
      socket = start.shared.manager.socket socket.fd

/-- Until the thread copies again its round goes on. -/
theorem Round.snoc {copy : List (Bytes × List Socket)} (round : Round serializer_ max_keep thread history s copy)
    {entry : (Party ⊕ τ) × Event B} {next : State (Shared B) Control (Party ⊕ τ)}
    (step : (program serializer_ max_keep).Step s entry next)
    (same : entry.1 = thread → ∀ other, entry.2.sight ≠ some (.copied other)) :
    Round serializer_ max_keep thread (history ++ [entry]) next copy := by
  obtain ⟨early, event, since, start, rfl, shown, only, prior, run, listed⟩ := round
  refine ⟨early, event, since ++ [entry], start, by simp, shown, ?_, prior, run.snoc step, listed⟩
  intro other member
  rcases List.mem_append.mp member with there | last
  · exact only other there
  · obtain rfl := List.mem_singleton.mp last
    exact same

/-- A frame made from a batch that was pushed under the key of an entry of the copy, and what is left of
that entry. -/
def Made (serializer_ : Option (Bytes → B → Option Bytes)) (history : List ((Party ⊕ τ) × Event B))
    (copy : List (Bytes × List Socket)) (fds : List Socket) (frame : Bytes) : Prop :=
  ∃ key sockets batch now text, (key, sockets) ∈ copy ∧ fds ⊆ sockets ∧
    some batch ∈ WebSocketSinkStore.pushed key (operations history) ∧
    json serializer_ key batch now = some text ∧ frame = WebSocketCodec.EncodeFrame text .kText

omit [DecidableEq τ] in
theorem Made.snoc {copy : List (Bytes × List Socket)} {fds left : List Socket} {frame : Bytes}
    (made : Made serializer_ history copy fds frame) (entry : (Party ⊕ τ) × Event B) (part : left ⊆ fds) :
    Made serializer_ (history ++ [entry]) copy left frame := by
  obtain ⟨key, sockets, batch, now, text, listed, among, pushed, rest⟩ := made
  refine ⟨key, sockets, batch, now, text, listed, fun _ member => among (part member), ?_, rest⟩
  rw [operations_append, WebSocketSinkStore.pushed_append]
  exact List.mem_append_left _ pushed

/-- What is known where a thread stands in `BroadcastData`. -/
def Standing (serializer_ : Option (Bytes → B → Option Bytes)) (max_keep : Bytes → ℕ) (thread : Party ⊕ τ)
    (history : List ((Party ⊕ τ) × Event B)) (s : State (Shared B) Control (Party ⊕ τ)) : Control → Prop
  | .manager (.broadcaster (.sending left)) _ => ∃ copy, Round serializer_ max_keep thread history s copy ∧ left ⊆ copy
  | .manager (.broadcaster (.writing fds _ left)) frame =>
    ∃ copy, Round serializer_ max_keep thread history s copy ∧ left ⊆ copy ∧ Made serializer_ history copy fds frame
  | _ => True

/-- Another thread's action. -/
theorem Standing.others {pc : Control} (standing : Standing serializer_ max_keep thread history s pc)
    {entry : (Party ⊕ τ) × Event B} {next : State (Shared B) Control (Party ⊕ τ)}
    (step : (program serializer_ max_keep).Step s entry next) (other : entry.1 ≠ thread) :
    Standing serializer_ max_keep thread (history ++ [entry]) next pc := by
  unfold Standing at standing ⊢
  split
  · obtain ⟨copy, round, part⟩ := standing
    exact ⟨copy, round.snoc step fun same => absurd same other, part⟩
  · obtain ⟨copy, round, part, made⟩ := standing
    exact ⟨copy, round.snoc step fun same => absurd same other, part, made.snoc entry (List.Subset.refl _)⟩
  · trivial

/-- What the store returns has been pushed under the key. -/
theorem pushed_of_latest (run : (program serializer_ max_keep).Run (source B τ) history s) {key : Bytes} {batch : B}
    (stored : s.shared.store.Latest key = some batch) :
    some batch ∈ WebSocketSinkStore.pushed key (operations history) := by
  rw [WebSocketSinkStore.Latest_eq, Option.join_eq_some_iff] at stored
  have kept := WebSocketSinkStore.buffer_of_run (store_run run) key
  change s.shared.store.buffer key = _ at kept
  rw [kept] at stored
  exact List.mem_of_mem_drop (List.mem_of_getLast? stored)

/-- The thread's own action. -/
theorem Standing.mine (run : (program serializer_ max_keep).Run (source B τ) history s)
    (standing : Standing serializer_ max_keep thread history s (s.pc thread)) {choice : Choice B} {shared : Shared B}
    {pc : Control} {event : Event B}
    (enabled : (program serializer_ max_keep).act s.shared (s.pc thread) choice = some (shared, pc, event)) :
    Standing serializer_ max_keep thread (history ++ [(thread, event)]) (s.move thread shared pc) pc := by
  have step : (program serializer_ max_keep).Step s (thread, event) (s.move thread shared pc) := .act enabled
  have moves := Moves.of_act enabled
  generalize s.pc thread = before at moves standing
  cases moves with
  | user => trivial
  | throws key fds left frame =>
    obtain ⟨copy, round, part⟩ := standing
    exact ⟨copy, round.snoc step fun _ => nofun, part⟩
  | copies frame traverses =>
    refine ⟨_, ⟨history, _, [], s, rfl, rfl, nofun, run, Program.Run.nil.snoc step, ?_⟩, List.Subset.refl _⟩
    intro entry member socket inside
    obtain ⟨listed, there, rfl⟩ := List.mem_map.mp member
    obtain ⟨fd, among, rfl⟩ := List.mem_map.mp inside
    rw [WebSocketManager.socket_fd, ← (traverses.2 listed there).2]
    exact ⟨List.mem_toFinset.mpr among, rfl⟩
  | skips =>
    obtain ⟨copy, round, part⟩ := standing
    exact ⟨copy, round.snoc step fun _ => nofun, (List.cons_subset.mp part).2⟩
  | takes frame stored written =>
    obtain ⟨copy, round, part⟩ := standing
    obtain ⟨listed, rest⟩ := List.cons_subset.mp part
    have made : Made serializer_ history copy _ _ :=
      ⟨_, _, _, _, _, listed, List.Subset.refl _, pushed_of_latest run stored, written, rfl⟩
    exact ⟨copy, round.snoc step fun _ => nofun, rest, made.snoc _ (List.Subset.refl _)⟩
  | writes =>
    obtain ⟨copy, round, part, made⟩ := standing
    exact ⟨copy, round.snoc step fun _ => nofun, part, made.snoc _ (List.subset_cons_self ..)⟩
  | @other at_ place frame choice m made acts sending writing =>
    unfold Standing
    split
    · next left _ same =>
      cases same
      obtain ⟨dead, rfl⟩ := sending left rfl
      obtain ⟨copy, round, part, _⟩ := standing
      exact ⟨copy, round.snoc step fun _ => nofun, part⟩
    · next fds dead left _ same =>
      cases same
      exact absurd rfl (writing fds dead left)
    · trivial

theorem standing_of_run (run : (program serializer_ max_keep).Run (source B τ) history target) (thread : Party ⊕ τ) :
    Standing serializer_ max_keep thread history target (target.pc thread) := by
  have both := run.invariant (fun history s => (program serializer_ max_keep).Run (source B τ) history s ∧
    ∀ thread, Standing serializer_ max_keep thread history s (s.pc thread)) ⟨.nil, ?_⟩ ?_
  · exact both.2 thread
  · rintro (party | user)
    · cases party <;> trivial
    · trivial
  · rintro history s actor choice shared pc event ⟨prior, standing⟩ enabled
    refine ⟨prior.snoc (.act enabled), ?_⟩
    refine State.forall_move (fun t => Standing serializer_ max_keep t (history ++ [(actor, event)]) _) ?_ ?_
    · exact fun t other => (standing t).others (.act enabled) (Ne.symm other)
    · exact (standing actor).mine prior enabled

/-! ## The manager's own runs -/

/-- Before an action: what is about to be handled completes at most one close frame. -/
def calm (f : Shared B) (pc : Control) : Bool := WebSocketManager.condition f.manager pc.place

theorem user_of_run (run : (program serializer_ max_keep).Run (source B τ) history target) (user : τ) :
    target.pc (.inr user) = .user := by
  refine run.invariant (fun _ s => s.pc (.inr user) = .user) rfl ?_
  intro history s actor choice shared pc event standing enabled
  rw [State.move_pc]
  split_ifs with same
  · have moves := Moves.of_act enabled
    rw [← same, standing] at moves
    cases moves
    rfl
  · exact standing

/-- The manager's actions are a run of the manager, which meets its condition when the whole run is calm. -/
theorem manager_run (run : ((program serializer_ max_keep).restrict calm).Run (source B τ) history target) :
    (WebSocketManager.program.restrict WebSocketManager.condition).Run WebSocketManager.source
      (seen Sum.getLeft? Event.made history) (target.component Shared.manager Control.place .inl) := by
  refine run.component_of (WebSocketManager.program.restrict WebSocketManager.condition) Shared.manager Control.place
    Event.made Sum.getLeft? .inl (fun thread t => Sum.getLeft?_eq_some_iff.trans eq_comm) ?_
  intro history s thread next after choice event reached enabled
  obtain ⟨condition, acts⟩ := Program.restrict_act.mp enabled
  rcases (Moves.of_act acts).manager with hidden | ⟨choice', made, shown, moved⟩
  · exact Or.inl hidden
  · cases thread with
    | inl party => exact Or.inr ⟨party, choice', made, rfl, shown, Program.restrict_act.mpr ⟨condition, moved⟩⟩
    | inr user =>
      rw [user_of_run reached.unrestrict user] at acts
      have moves := Moves.of_act acts
      cases moves
      cases shown

/-- In a calm run a descriptor that is about to be written to is still open. -/
theorem open_of_writing (run : ((program serializer_ max_keep).restrict calm).Run (source B τ) history target)
    {socket : Socket} {fds dead : List Socket} {left : List (Bytes × List Socket)} {frame : Bytes}
    (here : target.pc thread = .manager (.broadcaster (.writing (socket :: fds) dead left)) frame) :
    socket ∈ target.shared.manager.opened := by
  obtain ⟨b, a, t, stand⟩ := WebSocketManager.stand_of_run (manager_run run)
  have standing : (target.pc thread).place = .broadcaster (.writing (socket :: fds) dead left) := by rw [here]; rfl
  rcases thread with (party | user)
  · cases party with
    | broadcaster =>
      have same := stand.broadcaster.symm.trans standing
      cases same
      exact (stand.kept.due socket List.mem_cons_self).1
    | acceptor =>
      have same := stand.acceptor.symm.trans standing
      cases same
    | main =>
      have same := stand.main.symm.trans standing
      cases same
    | subscriber =>
      have same := stand.subscriber.symm.trans standing
      cases same
  · rw [user_of_run run.unrestrict user] at here
    cases here

/-! ## Frames -/

/-- Each frame that a run writes is written in a state where it holds. -/
def EveryFrame (P : Program (Shared B) Control (Choice B) (Event B)) (history : List ((Party ⊕ τ) × Event B))
    (target : State (Shared B) Control (Party ⊕ τ))
    (holds : Party ⊕ τ → List ((Party ⊕ τ) × Event B) → State (Shared B) Control (Party ⊕ τ) → Socket → Bytes → Prop) :
    Prop :=
  ∀ before after thread event socket frame, history = before ++ (thread, event) :: after →
    event.sight = some (.sent socket frame) → ∃ now, P.Run (source B τ) before now ∧
      P.Run now ((thread, event) :: after) target ∧ holds thread before now socket frame

/-- The frame is made from a batch pushed under the key that the descriptor was subscribed to when the
thread's round began. -/
def FromOwnKey (serializer_ : Option (Bytes → B → Option Bytes)) (max_keep : Bytes → ℕ) (thread : Party ⊕ τ)
    (before : List ((Party ⊕ τ) × Event B)) (now : State (Shared B) Control (Party ⊕ τ)) (socket : Socket)
    (frame : Bytes) : Prop :=
  ∃ copy, Round serializer_ max_keep thread before now copy ∧ Made serializer_ before copy [socket] frame

theorem writing_of_sent {f next : Shared B} {pc after : Control} {event : Event B} {socket : Socket} {frame : Bytes}
    (moves : Moves serializer_ max_keep f pc next after event) (sent : event.sight = some (.sent socket frame)) :
    ∃ fds dead left, pc = .manager (.broadcaster (.writing (socket :: fds) dead left)) frame := by
  cases moves with
  | writes =>
    cases sent
    exact ⟨_, _, _, rfl⟩
  | _ => cases sent

theorem fromOwnKey_of_writing (run : (program serializer_ max_keep).Run (source B τ) history target)
    {socket : Socket} {fds dead : List Socket} {left : List (Bytes × List Socket)} {frame : Bytes}
    (here : target.pc thread = .manager (.broadcaster (.writing (socket :: fds) dead left)) frame) :
    FromOwnKey serializer_ max_keep thread history target socket frame := by
  have standing := standing_of_run run thread
  rw [here] at standing
  obtain ⟨copy, round, _, key, sockets, batch, now, text, listed, among, rest⟩ := standing
  exact ⟨copy, round, key, sockets, batch, now, text, listed, List.cons_subset.mpr
    ⟨among List.mem_cons_self, List.nil_subset _⟩, rest⟩

/-- In every run of the manager's threads with any number of threads that use the store, the store keeps the
pipelines apart, and every frame that is written comes from the key that its descriptor was subscribed to
when the round began. In a calm run the descriptor still belongs to the connection that was subscribed. -/
theorem isolated (serializer_ : Option (Bytes → B → Option Bytes)) (max_keep : Bytes → ℕ)
    (positive : ∀ key, 1 ≤ max_keep key) (run : (program serializer_ max_keep).Run (source B τ) history target) :
    WebSocketSinkStore.Isolated max_keep (operations history) target.shared.store ∧
      EveryFrame (program serializer_ max_keep) history target (FromOwnKey serializer_ max_keep) ∧
      (((program serializer_ max_keep).restrict calm).Run (source B τ) history target →
        EveryFrame ((program serializer_ max_keep).restrict calm) history target fun thread before now socket frame =>
          FromOwnKey serializer_ max_keep thread before now socket frame ∧ socket ∈ now.shared.manager.opened) := by
  refine ⟨WebSocketSinkStore.isolated_of_run positive (store_run run), ?_, fun calmly => ?_⟩
  · rintro before after thread event socket frame rfl sent
    obtain ⟨now, _, prior, step, rest⟩ := run.taken
    refine ⟨now, prior, (Program.Run.nil.snoc step).append rest, ?_⟩
    cases step with
    | act enabled =>
      obtain ⟨_, _, _, here⟩ := writing_of_sent (Moves.of_act enabled) sent
      exact fromOwnKey_of_writing prior here
  · rintro before after thread event socket frame rfl sent
    obtain ⟨now, _, prior, step, rest⟩ := calmly.taken
    refine ⟨now, prior, (Program.Run.nil.snoc step).append rest, ?_⟩
    cases step with
    | act enabled =>
      obtain ⟨_, _, _, here⟩ := writing_of_sent (Moves.of_act (Program.restrict_act.mp enabled).2) sent
      exact ⟨fromOwnKey_of_writing prior.unrestrict here, open_of_writing prior here⟩

/-- One round: a batch under the key of a connection, one under another key, and a broadcast. -/
def oneRound : List ((Party ⊕ Unit) × Choice ℕ) :=
  [(.inr (), .user (.PushBatch (ascii "cpu") (some 5))), (.inr (), .user (.PushBatch (ascii "mem") (some 6)))] ++
    (WebSocketManager.connects 7).map (fun entry => (.inl entry.1, .manager entry.2 0)) ++
    [WebSocketManager.Choice.proceed, .connections [7], .notReady, .proceed, .proceed,
      .subscriptions [(ascii "cpu", [7])], .proceed, .write true].map fun choice =>
        (.inl Party.broadcaster, .manager choice 0)

def sampleSerializer : Option (Bytes → ℕ → Option Bytes) := some fun key batch => some (key ++ to_string batch)

theorem isolated_oneRound : ∃ (history : List ((Party ⊕ Unit) × Event ℕ)) (target : _),
    (∃ entry ∈ history, entry.2.sight = some (.sent ⟨7, 1⟩ (WebSocketCodec.EncodeFrame (ascii "cpu5") .kText))) ∧
      WebSocketSinkStore.Isolated (fun _ => 1) (operations history) target.shared.store ∧
      EveryFrame (program sampleSerializer fun _ => 1) history target (FromOwnKey sampleSerializer fun _ => 1) := by
  have checked := Program.exists_run_of_check (program sampleSerializer fun _ => 1) (source ℕ Unit)
    (fun _ history => ∃ entry ∈ history,
      entry.2.sight = some (.sent ⟨7, 1⟩ (WebSocketCodec.EncodeFrame (ascii "cpu5") .kText)))
    oneRound (by decide +kernel)
  obtain ⟨history, target, run, sent⟩ := checked
  obtain ⟨store, frames, _⟩ := isolated sampleSerializer (fun _ => 1) (fun _ => le_refl 1) run
  exact ⟨history, target, sent, store, frames⟩

end Runs

end BroadcastThreads

end Illuminator
