import Illuminator.Soundness.ConnectionTable
import Illuminator.Soundness.HandshakeAccept

/-! # Runs of the WebSocket manager

Every action of every thread keeps the table and the descriptors in step, as long as no read brings two
close frames: their descriptor would be in `to_remove` twice, and the second removal closes whatever
has the number by then. With at most one close frame to a read, every socket given to `AddConnection`
is closed once, and no call refers to it after that.
-/

namespace Illuminator

namespace WebSocketManager

open WebSocketCodec Descriptors

/-- Before an action: what is about to be handled completes at most one close frame. -/
def condition (m : Manager) : Control → Bool
  | .broadcaster (.received s buf _ _) => (m.connections_.lookup s.fd).all fun info => oneClose (info.recv_buf ++ buf)
  | _ => true

theorem socket_fd (m : Manager) (fd : ℕ) : (m.socket fd).fd = fd := by
  unfold Manager.socket
  cases found : m.opened.find? fun s => s.fd = fd with
  | none => rfl
  | some s => simpa using List.find?_some found

variable {log : List Call} {added : List Socket} {m next : Manager} {hold : Option Socket} {choice : Choice}

theorem socket_mem {pending : List Socket} (kept : Kept log added m.table pending hold) {fd : ℕ}
    (present : m.table.key fd ≠ none) : m.socket fd ∈ m.opened := by
  obtain ⟨s, member, same⟩ := kept.listed fd present
  unfold Manager.socket
  cases found : m.opened.find? fun s => s.fd = fd with
  | none => exact absurd same (by simpa using List.find?_eq_none.mp found s member)
  | some other => exact List.mem_of_find?_eq_some found

/-- The sockets of listed descriptors, each once, can be kept. -/
theorem sockets_due {pending : List Socket} (kept : Kept log added m.table pending hold) {fds : List ℕ}
    (present : ∀ fd ∈ fds, m.table.key fd ≠ none) (distinct : fds.Nodup) :
    Kept log added m.table (fds.map m.socket) hold := by
  apply kept.pend
  · intro s member
    obtain ⟨fd, there, rfl⟩ := List.mem_map.mp member
    refine ⟨socket_mem kept (present fd there), ?_⟩
    rw [socket_fd]
    exact present fd there
  · refine distinct.map fun first second same => ?_
    rw [← socket_fd m first, same, socket_fd]

theorem mem_keys_iff {fd : ℕ} : fd ∈ m.connections_.keys ↔ m.table.key fd ≠ none := by
  change fd ∈ m.connections_ ↔ (m.connections_.lookup fd).map ConnInfo.pipeline_key ≠ none
  rw [ne_eq, Option.map_eq_none_iff, AList.lookup_eq_none, not_not]

/-- A copy of the subscriptions lists each connected descriptor at most once. -/
theorem snapshot_due {pending : List Socket} (kept : Kept log added m.table pending hold)
    {entries : List (Bytes × List ℕ)} (traverses : m.Traverses entries) :
    Kept log added m.table ((entries.map fun entry => (entry.1, entry.2.map m.socket)).flatMap Prod.snd) hold := by
  obtain ⟨keys, each⟩ := traverses
  have under {entry : Bytes × List ℕ} (member : entry ∈ entries) {fd : ℕ} (there : fd ∈ entry.2) :
      m.table.key fd = some entry.1 := by
    apply (kept.consistent fd entry.1).mp
    change fd ∈ m.subscribers entry.1
    rw [← (each entry member).2]
    exact List.mem_toFinset.mpr there
  have flat : (entries.map fun entry => (entry.1, entry.2.map m.socket)).flatMap Prod.snd =
      (entries.flatMap Prod.snd).map m.socket := by
    rw [List.flatMap_map, List.map_flatMap]
  rw [flat]
  apply sockets_due kept
  · intro fd member
    obtain ⟨entry, inside, there⟩ := List.mem_flatMap.mp member
    rw [under inside there]
    exact Option.some_ne_none _
  · refine List.nodup_flatMap.mpr ⟨fun entry member => (each entry member).1, ?_⟩
    have distinct : entries.Pairwise fun first second => first.1 ≠ second.1 :=
      List.pairwise_map.mp (keys.nodup_iff.mpr (m.subscriptions_.nodupKeys.filter _))
    refine distinct.imp_of_mem fun first second different => ?_
    intro fd here there
    exact different (Option.some.inj ((under first here).symm.trans (under second there)))

theorem removeEach_kept {dead rest : List Socket} (kept : Kept log added m.table (dead ++ rest) hold) :
    Kept (log ++ (removeEach m dead).2) added (removeEach m dead).1.table rest hold := by
  induction dead generalizing m log with
  | nil =>
    rw [removeEach, List.append_nil]
    exact kept
  | cons s later ih =>
    have removed := kept.remove
    rw [← RemoveConnectionLocked_table kept.consistent s] at removed
    rw [removeEach, ← List.append_assoc]
    exact ih removed

/-- An action of the broadcast thread, before which at most one close frame is about to be handled. -/
theorem broadcast_kept {b after : Broadcaster} {calls : List Call}
    (acts : broadcastAct m b choice = some (next, after, calls)) (one : condition m (.broadcaster b) = true)
    (kept : Kept log added m.table b.pending hold) : Kept (log ++ calls) added next.table after.pending hold := by
  unfold broadcastAct at acts
  split at acts
  · split_ifs at acts <;> cases acts <;> rw [List.append_nil] <;> exact kept
  · split_ifs at acts with free
    cases acts
    rw [List.append_nil, Broadcaster.pending, List.append_nil]
    have keys := free.2
    exact sockets_due kept (fun fd member => mem_keys_iff.mp (keys.subset member))
      (keys.nodup_iff.mpr m.connections_.keys_nodup)
  · cases acts
    rw [List.append_nil]
    exact kept.part (List.subset_cons_self ..) (List.nodup_cons.mp kept.distinct).2
  · cases acts
    rw [List.append_nil]
    apply kept.perm
    rw [Broadcaster.pending, ← List.append_assoc]
    exact List.perm_append_singleton ..
  · split_ifs at acts
    cases acts
    rw [List.append_nil]
    exact kept
  · cases acts
    rw [List.append_nil]
    exact kept
  · next s buf rest to_remove =>
    split_ifs at acts
    obtain ⟨table, only, removes⟩ := handleRead_spec m s buf
    have here : s ∈ m.table.opened := (kept.due s List.mem_cons_self).1
    have used := kept.useEach here only
    rw [← table] at used
    split at acts
    · next kept_ calls_ removed handled =>
      cases acts
      rw [handled] at used removes
      obtain ⟨n, rfl, most⟩ := removes removed rfl
      obtain ⟨first, later⟩ := List.nodup_cons.mp used.distinct
      have few : n = 0 ∨ n = 1 := by
        have := most one
        omega
      rcases few with rfl | rfl
      · apply used.part
        · rw [Broadcaster.pending, List.replicate_zero, List.append_nil]
          exact List.subset_cons_self ..
        · rwa [Broadcaster.pending, List.replicate_zero, List.append_nil]
      · apply used.perm
        rw [Broadcaster.pending, List.replicate_one, ← List.append_assoc]
        exact List.perm_append_singleton ..
    · next kept_ calls_ handled =>
      cases acts
      rw [handled] at used
      exact used.part (List.nil_subset _) List.nodup_nil
  · next s rest =>
    split_ifs at acts
    cases acts
    rw [RemoveConnectionLocked_table kept.consistent s]
    exact kept.remove
  · cases acts
    rw [List.append_nil]
    exact kept
  · split_ifs at acts with free
    cases acts
    rw [List.append_nil]
    exact snapshot_due kept free.2
  · split_ifs at acts
    · cases acts
      rw [List.append_nil]
      exact kept
    · cases acts
      rw [List.append_nil]
      exact kept.part (List.subset_append_right ..) (List.nodup_append.mp kept.distinct).2.1
  · cases acts
    rw [List.append_nil]
    exact kept
  · next s fds dead rest succeeds =>
    cases acts
    have used := kept.use (kept.due s List.mem_cons_self).1
    cases succeeds with
    | true => exact used.part (List.subset_cons_self ..) (List.nodup_cons.mp used.distinct).2
    | false =>
      apply used.perm
      simp only [Broadcaster.pending, Bool.false_eq_true, ↓reduceIte, List.append_assoc, List.cons_append,
        List.nil_append]
      rw [← List.append_assoc, ← List.append_assoc fds]
      exact List.perm_middle
  · split_ifs at acts with none_ free
    · cases acts
      rw [List.append_nil]
      subst none_
      exact kept
    · cases acts
      exact removeEach_kept kept
  · contradiction

/-- An action of the accept thread. -/
theorem accept_kept {a after : Acceptor} {event : Event} {pending : List Socket}
    (acts : acceptAct m a choice = some (next, after, event)) (kept : Kept log added m.table pending a.hold) :
    (∃ calls, event = .calls calls ∧ Kept (log ++ calls) added next.table pending after.hold) ∨
      ∃ s, event = .added s ∧ Kept log (added ++ [s]) next.table pending after.hold := by
  unfold acceptAct at acts
  split at acts
  · left
    split_ifs at acts <;> cases acts <;> exact ⟨[], rfl, by rw [List.append_nil]; exact kept⟩
  · left
    cases acts
    exact ⟨[], rfl, by rw [List.append_nil]; exact kept⟩
  · left
    split_ifs at acts with free
    cases acts
    exact ⟨_, rfl, kept.accept free⟩
  · next s arrived written =>
    left
    have here : s ∈ m.table.opened := (kept.waiting s rfl).1
    split at acts
    · cases acts
      exact ⟨_, rfl, kept.refuse⟩
    · cases acts
      refine ⟨_, rfl, ?_⟩
      rw [List.append_cons]
      exact (kept.use here).refuse
    · cases acts
      refine ⟨_, rfl, ?_⟩
      rw [← List.append_assoc]
      refine Kept.refuse (t := m.table) (kept.useEach here ?_)
      intro call member
      split_ifs at member
      · exact List.mem_singleton.mp member
      · exact absurd member List.not_mem_nil
    · cases acts
      exact ⟨_, rfl, kept.use here⟩
  · next s path =>
    right
    split_ifs at acts
    cases acts
    refine ⟨s, rfl, ?_⟩
    rw [AddConnection_table kept.consistent path (kept.waiting s rfl).2]
    exact kept.add _
  · contradiction

theorem foldl_close_opened (l : List Socket) (m : Manager) :
    (l.foldl Manager.close m).opened = l.foldl (Descriptors.close Socket.fd) m.opened := by
  induction l generalizing m with
  | nil => rfl
  | cons s rest ih => rw [List.foldl_cons, List.foldl_cons, ih, Manager.close]

theorem foldl_close_clients (l : List Socket) (m : Manager) : (l.foldl Manager.close m).clients = m.clients := by
  induction l generalizing m with
  | nil => rfl
  | cons s rest ih => rw [List.foldl_cons, ih, Manager.close]

/-- `Stop` closes every connection, once neither thread keeps a socket. -/
theorem stop_kept (kept : Kept log added m.table [] none) {fds : List ℕ} (all : fds.Perm m.connections_.keys) :
    Kept (log ++ (fds.map m.socket).flatMap fun s => [.used s, .closed s]) added
      { (fds.map m.socket).foldl Manager.close m with connections_ := ∅, subscriptions_ := ∅ : Manager }.table
      [] none := by
  have listed := sockets_due kept (fun fd member => mem_keys_iff.mp (all.subset member))
    (all.nodup_iff.mpr m.connections_.keys_nodup)
  have closed := kept.disciplined.closeEach listed.distinct fun s member => (listed.due s member).1
  have nothing : (fds.map m.socket).foldl (Descriptors.close Socket.fd) m.opened = [] := by
    apply List.eq_nil_iff_forall_not_mem.mpr
    intro s member
    obtain ⟨before, apart⟩ := mem_foldl_close.mp member
    have present := (kept.placed s before).resolve_right (Option.some_ne_none s).symm
    apply apart (m.socket s.fd) (List.mem_map_of_mem (all.symm.subset (mem_keys_iff.mpr present)))
    exact (socket_fd m s.fd).symm
  have table : { (fds.map m.socket).foldl Manager.close m with connections_ := ∅, subscriptions_ := ∅ : Manager }.table =
      ⟨fun _ => none, fun _ => ∅, [], m.clients⟩ := by
    unfold Manager.table
    simp only [Table.mk.injEq, foldl_close_opened, foldl_close_clients]
    exact ⟨rfl, rfl, nothing, trivial⟩
  rw [table]
  exact {
    disciplined := nothing ▸ closed
    numbered := by
      intro s opened
      rcases List.mem_append.mp opened with before | now
      · exact kept.numbered s before
      · obtain ⟨other, _, among⟩ := List.mem_flatMap.mp now
        simp at among
    consistent := fun fd _ => iff_of_false (Finset.notMem_empty fd) fun same => absurd same (by simp)
    listed := fun _ present => absurd rfl present
    placed := fun s member => absurd member List.not_mem_nil
    waiting := fun s same => absurd same.symm (Option.some_ne_none s)
    given := fun s member => ⟨List.mem_append_left _ (kept.given s member).1, (Option.some_ne_none s).symm⟩
    due := fun s member => absurd member List.not_mem_nil
    distinct := List.nodup_nil }

theorem HandleTextMessage_kept {pending : List Socket} (kept : Kept log added m.table pending hold) (fd : ℕ)
    (msg : Bytes) : Kept log added (HandleTextMessage m fd msg).table pending hold := by
  rcases HandleTextMessage_table kept.consistent fd msg with same | ⟨present, moved⟩
  · rwa [same]
  · rw [moved]
    exact kept.move present _

/-! ## Runs -/

/-- The calls and the additions that a history shows. -/
def calls (history : List (Party × Event)) : List Call :=
  history.flatMap fun entry => match entry.2 with
    | .calls made => made
    | .added _ => []

def addedSockets (history : List (Party × Event)) : List Socket :=
  history.flatMap fun entry => match entry.2 with
    | .calls _ => []
    | .added s => [s]

/-- What holds of a run so far: the two maps describe one table; a socket given to `AddConnection` has
been closed once, or is open and in the table; once the manager has stopped it has been closed; and no
call writes to or closes a socket after its closing. -/
structure TableSound (history : List (Party × Event)) (s : Interleaving.State Manager Control Party) : Prop where
  maps : ∀ fd key, fd ∈ s.shared.subscribers key ↔
    ∃ info, s.shared.connections_.lookup fd = some info ∧ info.pipeline_key = key
  closed : ∀ socket ∈ addedSockets history,
    (calls history).count (.closed socket) = if socket ∈ s.shared.opened then 0 else 1
  connected : ∀ socket ∈ addedSockets history, socket ∈ s.shared.opened → socket.fd ∈ s.shared.connections_
  stopped : s.pc .main = .main .stopped → ∀ socket ∈ addedSockets history, (calls history).count (.closed socket) = 1
  quiet : (calls history).Pairwise fun earlier later =>
    ∀ socket, earlier = .closed socket → later ≠ .used socket ∧ later ≠ .closed socket

/-- Where the threads are in a run. -/
structure Stand (history : List (Party × Event)) (s : Interleaving.State Manager Control Party)
    (b : Broadcaster) (a : Acceptor) (t : Main) : Prop where
  broadcaster : s.pc .broadcaster = .broadcaster b
  acceptor : s.pc .acceptor = .acceptor a
  main : s.pc .main = .main t
  subscriber : s.pc .subscriber = .subscriber
  kept : Kept (calls history) (addedSockets history) s.shared.table b.pending a.hold
  broadcastExited : s.shared.broadcastExited = true → b = .exited
  acceptExited : s.shared.acceptExited = true → a = .exited
  stopped : t = .stopped → b = .exited ∧ a = .exited ∧ ∀ fd, s.shared.table.key fd = none

theorem Stand.sound {history : List (Party × Event)} {s : Interleaving.State Manager Control Party}
    {b : Broadcaster} {a : Acceptor} {t : Main} (stand : Stand history s b a t) : TableSound history s := by
  have kept := stand.kept
  have once {socket : Socket} (member : socket ∈ addedSockets history) :=
    kept.disciplined.count_closed (kept.given socket member).1
  have connected {socket : Socket} (member : socket ∈ addedSockets history) (here : socket ∈ s.shared.opened) :=
    (kept.placed socket here).resolve_right (kept.given socket member).2
  refine ⟨fun fd key => ?_, fun socket => once, ?_, ?_, kept.disciplined.quiet⟩
  · exact (kept.consistent fd key).trans Option.map_eq_some_iff
  · exact fun socket member here => mem_keys_iff.mpr (connected member here)
  · intro stopped socket member
    have ended : t = .stopped := by
      rw [stand.main] at stopped
      exact Control.main.inj stopped
    refine (once member).trans (if_neg fun here => connected member here ?_)
    exact (stand.stopped ended).2.2 socket.fd

/-- Which threads have ended. -/
def Manager.ended (m : Manager) : Bool × Bool := (m.broadcastExited, m.acceptExited)

theorem RemoveConnectionLocked_ended (m : Manager) (s : Socket) : (RemoveConnectionLocked m s).1.ended = m.ended := by
  unfold RemoveConnectionLocked
  split <;> rfl

theorem removeEach_ended (dead : List Socket) (m : Manager) : (removeEach m dead).1.ended = m.ended := by
  induction dead generalizing m with
  | nil => rfl
  | cons s rest ih => rw [removeEach, ih, RemoveConnectionLocked_ended]

theorem handleRead_ended (m : Manager) (s : Socket) (buf : Bytes) : (handleRead m s buf).1.ended = m.ended := by
  unfold handleRead
  split
  · rfl
  · simp only
    split_ifs
    · rfl
    · split <;> rfl

theorem HandleTextMessage_ended (m : Manager) (fd : ℕ) (msg : Bytes) : (HandleTextMessage m fd msg).ended = m.ended := by
  unfold HandleTextMessage
  split_ifs
  · split <;> rfl
  · rfl

theorem broadcastAct_ended {b after : Broadcaster} {made : List Call}
    (acts : broadcastAct m b choice = some (next, after, made)) :
    next.ended = m.ended ∨ (after = .exited ∧ next.acceptExited = m.acceptExited) := by
  unfold broadcastAct at acts
  split at acts
  · split_ifs at acts <;> cases acts
    · exact Or.inl rfl
    · exact Or.inr ⟨rfl, rfl⟩
  all_goals left
  · split_ifs at acts
    cases acts
    rfl
  · cases acts
    rfl
  · cases acts
    rfl
  · split_ifs at acts
    cases acts
    rfl
  · cases acts
    rfl
  · next s buf rest to_remove =>
    have same := handleRead_ended m s buf
    split_ifs at acts
    split at acts
    · next handled =>
      cases acts
      rwa [handled] at same
    · next handled =>
      cases acts
      rwa [handled] at same
  · split_ifs at acts
    cases acts
    exact RemoveConnectionLocked_ended ..
  · cases acts
    rfl
  · split_ifs at acts
    cases acts
    rfl
  · split_ifs at acts <;> cases acts <;> rfl
  · cases acts
    rfl
  · cases acts
    rfl
  · split_ifs at acts <;> cases acts
    · rfl
    · exact removeEach_ended ..
  · contradiction

theorem acceptAct_ended {a after : Acceptor} {event : Event} (acts : acceptAct m a choice = some (next, after, event)) :
    next.ended = m.ended ∨ (after = .exited ∧ next.broadcastExited = m.broadcastExited) := by
  unfold acceptAct at acts
  split at acts
  · split_ifs at acts <;> cases acts
    · exact Or.inl rfl
    · exact Or.inr ⟨rfl, rfl⟩
  all_goals left
  · cases acts
    rfl
  · split_ifs at acts
    cases acts
    rfl
  · split at acts <;> cases acts <;> rfl
  · split_ifs at acts
    cases acts
    rfl
  · contradiction

theorem calls_snoc (history : List (Party × Event)) (thread : Party) (made : List Call) :
    calls (history ++ [(thread, .calls made)]) = calls history ++ made ∧
      addedSockets (history ++ [(thread, .calls made)]) = addedSockets history := by
  simp [calls, addedSockets]

theorem added_snoc (history : List (Party × Event)) (thread : Party) (s : Socket) :
    calls (history ++ [(thread, .added s)]) = calls history ∧
      addedSockets (history ++ [(thread, .added s)]) = addedSockets history ++ [s] := by
  simp [calls, addedSockets]

private theorem exited_none (m : Manager) (choice : Choice) :
    broadcastAct m .exited choice = none ∧ acceptAct m .exited choice = none := by
  cases choice <;> exact ⟨rfl, rfl⟩

section Steps

variable {history : List (Party × Event)} {s : Interleaving.State Manager Control Party} {b : Broadcaster} {a : Acceptor}
  {t : Main}

private theorem Stand.broadcasts (stand : Stand history s b a t) {after : Broadcaster} {made : List Call}
    (one : condition s.shared (.broadcaster b) = true)
    (acts : broadcastAct s.shared b choice = some (next, after, made)) :
    Stand (history ++ [(.broadcaster, .calls made)]) (s.move .broadcaster next (.broadcaster after)) after a t := by
  obtain ⟨logged, still⟩ := calls_snoc history .broadcaster made
  have lives : b ≠ .exited := by
    rintro rfl
    rw [(exited_none ..).1] at acts
    contradiction
  refine ⟨rfl, stand.acceptor, stand.main, stand.subscriber, ?_, ?_, ?_, ?_⟩
  · rw [logged, still]
    exact broadcast_kept acts one stand.kept
  · intro ended
    rcases broadcastAct_ended acts with same | ⟨exits, _⟩
    · exact absurd (stand.broadcastExited ((congrArg Prod.fst same).symm.trans ended)) lives
    · exact exits
  · intro ended
    apply stand.acceptExited
    rcases broadcastAct_ended acts with same | ⟨_, same⟩
    · exact (congrArg Prod.snd same).symm.trans ended
    · exact same.symm.trans ended
  · exact fun stops => absurd (stand.stopped stops).1 lives

private theorem Stand.accepts (stand : Stand history s b a t) {after : Acceptor} {event : Event}
    (acts : acceptAct s.shared a choice = some (next, after, event)) :
    Stand (history ++ [(.acceptor, event)]) (s.move .acceptor next (.acceptor after)) b after t := by
  have lives : a ≠ .exited := by
    rintro rfl
    rw [(exited_none ..).2] at acts
    contradiction
  refine ⟨stand.broadcaster, rfl, stand.main, stand.subscriber, ?_, ?_, ?_, ?_⟩
  · rcases accept_kept acts stand.kept with ⟨made, rfl, kept⟩ | ⟨socket, rfl, kept⟩
    · obtain ⟨logged, still⟩ := calls_snoc history .acceptor made
      rw [logged, still]
      exact kept
    · obtain ⟨logged, still⟩ := added_snoc history .acceptor socket
      rw [logged, still]
      exact kept
  · intro ended
    apply stand.broadcastExited
    rcases acceptAct_ended acts with same | ⟨_, same⟩
    · exact (congrArg Prod.fst same).symm.trans ended
    · exact same.symm.trans ended
  · intro ended
    rcases acceptAct_ended acts with same | ⟨exits, _⟩
    · exact absurd (stand.acceptExited ((congrArg Prod.snd same).symm.trans ended)) lives
    · exact exits
  · exact fun stops => absurd (stand.stopped stops).2.1 lives

/-- `Stop` passes its join when both threads have exited. -/
private theorem Stand.stops (stand : Stand history s b a t) {after : Main} {made : List Call}
    (acts : mainAct s.shared t choice = some (next, after, made)) :
    Stand (history ++ [(.main, .calls made)]) (s.move .main next (.main after)) b a after := by
  obtain ⟨logged, still⟩ := calls_snoc history .main made
  unfold mainAct at acts
  split at acts
  · cases acts
    refine ⟨stand.broadcaster, stand.acceptor, rfl, stand.subscriber, ?_, stand.broadcastExited, stand.acceptExited,
      nofun⟩
    rw [logged, still, List.append_nil]
    exact stand.kept
  · split_ifs at acts with joined
    cases acts
    obtain ⟨acceptDone, broadcastDone, _, all⟩ := joined
    obtain rfl := stand.acceptExited acceptDone
    obtain rfl := stand.broadcastExited broadcastDone
    refine ⟨stand.broadcaster, stand.acceptor, rfl, stand.subscriber, ?_, fun _ => rfl, fun _ => rfl,
      fun _ => ⟨rfl, rfl, fun _ => rfl⟩⟩
    rw [logged, still]
    exact stop_kept stand.kept all
  · contradiction

private theorem Stand.subscribes (stand : Stand history s b a t)
    (acts : subscribeAct s.shared choice = some next) :
    Stand (history ++ [(.subscriber, .calls [])]) (s.move .subscriber next .subscriber) b a t := by
  obtain ⟨logged, still⟩ := calls_snoc history .subscriber []
  unfold subscribeAct at acts
  split at acts
  · next fd msg =>
    split_ifs at acts
    cases acts
    have ended := HandleTextMessage_ended s.shared fd msg
    refine ⟨stand.broadcaster, stand.acceptor, stand.main, rfl, ?_, ?_, ?_, ?_⟩
    · rw [logged, still, List.append_nil]
      exact HandleTextMessage_kept stand.kept fd msg
    · exact fun exits => stand.broadcastExited ((congrArg Prod.fst ended).symm.trans exits)
    · exact fun exits => stand.acceptExited ((congrArg Prod.snd ended).symm.trans exits)
    · intro stops
      obtain ⟨left, right, nowhere⟩ := stand.stopped stops
      refine ⟨left, right, ?_⟩
      rcases HandleTextMessage_table stand.kept.consistent fd msg with same | ⟨present, _⟩
      · change ∀ other, (HandleTextMessage s.shared fd msg).table.key other = none
        rwa [same]
      · exact absurd (nowhere fd) present
  · contradiction

/-- One action of any thread. -/
theorem Stand.step (stand : Stand history s b a t) {thread : Party} {after : Control} {event : Event}
    (one : condition s.shared (s.pc thread) = true)
    (acts : act s.shared (s.pc thread) choice = some (next, after, event)) :
    ∃ b' a' t', Stand (history ++ [(thread, event)]) (s.move thread next after) b' a' t' := by
  unfold act at acts
  split_ifs at acts
  cases thread with
  | broadcaster =>
    rw [stand.broadcaster] at acts one
    obtain ⟨_, moved, same⟩ := Option.map_eq_some_iff.mp acts
    cases same
    exact ⟨_, a, t, stand.broadcasts one moved⟩
  | acceptor =>
    rw [stand.acceptor] at acts
    obtain ⟨_, moved, same⟩ := Option.map_eq_some_iff.mp acts
    cases same
    exact ⟨b, _, t, stand.accepts moved⟩
  | main =>
    rw [stand.main] at acts
    obtain ⟨_, moved, same⟩ := Option.map_eq_some_iff.mp acts
    cases same
    exact ⟨b, a, _, stand.stops moved⟩
  | subscriber =>
    rw [stand.subscriber] at acts
    obtain ⟨_, moved, same⟩ := Option.map_eq_some_iff.mp acts
    cases same
    exact ⟨b, a, t, stand.subscribes moved⟩

end Steps

theorem Stand.source : Stand [] source .loop .loop .running where
  broadcaster := rfl
  acceptor := rfl
  main := rfl
  subscriber := rfl
  kept := {
    disciplined := .nil
    numbered := nofun
    consistent := fun fd _ => iff_of_false (Finset.notMem_empty fd) nofun
    listed := fun _ present => absurd rfl present
    placed := nofun
    waiting := nofun
    given := nofun
    due := nofun
    distinct := List.nodup_nil }
  broadcastExited := nofun
  acceptExited := nofun
  stopped := nofun

theorem stand_of_run {history : List (Party × Event)} {target : Interleaving.State Manager Control Party}
    (run : (program.restrict condition).Run source history target) : ∃ b a t, Stand history target b a t := by
  refine run.invariant (fun history s => ∃ b a t, Stand history s b a t) ⟨_, _, _, Stand.source⟩ ?_
  rintro history s thread choice shared pc event ⟨b, a, t, stand⟩ enabled
  obtain ⟨one, acts⟩ := Interleaving.Program.restrict_act.mp enabled
  exact stand.step one acts

/-- In every run in which each read that is handled completes at most one close frame, the maps and the
descriptors agree throughout. -/
theorem table_sound {history : List (Party × Event)} {target : Interleaving.State Manager Control Party}
    (run : (program.restrict condition).Run source history target) : TableSound history target := by
  obtain ⟨b, a, t, stand⟩ := stand_of_run run
  exact stand.sound

/-- A client that connects, and sends its close frames in one read. -/
def connects (fd : ℕ) : List (Party × Choice) :=
  [(.acceptor, .proceed), (.acceptor, .accept fd), (.acceptor, .request sampleRequest 129), (.acceptor, .proceed)]

def readsClose (fd : ℕ) (frames : Bytes) : List (Party × Choice) :=
  [(.broadcaster, .proceed), (.broadcaster, .connections [fd]), (.broadcaster, .read frames),
    (.broadcaster, .proceed), (.broadcaster, .proceed), (.broadcaster, .proceed)]

/-- Two close frames in one read: the client's descriptor is closed, handed out to the next client, and
closed again. -/
theorem closed_twice : ∃ history target, program.Run source history target ∧ ¬ TableSound history target := by
  have checked := Interleaving.Program.exists_run_of_check program source
    (fun _ history => (calls history).count (.closed ⟨7, 1⟩) = 2 ∧ ⟨7, 1⟩ ∈ addedSockets history)
    (connects 7 ++ readsClose 7 [0x88, 0x00, 0x88, 0x00] ++ connects 7 ++ [(.broadcaster, .proceed)])
    (by decide +kernel)
  obtain ⟨history, target, run, twice, given⟩ := checked
  refine ⟨history, target, run, fun sound => ?_⟩
  have once := sound.closed _ given
  rw [twice] at once
  revert once
  split_ifs <;> decide

/-- One close frame: the client is closed once, and the next client with its number stays. -/
theorem table_sound_reused : ∃ history target, (program.restrict condition).Run source history target ∧
    (⟨7, 2⟩ : Socket) ∈ target.shared.opened ∧ TableSound history target := by
  obtain ⟨history, target, run, reused⟩ := Interleaving.Program.exists_run_of_check (program.restrict condition) source
    (fun s _ => (⟨7, 2⟩ : Socket) ∈ s.shared.opened)
    (connects 7 ++ readsClose 7 [0x88, 0x00] ++ connects 7 ++ [(.broadcaster, .proceed)])
    (by decide +kernel)
  exact ⟨history, target, run, reused, table_sound run⟩

end WebSocketManager

end Illuminator
