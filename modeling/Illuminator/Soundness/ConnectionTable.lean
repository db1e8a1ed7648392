import Illuminator.Soundness.CloseFrames

/-! # The connection table and its descriptors

The table that the two maps describe assigns a key to each connected descriptor. Each operation of the
manager is one on the table, and keeps the calls made, the sockets open, the table and the sockets that
the threads keep in step: a descriptor is in the table from its addition to its closing, and the
broadcast thread keeps each of its sockets once.
-/

namespace Illuminator

namespace WebSocketManager

open WebSocketCodec Descriptors

/-- The table that the maps describe, and the kernel's sockets. -/
structure Table where
  key : ℕ → Option Bytes
  subscribers : Bytes → Finset ℕ
  opened : List Socket
  clients : ℕ

def Manager.table (m : Manager) : Table :=
  ⟨fun fd => (m.connections_.lookup fd).map ConnInfo.pipeline_key, m.subscribers, m.opened, m.clients⟩

namespace Table

/-- The two maps describe one table. -/
def Consistent (t : Table) : Prop := ∀ fd key, fd ∈ t.subscribers key ↔ t.key fd = some key

/-- Put a descriptor under a key, wherever it was. -/
def assign (t : Table) (fd : ℕ) (key : Bytes) : Table :=
  { t with
    key := fun other => if other = fd then some key else t.key other
    subscribers := fun k => if k = key then insert fd (t.subscribers k) else (t.subscribers k).erase fd }

/-- Take a descriptor out. -/
def drop (t : Table) (fd : ℕ) : Table :=
  { t with
    key := fun other => if other = fd then none else t.key other
    subscribers := fun k => (t.subscribers k).erase fd }

def close (t : Table) (s : Socket) : Table := { t with opened := Descriptors.close Socket.fd t.opened s }

variable {t : Table}

theorem Consistent.assign (consistent : t.Consistent) (fd : ℕ) (key : Bytes) : (t.assign fd key).Consistent := by
  intro other k
  unfold Table.assign
  by_cases same : other = fd
  · subst same
    by_cases here : k = key
    · simp [here]
    · simp [here, Ne.symm here]
  · by_cases here : k = key <;> simp [same, here, consistent other]

theorem Consistent.drop (consistent : t.Consistent) (fd : ℕ) : (t.drop fd).Consistent := by
  intro other k
  unfold Table.drop
  by_cases same : other = fd
  · simp [same]
  · simp [same, consistent other]

end Table

private theorem mem_iff_of_consistent {m : Manager} (consistent : m.table.Consistent) {fd : ℕ} {key : Bytes} :
    fd ∈ m.subscribers key ↔ (m.connections_.lookup fd).map ConnInfo.pipeline_key = some key :=
  consistent fd key

theorem AddConnection_table {m : Manager} (consistent : m.table.Consistent) {fd : ℕ} (path : Bytes)
    (new : m.table.key fd = none) : (AddConnection m fd path).table = m.table.assign fd (PathToPipelineKey path) := by
  have nowhere (key : Bytes) : fd ∉ m.subscribers key := by
    rw [mem_iff_of_consistent consistent]
    exact fun found => absurd (found.symm.trans new) (Option.some_ne_none _)
  unfold AddConnection Manager.table Table.assign
  simp only [Table.mk.injEq, and_true]
  constructor
  · funext other
    by_cases same : other = fd
    · rw [same, AList.lookup_insert, if_pos rfl, Option.map_some]
    · rw [AList.lookup_insert_ne same, if_neg same]
  · funext key
    by_cases same : key = PathToPipelineKey path
    · rw [if_pos same, same, Manager.subscribers, AList.lookup_insert, Option.getD_some]
    · rw [if_neg same, Manager.subscribers, AList.lookup_insert_ne same, Finset.erase_eq_of_notMem (nowhere key)]
      rfl

theorem RemoveConnectionLocked_table {m : Manager} (consistent : m.table.Consistent) (s : Socket) :
    (RemoveConnectionLocked m s).1.table = (m.table.drop s.fd).close s := by
  unfold RemoveConnectionLocked
  cases found : m.connections_.lookup s.fd with
  | none =>
    have nowhere (key : Bytes) : s.fd ∉ m.subscribers key := by
      rw [mem_iff_of_consistent consistent, found]
      exact nofun
    unfold Manager.close Manager.table Table.drop Table.close
    simp only [Table.mk.injEq, and_true]
    constructor
    · funext other
      split_ifs with same
      · rw [same, found, Option.map_none]
      · rfl
    · funext key
      rw [Finset.erase_eq_of_notMem (nowhere key)]
      rfl
  | some info =>
    have elsewhere {key : Bytes} (other : key ≠ info.pipeline_key) : s.fd ∉ m.subscribers key := by
      rw [mem_iff_of_consistent consistent, found, Option.map_some, Option.some.injEq]
      exact Ne.symm other
    unfold Manager.close Manager.table Table.drop Table.close
    simp only [Table.mk.injEq, and_true]
    constructor
    · funext other
      by_cases same : other = s.fd
      · rw [same, AList.lookup_erase, if_pos rfl, Option.map_none]
      · rw [AList.lookup_erase_ne same, if_neg same]
    · funext key
      by_cases same : key = info.pipeline_key
      · rw [same, Manager.subscribers, AList.lookup_insert, Option.getD_some]
      · rw [Manager.subscribers, AList.lookup_insert_ne same, Finset.erase_eq_of_notMem (elsewhere same)]
        rfl

theorem HandleTextMessage_table {m : Manager} (consistent : m.table.Consistent) (fd : ℕ) (msg : Bytes) :
    (HandleTextMessage m fd msg).table = m.table ∨
      (m.table.key fd ≠ none ∧ (HandleTextMessage m fd msg).table = m.table.assign fd (msg.drop 10)) := by
  unfold HandleTextMessage
  split_ifs with asks
  swap
  · exact Or.inl rfl
  cases found : m.connections_.lookup fd with
  | none => exact Or.inl rfl
  | some info =>
    right
    have here : m.table.key fd = some info.pipeline_key := by
      change (m.connections_.lookup fd).map ConnInfo.pipeline_key = _
      rw [found, Option.map_some]
    have among : fd ∈ m.subscribers info.pipeline_key := (consistent fd info.pipeline_key).mpr here
    have elsewhere {key : Bytes} (other : key ≠ info.pipeline_key) : fd ∉ m.subscribers key := by
      rw [mem_iff_of_consistent consistent, found, Option.map_some, Option.some.injEq]
      exact Ne.symm other
    refine ⟨by rw [here]; exact Option.some_ne_none _, ?_⟩
    unfold Manager.table Table.assign
    simp only [Table.mk.injEq, and_true]
    constructor
    · funext other
      by_cases same : other = fd
      · rw [same, AList.lookup_insert, if_pos rfl, Option.map_some]
      · rw [AList.lookup_insert_ne same, if_neg same]
    · funext key
      by_cases same : key = msg.drop 10
      · rw [if_pos same, Manager.subscribers, same, AList.lookup_insert, Option.getD_some]
        by_cases old : msg.drop 10 = info.pipeline_key
        · rw [old, AList.lookup_insert, Option.getD_some, Finset.insert_erase among, Finset.insert_eq_of_mem among]
        · rw [AList.lookup_insert_ne old]
          rfl
      · rw [if_neg same, Manager.subscribers, AList.lookup_insert_ne same]
        by_cases old : key = info.pipeline_key
        · rw [old, AList.lookup_insert, Option.getD_some]
        · rw [AList.lookup_insert_ne old, Finset.erase_eq_of_notMem (elsewhere old)]
          rfl

/-- A receive buffer is no part of the table. -/
theorem recv_buf_table {m : Manager} {fd : ℕ} {info : ConnInfo} (found : m.connections_.lookup fd = some info)
    (left : Bytes) :
    { m with connections_ := m.connections_.insert fd { info with recv_buf := left } : Manager }.table = m.table := by
  unfold Manager.table
  simp only [Table.mk.injEq, and_true]
  refine ⟨?_, rfl⟩
  funext other
  by_cases same : other = fd
  · rw [same, AList.lookup_insert, found]
    rfl
  · rw [AList.lookup_insert_ne same]

private theorem calls_used {s : Socket} {reactions : List Reaction} {call : Call}
    (member : call ∈ reactions.flatMap (Reaction.calls s)) : call = .used s := by
  obtain ⟨reaction, _, made⟩ := List.mem_flatMap.mp member
  cases reaction with
  | write frame => exact List.mem_singleton.mp made
  | remove => exact absurd made List.not_mem_nil

/-- Handling a read changes no table, and calls only on the socket read. Unless the thread ends, it asks
for the socket's removal as often as there are close frames. -/
theorem handleRead_spec (m : Manager) (s : Socket) (buf : Bytes) :
    (handleRead m s buf).1.table = m.table ∧ (∀ call ∈ (handleRead m s buf).2.1, call = .used s) ∧
      ∀ removed, (handleRead m s buf).2.2 = some removed →
        ∃ n, removed = List.replicate n s ∧
          ((m.connections_.lookup s.fd).all (fun info => oneClose (info.recv_buf ++ buf)) = true → n ≤ 1) := by
  unfold handleRead
  cases found : m.connections_.lookup s.fd with
  | none =>
    refine ⟨rfl, fun call member => absurd member List.not_mem_nil, ?_⟩
    rintro removed same
    cases same
    exact ⟨0, rfl, fun _ => Nat.zero_le 1⟩
  | some info =>
    simp only
    split_ifs with large
    · exact ⟨rfl, fun call member => absurd member List.not_mem_nil, nofun⟩
    rcases turned : decodeTurns ((info.recv_buf ++ buf).length + 1) (info.recv_buf ++ buf) with ⟨left, handled, fault⟩
    have table := recv_buf_table found left
    cases fault with
    | none =>
      refine ⟨table, fun call => calls_used, ?_⟩
      rintro removed same
      cases same
      obtain ⟨n, counted, removes⟩ := removes_eq_replicate s (not_lt.mp large) (congrArg (·.2.2) turned)
      rw [turned] at removes
      refine ⟨n, removes, fun one => ?_⟩
      rw [Option.all_some, oneClose, counted, Option.all_some, decide_eq_true_eq] at one
      exact one
    | some fault => cases fault <;> exact ⟨table, fun call => calls_used, nofun⟩

/-! ## Sockets, pending removals and the socket being admitted -/

/-- The sockets that the broadcast thread keeps. -/
def Broadcaster.pending : Broadcaster → List Socket
  | .polling rest to_remove => rest ++ to_remove
  | .received s _ rest to_remove => s :: (rest ++ to_remove)
  | .removing to_remove => to_remove
  | .sending snapshot => snapshot.flatMap Prod.snd
  | .writing fds dead snapshot => fds ++ (dead ++ snapshot.flatMap Prod.snd)
  | _ => []

/-- The socket that the accept thread has not added yet. -/
def Acceptor.hold : Acceptor → Option Socket
  | .reading s => some s
  | .adding s _ => some s
  | _ => none

/-- What holds of the calls made, the sockets added, the table, the broadcast thread's sockets and the
accept thread's. -/
structure Kept (log : List Call) (added : List Socket) (t : Table) (pending : List Socket)
    (hold : Option Socket) : Prop where
  disciplined : Disciplined Socket.fd log t.opened
  numbered : ∀ s, .opened s ∈ log → s.client ≤ t.clients
  consistent : t.Consistent
  listed : ∀ fd, t.key fd ≠ none → ∃ s ∈ t.opened, s.fd = fd
  placed : ∀ s ∈ t.opened, t.key s.fd ≠ none ∨ hold = some s
  waiting : ∀ s, hold = some s → s ∈ t.opened ∧ t.key s.fd = none
  given : ∀ s ∈ added, .opened s ∈ log ∧ hold ≠ some s
  due : ∀ s ∈ pending, s ∈ t.opened ∧ t.key s.fd ≠ none
  distinct : pending.Nodup

namespace Kept

variable {log : List Call} {added : List Socket} {t : Table} {pending rest : List Socket} {hold : Option Socket}
  {s : Socket}

theorem pend (kept : Kept log added t pending hold) (due : ∀ s ∈ rest, s ∈ t.opened ∧ t.key s.fd ≠ none)
    (distinct : rest.Nodup) : Kept log added t rest hold :=
  { kept with due := due, distinct := distinct }

theorem part (kept : Kept log added t pending hold) (some_ : rest ⊆ pending) (distinct : rest.Nodup) :
    Kept log added t rest hold :=
  kept.pend (fun s member => kept.due s (some_ member)) distinct

theorem perm (kept : Kept log added t pending hold) (same : rest.Perm pending) : Kept log added t rest hold :=
  kept.part same.subset (same.nodup_iff.mpr kept.distinct)

/-- A write on an open socket. -/
theorem use (kept : Kept log added t pending hold) (here : s ∈ t.opened) :
    Kept (log ++ [.used s]) added t pending hold where
  disciplined := kept.disciplined.used here
  numbered other opened := kept.numbered other (by simpa using opened)
  consistent := kept.consistent
  listed := kept.listed
  placed := kept.placed
  waiting := kept.waiting
  given other member := ⟨List.mem_append_left _ (kept.given other member).1, (kept.given other member).2⟩
  due := kept.due
  distinct := kept.distinct

theorem useEach (kept : Kept log added t pending hold) (here : s ∈ t.opened) {calls : List Call}
    (each : ∀ call ∈ calls, call = .used s) : Kept (log ++ calls) added t pending hold := by
  induction calls generalizing log with
  | nil => rwa [List.append_nil]
  | cons call later ih =>
    obtain ⟨rfl, others⟩ := List.forall_mem_cons.mp each
    rw [List.append_cons]
    exact ih (kept.use here) others

/-- The kernel hands out a descriptor number that is not open. -/
theorem accept (kept : Kept log added t pending none) {fd : ℕ} (free : ∀ s ∈ t.opened, s.fd ≠ fd) :
    Kept (log ++ [.opened ⟨fd, t.clients + 1⟩]) added
      { t with opened := ⟨fd, t.clients + 1⟩ :: t.opened, clients := t.clients + 1 } pending
      (some ⟨fd, t.clients + 1⟩) where
  disciplined := by
    apply kept.disciplined.opened free
    intro before
    exact absurd (kept.numbered _ before) (Nat.not_succ_le_self _)
  numbered other opened := by
    rcases List.mem_append.mp opened with before | now
    · exact Nat.le_succ_of_le (kept.numbered other before)
    · cases List.mem_singleton.mp now
      exact Nat.le_refl _
  consistent := kept.consistent
  listed other present := by
    obtain ⟨s, member, same⟩ := kept.listed other present
    exact ⟨s, List.mem_cons_of_mem _ member, same⟩
  placed other member := by
    rcases List.mem_cons.mp member with rfl | before
    · exact Or.inr rfl
    · exact Or.inl ((kept.placed other before).resolve_right (Option.some_ne_none other).symm)
  waiting other same := by
    cases same
    refine ⟨List.mem_cons_self, ?_⟩
    by_contra present
    obtain ⟨s, member, same⟩ := kept.listed fd present
    exact free s member same
  given other member := by
    refine ⟨List.mem_append_left _ (kept.given other member).1, ?_⟩
    intro same
    cases same
    exact absurd (kept.numbered _ (kept.given _ member).1) (Nat.not_succ_le_self _)
  due other member := ⟨List.mem_cons_of_mem _ (kept.due other member).1, (kept.due other member).2⟩
  distinct := kept.distinct

/-- The accept thread closes the socket it holds. -/
theorem refuse (kept : Kept log added t pending (some s)) : Kept (log ++ [.closed s]) added (t.close s) pending none where
  disciplined := kept.disciplined.closed (kept.waiting s rfl).1
  numbered other opened := kept.numbered other (by simpa using opened)
  consistent := kept.consistent
  listed fd present := by
    obtain ⟨other, member, rfl⟩ := kept.listed fd present
    refine ⟨other, mem_close.mpr ⟨member, fun same => present ?_⟩, rfl⟩
    rw [same]
    exact (kept.waiting s rfl).2
  placed other member := by
    obtain ⟨before, apart⟩ := mem_close.mp member
    rcases kept.placed other before with present | same
    · exact Or.inl present
    · cases same
      exact absurd rfl apart
  waiting other same := nomatch same
  given other member := ⟨List.mem_append_left _ (kept.given other member).1, nofun⟩
  due other member := by
    obtain ⟨before, present⟩ := kept.due other member
    refine ⟨mem_close.mpr ⟨before, fun same => present ?_⟩, present⟩
    rw [same]
    exact (kept.waiting s rfl).2
  distinct := kept.distinct

/-- `AddConnection` for the socket that the accept thread holds. -/
theorem add (kept : Kept log added t pending (some s)) (key : Bytes) :
    Kept log (added ++ [s]) (t.assign s.fd key) pending none where
  disciplined := kept.disciplined
  numbered := kept.numbered
  consistent := kept.consistent.assign s.fd key
  listed fd present := by
    by_cases same : fd = s.fd
    · exact ⟨s, (kept.waiting s rfl).1, same.symm⟩
    · exact kept.listed fd (by simpa only [Table.assign, if_neg same] using present)
  placed other member := by
    left
    by_cases same : other.fd = s.fd
    · simp [Table.assign, same]
    · rcases kept.placed other member with present | held
      · simpa only [Table.assign, if_neg same] using present
      · cases held
        exact absurd rfl same
  waiting other same := nomatch same
  given other member := by
    rcases List.mem_append.mp member with before | now
    · exact ⟨(kept.given other before).1, nofun⟩
    · rw [List.mem_singleton.mp now]
      exact ⟨kept.disciplined.opened_mem (Or.inl (kept.waiting s rfl).1), nofun⟩
  due other member := by
    obtain ⟨before, present⟩ := kept.due other member
    refine ⟨before, ?_⟩
    by_cases same : other.fd = s.fd
    · simp [Table.assign, same]
    · simpa only [Table.assign, if_neg same] using present
  distinct := kept.distinct

/-- A connected descriptor moves to another key. -/
theorem move (kept : Kept log added t pending hold) {fd : ℕ} (present : t.key fd ≠ none) (key : Bytes) :
    Kept log added (t.assign fd key) pending hold := by
  have keys (other : ℕ) : (t.assign fd key).key other ≠ none ↔ t.key other ≠ none := by
    by_cases same : other = fd
    · simp [Table.assign, same, present]
    · simp only [Table.assign, if_neg same]
  exact {
    disciplined := kept.disciplined
    numbered := kept.numbered
    consistent := kept.consistent.assign fd key
    listed := fun other there => kept.listed other ((keys other).mp there)
    placed := fun other member => (kept.placed other member).imp_left (keys other.fd).mpr
    waiting := fun other same => ⟨(kept.waiting other same).1,
      not_not.mp fun there => (keys other.fd).mp there (kept.waiting other same).2⟩
    given := kept.given
    due := fun other member => ⟨(kept.due other member).1, (keys other.fd).mpr (kept.due other member).2⟩
    distinct := kept.distinct }

/-- `RemoveConnectionLocked` for the next of the sockets that the broadcast thread keeps. -/
theorem remove (kept : Kept log added t (s :: rest) hold) :
    Kept (log ++ [.used s, .closed s]) added ((t.drop s.fd).close s) rest hold := by
  obtain ⟨first, later⟩ := List.nodup_cons.mp kept.distinct
  obtain ⟨here, present⟩ := kept.due s List.mem_cons_self
  have apart {other : Socket} (member : other ∈ t.opened) (different : other ≠ s) : other.fd ≠ s.fd :=
    fun same => different (kept.disciplined.eq_of_name member here same)
  have keys {fd : ℕ} (different : fd ≠ s.fd) : (t.drop s.fd).key fd = t.key fd := if_neg different
  have held {other : Socket} (same : hold = some other) : other ≠ s := by
    rintro rfl
    exact present (kept.waiting other same).2
  refine ⟨?_, ?_, kept.consistent.drop s.fd, ?_, ?_, ?_, ?_, ?_, later⟩
  · rw [List.append_cons]
    exact (kept.disciplined.used here).closed here
  · exact fun other opened => kept.numbered other (by simpa using opened)
  · intro fd there
    have different : fd ≠ s.fd := fun same => there (if_pos same)
    obtain ⟨other, member, rfl⟩ := kept.listed fd (by rwa [← keys different])
    exact ⟨other, mem_close.mpr ⟨member, different⟩, rfl⟩
  · intro other member
    obtain ⟨before, different⟩ := mem_close.mp member
    refine (kept.placed other before).imp_left fun there => ?_
    change (t.drop s.fd).key other.fd ≠ none
    rwa [keys different]
  · intro other same
    obtain ⟨before, nowhere⟩ := kept.waiting other same
    have different := apart before (held same)
    refine ⟨mem_close.mpr ⟨before, different⟩, ?_⟩
    change (t.drop s.fd).key other.fd = none
    rwa [keys different]
  · exact fun other member => ⟨List.mem_append_left _ (kept.given other member).1, (kept.given other member).2⟩
  · intro other member
    obtain ⟨before, there⟩ := kept.due other (List.mem_cons_of_mem _ member)
    have different := apart before fun same => first (same ▸ member)
    refine ⟨mem_close.mpr ⟨before, different⟩, ?_⟩
    change (t.drop s.fd).key other.fd ≠ none
    rwa [keys different]

end Kept

end WebSocketManager

end Illuminator
