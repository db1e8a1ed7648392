import Illuminator.Soundness.LockDiscipline
import Illuminator.Soundness.ConnectionRuns

/-! # Runs that never lock themselves out

Over a run, the broadcast thread's deeds are those of a thread that never locks what it holds exactly
when no read that it handles reaches a subscription. Then the lock is free whenever another thread
looks at it. A run is also a run of the manager's program.
-/

namespace Illuminator

namespace WebSocketLocks

open WebSocketManager Mutex.Code

variable {m n : Manager} {choice : Choice}

theorem removeEach_run (dead : List Socket) (m : Manager) :
    (removeEach dead).run ⟨m, true⟩ =
      ⟨(WebSocketManager.removeEach m dead).2.map (.does ∘ .call), ⟨(WebSocketManager.removeEach m dead).1, true⟩,
        .ok ()⟩ := by
  induction dead generalizing m with
  | nil => rfl
  | cons s rest ih =>
    have first : (RemoveConnectionLocked s).run ⟨m, true⟩ =
        ⟨[.does (.call (.used s)), .does (.call (.closed s))], ⟨(WebSocketManager.RemoveConnectionLocked m s).1, true⟩,
          .ok ()⟩ := rfl
    rw [removeEach, bind_ok (by rw [first]), first, ih]
    rfl

theorem RemoveConnectionLocked_held (m : Manager) (s : Socket) :
    (WebSocketManager.RemoveConnectionLocked m s).1.held = m.held := by
  unfold WebSocketManager.RemoveConnectionLocked
  cases m.connections_.lookup s.fd <;> rfl

theorem removeEach_held (dead : List Socket) (m : Manager) : (WebSocketManager.removeEach m dead).1.held = m.held := by
  induction dead generalizing m with
  | nil => rfl
  | cons s rest ih => exact (ih _).trans (RemoveConnectionLocked_held m s)

theorem foldl_close_held (l : List Socket) (m : Manager) : (l.foldl Manager.close m).held = m.held := by
  induction l generalizing m with
  | nil => rfl
  | cons s rest ih => exact ih _

theorem broadcastAct_held {b after : Broadcaster} {calls : List Call}
    (acts : WebSocketManager.broadcastAct m b choice = some (n, after, calls))
    (reads : ∀ s buf rest to_remove, b ≠ .received s buf rest to_remove) : n.held = m.held := by
  unfold WebSocketManager.broadcastAct at acts
  split at acts
  · split_ifs at acts <;> cases acts <;> rfl
  · split_ifs at acts
    cases acts
    rfl
  · cases acts
    rfl
  · cases acts
    rfl
  · split_ifs at acts
    cases acts
    rfl
  · cases acts
    rfl
  · next s buf rest to_remove => exact absurd rfl (reads s buf rest to_remove)
  · split_ifs at acts
    cases acts
    exact RemoveConnectionLocked_held m _
  · cases acts
    rfl
  · split_ifs at acts
    cases acts
    rfl
  · split_ifs at acts <;> cases acts <;> rfl
  · cases acts
    rfl
  · cases acts
    rfl
  · split_ifs at acts <;> cases acts
    · rfl
    · exact removeEach_held _ m
  · contradiction

theorem acceptAct_held {a after : Acceptor} {event : Event} (acts : acceptAct m a choice = some (n, after, event)) :
    n.held = m.held := by
  unfold acceptAct at acts
  split at acts
  · split_ifs at acts <;> cases acts <;> rfl
  · cases acts
    rfl
  · split_ifs at acts
    cases acts
    rfl
  · split at acts <;> cases acts <;> rfl
  · split_ifs at acts
    cases acts
    rfl
  · contradiction

theorem mainAct_held {t after : Main} {calls : List Call} (acts : mainAct m t choice = some (n, after, calls)) :
    n.held = m.held := by
  unfold mainAct at acts
  split at acts
  · cases acts
    rfl
  · split_ifs at acts
    cases acts
    exact foldl_close_held _ m
  · contradiction

/-- The broadcast thread is about to handle a read in which a subscription is reached. -/
def asking (m : Manager) : Broadcaster → Bool
  | .received s buf _ _ => asksRead m s buf
  | _ => false

theorem follow_calls (calls : List Call) :
    Mutex.follow false (calls.map (.does ∘ .call : Call → Mutex.Deed Deed)) = some false := by
  induction calls with
  | nil => rfl
  | cons call rest ih => exact ih

private theorem calm_of_calls {calls : List Call} (free : n.held = false) : Calm n (calls.map (.does ∘ .call)) := by
  refine ⟨askedOf_calls calls, movedOf_calls calls, ?_, fun _ => ⟨follow_calls calls, free⟩⟩
  rw [follow_calls]
  exact Option.some_ne_none _

private theorem readAct_eq {s : Socket} {buf : Bytes} {rest to_remove : List Socket} (free : m.held = false) :
    WebSocketManager.broadcastAct m (.received s buf rest to_remove) .proceed =
      some (readAct m s buf fun removed => .polling rest (to_remove ++ removed)) := by
  rw [WebSocketManager.broadcastAct, free, if_neg Bool.false_ne_true, readAct]
  obtain ⟨after, calls, removed⟩ := WebSocketManager.handleRead m s buf
  cases removed <;> rfl

private theorem calm_sound {b : Broadcaster} {deeds : List (Mutex.Deed Deed)} (quiet : asking m b = false)
    (calm : Calm n deeds) :
    (asking m b = true → Mutex.follow false deeds = none) ∧ (asking m b = false → Calm n deeds) :=
  ⟨fun asked => absurd (quiet.symm.trans asked) Bool.false_ne_true, fun _ => calm⟩

private theorem received_proceeds {s : Socket} {buf : Bytes} {rest to_remove : List Socket} {after : Broadcaster}
    {calls : List Call}
    (acts : WebSocketManager.broadcastAct m (.received s buf rest to_remove) choice = some (n, after, calls)) :
    choice = .proceed := by
  cases choice with
  | proceed => rfl
  | _ => cases acts

/-- An action of the broadcast thread is one of the manager's program. It relocks when a subscription is
reached, and leaves the lock free otherwise. -/
theorem broadcastAct_sound {b after : Broadcaster} {deeds : List (Mutex.Deed Deed)} (free : m.held = false)
    (acts : broadcastAct m b choice = some (n, after, deeds)) :
    WebSocketManager.broadcastAct m b choice = some (n, after, callsOf deeds) ∧
      (asking m b = true → Mutex.follow false deeds = none) ∧ (asking m b = false → Calm n deeds) := by
  have same : { m with held := false } = m := by rw [← free]
  unfold broadcastAct at acts
  split at acts
  · next fds =>
    split_ifs at acts with all
    have ran : (collect fds).run ⟨m, false⟩ = ⟨[.lock, .unlock], ⟨m, false⟩, .ok (fds.map m.socket)⟩ := rfl
    rw [block_ok _ free ran, same] at acts
    cases acts
    exact ⟨if_pos ⟨free, all⟩, calm_sound rfl (calm_of_ok ran rfl rfl m free)⟩
  · next s buf rest to_remove =>
    obtain ⟨_, _, _, ran, agrees, relocks, calm⟩ :=
      handleRead_acts free s buf fun removed => .polling rest (to_remove ++ removed)
    rw [ran] at acts
    cases acts
    rw [readAct_eq free, ← agrees]
    exact ⟨rfl, relocks, calm⟩
  · next s rest =>
    have ran : (RemoveConnection s).run ⟨m, false⟩ = ⟨[.lock, .does (.call (.used s)), .does (.call (.closed s)), .unlock],
        ⟨(WebSocketManager.RemoveConnectionLocked m s).1, false⟩, .ok ()⟩ := rfl
    have left : { (WebSocketManager.RemoveConnectionLocked m s).1 with held := false } =
        (WebSocketManager.RemoveConnectionLocked m s).1 := by rw [← free, ← RemoveConnectionLocked_held m s]
    rw [block_ok _ free ran, left] at acts
    cases acts
    have still := (RemoveConnectionLocked_held m s).trans free
    exact ⟨if_neg (by rw [free]; decide), calm_sound rfl (calm_of_ok ran rfl rfl _ still)⟩
  · next entries =>
    split_ifs at acts with all
    have ran : (snapshot entries).run ⟨m, false⟩ =
      ⟨[.lock, .unlock], ⟨m, false⟩, .ok (entries.map fun entry => (entry.1, entry.2.map m.socket))⟩ := rfl
    rw [block_ok _ free ran, same] at acts
    cases acts
    exact ⟨if_pos ⟨free, all⟩, calm_sound rfl (calm_of_ok ran rfl rfl m free)⟩
  · next s dead rest =>
    have ran : (cleanUp (s :: dead)).run ⟨m, false⟩ =
        ⟨.lock :: (WebSocketManager.removeEach m (s :: dead)).2.map (.does ∘ .call) ++ [.unlock],
          ⟨(WebSocketManager.removeEach m (s :: dead)).1, false⟩, .ok ()⟩ := by
      rw [cleanUp, guarded_ok m (by rw [removeEach_run]), removeEach_run]
    have left : { (WebSocketManager.removeEach m (s :: dead)).1 with held := false } =
        (WebSocketManager.removeEach m (s :: dead)).1 := by rw [← free, ← removeEach_held (s :: dead) m]
    rw [block_ok _ free ran, left] at acts
    cases acts
    rw [callsOf_guarded, callsOf_calls]
    refine ⟨?_, calm_sound rfl (calm_of_ok ran ?_ ?_ _ ((removeEach_held _ m).trans free))⟩
    · rw [WebSocketManager.broadcastAct, if_neg (List.cons_ne_nil s dead), free, if_neg Bool.false_ne_true]
    · rw [askedOf_guarded, askedOf_calls]
    · rw [movedOf_guarded, movedOf_calls]
  · next elsewhere _ _ _ =>
    obtain ⟨⟨_, _, calls⟩, coarse, made⟩ := Option.map_eq_some_iff.mp acts
    cases made
    have reads : ∀ s buf rest to_remove, b ≠ .received s buf rest to_remove := by
      rintro s buf rest to_remove rfl
      exact elsewhere s buf rest to_remove rfl (received_proceeds coarse)
    have quiet : asking m b = false := by
      unfold asking
      split
      · exact absurd rfl (reads _ _ _ _)
      · rfl
    rw [callsOf_calls]
    exact ⟨coarse, calm_sound quiet (calm_of_calls ((broadcastAct_held coarse reads).trans free))⟩

private theorem block_of_held {α : Type} (held : m.held = true) (code : Code α) (next : α → Broadcaster) :
    block m code next = none := by
  rw [block, if_pos held]

/-- An action of the broadcast thread is one of the manager's program, whatever holds the lock. -/
theorem broadcastAct_coarse {b after : Broadcaster} {deeds : List (Mutex.Deed Deed)}
    (acts : broadcastAct m b choice = some (n, after, deeds)) :
    WebSocketManager.broadcastAct m b choice = some (n, after, callsOf deeds) := by
  cases held : m.held with
  | false => exact (broadcastAct_sound held acts).1
  | true =>
    unfold broadcastAct at acts
    split at acts
    · rw [block_of_held held, ite_self] at acts
      cases acts
    · rw [block_of_held held] at acts
      cases acts
    · rw [block_of_held held] at acts
      cases acts
    · rw [block_of_held held, ite_self] at acts
      cases acts
    · rw [block_of_held held] at acts
      cases acts
    · obtain ⟨⟨_, _, calls⟩, coarse, made⟩ := Option.map_eq_some_iff.mp acts
      cases made
      rw [callsOf_calls]
      exact coarse

/-- An action is one of the manager's program. -/
theorem act_coarse {at_ after : Control} {event : Event} {deeds : List (Mutex.Deed Deed)}
    (acts : act m at_ choice = some (n, after, event, deeds)) :
    WebSocketManager.act m at_ choice = some (n, after, event) := by
  unfold act at acts
  split_ifs at acts with ended
  cases at_ with
  | broadcaster b =>
    obtain ⟨⟨_, _, _⟩, acted, made⟩ := Option.map_eq_some_iff.mp acts
    cases made
    rw [WebSocketManager.act, if_neg ended]
    simp only [broadcastAct_coarse acted, Option.map_some]
  | acceptor a =>
    obtain ⟨⟨_, _, _⟩, acted, made⟩ := Option.map_eq_some_iff.mp acts
    cases made
    exact acted
  | main t =>
    obtain ⟨⟨_, _, _⟩, acted, made⟩ := Option.map_eq_some_iff.mp acts
    cases made
    exact acted
  | subscriber => cases acts

/-- A run with the locks shown is a run of the manager's program. -/
theorem run_coarse {history : List (Party × Event × List (Mutex.Deed Deed))}
    {target : Interleaving.State Manager Control Party} (run : program.Run source history target) :
    WebSocketManager.program.Run source (history.map fun entry => (entry.1, entry.2.1)) target := by
  have projected := run.project WebSocketManager.program id id (fun event => some event.1) fun acts =>
    Or.inr ⟨_, _, rfl, act_coarse acts⟩
  simp only [Option.map_some, List.filterMap_eq_map'] at projected
  exact projected

/-- Whether a thread is about to handle a read in which a subscription is reached. -/
def askingAt (m : Manager) : Control → Bool
  | .broadcaster b => asking m b
  | _ => false

/-- No subscription is reached in what a thread is about to do. -/
def Unasked (s : Interleaving.State Manager Control Party) (thread : Party) : Prop :=
  askingAt s.shared (s.pc thread) = false

instance (s : Interleaving.State Manager Control Party) (thread : Party) : Decidable (Unasked s thread) :=
  inferInstanceAs (Decidable (_ = _))

theorem act_sound {at_ after : Control} {event : Event} {deeds : List (Mutex.Deed Deed)} (free : m.held = false)
    (acts : act m at_ choice = some (n, after, event, deeds)) :
    (askingAt m at_ = true → Mutex.follow false deeds = none) ∧ (askingAt m at_ = false → Calm n deeds) := by
  unfold act at acts
  split_ifs at acts with ended
  have still : n.held = m.held → Calm n [] := fun same =>
    ⟨rfl, rfl, Option.some_ne_none _, fun _ => ⟨rfl, same.trans free⟩⟩
  cases at_ with
  | broadcaster b =>
    obtain ⟨⟨_, _, _⟩, acted, made⟩ := Option.map_eq_some_iff.mp acts
    cases made
    exact (broadcastAct_sound free acted).2
  | acceptor a =>
    obtain ⟨⟨_, _, _⟩, acted, made⟩ := Option.map_eq_some_iff.mp acts
    cases made
    rw [WebSocketManager.act, if_neg ended] at acted
    obtain ⟨⟨_, _, _⟩, moved, same⟩ := Option.map_eq_some_iff.mp acted
    cases same
    exact ⟨fun asked => absurd asked Bool.false_ne_true, fun _ => still (acceptAct_held moved)⟩
  | main t =>
    obtain ⟨⟨_, _, _⟩, acted, made⟩ := Option.map_eq_some_iff.mp acts
    cases made
    rw [WebSocketManager.act, if_neg ended] at acted
    obtain ⟨⟨_, _, _⟩, moved, same⟩ := Option.map_eq_some_iff.mp acted
    cases same
    exact ⟨fun asked => absurd asked Bool.false_ne_true, fun _ => still (mainAct_held moved)⟩
  | subscriber => cases acts

section Runs

variable {history : List (Party × Event × List (Mutex.Deed Deed))}
  {target : Interleaving.State Manager Control Party}

/-- The broadcast thread's deeds. The other threads' actions show none. -/
def deedsOf (history : List (Party × Event × List (Mutex.Deed Deed))) : List (Mutex.Deed Deed) :=
  history.flatMap fun entry => entry.2.2

theorem deedsOf_snoc (history : List (Party × Event × List (Mutex.Deed Deed)))
    (entry : Party × Event × List (Mutex.Deed Deed)) :
    deedsOf (history ++ [entry]) = deedsOf history ++ entry.2.2 := by
  rw [deedsOf, List.flatMap_append, List.flatMap_singleton]
  rfl

/-- The broadcast thread never locks what it holds, moves the connection of every subscription that it
is sent, and has released the lock, unless an exception has ended the process. -/
structure NeverLockedOut (history : List (Party × Event × List (Mutex.Deed Deed)))
    (s : Interleaving.State Manager Control Party) : Prop where
  acquires : Mutex.follow false (deedsOf history) ≠ none
  processed : movedOf (deedsOf history) = askedOf (deedsOf history)
  released : s.shared.terminated = false → Mutex.follow false (deedsOf history) = some false ∧ s.shared.held = false

theorem not_terminated {at_ : Control} {after : Manager × Control × Event × List (Mutex.Deed Deed)}
    (acts : act m at_ choice = some after) : m.terminated = false := by
  unfold act at acts
  split_ifs at acts with ended
  exact Bool.eq_false_iff.mpr ended

theorem neverLockedOut_of_unasked (conditional : program.RunWhere Unasked source history target) :
    NeverLockedOut history target := by
  refine conditional.invariant NeverLockedOut ⟨Option.some_ne_none _, rfl, fun _ => ⟨rfl, rfl⟩⟩ ?_
  rintro history s thread choice shared pc ⟨event, deeds⟩ _ sound unasked enabled
  obtain ⟨before, free⟩ := sound.released (not_terminated enabled)
  have calm := (act_sound free enabled).2 unasked
  have follows : Mutex.follow false (deedsOf (history ++ [(thread, event, deeds)])) = Mutex.follow false deeds := by
    rw [deedsOf_snoc, Mutex.follow_append, before]
    rfl
  refine ⟨?_, ?_, ?_⟩
  · rw [follows]
    exact calm.follows
  · rw [deedsOf_snoc, askedOf_append, movedOf_append, calm.asked, calm.moved, sound.processed]
  · rw [follows]
    exact calm.released

theorem unasked_of_follow (run : program.Run source history target)
    (acquires : Mutex.follow false (deedsOf history) ≠ none) : program.RunWhere Unasked source history target := by
  induction run with
  | nil => exact .nil
  | @snoc history s _ entry _ step ih =>
    rw [deedsOf_snoc, Mutex.follow_append] at acquires
    have earlier : Mutex.follow false (deedsOf history) ≠ none := by
      intro relocked
      rw [relocked] at acquires
      exact acquires rfl
    have prior := ih earlier
    have sound := neverLockedOut_of_unasked prior
    cases step with
    | @act thread choice shared pc event enabled =>
      obtain ⟨before, free⟩ := sound.released (not_terminated enabled)
      rw [before] at acquires
      refine prior.snoc ?_ (.act enabled)
      exact Bool.eq_false_iff.mpr fun asked => acquires ((act_sound free enabled).1 asked)

/-- A run never locks itself out if and only if no read that is handled reaches a subscription. -/
theorem never_locked_out_iff (run : program.Run source history target) :
    NeverLockedOut history target ↔ program.RunWhere Unasked source history target :=
  ⟨fun sound => unasked_of_follow run sound.acquires, neverLockedOut_of_unasked⟩

end Runs

/-- The frame of a client that subscribes to `cpu`, and of one that says `hello`. Both are masked, with
the key zero. -/
def subscribeCpu : Bytes :=
  [0x81, 0x8D, 0, 0, 0, 0, 0x73, 0x75, 0x62, 0x73, 0x63, 0x72, 0x69, 0x62, 0x65, 0x3A, 0x63, 0x70, 0x75]
def hello : Bytes := [0x81, 0x85, 0, 0, 0, 0, 0x68, 0x65, 0x6C, 0x6C, 0x6F]

def reads (fd : ℕ) (frame : Bytes) : List (Party × Choice) :=
  connects fd ++ [(.broadcaster, .proceed), (.broadcaster, .connections [fd]), (.broadcaster, .read frame),
    (.broadcaster, .proceed)]

/-- One client asks for a subscription: the broadcast thread locks what it holds, nothing is moved, and
nobody gets the lock again. -/
theorem locked_out : ∃ history target, program.Run source history target ∧
    askedOf (deedsOf history) = [(7, [0x63, 0x70, 0x75])] ∧ movedOf (deedsOf history) = [] ∧
    target.shared.held = true ∧ ¬ NeverLockedOut history target := by
  obtain ⟨history, target, run, asked, moved, held, relocked⟩ := Interleaving.Program.exists_run_of_check program source
    (fun s history => askedOf (deedsOf history) = [(7, [0x63, 0x70, 0x75])] ∧ movedOf (deedsOf history) = [] ∧
      s.shared.held = true ∧ Mutex.follow false (deedsOf history) = none)
    (reads 7 subscribeCpu) (by decide +kernel)
  exact ⟨history, target, run, asked, moved, held, fun sound => sound.acquires relocked⟩

/-- A client that sends another text message is read, and the lock is free again. -/
theorem never_locked_out_iff_hello : ∃ history target, program.Run source history target ∧
    target.pc .broadcaster = .broadcaster (.polling [] []) ∧
    (NeverLockedOut history target ↔ program.RunWhere Unasked source history target) := by
  obtain ⟨history, target, run, read⟩ := Interleaving.Program.exists_run_of_check program source
    (fun s _ => s.pc .broadcaster = .broadcaster (.polling [] [])) (reads 7 hello) (by decide +kernel)
  exact ⟨history, target, run, read, never_locked_out_iff run⟩

end WebSocketLocks

end Illuminator
