import Illuminator.Machine.Components
import Illuminator.Model.WebSocketLocks
import Illuminator.Soundness.CloseFrames

/-! # The lock across frames

The broadcast thread's code, run frame by frame under its guards, does what the manager's program says
of it. It waits for itself in exactly one place, when a complete text frame that asks for a
subscription is reached at a frame boundary of a read.
-/

namespace Illuminator

namespace WebSocketLocks

open WebSocketManager WebSocketCodec Mutex.Code

/-- A subscription is asked for at a frame boundary that the decode loop reaches. -/
def asks : ℕ → Bytes → Bool
  | 0, _ => false
  | fuel + 1, data =>
    match declared data with
    | none => false
    | some d => decide (d.total ≤ data.length) && (subscribes data || asks fuel (data.drop d.total))

/-- The connection in a manager, with what its receive buffer holds. -/
def filled (m : Manager) (fd : ℕ) (key rb : Bytes) : Manager :=
  { m with connections_ := m.connections_.insert fd ⟨key, rb⟩ }

@[simp] theorem recvBuf_filled (m : Manager) (fd : ℕ) (key rb : Bytes) : recvBuf (filled m fd key rb) fd = rb := by
  simp only [recvBuf, filled, AList.lookup_insert, Option.map_some, Option.getD_some]

@[simp] theorem setRecvBuf_filled (m : Manager) (fd : ℕ) (key rb rest : Bytes) :
    setRecvBuf fd rest (filled m fd key rb) = filled m fd key rest := by
  simp only [setRecvBuf, filled, AList.lookup_insert, AList.insert_insert]

/-- How the loop's thread goes on after a fault. -/
def resultOf (removed : List Socket) : Option WsFault → Except (Mutex.Halt WsFault) (List Socket)
  | none => .ok removed
  | some .relock => .error .waits
  | some fault => .error (.throws fault)

@[simp] theorem callsOf_calls (calls : List Call) : callsOf (calls.map (.does ∘ .call)) = calls := by
  induction calls with
  | nil => rfl
  | cons call rest ih => exact congrArg (call :: ·) ih

@[simp] theorem askedOf_calls (calls : List Call) : askedOf (calls.map (.does ∘ .call)) = [] := by
  induction calls with
  | nil => rfl
  | cons call rest ih => exact ih

@[simp] theorem movedOf_calls (calls : List Call) : movedOf (calls.map (.does ∘ .call)) = [] := by
  induction calls with
  | nil => rfl
  | cons call rest ih => exact ih

theorem callsOf_append (first second : List (Mutex.Deed Deed)) :
    callsOf (first ++ second) = callsOf first ++ callsOf second := List.filterMap_append

theorem askedOf_append (first second : List (Mutex.Deed Deed)) :
    askedOf (first ++ second) = askedOf first ++ askedOf second := List.filterMap_append

theorem movedOf_append (first second : List (Mutex.Deed Deed)) :
    movedOf (first ++ second) = movedOf first ++ movedOf second := List.filterMap_append

/-- A frame that does not ask for a subscription is handled as the manager says, with the lock left alone. -/
theorem handleFrame_of_reacts {frame : WsFrame} {reactions : List Reaction} (s : Socket) (state : Mutex.Held Manager)
    (reacts : WebSocketManager.handleFrame frame = .ok reactions) :
    (handleFrame s frame).run state =
      ⟨(reactions.flatMap (Reaction.calls s)).map (.does ∘ .call), state,
        .ok (reactions.flatMap (Reaction.removes s))⟩ := by
  unfold WebSocketManager.handleFrame at reacts
  unfold handleFrame
  split_ifs at reacts ⊢ with ping close text asked <;> cases reacts
  · rfl
  · rfl
  · rw [HandleTextMessage, if_neg asked]
    rfl
  · rfl

/-- A frame that asks for a subscription makes the loop's thread wait for itself. -/
theorem handleFrame_of_asks {frame : WsFrame} {fault : WsFault} (s : Socket) (m : Manager)
    (faults : WebSocketManager.handleFrame frame = .error fault) :
    fault = .relock ∧ (handleFrame s frame).run ⟨m, true⟩ =
      ⟨[.does (.asked s.fd (frame.payload.drop 10)), .lock], ⟨m, true⟩, .error .waits⟩ := by
  unfold WebSocketManager.handleFrame at faults
  split_ifs at faults with ping close text asked
  cases faults
  refine ⟨rfl, ?_⟩
  rw [handleFrame, if_neg ping, if_neg close, if_pos text, HandleTextMessage, if_pos asked]
  rfl

theorem resultOf_of_ne {kind : WsFault} (removed : List Socket) (other : kind ≠ .relock) :
    resultOf removed (some kind) = .error (.throws kind) := by
  cases kind with
  | relock => exact absurd rfl other
  | read _ => rfl
  | length_error _ => rfl
  | erase _ => rfl
  | stuck => rfl

theorem resultOf_append (removed more : List Socket) (fault : Option WsFault) :
    resultOf (removed ++ more) fault = (resultOf more fault).map (removed ++ ·) := by
  cases fault with
  | none => rfl
  | some fault => cases fault <;> rfl

/-- What the loop does from a filled buffer, next to what the manager's program says of it. -/
structure Agrees (s : Socket) (m : Manager) (key : Bytes) (fuel : ℕ) (data : Bytes)
    (out : Mutex.Outcome Manager Deed WsFault (List Socket)) : Prop where
  final : out.final = ⟨filled m s.fd key (decodeTurns fuel data).1, true⟩
  calls : callsOf out.deeds = ((decodeTurns fuel data).2.1.flatMap Prod.snd).flatMap (Reaction.calls s)
  result : out.result =
    resultOf (((decodeTurns fuel data).2.1.flatMap Prod.snd).flatMap (Reaction.removes s)) (decodeTurns fuel data).2.2
  waits : (decodeTurns fuel data).2.2 = some .relock ↔ asks fuel data = true
  quiet : asks fuel data = false → askedOf out.deeds = [] ∧ movedOf out.deeds = []

private theorem agrees_still (s : Socket) (m : Manager) (key : Bytes) {data : Bytes} {fuel : ℕ} {fault : Option WsFault}
    (turns : decodeTurns fuel data = (data, [], fault)) (calm : asks fuel data = false) (other : fault ≠ some .relock) :
    Agrees s m key fuel data ⟨[], ⟨filled m s.fd key data, true⟩, resultOf [] fault⟩ where
  final := by rw [turns]
  calls := by rw [turns]; rfl
  result := by rw [turns]; rfl
  waits := by
    rw [turns, calm]
    exact iff_of_false other Bool.false_ne_true
  quiet _ := ⟨rfl, rfl⟩

private theorem decodeFrames_succ (s : Socket) (fuel : ℕ) (m : Manager) (key data : Bytes) :
    (decodeFrames s (fuel + 1)).run ⟨filled m s.fd key data, true⟩ =
      if data.isEmpty then ⟨[], ⟨filled m s.fd key data, true⟩, .ok []⟩
      else
        match DecodeFrame data with
        | .error fault => ⟨[], ⟨filled m s.fd key data, true⟩, .error (.throws fault)⟩
        | .ok (none, _) => ⟨[], ⟨filled m s.fd key data, true⟩, .ok []⟩
        | .ok (some frame, consumed) =>
          if data.length < consumed.toNat then ⟨[], ⟨filled m s.fd key data, true⟩, .error (.throws (.erase consumed))⟩
          else
            (do
              let removed ← handleFrame s frame
              let more ← decodeFrames s fuel
              pure (removed ++ more) : Code (List Socket)).run
              ⟨filled m s.fd key (data.drop consumed.toNat), true⟩ := by
  rw [decodeFrames, run_state_bind]
  simp only [recvBuf_filled]
  split_ifs with empty
  · rfl
  · cases decoded : DecodeFrame data with
    | error fault => rfl
    | ok found =>
      obtain ⟨frame, consumed⟩ := found
      cases frame with
      | none => rfl
      | some frame =>
        simp only
        split_ifs with past
        · rfl
        · rw [run_modify_bind, setRecvBuf_filled]

section Turn

variable {data : Bytes} {d : Declared} {fuel : ℕ}

private theorem asks_of_fits (found : declared data = some d) (fits : d.total ≤ data.length) :
    asks (fuel + 1) data = (subscribes data || asks fuel (data.drop d.total)) := by
  simp only [asks, found, fits, decide_true, Bool.true_and]

private theorem asks_of_longer (found : declared data = some d) (longer : data.length < d.total) :
    asks (fuel + 1) data = false := by
  simp only [asks, found, not_le.mpr longer, decide_false, Bool.false_and]

/-- A turn that decodes nothing leaves the buffer as it is. -/
private theorem agrees_nothing (s : Socket) (m : Manager) (key : Bytes) {consumed : UInt64}
    (nothing : DecodeFrame data = .ok (none, consumed)) (calm : asks (fuel + 1) data = false) :
    Agrees s m key (fuel + 1) data ((decodeFrames s (fuel + 1)).run ⟨filled m s.fd key data, true⟩) := by
  have stops := agrees_still s m key (decodeTurns_stop fuel nothing) calm (Option.some_ne_none _).symm
  rw [decodeFrames_succ, nothing]
  split_ifs
  · exact stops
  · exact stops

/-- A turn at a complete frame consumes it, then handles it and goes on. -/
private theorem decodeFrames_frame (s : Socket) (m : Manager) (key : Bytes) (found : declared data = some d)
    (bound : data.length ≤ maxSize) (fits : d.total ≤ data.length) :
    (decodeFrames s (fuel + 1)).run ⟨filled m s.fd key data, true⟩ =
      (do
        let removed ← handleFrame s (d.frame data)
        let more ← decodeFrames s fuel
        pure (removed ++ more) : Code (List Socket)).run ⟨filled m s.fd key (data.drop d.total), true⟩ := by
  have word := lt_of_le_maxSize bound
  rw [decodeFrames_succ, if_neg (not_isEmpty_of_fits found fits),
    DecodeFrame_complete found word fits (payload_le bound fits)]
  simp only [consumed_toNat word fits, if_neg (not_lt.mpr fits)]

/-- A turn at a frame that asks for a subscription is the last. -/
private theorem agrees_asked (s : Socket) (m : Manager) (key : Bytes) (found : declared data = some d)
    (bound : data.length ≤ maxSize) (fits : d.total ≤ data.length) {fault : WsFault}
    (faults : WebSocketManager.handleFrame (d.frame data) = .error fault) :
    Agrees s m key (fuel + 1) data ((decodeFrames s (fuel + 1)).run ⟨filled m s.fd key data, true⟩) := by
  obtain ⟨rfl, waits⟩ := handleFrame_of_asks s (filled m s.fd key (data.drop d.total)) faults
  have turns := decodeTurns_frame fuel found bound fits
  rw [faults] at turns
  have subscribed : subscribes data = true := by
    by_contra calm
    obtain ⟨reactions, handled⟩ := (handleFrame_ok_iff found fits).mpr (Bool.eq_false_iff.mpr calm)
    rw [faults] at handled
    cases handled
  have asked : asks (fuel + 1) data = true := by
    rw [asks_of_fits found fits, subscribed, Bool.true_or]
  rw [decodeFrames_frame s m key found bound fits, bind_error (by rw [waits]), waits]
  constructor
  · rw [turns]
  · rw [turns]
    rfl
  · rw [turns]
    rfl
  · rw [turns]
    exact iff_of_true rfl asked
  · intro calm
    rw [asked] at calm
    cases calm

/-- A turn at any other complete frame does what the reactions to it say, before the turns that follow. -/
private theorem agrees_frame (s : Socket) (m : Manager) (key : Bytes) (found : declared data = some d)
    (bound : data.length ≤ maxSize) (fits : d.total ≤ data.length) {reactions : List Reaction}
    (reacts : WebSocketManager.handleFrame (d.frame data) = .ok reactions)
    (later : Agrees s m key fuel (data.drop d.total)
      ((decodeFrames s fuel).run ⟨filled m s.fd key (data.drop d.total), true⟩)) :
    Agrees s m key (fuel + 1) data ((decodeFrames s (fuel + 1)).run ⟨filled m s.fd key data, true⟩) := by
  have handled := handleFrame_of_reacts s ⟨filled m s.fd key (data.drop d.total), true⟩ reacts
  have turns := decodeTurns_frame fuel found bound fits
  rw [reacts] at turns
  have here : asks (fuel + 1) data = asks fuel (data.drop d.total) := by
    rw [asks_of_fits found fits, (handleFrame_ok_iff found fits).mp ⟨_, reacts⟩, Bool.false_or]
  rw [decodeFrames_frame s m key found bound fits, bind_ok (by rw [handled]), handled, run_bind_pure]
  constructor
  · rw [turns]
    exact later.final
  · rw [turns]
    change callsOf (_ ++ _) = _
    rw [callsOf_append, callsOf_calls, later.calls]
    simp only [List.flatMap_cons, List.flatMap_append]
  · rw [turns]
    change Except.map _ _ = _
    rw [later.result]
    simp only [List.flatMap_cons, List.flatMap_append, resultOf_append]
  · rw [turns, here]
    exact later.waits
  · rw [here]
    intro calm
    obtain ⟨none_asked, none_moved⟩ := later.quiet calm
    constructor
    · change askedOf (_ ++ _) = _
      rw [askedOf_append, none_asked, askedOf_calls, List.append_nil]
    · change movedOf (_ ++ _) = _
      rw [movedOf_append, none_moved, movedOf_calls, List.append_nil]

end Turn

/-- The loop, frame by frame and in place, is the manager's loop over the bytes. -/
theorem decodeFrames_agrees (s : Socket) (m : Manager) (key : Bytes) (fuel : ℕ) {data : Bytes}
    (bound : data.length ≤ maxSize) :
    Agrees s m key fuel data ((decodeFrames s fuel).run ⟨filled m s.fd key data, true⟩) := by
  induction fuel generalizing data with
  | zero =>
    have ended : decodeTurns 0 data = (data, [], some .stuck) := rfl
    exact agrees_still s m key ended rfl (by intro same; cases same)
  | succ fuel ih =>
    have word := lt_of_le_maxSize bound
    rcases buffer_cases data with missing | ⟨d, found, short | fits | ⟨past, inside⟩⟩
    · apply agrees_nothing s m key (DecodeFrame_undeclared missing word)
      rw [asks, missing]
    · apply agrees_nothing s m key (DecodeFrame_incomplete found word short)
      exact asks_of_longer found (lt_of_lt_of_le short (Nat.mod_le ..))
    · have dropped : (data.drop d.total).length = data.length - d.total := List.length_drop
      have within : (data.drop d.total).length ≤ maxSize := by omega
      cases reacts : WebSocketManager.handleFrame (d.frame data) with
      | error fault => exact agrees_asked s m key found bound fits reacts
      | ok reactions => exact agrees_frame s m key found bound fits reacts (ih within)
    · have faults := DecodeFrame_wrapped found word past inside
      have longer : data.length < d.total := by
        unfold maxSize at bound
        omega
      have turns : decodeTurns (fuel + 1) data = (data, [], some (.length_error (.ofNat d.payload))) := by
        rw [decodeTurns, if_neg (not_isEmpty_of_fault faults), faults]
      rw [decodeFrames_succ, if_neg (not_isEmpty_of_fault faults), faults]
      exact agrees_still s m key turns (asks_of_longer found longer) (by intro same; cases same)

/-- The bytes of a read that is handled, when the loop reaches a subscription in them. -/
def asksRead (m : Manager) (s : Socket) (buf : Bytes) : Bool :=
  match m.connections_.lookup s.fd with
  | none => false
  | some info =>
    decide ((info.recv_buf ++ buf).length ≤ maxSize) &&
      asks ((info.recv_buf ++ buf).length + 1) (info.recv_buf ++ buf)

/-- What an action under the lock does to it when no subscription is reached. -/
structure Calm (next : Manager) (deeds : List (Mutex.Deed Deed)) : Prop where
  asked : askedOf deeds = []
  moved : movedOf deeds = []
  follows : Mutex.follow false deeds ≠ none
  released : next.terminated = false → Mutex.follow false deeds = some false ∧ next.held = false

section Blocks

variable {α : Type} {m : Manager} {code : Code α} {deeds : List (Mutex.Deed Deed)} {final : Mutex.Held Manager}

theorem block_ok {a : α} (next : α → Broadcaster) (free : m.held = false)
    (ran : code.run ⟨m, false⟩ = ⟨deeds, final, .ok a⟩) :
    block m code next = some ({ final.state with held := final.held }, next a, deeds) := by
  rw [block, free, if_neg Bool.false_ne_true]
  simp only [ran]

theorem block_waits (next : α → Broadcaster) (free : m.held = false)
    (ran : code.run ⟨m, false⟩ = ⟨deeds, final, .error .waits⟩) :
    block m code next = some ({ final.state with held := final.held }, .stuck, deeds) := by
  rw [block, free, if_neg Bool.false_ne_true]
  simp only [ran]

theorem block_throws {fault : WsFault} (next : α → Broadcaster) (free : m.held = false)
    (ran : code.run ⟨m, false⟩ = ⟨deeds, final, .error (.throws fault)⟩) :
    block m code next = some ({ final.state with terminated := true }, .stuck, deeds) := by
  rw [block, free, if_neg Bool.false_ne_true]
  simp only [ran]

theorem follow_of_run {result : Except (Mutex.Halt WsFault) α} (ran : code.run ⟨m, false⟩ = ⟨deeds, final, result⟩) :
    Mutex.follow false deeds = Mutex.Outcome.mutex ⟨deeds, final, result⟩ := by
  have told := code.told ⟨m, false⟩
  rwa [ran] at told

end Blocks

/-- A block that gets to its end is calm when it asks for nothing. -/
theorem calm_of_ok {α : Type} {m : Manager} {code : Code α} {deeds : List (Mutex.Deed Deed)} {after : Manager} {a : α}
    (ran : code.run ⟨m, false⟩ = ⟨deeds, ⟨after, false⟩, .ok a⟩) (quiet : askedOf deeds = []) (still : movedOf deeds = [])
    (next : Manager) (free : next.held = false) : Calm next deeds := by
  have told : Mutex.follow false deeds = some false := follow_of_run ran
  refine ⟨quiet, still, ?_, fun _ => ⟨told, free⟩⟩
  rw [told]
  exact Option.some_ne_none _

theorem callsOf_lock (deeds : List (Mutex.Deed Deed)) : callsOf (.lock :: deeds) = callsOf deeds := rfl

theorem callsOf_guarded (deeds : List (Mutex.Deed Deed)) : callsOf (.lock :: deeds ++ [.unlock]) = callsOf deeds := by
  rw [callsOf_append]
  exact List.append_nil _

theorem askedOf_guarded (deeds : List (Mutex.Deed Deed)) : askedOf (.lock :: deeds ++ [.unlock]) = askedOf deeds := by
  rw [askedOf_append]
  exact List.append_nil _

theorem movedOf_guarded (deeds : List (Mutex.Deed Deed)) : movedOf (.lock :: deeds ++ [.unlock]) = movedOf deeds := by
  rw [movedOf_append]
  exact List.append_nil _

/-- The manager's program at a read. -/
def readAct (m : Manager) (s : Socket) (buf : Bytes) (next : List Socket → Broadcaster) :
    Manager × Broadcaster × List Call :=
  match WebSocketManager.handleRead m s buf with
  | (after, calls, some removed) => (after, next removed, calls)
  | (after, calls, none) => (after, .stuck, calls)

private theorem handleRead_absent {m : Manager} {s : Socket} (buf : Bytes) (absent : m.connections_.lookup s.fd = none) :
    (handleRead s buf).run ⟨m, false⟩ = ⟨[.lock, .unlock], ⟨m, false⟩, .ok []⟩ := by
  change Mutex.Outcome.unlocked ((state >>= _ : Code (List Socket)).run ⟨m, true⟩) = _
  rw [run_state_bind, absent]
  rfl

private theorem handleRead_long {m : Manager} {s : Socket} {buf : Bytes} {info : ConnInfo}
    (present : m.connections_.lookup s.fd = some info) (long : maxSize < (info.recv_buf ++ buf).length) :
    (handleRead s buf).run ⟨m, false⟩ =
      ⟨[.lock], ⟨m, true⟩, .error (.throws (.length_error (.ofNat (info.recv_buf ++ buf).length)))⟩ := by
  change Mutex.Outcome.unlocked ((state >>= _ : Code (List Socket)).run ⟨m, true⟩) = _
  rw [run_state_bind, present]
  simp only [if_pos long]
  rfl

private theorem handleRead_loops {m : Manager} {s : Socket} {buf : Bytes} {info : ConnInfo}
    (present : m.connections_.lookup s.fd = some info) (short : (info.recv_buf ++ buf).length ≤ maxSize) :
    (handleRead s buf).run ⟨m, false⟩ =
      ((decodeFrames s ((info.recv_buf ++ buf).length + 1)).run
        ⟨filled m s.fd info.pipeline_key (info.recv_buf ++ buf), true⟩).unlocked := by
  change Mutex.Outcome.unlocked ((state >>= _ : Code (List Socket)).run ⟨m, true⟩) = _
  rw [run_state_bind, present]
  simp only [if_neg (not_lt.mpr short)]
  rw [run_modify_bind]
  have fills : setRecvBuf s.fd (info.recv_buf ++ buf) m = filled m s.fd info.pipeline_key (info.recv_buf ++ buf) := by
    rw [setRecvBuf, present]
    rfl
  simp only [fills]

private theorem handleRead_faults {m : Manager} {s : Socket} {buf : Bytes} {info : ConnInfo} {kind : WsFault}
    (present : m.connections_.lookup s.fd = some info) (short : (info.recv_buf ++ buf).length ≤ maxSize)
    (fault : (decodeTurns ((info.recv_buf ++ buf).length + 1) (info.recv_buf ++ buf)).2.2 = some kind)
    (other : kind ≠ .relock) :
    WebSocketManager.handleRead m s buf =
      ({ filled m s.fd info.pipeline_key (decodeTurns ((info.recv_buf ++ buf).length + 1) (info.recv_buf ++ buf)).1 with
          terminated := true },
        ((decodeTurns ((info.recv_buf ++ buf).length + 1) (info.recv_buf ++ buf)).2.1.flatMap Prod.snd).flatMap
          (Reaction.calls s), none) := by
  rw [WebSocketManager.handleRead, present]
  simp only [if_neg (not_lt.mpr short), fault]
  cases kind with
  | relock => exact absurd rfl other
  | read _ => rfl
  | length_error _ => rfl
  | erase _ => rfl
  | stuck => rfl

private theorem filled_held {m : Manager} (free : m.held = false) (fd : ℕ) (key rb : Bytes) :
    { filled m fd key rb with held := false } = filled m fd key rb := by
  rw [← free]
  rfl

/-- A read, frame by frame and in place, does what the manager's program says. Its thread waits for itself
when it reaches a subscription, and leaves the lock free otherwise. -/
theorem handleRead_acts {m : Manager} (free : m.held = false) (s : Socket) (buf : Bytes)
    (next : List Socket → Broadcaster) :
    ∃ n after deeds, block m (handleRead s buf) next = some (n, after, deeds) ∧
      (n, after, callsOf deeds) = readAct m s buf next ∧
      (asksRead m s buf = true → Mutex.follow false deeds = none) ∧ (asksRead m s buf = false → Calm n deeds) := by
  have same : { m with held := false } = m := by rw [← free]
  cases found : m.connections_.lookup s.fd with
  | none =>
    have ran := handleRead_absent buf found
    refine ⟨m, next [], [.lock, .unlock], ?_, ?_, ?_, ?_⟩
    · rw [block_ok next free ran, same]
    · rw [readAct, WebSocketManager.handleRead, found]
      rfl
    · rw [asksRead, found]
      intro never
      cases never
    · exact fun _ => calm_of_ok ran rfl rfl m free
  | some info =>
    rcases Nat.lt_or_ge maxSize (info.recv_buf ++ buf).length with long | short
    · have ran := handleRead_long found long
      have quiet : asksRead m s buf = false := by
        rw [asksRead, found]
        simp only [decide_eq_false (not_le.mpr long), Bool.false_and]
      refine ⟨{ m with terminated := true }, .stuck, [.lock], block_throws next free ran, ?_, ?_, ?_⟩
      · rw [readAct, WebSocketManager.handleRead, found]
        simp only [if_pos long]
        rfl
      · rw [quiet]
        intro never
        cases never
      · intro _
        refine ⟨rfl, rfl, ?_, fun running => by cases running⟩
        rw [follow_of_run ran]
        exact Option.some_ne_none _
    · have ran := handleRead_loops found short
      have agrees := decodeFrames_agrees s m info.pipeline_key ((info.recv_buf ++ buf).length + 1) short
      have reads : asksRead m s buf = asks ((info.recv_buf ++ buf).length + 1) (info.recv_buf ++ buf) := by
        rw [asksRead, found]
        simp only [decide_eq_true short, Bool.true_and]
      have kept := filled_held free s.fd info.pipeline_key
        (decodeTurns ((info.recv_buf ++ buf).length + 1) (info.recv_buf ++ buf)).1
      obtain ⟨final, calls, result, waits, quiet⟩ := agrees
      rw [Mutex.Outcome.unlocked, result, final] at ran
      rw [reads]
      cases fault : (decodeTurns ((info.recv_buf ++ buf).length + 1) (info.recv_buf ++ buf)).2.2 with
      | none =>
        rw [fault] at ran waits
        have calm : asks ((info.recv_buf ++ buf).length + 1) (info.recv_buf ++ buf) = false :=
          Bool.eq_false_iff.mpr fun asked => absurd (waits.mpr asked) (Option.some_ne_none _).symm
        obtain ⟨none_asked, none_moved⟩ := quiet calm
        refine ⟨_, _, _, block_ok next free ran, ?_, ?_, ?_⟩
        · rw [kept, callsOf_guarded, calls, readAct, WebSocketManager.handleRead, found]
          simp only [if_neg (not_lt.mpr short), fault]
          rfl
        · intro asked
          rw [calm] at asked
          cases asked
        · intro _
          exact calm_of_ok ran (by rw [askedOf_guarded, none_asked]) (by rw [movedOf_guarded, none_moved]) _ rfl
      | some kind =>
        by_cases locked : kind = .relock
        · subst locked
          rw [fault] at ran waits
          refine ⟨_, _, _, block_waits next free ran, ?_, ?_, ?_⟩
          · rw [callsOf_lock, calls, readAct, WebSocketManager.handleRead, found]
            simp only [if_neg (not_lt.mpr short), fault]
            rfl
          · exact fun _ => follow_of_run ran
          · intro calm
            rw [waits.mp rfl] at calm
            cases calm
        · rw [fault, resultOf_of_ne _ locked] at ran
          have calm : asks ((info.recv_buf ++ buf).length + 1) (info.recv_buf ++ buf) = false := by
            rw [Bool.eq_false_iff]
            intro asked
            rw [waits.mpr asked] at fault
            exact locked (Option.some.inj fault).symm
          obtain ⟨none_asked, none_moved⟩ := quiet calm
          refine ⟨_, _, _, block_throws next free ran, ?_, ?_, ?_⟩
          · rw [callsOf_lock, calls, readAct, handleRead_faults found short fault locked]
          · rw [calm]
            intro never
            cases never
          · intro _
            refine ⟨none_asked, none_moved, ?_, fun running => by cases running⟩
            rw [follow_of_run ran]
            exact Option.some_ne_none _

end WebSocketLocks

end Illuminator
