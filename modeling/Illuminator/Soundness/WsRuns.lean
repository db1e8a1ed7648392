import Illuminator.Soundness.WsSubscriptions

/-! # Runs of the page's WebSocket manager

One socket for a key, every message to every handler once and nothing left behind its last handler, in every run whose
events meet the condition. A `subscribe` that finds its key between two sockets leads to two live ones, and a second
call of an unsubscribe function takes down a later subscription of its key.
-/

namespace Illuminator

namespace WsManager

open Manager

variable {K H D : Type} {s t : Manager K H D} {key : K} {id : ℕ}

/-- What is to hold of the state before an event: a subscription that is there already has a live socket, the last
handler goes from the subscription that the key has, if it has one, and messages are parsed and taken. -/
def meets [DecidableEq K] [DecidableEq H] (s : Manager K H D) : Event K H D → Bool
  | .subscribe key _ _ => (s.subs key).all fun id => ¬ s.idle id
  | .unsubscribe index => s.unsubscribes[index]?.all fun u =>
      (s.records u.sub).handlers.erase u.handler ≠ [] || s.subs u.key = none || s.subs u.key = some u.sub
  | .message socket data throws => data.isSome && (s.sockets socket).all fun ws =>
      (s.records ws.sub).handlers.all fun handler => ¬ throws handler
  | _ => true

/-- An event whose condition is met. -/
def careful [DecidableEq K] [DecidableEq H] (s : Manager K H D) (e : Event K H D) : Option (Manager K H D) :=
  if meets s e then step s e else none

/-- At most one socket of a key is connecting or open. -/
def OneSocket (s : Manager K H D) : Prop :=
  ∀ i j first second, s.sockets i = some first → s.sockets j = some second → first.readyState.Live →
    second.readyState.Live → first.key = second.key → i = j

/-- A key without handlers has neither a live socket nor a pending timer. -/
def NothingLeft (s : Manager K H D) : Prop :=
  ∀ key, handlersOf s key = [] →
    (∀ j ws, s.sockets j = some ws → ws.key = key → ¬ ws.readyState.Live) ∧ Quiet s key

/-- A message goes to every handler of its key once. A call of an unsubscribe function takes away its handler alone,
nothing of other keys, and no socket or timer while the key has other handlers. -/
def EventRight (s : Manager K H D) : Event K H D → Manager K H D → Prop
  | .message socket data _, t => ∃ ws d, s.sockets socket = some ws ∧ data = some d ∧ (handlersOf s ws.key).Nodup ∧
      t.calls = s.calls ++ (handlersOf s ws.key).map fun handler => (handler, d)
  | .unsubscribe index, t => ∃ u, s.unsubscribes[index]? = some u ∧
      (∀ key handler, handler ∈ handlersOf s key → handler ∈ handlersOf t key ∨ key = u.key ∧ handler = u.handler) ∧
      (∀ j ws, s.sockets j = some ws → ws.key ≠ u.key → t.sockets j = some ws) ∧
      (∀ j timer, s.timers j = some timer → timer.key ≠ u.key → t.timers j = some timer) ∧
      ((∃ handler ∈ handlersOf s u.key, handler ≠ u.handler) → t.sockets = s.sockets ∧ t.timers = s.timers)
  | _, _ => True

/-- A key has a subscription only while it has handlers. -/
def Occupied (s : Manager K H D) : Prop := ∀ key id, s.subs key = some id → (s.records id).handlers ≠ []

/-- What every event keeps. -/
def Intact (s : Manager K H D) : Prop := Sound s ∧ Occupied s

/-! ## States -/

theorem handlersOf_eq (current : s.subs key = some id) : handlersOf s key = (s.records id).handlers := by
  rw [handlersOf, current]

theorem oneSocket (sound : Sound s) : OneSocket s := by
  intro i j first second here there live alive same
  have unclosed {ws : Socket K} (live : ws.readyState.Live) : ws.readyState ≠ .closed := by
    rcases live with known | known <;> rw [known] <;> decide
  have left := sound.live i first here live
  have right := sound.live j second there alive
  have own := sound.attached i first here (unclosed live) left
  have other := sound.attached j second there (unclosed alive) right
  rw [same, right] at left
  rw [← Option.some.inj left, other] at own
  exact (Option.some.inj own).symm

theorem nothingLeft (sound : Sound s) (occupied : Occupied s) : NothingLeft s := by
  intro key empty
  have absent : s.subs key = none := by
    cases known : s.subs key with
    | none => rfl
    | some id =>
      rw [handlersOf_eq known] at empty
      exact absurd empty (occupied key id known)
  refine ⟨?_, ?_⟩
  · intro j ws there same live
    have current := sound.live j ws there live
    rw [same, absent] at current
    cases current
  · intro t timer there pending same
    obtain ⟨id, current, _⟩ := sound.waiting t timer there pending
    rw [same, absent] at current
    cases current

theorem sound_initial : Sound ({} : Manager K H D) := by
  constructor <;> intros <;> first | rfl | exact List.nodup_nil | contradiction

/-! ## Events -/

/-- `connect` changes neither handlers nor the map. -/
theorem connect_keeps (s : Manager K H D) (key : K) (constructs : Bool) : (s.connect key constructs).subs = s.subs ∧
    (s.connect key constructs).unsubscribes = s.unsubscribes ∧
    ∀ id, ((s.connect key constructs).records id).handlers = (s.records id).handlers := by
  rw [connect]
  split
  · exact ⟨rfl, rfl, fun _ => rfl⟩
  · split_ifs
    · exact ⟨rfl, rfl, handlers_update (by rfl)⟩
    · exact ⟨rfl, rfl, handlers_update (by rfl)⟩

theorem sound_connect (sound : Sound s) (current : s.subs key = some id) (free : (s.records id).ws = none)
    (quiet : Quiet s key) (constructs : Bool) : Sound (s.connect key constructs) := by
  rw [connect, current]
  cases constructs with
  | true => exact sound_socket sound current free quiet
  | false => exact sound_reconnectLater sound current free quiet

/-- `connectIdle` changes neither handlers nor the map. -/
theorem connectIdle_keeps (s : Manager K H D) (key : K) (id : ℕ) (constructs : Bool) :
    (s.connectIdle key id constructs).subs = s.subs ∧
      ∀ other, ((s.connectIdle key id constructs).records other).handlers = (s.records other).handlers := by
  rw [connectIdle]
  split_ifs
  · exact ⟨(connect_keeps s key constructs).1, (connect_keeps s key constructs).2.2⟩
  · exact ⟨rfl, fun _ => rfl⟩

theorem sound_closeSocket (sound : Sound s) (j : ℕ) : Sound (s.closeSocket j) := by
  rw [closeSocket]
  split
  · exact sound
  · next ws there =>
    split_ifs with live
    · refine sound_setReady sound there ?_ ?_
      · rcases live with known | known <;> rw [known] <;> decide
      · exact fun alive => absurd alive (by decide)
    · exact sound

theorem closeSocket_keeps (s : Manager K H D) (j : ℕ) : (s.closeSocket j).subs = s.subs ∧
    (s.closeSocket j).records = s.records ∧ (s.closeSocket j).timers = s.timers ∧
    ∀ i ws, (s.closeSocket j).sockets i = some ws → ws.readyState.Live → i ≠ j ∧ s.sockets i = some ws := by
  rw [closeSocket]
  split
  · next absent =>
    refine ⟨rfl, rfl, rfl, fun i ws there _ => ⟨?_, there⟩⟩
    rintro rfl
    rw [absent] at there
    cases there
  · next ws there =>
    split_ifs with live
    · refine ⟨rfl, rfl, rfl, fun i other known alive => ?_⟩
      rw [setReady, there] at known
      change Function.update s.sockets j (some { ws with readyState := .closing }) i = some other at known
      rw [Function.update_apply] at known
      split_ifs at known with same
      · rw [← Option.some.inj known] at alive
        change ReadyState.closing.Live at alive
        exact absurd alive (by decide)
      · exact ⟨same, known⟩
    · refine ⟨rfl, rfl, rfl, fun i other known alive => ⟨?_, known⟩⟩
      rintro rfl
      rw [there] at known
      exact live (Option.some.inj known ▸ alive)

theorem closeSocket_other (s : Manager K H D) {i j : ℕ} (different : i ≠ j) :
    (s.closeSocket j).sockets i = s.sockets i := by
  rw [closeSocket]
  split
  · rfl
  · split_ifs
    · exact Function.update_of_ne different _ _
    · rfl

/-- The timer of a key's subscription is cleared, and the key has no other one. -/
theorem clearTimeout_spec (sound : Sound s) (current : s.subs key = some id) :
    let t := s.clearTimeout (s.records id).reconnectTimer
    Sound t ∧ Quiet t key ∧ t.subs = s.subs ∧ t.records = s.records ∧ t.sockets = s.sockets := by
  cases armed : (s.records id).reconnectTimer with
  | none =>
    refine ⟨sound, ?_, rfl, rfl, rfl⟩
    intro t timer there pending same
    obtain ⟨other, known, _, own⟩ := sound.waiting t timer there pending
    rw [same, current] at known
    rw [← Option.some.inj known, armed] at own
    cases own
  | some last =>
    refine ⟨sound_clearTimer sound last, ?_, rfl, rfl, rfl⟩
    intro t timer there pending same
    change Function.update s.timers last _ t = some timer at there
    rw [Function.update_apply] at there
    split_ifs at there with here
    · obtain ⟨before, _, rfl⟩ := Option.map_eq_some_iff.mp there
      cases pending
    · obtain ⟨other, known, _, own⟩ := sound.waiting t timer there pending
      rw [same, current] at known
      rw [← Option.some.inj known, armed] at own
      exact here (Option.some.inj own).symm

/-- The socket of a key's subscription is closed, and the key has no other live one. -/
theorem closeOwn_spec (sound : Sound s) (current : s.subs key = some id) :
    let t := s.closeOwn (s.records id).ws
    Sound t ∧ (∀ j ws, t.sockets j = some ws → ws.key = key → ¬ ws.readyState.Live) ∧ t.subs = s.subs ∧
      t.records = s.records ∧ t.timers = s.timers := by
  have own {j : ℕ} {ws : Socket K} (there : s.sockets j = some ws) (same : ws.key = key)
      (live : ws.readyState.Live) : (s.records id).ws = some j := by
    have known := sound.live j ws there live
    have unclosed : ws.readyState ≠ .closed := by
      rcases live with state | state <;> rw [state] <;> decide
    have attached := sound.attached j ws there unclosed known
    rw [same, current] at known
    rw [← Option.some.inj known] at attached
    exact attached
  cases socket : (s.records id).ws with
  | none =>
    refine ⟨sound, ?_, rfl, rfl, rfl⟩
    intro j ws there same live
    have attached := own there same live
    rw [socket] at attached
    cases attached
  | some j =>
    obtain ⟨subs, records, timers, lives⟩ := closeSocket_keeps s j
    refine ⟨sound_closeSocket sound j, ?_, subs, records, timers⟩
    intro i ws there same live
    obtain ⟨different, before⟩ := lives i ws there live
    have attached := own before same live
    rw [socket] at attached
    exact different (Option.some.inj attached).symm

theorem called_all {throws : H → Bool} {handlers : List H} (taken : ∀ handler ∈ handlers, throws handler = false) :
    called throws handlers = handlers := by
  induction handlers with
  | nil => rfl
  | cons handler rest ih =>
    obtain ⟨first, others⟩ := List.forall_mem_cons.mp taken
    rw [called, first, if_neg Bool.false_ne_true, ih others]

section Handlers

variable [DecidableEq H]

theorem addHandler_spec (sound : Sound s) (current : s.subs key = some id) (handler : H) :
    Sound (s.addHandler id handler) ∧ (((s.addHandler id handler).records id).handlers ≠ []) ∧
      ∀ other, other ≠ id → (s.addHandler id handler).records other = s.records other := by
  have distinct := sound.distinct id
  refine ⟨?_, ?_, ?_⟩
  · refine sound_handlers sound (fun handlers => if handler ∈ handlers then handlers else handlers ++ [handler]) ?_
      fun gone => absurd current (gone key)
    split_ifs with there
    · exact distinct
    · rw [List.nodup_append]
      refine ⟨distinct, List.pairwise_singleton _ _, ?_⟩
      rintro first inside last member rfl
      exact there (List.mem_singleton.mp member ▸ inside)
  · rw [addHandler, records_modify, if_pos rfl]
    change (if handler ∈ (s.records id).handlers then _ else _) ≠ []
    split_ifs with there
    · exact List.ne_nil_of_mem there
    · exact List.append_ne_nil_of_right_ne_nil _ (List.cons_ne_nil _ _)
  · intro other different
    rw [addHandler, records_modify, if_neg different]

/-- A handler for a subscription, which has a live socket, or neither a socket nor a timer. -/
theorem kept_addHandler (sound : Sound s) (current : s.subs key = some id)
    (others : ∀ key other, s.subs key = some other → other ≠ id → (s.records other).handlers ≠ [])
    (ready : s.idle id = false ∨ (s.records id).ws = none ∧ Quiet s key) (handler : H) (constructs : Bool) :
    let t := (s.addHandler id handler).connectIdle key id constructs
    Sound { t with unsubscribes := t.unsubscribes ++ [⟨key, id, handler⟩] } ∧
      Occupied { t with unsubscribes := t.unsubscribes ++ [⟨key, id, handler⟩] } := by
  intro t
  obtain ⟨changed, filled, same⟩ := addHandler_spec sound current handler
  obtain ⟨subs, handlers⟩ := connectIdle_keeps (s.addHandler id handler) key id constructs
  have ws : ((s.addHandler id handler).records id).ws = (s.records id).ws := ws_update (by rfl) id
  have whole : Sound t := by
    rcases ready with live | ⟨free, quiet⟩
    · have still : (s.addHandler id handler).idle id = false := by
        rw [idle, ws]
        exact live
      have unchanged : t = s.addHandler id handler := by
        change (s.addHandler id handler).connectIdle key id constructs = _
        rw [connectIdle, still, if_neg Bool.false_ne_true]
      rw [unchanged]
      exact changed
    · have idles : (s.addHandler id handler).idle id = true := by
        rw [idle, ws, free]
        rfl
      have connected : t = (s.addHandler id handler).connect key constructs := by
        change (s.addHandler id handler).connectIdle key id constructs = _
        rw [connectIdle, idles, if_pos rfl]
      rw [connected]
      exact sound_connect changed current (ws.trans free) quiet constructs
  have known : t.subs key = some id := (congrFun subs key).trans current
  refine ⟨sound_returned whole known handler, ?_⟩
  intro other found there
  change t.subs other = some found at there
  change (t.records found).handlers ≠ []
  rw [handlers]
  rw [subs] at there
  by_cases here : found = id
  · rw [here]
    exact filled
  · rw [same found here]
    exact others other found there here

/-- Taking away a handler. -/
theorem sound_deleteHandler (sound : Sound s) (id : ℕ) (handler : H) : Sound (s.deleteHandler id handler) := by
  refine sound_handlers sound (·.erase handler) ((sound.distinct id).erase handler) ?_
  intro gone
  rw [sound.vacated id gone]
  rfl

theorem records_deleteHandler (s : Manager K H D) (id other : ℕ) (handler : H) :
    ((s.deleteHandler id handler).records other).handlers =
      if other = id then (s.records id).handlers.erase handler else (s.records other).handlers := by
  rw [deleteHandler, records_modify]
  split_ifs <;> rfl

end Handlers

/-- A closed socket is detached from its subscription, which has no other one that is not closed. -/
private theorem sound_closed (sound : Sound s) {j : ℕ} {ws : Socket K} (there : s.sockets j = some ws)
    (unclosed : ws.readyState ≠ .closed) :
    Sound ((s.setReady j .closed).modify ws.sub fun sub => { sub with ws := none }) := by
  have ended : Sound (s.setReady j .closed) :=
    sound_setReady sound there unclosed fun alive => absurd alive (by decide)
  refine sound_detach ended ?_
  intro i other known sub current
  rw [setReady, there] at known
  change Function.update s.sockets j (some { ws with readyState := .closed }) i = some other at known
  rw [Function.update_apply] at known
  split_ifs at known with same
  · rw [← Option.some.inj known]
  · by_contra open_
    change s.subs other.key = some ws.sub at current
    have keys : other.key = ws.key := sound.owner j ws other.key there current
    have attached := sound.attached i other known open_ (sub.symm ▸ current)
    rw [sub, sound.attached j ws there unclosed (keys ▸ current)] at attached
    exact same (Option.some.inj attached).symm

/-- A subscription with handlers is the one that the key of its sockets has. -/
private theorem current_of_handlers (sound : Sound s) {j : ℕ} {ws : Socket K} (there : s.sockets j = some ws)
    (handled : (s.records ws.sub).handlers ≠ []) : s.subs ws.key = some ws.sub := by
  by_contra other
  refine handled (sound.vacated ws.sub ?_)
  intro key known
  rw [sound.owner j ws key there known] at known
  exact other known

variable [DecidableEq K]

/-- The last handler's subscription goes with its socket and its timer. -/
theorem sound_disconnect (sound : Sound s) (current : s.subs key = some id) (empty : (s.records id).handlers = []) :
    Sound (s.disconnect key) := by
  obtain ⟨cleared, quiet, subsM, recordsM, _⟩ := clearTimeout_spec sound current
  set m := s.clearTimeout (s.records id).reconnectTimer
  have still : m.subs key = some id := by rw [subsM, current]
  obtain ⟨closed, dead, subsN, recordsN, timersN⟩ := closeOwn_spec cleared still
  rw [recordsM] at closed dead subsN recordsN timersN
  set n := m.closeOwn (s.records id).ws
  have known : n.subs key = some id := by rw [subsN, still]
  have forgotten : Sound { n with subs := Function.update n.subs key none } := by
    refine sound_forget closed known (by rw [recordsN, empty]) dead ?_
    intro t timer there pending
    exact quiet t timer (timersN ▸ there) pending
  have whole : s.disconnect key =
      ({ n with subs := Function.update n.subs key none } : Manager K H D).modify id fun sub => { sub with ws := none } := by
    rw [disconnect, current]
    rfl
  rw [whole]
  refine sound_detach forgotten ?_
  intro j socket there sub found
  change Function.update n.subs key none socket.key = some id at found
  rw [Function.update_apply] at found
  split_ifs at found with same
  exact absurd (closed.apart _ _ _ found known) same

theorem disconnect_keeps (current : s.subs key = some id) : (s.disconnect key).subs = Function.update s.subs key none ∧
    ∀ other, ((s.disconnect key).records other).handlers = (s.records other).handlers := by
  have timeout (timer : Option ℕ) : (s.clearTimeout timer).subs = s.subs ∧ (s.clearTimeout timer).records = s.records := by
    cases timer <;> exact ⟨rfl, rfl⟩
  have close (m : Manager K H D) (ws : Option ℕ) : (m.closeOwn ws).subs = m.subs ∧ (m.closeOwn ws).records = m.records := by
    cases ws with
    | none => exact ⟨rfl, rfl⟩
    | some j =>
      obtain ⟨subs, records, _⟩ := closeSocket_keeps m j
      exact ⟨subs, records⟩
  obtain ⟨subsM, recordsM⟩ := timeout (s.records id).reconnectTimer
  obtain ⟨subsN, recordsN⟩ := close (s.clearTimeout (s.records id).reconnectTimer) (s.records id).ws
  refine ⟨?_, ?_⟩
  · rw [disconnect, current, ← subsM, ← subsN]
  · intro other
    have kept : ((s.disconnect key).records other).handlers =
        (((s.clearTimeout (s.records id).reconnectTimer).closeOwn (s.records id).ws).records other).handlers := by
      rw [disconnect, current]
      exact handlers_update (by rfl) other
    rw [kept, recordsN, recordsM]

/-- Only the key's own socket is closed and only its own timer cleared. -/
theorem disconnect_others (sound : Sound s) (current : s.subs key = some id) :
    (∀ j ws, s.sockets j = some ws → ws.key ≠ key → (s.disconnect key).sockets j = some ws) ∧
      ∀ j timer, s.timers j = some timer → timer.key ≠ key → (s.disconnect key).timers j = some timer := by
  obtain ⟨_, _, _, _, sockets⟩ := clearTimeout_spec sound current
  set m := s.clearTimeout (s.records id).reconnectTimer with cleared
  have left : (s.disconnect key).sockets = (m.closeOwn (s.records id).ws).sockets ∧
      (s.disconnect key).timers = (m.closeOwn (s.records id).ws).timers := by
    rw [disconnect, current]
    exact ⟨rfl, rfl⟩
  rw [left.1, left.2]
  refine ⟨?_, ?_⟩
  · intro j ws there other
    cases socket : (s.records id).ws with
    | none => exact (congrFun sockets j).trans there
    | some own =>
      obtain ⟨mine, known, same⟩ := sound.ownSocket key id own current socket
      have different : j ≠ own := by
        rintro rfl
        rw [there] at known
        exact other (Option.some.inj known ▸ same)
      exact (closeSocket_other m different).trans ((congrFun sockets j).trans there)
  · intro j timer there other
    have closed : (m.closeOwn (s.records id).ws).timers = m.timers := by
      cases (s.records id).ws with
      | none => rfl
      | some own => exact (closeSocket_keeps m own).2.2.1
    rw [closed, cleared]
    cases armed : (s.records id).reconnectTimer with
    | none => exact there
    | some last =>
      obtain ⟨mine, known, same⟩ := sound.ownTimer key id last current armed
      have different : j ≠ last := by
        rintro rfl
        rw [there] at known
        exact other (Option.some.inj known ▸ same)
      exact (Function.update_of_ne different _ _).trans there

variable [DecidableEq H]

theorem kept_subscribe {handler : H} {constructs : Bool} (sound : Sound s) (occupied : Occupied s)
    (met : meets s (Event.subscribe key handler constructs : Event K H D) = true)
    (stepped : step s (.subscribe key handler constructs) = some t) : Sound t ∧ Occupied t := by
  cases known : s.subs key with
  | some id =>
    have live : s.idle id = false := by
      rw [meets, known] at met
      simpa using met
    rw [step, ensure, known] at stepped
    rw [← Option.some.inj stepped]
    exact kept_addHandler sound known (fun key other there _ => occupied key other there) (.inl live) handler constructs
  | none =>
    rw [step, ensure, known] at stepped
    rw [← Option.some.inj stepped]
    have made := sound_ensure sound known
    refine kept_addHandler made (Function.update_self ..) ?_ (.inr ⟨?_, ?_⟩) handler constructs
    · intro other found there different
      change Function.update s.subs key (some s.next) other = some found at there
      change (Function.update s.records s.next {} found).handlers ≠ []
      rw [Function.update_apply] at there
      rw [Function.update_apply, if_neg different]
      split_ifs at there
      · exact absurd (Option.some.inj there).symm different
      · exact occupied other found there
    · change (Function.update s.records s.next {} s.next).ws = none
      rw [Function.update_self]
    · intro timer armed there pending same
      obtain ⟨id, current, _⟩ := sound.waiting timer armed there pending
      rw [same, known] at current
      cases current

/-- Whose handler a call takes away: a subscription keeps others, the key's own loses its last one, or nothing is left of
it and its key has no other. -/
theorem unsubscribe_cases (sound : Sound s) {index : ℕ} (met : meets s (Event.unsubscribe index : Event K H D) = true)
    (stepped : step s (.unsubscribe index) = some t) : ∃ u, s.unsubscribes[index]? = some u ∧
      ((s.subs u.key = some u.sub ∧ (s.records u.sub).handlers.erase u.handler ≠ [] ∧
          t = s.deleteHandler u.sub u.handler) ∨
        (s.subs u.key = some u.sub ∧ (s.records u.sub).handlers.erase u.handler = [] ∧
          t = (s.deleteHandler u.sub u.handler).disconnect u.key) ∨
        (s.subs u.key = none ∧ (∀ key, s.subs key ≠ some u.sub) ∧ t = s.deleteHandler u.sub u.handler)) := by
  rw [step, Option.map_eq_some_iff] at stepped
  obtain ⟨u, returned, result⟩ := stepped
  refine ⟨u, returned, ?_⟩
  have left : ((s.deleteHandler u.sub u.handler).records u.sub).handlers =
      (s.records u.sub).handlers.erase u.handler := by
    rw [deleteHandler, records_modify, if_pos rfl]
  simp only [left] at result
  have own (key : K) (current : s.subs key = some u.sub) : s.subs u.key = some u.sub := by
    rw [← sound.closure u (List.mem_of_getElem? returned) key current]
    exact current
  rw [meets, returned] at met
  simp only [Option.all_some, Bool.or_eq_true, decide_eq_true_eq, ne_eq] at met
  split_ifs at result with empty
  · rcases met with (filled | gone) | current
    · exact absurd empty filled
    · refine .inr (.inr ⟨gone, ?_, ?_⟩)
      · intro key current
        rw [own key current] at gone
        cases gone
      · have known : (s.deleteHandler u.sub u.handler).subs u.key = none := gone
        rw [← result, disconnect, known]
    · exact .inr (.inl ⟨current, empty, result.symm⟩)
  · refine .inl ⟨?_, empty, result.symm⟩
    by_contra other
    apply empty
    rw [sound.vacated u.sub fun key current => other (own key current)]
    rfl

theorem kept_unsubscribe (sound : Sound s) (occupied : Occupied s) {index : ℕ}
    (met : meets s (Event.unsubscribe index : Event K H D) = true)
    (stepped : step s (.unsubscribe index) = some t) : Sound t ∧ Occupied t := by
  obtain ⟨u, _, ⟨current, filled, rfl⟩ | ⟨current, empty, rfl⟩ | ⟨_, gone, rfl⟩⟩ := unsubscribe_cases sound met stepped
  · refine ⟨sound_deleteHandler sound u.sub u.handler, ?_⟩
    intro key id known
    rw [records_deleteHandler]
    split_ifs
    · exact filled
    · exact occupied key id known
  · have known : (s.deleteHandler u.sub u.handler).subs u.key = some u.sub := current
    have vacant : ((s.deleteHandler u.sub u.handler).records u.sub).handlers = [] := by
      rw [records_deleteHandler, if_pos rfl, empty]
    obtain ⟨subs, handlers⟩ := disconnect_keeps known
    refine ⟨sound_disconnect (sound_deleteHandler sound u.sub u.handler) known vacant, ?_⟩
    intro key id there
    rw [subs, Function.update_apply] at there
    split_ifs at there with same
    have different : id ≠ u.sub := by
      rintro rfl
      exact same (sound.apart _ _ _ there current)
    rw [handlers, records_deleteHandler, if_neg different]
    exact occupied key id there
  · refine ⟨sound_deleteHandler sound u.sub u.handler, ?_⟩
    intro key id known
    have different : id ≠ u.sub := by
      rintro rfl
      exact gone key known
    rw [records_deleteHandler, if_neg different]
    exact occupied key id known

theorem kept_opens (sound : Sound s) (occupied : Occupied s) {j : ℕ}
    (stepped : step s (Event.opens j : Event K H D) = some t) : Sound t ∧ Occupied t := by
  rw [step] at stepped
  cases there : s.sockets j with
  | none =>
    rw [there] at stepped
    cases stepped
  | some ws =>
    simp only [there] at stepped
    split_ifs at stepped with connecting
    obtain rfl := Option.some.inj stepped
    have opened : Sound (s.setReady j .open_) := by
      refine sound_setReady sound there ?_ fun _ => .inl connecting
      rw [connecting]
      decide
    refine ⟨opened.modify (fun _ => rfl) (fun _ => rfl) fun _ => rfl, ?_⟩
    intro key id known
    rw [records_modify]
    split_ifs with same
    · exact same ▸ occupied key id known
    · exact occupied key id known

theorem kept_message (sound : Sound s) (occupied : Occupied s) {j : ℕ} {data : Option D} {throws : H → Bool}
    (stepped : step s (.message j data throws) = some t) : Sound t ∧ Occupied t := by
  rw [step] at stepped
  cases there : s.sockets j with
  | none =>
    rw [there] at stepped
    cases stepped
  | some ws =>
    simp only [there] at stepped
    split_ifs at stepped with open_
    cases data with
    | none =>
      obtain rfl := Option.some.inj stepped
      exact ⟨sound, occupied⟩
    | some d =>
      obtain rfl := Option.some.inj stepped
      exact ⟨sound_calls sound _, occupied⟩

theorem kept_error (sound : Sound s) (occupied : Occupied s) {j : ℕ}
    (stepped : step s (Event.error j : Event K H D) = some t) : Sound t ∧ Occupied t := by
  obtain ⟨ws, _, rfl⟩ := Option.map_eq_some_iff.mp stepped
  obtain ⟨subs, records, _⟩ := closeSocket_keeps s j
  refine ⟨sound_closeSocket sound j, ?_⟩
  intro key id known
  rw [subs] at known
  rw [records]
  exact occupied key id known

theorem kept_close (sound : Sound s) (occupied : Occupied s) {j : ℕ}
    (stepped : step s (Event.close j : Event K H D) = some t) : Sound t ∧ Occupied t := by
  rw [step] at stepped
  cases there : s.sockets j with
  | none =>
    rw [there] at stepped
    cases stepped
  | some ws =>
    simp only [there] at stepped
    split_ifs at stepped with closed
    obtain rfl := Option.some.inj stepped
    have detached := sound_closed sound there closed
    have handlers (id : ℕ) : (((s.setReady j .closed).modify ws.sub fun sub => { sub with ws := none }).records id).handlers =
        (s.records id).handlers := handlers_update (by rfl) id
    rw [onclose]
    split_ifs with empty
    · refine ⟨detached, ?_⟩
      intro key id known
      rw [handlers]
      exact occupied key id known
    · rw [handlers] at empty
      have current := current_of_handlers sound there empty
      have free : (((s.setReady j .closed).modify ws.sub fun sub => { sub with ws := none }).records ws.sub).ws = none := by
        rw [records_modify, if_pos rfl]
      have quiet : Quiet ((s.setReady j .closed).modify ws.sub fun sub => { sub with ws := none }) ws.key := by
        intro timer armed known pending same
        obtain ⟨id, found, unowned, _⟩ := sound.waiting timer armed known pending
        rw [same, current] at found
        rw [← Option.some.inj found, sound.attached j ws there closed current] at unowned
        cases unowned
      refine ⟨sound_reconnectLater detached current free quiet, ?_⟩
      intro key id known
      have kept : (((s.setReady j .closed).modify ws.sub fun sub => { sub with ws := none }).reconnectLater ws.sub
          ws.key |>.records id).handlers = (s.records id).handlers :=
        (handlers_update (by rfl) id).trans (handlers id)
      rw [kept]
      exact occupied key id known

theorem kept_fires (sound : Sound s) (occupied : Occupied s) {j : ℕ} {constructs : Bool}
    (stepped : step s (Event.fires j constructs : Event K H D) = some t) : Sound t ∧ Occupied t := by
  rw [step] at stepped
  cases there : s.timers j with
  | none =>
    rw [there] at stepped
    cases stepped
  | some timer =>
    simp only [there] at stepped
    split_ifs at stepped with pending
    obtain rfl := Option.some.inj stepped
    obtain ⟨id, current, free, own⟩ := sound.waiting j timer there pending
    have quiet : Quiet (s.clearTimer j) timer.key := by
      intro i other armed still same
      change Function.update s.timers j _ i = some other at armed
      rw [Function.update_apply] at armed
      split_ifs at armed with here
      · obtain ⟨before, _, rfl⟩ := Option.map_eq_some_iff.mp armed
        cases still
      · obtain ⟨found, known, _, owned⟩ := sound.waiting i other armed still
        rw [same, current] at known
        rw [← Option.some.inj known, own] at owned
        exact here (Option.some.inj owned).symm
    obtain ⟨subs, _, handlers⟩ := connect_keeps (s.clearTimer j) timer.key constructs
    refine ⟨sound_connect (sound_clearTimer sound j) current free quiet constructs, ?_⟩
    intro key other known
    rw [handlers]
    rw [subs] at known
    exact occupied key other known

/-! ## Runs -/

theorem kept (intact : Intact s) {e : Event K H D} (stepped : careful s e = some t) : Intact t := by
  obtain ⟨sound, occupied⟩ := intact
  rw [careful] at stepped
  split_ifs at stepped with met
  cases e with
  | subscribe key handler constructs => exact kept_subscribe sound occupied met stepped
  | unsubscribe index => exact kept_unsubscribe sound occupied met stepped
  | opens j => exact kept_opens sound occupied stepped
  | message j data throws => exact kept_message sound occupied stepped
  | error j => exact kept_error sound occupied stepped
  | close j => exact kept_close sound occupied stepped
  | fires j constructs => exact kept_fires sound occupied stepped

theorem message_right (sound : Sound s) {j : ℕ} {data : Option D} {throws : H → Bool}
    (met : meets s (Event.message j data throws : Event K H D) = true)
    (stepped : step s (.message j data throws) = some t) : EventRight s (.message j data throws) t := by
  rw [step] at stepped
  cases there : s.sockets j with
  | none =>
    rw [there] at stepped
    cases stepped
  | some ws =>
    rw [meets, there, Bool.and_eq_true, Option.all_some] at met
    obtain ⟨parsed, taken⟩ := met
    obtain ⟨d, rfl⟩ := Option.isSome_iff_exists.mp parsed
    simp only [there] at stepped
    split_ifs at stepped with open_
    obtain rfl := Option.some.inj stepped
    have current := sound.live j ws there (.inr open_)
    have all : called throws (s.records ws.sub).handlers = (s.records ws.sub).handlers := by
      refine called_all fun handler member => ?_
      simpa using List.all_eq_true.mp taken handler member
    refine ⟨ws, d, there, rfl, ?_, ?_⟩
    · rw [handlersOf_eq current]
      exact sound.distinct ws.sub
    · rw [handlersOf_eq current]
      change s.calls ++ _ = _
      rw [all]

theorem unsubscribe_right (sound : Sound s) {index : ℕ} (met : meets s (Event.unsubscribe index : Event K H D) = true)
    (stepped : step s (.unsubscribe index) = some t) : EventRight s (.unsubscribe index) t := by
  have remains (sub : ℕ) (handler : H) {key : K} {id : ℕ} (known : s.subs key = some id) :
      handlersOf (s.deleteHandler sub handler) key =
        if id = sub then (s.records sub).handlers.erase handler else (s.records id).handlers := by
    rw [handlersOf_eq (s := s.deleteHandler sub handler) known, records_deleteHandler]
  have listed {key : K} {handler : H} (member : handler ∈ handlersOf s key) :
      ∃ id, s.subs key = some id ∧ handler ∈ (s.records id).handlers := by
    cases known : s.subs key with
    | none =>
      rw [handlersOf, known] at member
      exact absurd member List.not_mem_nil
    | some id => exact ⟨id, rfl, handlersOf_eq known ▸ member⟩
  obtain ⟨u, returned, ⟨current, filled, rfl⟩ | ⟨current, empty, rfl⟩ | ⟨absent, gone, rfl⟩⟩ :=
    unsubscribe_cases sound met stepped
  · refine ⟨u, returned, ?_, fun _ _ there _ => there, fun _ _ there _ => there, fun _ => ⟨rfl, rfl⟩⟩
    intro key handler member
    obtain ⟨id, known, inside⟩ := listed member
    rw [remains u.sub u.handler known]
    split_ifs with own
    · subst own
      by_cases same : handler = u.handler
      · exact .inr ⟨sound.apart _ _ _ known current, same⟩
      · exact .inl ((List.mem_erase_of_ne same).mpr inside)
    · exact .inl inside
  · have last {handler : H} (inside : handler ∈ (s.records u.sub).handlers) : handler = u.handler := by
      by_contra other
      have left := (List.mem_erase_of_ne other).mpr inside
      rw [empty] at left
      exact absurd left List.not_mem_nil
    have known : (s.deleteHandler u.sub u.handler).subs u.key = some u.sub := current
    obtain ⟨sockets, timers⟩ := disconnect_others (sound_deleteHandler sound u.sub u.handler) known
    obtain ⟨subs, handlers⟩ := disconnect_keeps known
    refine ⟨u, returned, ?_, sockets, timers, ?_⟩
    · intro key handler member
      obtain ⟨id, there, inside⟩ := listed member
      by_cases own : key = u.key
      · rw [own, current] at there
        obtain rfl := Option.some.inj there
        exact .inr ⟨own, last inside⟩
      · have different : id ≠ u.sub := by
          rintro rfl
          exact own (sound.apart _ _ _ there current)
        have kept : ((s.deleteHandler u.sub u.handler).disconnect u.key).subs key = some id := by
          rw [subs, Function.update_apply, if_neg own]
          exact there
        rw [handlersOf_eq kept, handlers, records_deleteHandler, if_neg different]
        exact .inl inside
    · rintro ⟨handler, member, other⟩
      rw [handlersOf_eq current] at member
      exact absurd (last member) other
  · refine ⟨u, returned, ?_, fun _ _ there _ => there, fun _ _ there _ => there, fun _ => ⟨rfl, rfl⟩⟩
    intro key handler member
    obtain ⟨id, known, inside⟩ := listed member
    have different : id ≠ u.sub := by
      rintro rfl
      exact gone key known
    rw [remains u.sub u.handler known, if_neg different]
    exact .inl inside

/-- In every run whose events meet the condition a key has at most one live socket, nothing is left behind its last
handler, every message goes to every handler once, and a call of an unsubscribe function takes away its handler alone. -/
theorem subscriptions_sound {history : List (Event K H D)} (run : Actions.Run careful {} history s) :
    OneSocket s ∧ NothingLeft s ∧ ∀ e t, careful s e = some t → EventRight s e t := by
  have intact : Intact s := run.keeps (fun before stepped => kept before stepped) ⟨sound_initial, fun _ _ known => by cases known⟩
  obtain ⟨sound, occupied⟩ := intact
  refine ⟨oneSocket sound, nothingLeft sound occupied, ?_⟩
  intro e t stepped
  rw [careful] at stepped
  split_ifs at stepped with met
  cases e with
  | unsubscribe index => exact unsubscribe_right sound met stepped
  | message j data throws => exact message_right sound met stepped
  | subscribe key handler constructs => trivial
  | opens j => trivial
  | error j => trivial
  | close j => trivial
  | fires j constructs => trivial

/-- A subscription from its first socket over a second one to its end. -/
def lifetime : List (Event Unit Bool Unit) :=
  [.subscribe () false true, .opens 1, .message 1 (some ()) fun _ => false, .close 1, .fires 2 true, .unsubscribe 0]

theorem lifetime_possible : (Actions.replay? careful {} lifetime).isSome := by rfl

theorem subscriptions_sound_lifetime : OneSocket ((Actions.replay? careful {} lifetime).get lifetime_possible) ∧
    NothingLeft ((Actions.replay? careful {} lifetime).get lifetime_possible) ∧
    ∀ e t, careful ((Actions.replay? careful {} lifetime).get lifetime_possible) e = some t →
      EventRight ((Actions.replay? careful {} lifetime).get lifetime_possible) e t :=
  subscriptions_sound (Actions.run_of_replay? (Option.some_get lifetime_possible).symm)

/-- A key is subscribed to while its reconnect timer is pending, which fires later. -/
def overlap : List (Event Unit Bool Unit) :=
  [.subscribe () false true, .close 1, .subscribe () true true, .fires 2 true]

theorem overlap_possible : (Actions.replay? step {} overlap).isSome := by rfl

/-- It leaves the sockets 3 and 4 connecting. -/
theorem overlap_doubled : ¬ ∀ (history : List (Event Unit Bool Unit)) (s : Manager Unit Bool Unit),
    Actions.Run step {} history s →
      OneSocket s ∧ NothingLeft s ∧ ∀ e t, step s e = some t → EventRight s e t := by
  intro right
  have run := Actions.run_of_replay? (Option.some_get overlap_possible).symm
  have one := (right overlap _ run).1
  have same := one 3 4 ⟨(), 0, .connecting⟩ ⟨(), 0, .connecting⟩ rfl rfl (by decide) (by decide) rfl
  cases same

end WsManager

end Illuminator
