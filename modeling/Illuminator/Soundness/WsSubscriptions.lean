import Illuminator.Machine.Actions
import Illuminator.Model.WsManager

/-! # Subscriptions of the page's WebSocket manager

A live socket belongs to the subscription that its key has now, which knows no other one, and a pending timer to one
that has no socket. Events keep that as long as `subscribe` finds no subscription between two sockets and no second call
of an unsubscribe function meets a later subscription of its key.
-/

namespace Illuminator

namespace WsManager

open Manager

variable {K H D : Type} {s : Manager K H D}

/-- The handlers that a key has now. -/
def handlersOf (s : Manager K H D) (key : K) : List H :=
  match s.subs key with
  | some id => (s.records id).handlers
  | none => []

/-- What holds between events. -/
structure Sound (s : Manager K H D) : Prop where
  madeSub : ∀ key id, s.subs key = some id → id < s.next
  madeUnsubscribe : ∀ u ∈ s.unsubscribes, u.sub < s.next
  madeSocket : ∀ j ws, s.sockets j = some ws → j < s.next ∧ ws.sub < s.next
  madeTimer : ∀ t, s.next ≤ t → s.timers t = none
  apart : ∀ key other id, s.subs key = some id → s.subs other = some id → key = other
  closure : ∀ u ∈ s.unsubscribes, ∀ key, s.subs key = some u.sub → key = u.key
  owner : ∀ j ws key, s.sockets j = some ws → s.subs key = some ws.sub → key = ws.key
  distinct : ∀ id, (s.records id).handlers.Nodup
  vacated : ∀ id, (∀ key, s.subs key ≠ some id) → (s.records id).handlers = []
  attached : ∀ j ws, s.sockets j = some ws → ws.readyState ≠ .closed → s.subs ws.key = some ws.sub →
    (s.records ws.sub).ws = some j
  live : ∀ j ws, s.sockets j = some ws → ws.readyState.Live → s.subs ws.key = some ws.sub
  waiting : ∀ t timer, s.timers t = some timer → timer.pending = true → ∃ id, s.subs timer.key = some id ∧
    (s.records id).ws = none ∧ (s.records id).reconnectTimer = some t
  ownSocket : ∀ key id j, s.subs key = some id → (s.records id).ws = some j → ∃ ws, s.sockets j = some ws ∧ ws.key = key
  ownTimer : ∀ key id t, s.subs key = some id → (s.records id).reconnectTimer = some t →
    ∃ timer, s.timers t = some timer ∧ timer.key = key

/-- No timer of the key is pending. -/
def Quiet (s : Manager K H D) (key : K) : Prop :=
  ∀ t timer, s.timers t = some timer → timer.pending = true → timer.key ≠ key

/-! ## What one change does -/

section Changes

variable {change : Subscription H → Subscription H} {key : K} {id : ℕ}

theorem records_modify (other : ℕ) :
    (s.modify id change).records other = if other = id then change (s.records id) else s.records other :=
  Function.update_apply ..

section Update

variable {records : ℕ → Subscription H} {sub : Subscription H}

/-- A part of the subscriptions that one of them keeps. -/
theorem kept_update {P : Type} (part : Subscription H → P) (same : part sub = part (records id)) (other : ℕ) :
    part (Function.update records id sub other) = part (records other) := by
  rw [Function.update_apply]
  split_ifs with here
  · rw [same, here]
  · rfl

theorem handlers_update (same : sub.handlers = (records id).handlers) (other : ℕ) :
    (Function.update records id sub other).handlers = (records other).handlers :=
  kept_update Subscription.handlers same other

theorem ws_update (same : sub.ws = (records id).ws) (other : ℕ) :
    (Function.update records id sub other).ws = (records other).ws := kept_update Subscription.ws same other

theorem reconnectTimer_update (same : sub.reconnectTimer = (records id).reconnectTimer) (other : ℕ) :
    (Function.update records id sub other).reconnectTimer = (records other).reconnectTimer :=
  kept_update Subscription.reconnectTimer same other

end Update

/-- A change that concerns neither handlers nor callbacks. -/
theorem Sound.modify (sound : Sound s) (handlers : ∀ sub, (change sub).handlers = sub.handlers)
    (ws : ∀ sub, (change sub).ws = sub.ws) (timer : ∀ sub, (change sub).reconnectTimer = sub.reconnectTimer) :
    Sound (s.modify id change) := { sound with
  distinct other := by
    rw [Manager.modify, handlers_update (handlers _)]
    exact sound.distinct other
  vacated other gone := by
    rw [Manager.modify, handlers_update (handlers _)]
    exact sound.vacated other gone
  attached j socket there unclosed current := by
    rw [Manager.modify, ws_update (ws _)]
    exact sound.attached j socket there unclosed current
  waiting t timer_ there pending := by
    obtain ⟨current, known, free, own⟩ := sound.waiting t timer_ there pending
    exact ⟨current, known, (ws_update (ws _) current).trans free, (reconnectTimer_update (timer _) current).trans own⟩
  ownSocket key_ current j known own := sound.ownSocket key_ current j known ((ws_update (ws _) current).symm.trans own)
  ownTimer key_ current t known own :=
    sound.ownTimer key_ current t known ((reconnectTimer_update (timer _) current).symm.trans own) }

/-- A timer for the subscription of a key that has neither a socket nor a timer. -/
theorem sound_reconnectLater (sound : Sound s) (current : s.subs key = some id) (free : (s.records id).ws = none)
    (quiet : Quiet s key) : Sound (s.reconnectLater id key) := by
  have records (other : ℕ) : (s.reconnectLater id key).records other = if other = id then { s.records id with
      retries := (s.records id).retries + 1, reconnectTimer := some s.next } else s.records other :=
    Function.update_apply ..
  have ws (other : ℕ) : ((s.reconnectLater id key).records other).ws = (s.records other).ws :=
    ws_update (by rfl) other
  have handlers (other : ℕ) : ((s.reconnectLater id key).records other).handlers = (s.records other).handlers :=
    handlers_update (by rfl) other
  have timer (other : ℕ) : ((s.reconnectLater id key).records other).reconnectTimer =
      if other = id then some s.next else (s.records other).reconnectTimer := by
    rw [records]
    split_ifs <;> rfl
  have timers (t : ℕ) : (s.reconnectLater id key).timers t = if t = s.next then
      some ⟨key, min (1000 * 2 ^ (s.records id).retries) 30000, true⟩ else s.timers t := Function.update_apply ..
  constructor
  case madeSub => exact fun other known there => Nat.lt_succ_of_lt (sound.madeSub other known there)
  case madeUnsubscribe => exact fun u member => Nat.lt_succ_of_lt (sound.madeUnsubscribe u member)
  case madeSocket =>
    exact fun j socket there => (sound.madeSocket j socket there).imp Nat.lt_succ_of_lt Nat.lt_succ_of_lt
  case madeTimer =>
    intro t late
    have later : s.next + 1 ≤ t := late
    rw [timers, if_neg (by omega)]
    exact sound.madeTimer t (by omega)
  case apart => exact sound.apart
  case closure => exact sound.closure
  case owner => exact sound.owner
  case distinct =>
    intro other
    rw [handlers]
    exact sound.distinct other
  case vacated =>
    intro other gone
    rw [handlers]
    exact sound.vacated other gone
  case attached =>
    intro j socket there unclosed known
    rw [ws]
    exact sound.attached j socket there unclosed known
  case live => exact sound.live
  case waiting =>
    intro t timer_ there pending
    rw [timers] at there
    split_ifs at there with new
    · obtain rfl := Option.some.inj there
      exact ⟨id, current, (ws id).trans free, (timer id).trans (by rw [if_pos rfl, new])⟩
    · obtain ⟨other, known, unowned, own⟩ := sound.waiting t timer_ there pending
      have different : other ≠ id := by
        rintro rfl
        exact quiet t timer_ there pending (sound.apart _ _ _ known current)
      exact ⟨other, known, (ws other).trans unowned, (timer other).trans (by rw [if_neg different, own])⟩
  case ownSocket => exact fun other known j there own => sound.ownSocket other known j there ((ws known).symm.trans own)
  case ownTimer =>
    intro other known t there own
    rw [timer] at own
    rw [timers]
    split_ifs at own with same
    · obtain rfl := Option.some.inj own
      subst same
      rw [if_pos rfl]
      exact ⟨_, rfl, sound.apart _ _ _ current there⟩
    · obtain ⟨timer_, armed, keyed⟩ := sound.ownTimer other known t there own
      have old : t ≠ s.next := by
        rintro rfl
        rw [sound.madeTimer _ (Nat.le_refl _)] at armed
        cases armed
      rw [if_neg old]
      exact ⟨timer_, armed, keyed⟩

/-- A new socket for the subscription of a key that has neither a socket nor a timer. -/
theorem sound_socket (sound : Sound s) (current : s.subs key = some id) (free : (s.records id).ws = none)
    (quiet : Quiet s key) : Sound { s.modify id fun sub => { sub with ws := some s.next } with
      next := s.next + 1
      sockets := Function.update s.sockets s.next (some ⟨key, id, .connecting⟩) } := by
  set made : Manager K H D := { s.modify id fun sub => { sub with ws := some s.next } with
      next := s.next + 1
      sockets := Function.update s.sockets s.next (some ⟨key, id, .connecting⟩) } with named
  have records (other : ℕ) : made.records other =
      if other = id then { s.records id with ws := some s.next } else s.records other := Function.update_apply ..
  have handlers (other : ℕ) : (made.records other).handlers = (s.records other).handlers :=
    handlers_update (by rfl) other
  have timer (other : ℕ) : (made.records other).reconnectTimer = (s.records other).reconnectTimer :=
    reconnectTimer_update (by rfl) other
  have ws (other : ℕ) : (made.records other).ws = if other = id then some s.next else (s.records other).ws := by
    rw [records]
    split_ifs <;> rfl
  have sockets (j : ℕ) : made.sockets j = if j = s.next then some ⟨key, id, .connecting⟩ else s.sockets j :=
    Function.update_apply ..
  constructor
  case madeSub => exact fun other known there => Nat.lt_succ_of_lt (sound.madeSub other known there)
  case madeUnsubscribe => exact fun u member => Nat.lt_succ_of_lt (sound.madeUnsubscribe u member)
  case madeSocket =>
    intro j socket there
    rw [sockets] at there
    split_ifs at there with new
    · obtain rfl := Option.some.inj there
      exact ⟨new ▸ Nat.lt_succ_self _, Nat.lt_succ_of_lt (sound.madeSub key id current)⟩
    · exact (sound.madeSocket j socket there).imp Nat.lt_succ_of_lt Nat.lt_succ_of_lt
  case madeTimer => exact fun t late => sound.madeTimer t (Nat.le_of_succ_le late)
  case apart => exact sound.apart
  case closure => exact sound.closure
  case owner =>
    intro j socket other there known
    rw [sockets] at there
    split_ifs at there with new
    · obtain rfl := Option.some.inj there
      exact sound.apart _ _ _ known current
    · exact sound.owner j socket other there known
  case distinct =>
    intro other
    rw [handlers]
    exact sound.distinct other
  case vacated =>
    intro other gone
    rw [handlers]
    exact sound.vacated other gone
  case attached =>
    intro j socket there unclosed known
    rw [ws]
    rw [sockets] at there
    split_ifs at there with new
    · obtain rfl := Option.some.inj there
      rw [if_pos rfl, new]
    · have attached := sound.attached j socket there unclosed known
      have different : socket.sub ≠ id := by
        intro same
        rw [same, free] at attached
        cases attached
      rw [if_neg different, attached]
  case live =>
    intro j socket there live
    rw [sockets] at there
    split_ifs at there with new
    · obtain rfl := Option.some.inj there
      exact current
    · exact sound.live j socket there live
  case waiting =>
    intro t timer_ there pending
    obtain ⟨other, known, unowned, own⟩ := sound.waiting t timer_ there pending
    have different : other ≠ id := by
      rintro rfl
      exact quiet t timer_ there pending (sound.apart _ _ _ known current)
    refine ⟨other, known, ?_, (timer other).trans own⟩
    rw [ws, if_neg different, unowned]
  case ownSocket =>
    intro other known j there own
    rw [ws] at own
    rw [sockets]
    split_ifs at own with same
    · obtain rfl := Option.some.inj own
      subst same
      rw [if_pos rfl]
      exact ⟨_, rfl, sound.apart _ _ _ current there⟩
    · obtain ⟨socket, open_, keyed⟩ := sound.ownSocket other known j there own
      rw [if_neg (Nat.ne_of_lt (sound.madeSocket j socket open_).1)]
      exact ⟨socket, open_, keyed⟩
  case ownTimer => exact fun other known t there own => sound.ownTimer other known t there ((timer known).symm.trans own)

/-- A socket that is not closed goes on in its life, and comes to live no more than it did. -/
theorem sound_setReady (sound : Sound s) {j : ℕ} {socket : Socket K} (there : s.sockets j = some socket)
    (unclosed : socket.readyState ≠ .closed) {readyState : ReadyState}
    (lives : readyState.Live → socket.readyState.Live) : Sound (s.setReady j readyState) := by
  have sockets (i : ℕ) : (s.setReady j readyState).sockets i =
      if i = j then some { socket with readyState } else s.sockets i := by
    rw [Manager.setReady, there]
    exact Function.update_apply ..
  have origin {i : ℕ} {other : Socket K} (known : (s.setReady j readyState).sockets i = some other) :
      ∃ before, s.sockets i = some before ∧ before.key = other.key ∧ before.sub = other.sub ∧
        (other.readyState.Live → before.readyState.Live) ∧
        (other.readyState ≠ .closed → before.readyState ≠ .closed) := by
    rw [sockets] at known
    split_ifs at known with same
    · obtain rfl := Option.some.inj known
      exact ⟨socket, same ▸ there, rfl, rfl, lives, fun _ => unclosed⟩
    · exact ⟨other, known, rfl, rfl, id, id⟩
  refine { sound with
    madeSocket := ?madeSocket, owner := ?owner, attached := ?attached, live := ?live, ownSocket := ?ownSocket }
  case madeSocket =>
    intro i other known
    obtain ⟨before, was, _, sub, _, _⟩ := origin known
    exact sub ▸ sound.madeSocket i before was
  case owner =>
    intro i other key known current
    obtain ⟨before, was, keyed, sub, _, _⟩ := origin known
    exact keyed ▸ sound.owner i before key was (sub.symm ▸ current)
  case attached =>
    intro i other known open_ current
    obtain ⟨before, was, keyed, sub, _, opened⟩ := origin known
    exact sub ▸ sound.attached i before was (opened open_) (by rw [keyed, sub]; exact current)
  case live =>
    intro i other known live
    obtain ⟨before, was, keyed, sub, lived, _⟩ := origin known
    rw [← keyed, ← sub]
    exact sound.live i before was (lived live)
  case ownSocket =>
    intro key id i current own
    obtain ⟨other, known, keyed⟩ := sound.ownSocket key id i current own
    rw [sockets]
    split_ifs with same
    · refine ⟨_, rfl, ?_⟩
      rw [same, there] at known
      exact (Option.some.inj known) ▸ keyed
    · exact ⟨other, known, keyed⟩

/-- A subscription loses its socket once that is closed. -/
theorem sound_detach (sound : Sound s)
    (closed : ∀ j socket, s.sockets j = some socket → socket.sub = id → s.subs socket.key = some id →
      socket.readyState = .closed) : Sound (s.modify id fun sub => { sub with ws := none }) := by
  have records (other : ℕ) : (s.modify id fun sub => { sub with ws := none }).records other =
      if other = id then { s.records id with ws := none } else s.records other := Function.update_apply ..
  have handlers (other : ℕ) : ((s.modify id fun sub => { sub with ws := none }).records other).handlers =
      (s.records other).handlers :=
    handlers_update (by rfl) other
  have timer (other : ℕ) : ((s.modify id fun sub => { sub with ws := none }).records other).reconnectTimer =
      (s.records other).reconnectTimer :=
    reconnectTimer_update (by rfl) other
  have ws (other : ℕ) : ((s.modify id fun sub => { sub with ws := none }).records other).ws =
      if other = id then none else (s.records other).ws := by
    rw [records]
    split_ifs <;> rfl
  refine { sound with
    distinct := ?distinct, vacated := ?vacated, attached := ?attached, waiting := ?waiting, ownSocket := ?ownSocket
    ownTimer := ?ownTimer }
  case distinct =>
    intro other
    rw [handlers]
    exact sound.distinct other
  case vacated =>
    intro other gone
    rw [handlers]
    exact sound.vacated other gone
  case attached =>
    intro j socket there unclosed known
    have different : socket.sub ≠ id := fun same => unclosed (closed j socket there same (same ▸ known))
    rw [ws, if_neg different]
    exact sound.attached j socket there unclosed known
  case waiting =>
    intro t timer_ there pending
    obtain ⟨other, known, unowned, own⟩ := sound.waiting t timer_ there pending
    refine ⟨other, known, ?_, (timer other).trans own⟩
    rw [ws, unowned, ite_self]
  case ownSocket =>
    intro other known j there own
    rw [ws] at own
    split_ifs at own
    exact sound.ownSocket other known j there own
  case ownTimer => exact fun other known t there own => sound.ownTimer other known t there ((timer known).symm.trans own)

theorem sound_clearTimer (sound : Sound s) (t : ℕ) : Sound (s.clearTimer t) := by
  have timers (i : ℕ) : (s.clearTimer t).timers i =
      if i = t then (s.timers t).map fun timer => { timer with pending := false } else s.timers i :=
    Function.update_apply ..
  refine { sound with madeTimer := ?madeTimer, waiting := ?waiting, ownTimer := ?ownTimer }
  case madeTimer =>
    intro i late
    rw [timers]
    split_ifs with same
    · rw [sound.madeTimer t (same ▸ late)]
      rfl
    · exact sound.madeTimer i late
  case waiting =>
    intro i timer there pending
    rw [timers] at there
    split_ifs at there
    · obtain ⟨before, _, rfl⟩ := Option.map_eq_some_iff.mp there
      cases pending
    · exact sound.waiting i timer there pending
  case ownTimer =>
    intro key id i current own
    obtain ⟨timer, there, keyed⟩ := sound.ownTimer key id i current own
    rw [timers]
    split_ifs with same
    · rw [← same, there]
      exact ⟨_, rfl, keyed⟩
    · exact ⟨timer, there, keyed⟩

/-- A subscription without handlers, socket and timer is forgotten. -/
theorem sound_forget [DecidableEq K] (sound : Sound s) (current : s.subs key = some id) (empty : (s.records id).handlers = [])
    (dead : ∀ j socket, s.sockets j = some socket → socket.key = key → ¬ socket.readyState.Live) (quiet : Quiet s key) :
    Sound { s with subs := Function.update s.subs key none } := by
  have subs {other : K} {known : ℕ} (there : Function.update s.subs key none other = some known) :
      other ≠ key ∧ s.subs other = some known := by
    rw [Function.update_apply] at there
    split_ifs at there with same
    exact ⟨same, there⟩
  have others {other : K} {known : ℕ} (different : other ≠ key) (there : s.subs other = some known) :
      Function.update s.subs key none other = some known := by
    rw [Function.update_apply, if_neg different, there]
  constructor
  case madeSub => exact fun other known there => sound.madeSub other known (subs there).2
  case madeUnsubscribe => exact sound.madeUnsubscribe
  case madeSocket => exact sound.madeSocket
  case madeTimer => exact sound.madeTimer
  case apart => exact fun first second known there here => sound.apart first second known (subs there).2 (subs here).2
  case closure => exact fun u member other there => sound.closure u member other (subs there).2
  case owner => exact fun j socket other known there => sound.owner j socket other known (subs there).2
  case distinct => exact sound.distinct
  case vacated =>
    intro other gone
    by_cases same : other = id
    · rw [same]
      exact empty
    · apply sound.vacated
      intro key_ there
      by_cases own : key_ = key
      · rw [own, current] at there
        exact same (Option.some.inj there).symm
      · exact gone key_ (others own there)
  case attached => exact fun j socket there unclosed known => sound.attached j socket there unclosed (subs known).2
  case live =>
    intro j socket there live
    exact others (fun same => dead j socket there same live) (sound.live j socket there live)
  case waiting =>
    intro t timer there pending
    obtain ⟨other, known, rest⟩ := sound.waiting t timer there pending
    exact ⟨other, others (quiet t timer there pending) known, rest⟩
  case ownSocket => exact fun other known j there own => sound.ownSocket other known j (subs there).2 own
  case ownTimer => exact fun other known t there own => sound.ownTimer other known t (subs there).2 own

/-- A subscription with neither handlers nor a socket for a key that has none. -/
theorem sound_ensure [DecidableEq K] (sound : Sound s) (absent : s.subs key = none) : Sound { s with
    next := s.next + 1
    records := Function.update s.records s.next {}
    subs := Function.update s.subs key (some s.next) } := by
  have subs (other : K) : Function.update s.subs key (some s.next) other =
      if other = key then some s.next else s.subs other := Function.update_apply ..
  have records (other : ℕ) : Function.update s.records s.next {} other =
      if other = s.next then {} else s.records other := Function.update_apply ..
  have named {other : K} {known : ℕ} (there : s.subs other = some known) : other ≠ key ∧ known ≠ s.next := by
    refine ⟨?_, Nat.ne_of_lt (sound.madeSub other known there)⟩
    rintro rfl
    rw [absent] at there
    cases there
  have old {other : K} {known : ℕ} (there : Function.update s.subs key (some s.next) other = some known)
      (older : known < s.next) : s.subs other = some known := by
    rw [subs] at there
    split_ifs at there
    · exact absurd (Option.some.inj there) (Nat.ne_of_gt older)
    · exact there
  constructor
  case madeSub =>
    intro other known there
    change Function.update s.subs key (some s.next) other = some known at there
    rw [subs] at there
    split_ifs at there
    · exact (Option.some.inj there) ▸ Nat.lt_succ_self _
    · exact Nat.lt_succ_of_lt (sound.madeSub other known there)
  case madeUnsubscribe => exact fun u member => Nat.lt_succ_of_lt (sound.madeUnsubscribe u member)
  case madeSocket =>
    exact fun j socket there => (sound.madeSocket j socket there).imp Nat.lt_succ_of_lt Nat.lt_succ_of_lt
  case madeTimer => exact fun t late => sound.madeTimer t (Nat.le_of_succ_le late)
  case apart =>
    intro first second known here there
    change Function.update s.subs key (some s.next) first = some known at here
    change Function.update s.subs key (some s.next) second = some known at there
    rw [subs] at here there
    split_ifs at here there with same other other
    · rw [same, other]
    · exact absurd (Option.some.inj here).symm (named there).2
    · exact absurd (Option.some.inj there).symm (named here).2
    · exact sound.apart first second known here there
  case closure => exact fun u member other there => sound.closure u member other (old there (sound.madeUnsubscribe u member))
  case owner =>
    exact fun j socket other known there => sound.owner j socket other known (old there (sound.madeSocket j socket known).2)
  case distinct =>
    intro other
    change (Function.update s.records s.next {} other).handlers.Nodup
    rw [records]
    split_ifs
    · exact List.nodup_nil
    · exact sound.distinct other
  case vacated =>
    intro other gone
    change (Function.update s.records s.next {} other).handlers = []
    rw [records]
    split_ifs
    · rfl
    · apply sound.vacated
      intro key_ there
      have kept := gone key_
      change Function.update s.subs key (some s.next) key_ ≠ some other at kept
      rw [subs, if_neg (named there).1] at kept
      exact kept there
  case attached =>
    intro j socket there unclosed known
    have older := (sound.madeSocket j socket there).2
    change (Function.update s.records s.next {} socket.sub).ws = some j
    rw [records, if_neg (Nat.ne_of_lt older)]
    exact sound.attached j socket there unclosed (old known older)
  case live =>
    intro j socket there live
    have known := sound.live j socket there live
    change Function.update s.subs key (some s.next) socket.key = some socket.sub
    rw [subs, if_neg (named known).1, known]
  case waiting =>
    intro t timer there pending
    obtain ⟨other, known, unowned, own⟩ := sound.waiting t timer there pending
    have kept : Function.update s.records s.next {} other = s.records other := by rw [records, if_neg (named known).2]
    refine ⟨other, ?_, ?_, ?_⟩
    · change Function.update s.subs key (some s.next) timer.key = some other
      rw [subs, if_neg (named known).1, known]
    · change (Function.update s.records s.next {} other).ws = none
      rw [kept, unowned]
    · change (Function.update s.records s.next {} other).reconnectTimer = some t
      rw [kept, own]
  case ownSocket =>
    intro other known j there own
    change (Function.update s.records s.next {} known).ws = some j at own
    rw [records] at own
    split_ifs at own with new
    change Function.update s.subs key (some s.next) other = some known at there
    rw [subs] at there
    split_ifs at there
    · exact absurd (Option.some.inj there).symm new
    · exact sound.ownSocket other known j there own
  case ownTimer =>
    intro other known t there own
    change (Function.update s.records s.next {} known).reconnectTimer = some t at own
    rw [records] at own
    split_ifs at own with new
    change Function.update s.subs key (some s.next) other = some known at there
    rw [subs] at there
    split_ifs at there
    · exact absurd (Option.some.inj there).symm new
    · exact sound.ownTimer other known t there own

/-- The handlers of a subscription change, and it gets none if no key has it. -/
theorem sound_handlers (sound : Sound s) (change : List H → List H) (distinct : (change (s.records id).handlers).Nodup)
    (gone : (∀ key, s.subs key ≠ some id) → change (s.records id).handlers = []) :
    Sound (s.modify id fun sub => { sub with handlers := change sub.handlers }) := by
  have records (other : ℕ) : (s.modify id fun sub => { sub with handlers := change sub.handlers }).records other =
      if other = id then { s.records id with handlers := change (s.records id).handlers } else s.records other :=
    Function.update_apply ..
  have ws (other : ℕ) : ((s.modify id fun sub => { sub with handlers := change sub.handlers }).records other).ws =
      (s.records other).ws :=
    ws_update (by rfl) other
  have timer (other : ℕ) :
      ((s.modify id fun sub => { sub with handlers := change sub.handlers }).records other).reconnectTimer =
        (s.records other).reconnectTimer :=
    reconnectTimer_update (by rfl) other
  refine { sound with
    distinct := ?distinct, vacated := ?vacated, attached := ?attached, waiting := ?waiting, ownSocket := ?ownSocket
    ownTimer := ?ownTimer }
  case distinct =>
    intro other
    rw [records]
    split_ifs
    · exact distinct
    · exact sound.distinct other
  case vacated =>
    intro other lost
    rw [records]
    split_ifs with same
    · exact gone (same ▸ lost)
    · exact sound.vacated other lost
  case attached =>
    intro j socket there unclosed known
    rw [ws]
    exact sound.attached j socket there unclosed known
  case waiting =>
    intro t timer_ there pending
    obtain ⟨other, known, unowned, own⟩ := sound.waiting t timer_ there pending
    exact ⟨other, known, (ws other).trans unowned, (timer other).trans own⟩
  case ownSocket => exact fun other known j there own => sound.ownSocket other known j there ((ws known).symm.trans own)
  case ownTimer => exact fun other known t there own => sound.ownTimer other known t there ((timer known).symm.trans own)

/-- The calls play no part. -/
theorem sound_calls (sound : Sound s) (calls : List (H × D)) : Sound { s with calls } := { sound with }

/-- A function is returned for the subscription that a key has. -/
theorem sound_returned (sound : Sound s) (current : s.subs key = some id) (handler : H) :
    Sound { s with unsubscribes := s.unsubscribes ++ [⟨key, id, handler⟩] } := { sound with
  madeUnsubscribe u member := by
    rcases List.mem_append.mp member with old | new
    · exact sound.madeUnsubscribe u old
    · rw [List.mem_singleton.mp new]
      exact sound.madeSub key id current
  closure u member other known := by
    rcases List.mem_append.mp member with old | new
    · exact sound.closure u old other known
    · rw [List.mem_singleton.mp new] at known ⊢
      exact sound.apart _ _ _ known current }

end Changes

end WsManager

end Illuminator
