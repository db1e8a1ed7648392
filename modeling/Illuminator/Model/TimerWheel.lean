import Illuminator.Machine.PriorityQueue
import Mathlib.Data.Int.Order.Basic
import Mathlib.Data.Nat.Notation

/-! # The timer wheel

`TimerWheel` with its own thread, the thread that starts and stops it, and callers of `AddRepeating`, `AddOnce` and
`Cancel` on any thread, callbacks included. A section under `mutex_` is one step, and the clock stands still during a
step. The clock counts nanoseconds, and a callback is known by the id of its timer.
-/

namespace Illuminator

namespace TimerWheel

/-- Nanoseconds in a `std::chrono::milliseconds`. -/
def nanoseconds (milliseconds : ℤ) : ℤ := milliseconds * 1000000

structure TimerEntry where
  id : ℕ
  next_fire : ℤ
  interval : ℤ
  repeating : Bool
  deriving DecidableEq

/-- `itimerspec::it_value`. -/
structure ItValue where
  tv_sec : ℤ
  tv_nsec : ℤ
  deriving DecidableEq

def ItValue.total (its : ItValue) : ℤ := its.tv_sec * 1000000000 + its.tv_nsec

/-- A timerfd that is armed, or has expired and was not read since: when it was armed, and with which value. -/
structure Timerfd where
  armed_at : ℤ
  it_value : ItValue
  deriving DecidableEq

def Timerfd.expiry (timer : Timerfd) : ℤ := timer.armed_at + timer.it_value.total

/-- A relative time of zero disarms. -/
def timerfd_settime (clock : ℤ) (its : ItValue) : Option Timerfd := if its = ⟨0, 0⟩ then none else some ⟨clock, its⟩

/-- What was asked for when a timer was added: at which time, and after how many milliseconds. -/
structure Registration where
  added_at : ℤ
  delay : ℤ
  repeating : Bool
  deriving DecidableEq

inductive Event where
  | added (id : ℕ)
  | cancelled (id : ℕ)
  | started
  | stopped
  | pass
  | fired (id : ℕ) (scheduled clock : ℤ)
  deriving DecidableEq

/-- Where the thread of the wheel stands, if there is one: at the head of the loop of `Run`, in `epoll_wait`, before
the reads of the descriptors, in `ProcessFired` before the clock is read and before its first section under the lock,
between two callbacks, inside one, before the section that pushes a repeating timer again, before the last section.
`fired` are the entries whose callbacks are still to be run. -/
inductive Phase where
  | absent
  | check
  | waiting
  | reading (timer : Bool)
  | process
  | pop (now : ℤ)
  | next (fired : List TimerEntry)
  | calling (entry : TimerEntry) (fired : List TimerEntry)
  | pushing (entry : TimerEntry) (fired : List TimerEntry)
  | rearm
  | exited
  deriving DecidableEq

/-- Where the thread that owns the wheel stands. -/
inductive Owner where
  | outside
  | starting
  | joining
  deriving DecidableEq

/-- `timers` are the timers added so far, by id, and `log` what happened, in order. -/
structure Wheel where
  heap_ : List TimerEntry := []
  next_id_ : ℕ := 0
  fires_total_ : ℕ := 0
  cancelled_ : List ℕ := []
  running_ : Bool := false
  timer_fd_ : Option Timerfd := none
  phase : Phase := .absent
  owner : Owner := .outside
  clock : ℤ := 0
  timers : List Registration := []
  log : List Event := []

def RearmTimerfdLocked (w : Wheel) : Wheel :=
  match (w.heap_.map TimerEntry.next_fire).min? with
  | none => { w with timer_fd_ := timerfd_settime w.clock ⟨0, 0⟩ }
  | some next_fire =>
    let dur := next_fire - w.clock
    if dur ≤ 0 then { w with timer_fd_ := timerfd_settime w.clock ⟨0, 1⟩ }
    else { w with timer_fd_ := timerfd_settime w.clock ⟨dur / 1000000000, dur % 1000000000⟩ }

/-- The entries whose ids were cancelled leave the heap, and the list of those ids is emptied. -/
def PurgeCancelledLocked (w : Wheel) : Wheel :=
  { w with heap_ := w.heap_.filter fun entry => !w.cancelled_.contains entry.id, cancelled_ := [] }

/-- `AddRepeating` and `AddOnce`, which differ in the interval and the flag of the entry. -/
def add (delay interval : ℤ) (repeating : Bool) (w : Wheel) : Wheel :=
  RearmTimerfdLocked
    { w with
      next_id_ := w.next_id_ + 1
      heap_ := ⟨w.next_id_, w.clock + nanoseconds delay, interval, repeating⟩ :: w.heap_
      timers := w.timers ++ [⟨w.clock, delay, repeating⟩]
      log := w.log ++ [.added w.next_id_] }

def AddRepeating (interval : ℤ) (w : Wheel) : Wheel := add interval interval true w

def AddOnce (delay : ℤ) (w : Wheel) : Wheel := add delay 0 false w

def Cancel (timer_id : ℕ) (w : Wheel) : Wheel :=
  { w with cancelled_ := w.cancelled_ ++ [timer_id], log := w.log ++ [.cancelled timer_id] }

/-- `read(timer_fd_)`, after which a timer that has expired is no longer armed. -/
def readTimer (w : Wheel) : Wheel :=
  if w.timer_fd_.any fun timer => timer.expiry ≤ w.clock then { w with timer_fd_ := none } else w

/-- What the thread of the wheel does next, other than to come back from `epoll_wait`. `fired` are the entries that
it pops, in case it does. -/
def run (fired : List TimerEntry) (w : Wheel) : Option Wheel :=
  match w.phase with
  | .absent | .waiting | .exited => none
  | .check => some { w with phase := if w.running_ then .waiting else .exited }
  | .reading timer => some { if timer then readTimer w else w with phase := .process }
  | .process => some { w with phase := .pop w.clock }
  | .pop now =>
    let w := PurgeCancelledLocked w
    (PriorityQueue.popDue TimerEntry.next_fire now w.heap_ fired).map fun heap =>
      { w with heap_ := heap, phase := .next fired, log := w.log ++ [.pass] }
  | .next [] => some { w with phase := .rearm }
  | .next (entry :: fired) =>
    some { w with phase := .calling entry fired, log := w.log ++ [.fired entry.id entry.next_fire w.clock] }
  | .calling entry fired =>
    let w := { w with fires_total_ := w.fires_total_ + 1 }
    some { w with phase := if entry.repeating && w.running_ then .pushing entry fired else .next fired }
  | .pushing entry fired =>
    let entry := { entry with next_fire := entry.next_fire + nanoseconds entry.interval }
    some { w with heap_ := entry :: w.heap_, phase := .next fired }
  | .rearm => some { RearmTimerfdLocked w with phase := .check }

/-- The clock goes on, a timer is added or cancelled; the owner starts and stops the wheel, the latter in two steps
when it was running; the thread of the wheel comes back from `epoll_wait`, with the timerfd reported or not, and goes
on. -/
inductive Action where
  | tick (clock : ℤ)
  | AddRepeating (interval : ℤ)
  | AddOnce (delay : ℤ)
  | Cancel (timer_id : ℕ)
  | Start
  | spawn
  | Stop
  | join
  | epoll_wait (timer : Bool)
  | run (fired : List TimerEntry)

def step (w : Wheel) : Action → Option Wheel
  | .tick clock => if w.clock ≤ clock then some { w with clock := clock } else none
  | .AddRepeating interval => some (AddRepeating interval w)
  | .AddOnce delay => some (AddOnce delay w)
  | .Cancel timer_id => some (Cancel timer_id w)
  | .Start =>
    if w.owner = .outside ∧ w.phase = .absent then
      some { w with running_ := true, owner := .starting, log := w.log ++ [.started] }
    else none
  | .spawn => if w.owner = .starting then some { w with owner := .outside, phase := .check } else none
  | .Stop =>
    if w.owner = .outside then
      if w.running_ then some { w with running_ := false, owner := .joining }
      else some { w with log := w.log ++ [.stopped] }
    else none
  | .join =>
    if w.owner = .joining ∧ w.phase = .exited then
      some { w with owner := .outside, phase := .absent, log := w.log ++ [.stopped] }
    else none
  | .epoll_wait timer => if w.phase = .waiting then some { w with phase := .reading timer } else none
  | .run fired => run fired w

end TimerWheel

end Illuminator
