import Httpancake.Lib.Heap
import Httpancake.Lib.OrderedSet
import Httpancake.Lib.Program
import Mathlib.Algebra.Group.Int.Defs
import Mathlib.Algebra.Group.Nat.Defs
import Mathlib.Data.Prod.Lex
import Mathlib.Order.Defs.LinearOrder

/-! # The timer queue

`TimerQueue` holds the two ordered sets of timers, one by expiration and one by sequence number,
and the heap its `Timer *`s point into. `TimerLoop` is the loop thread between two things that can
happen to the queue: `add_timer` on any thread allocates a timer, the loop thread runs
`add_timer_in_loop` and `cancel_in_loop`, and `handle_read` collects the expired timers, runs their
callbacks one by one (each may add and cancel) and then puts back or deletes each of them.

`none` is a failed assertion, or a timer used or deleted after its deletion. -/

namespace Httpancake

/-- A value of `int64_t`. -/
def IsInt64 (n : Int) : Prop := -2 ^ 63 ≤ n ∧ n < 2 ^ 63

instance (n : Int) : Decidable (IsInt64 n) := inferInstanceAs (Decidable (_ ∧ _))

/-- What is left of a sum or a difference in an `int64_t`. -/
def wrap64 (n : Int) : Int := n.bmod (2 ^ 64)

theorem wrap64_of_isInt64 {n : Int} (h : IsInt64 n) : wrap64 n = n := by
  obtain ⟨hlower, hupper⟩ := h
  exact Int.bmod_eq_of_le_mul_two (by omega) (by omega)

/-- Microseconds since the epoch. -/
abbrev Timestamp := Int

namespace Timestamp

def usPerS : Int := 1000 * 1000

def valid (t : Timestamp) : Bool := 0 < t

def invalid : Timestamp := (0 : Int)

end Timestamp

/-- What the code reads of an interval in seconds: whether it is positive, and the microseconds
it is truncated to. -/
structure Interval where
  positive : Bool
  micros : Int
deriving DecidableEq

def addTime (t : Timestamp) (seconds : Interval) : Timestamp := wrap64 (t + seconds.micros)

structure Timer where
  expiration : Timestamp
  interval : Interval
  repeat_ : Bool
  sequence : Int
deriving DecidableEq

namespace Timer

/-- The constructor; `sNumCreated` is the counter after its increment. -/
def make (sNumCreated : Int) (when_ : Timestamp) (interval : Interval) : Timer where
  expiration := when_
  interval := interval
  repeat_ := interval.positive
  sequence := sNumCreated

def restart (t : Timer) (now : Timestamp) : Timer :=
  if t.repeat_ then { t with expiration := addTime now t.interval }
  else { t with expiration := .invalid }

@[simp] theorem restart_sequence (t : Timer) (now : Timestamp) :
    (t.restart now).sequence = t.sequence := by
  unfold restart
  split <;> rfl

end Timer

/-- `UINTPTR_MAX` -/
def uintptrMax : Nat := 2 ^ 64 - 1

/-- `std::pair<Timestamp, Timer *>` -/
abbrev Entry := Timestamp × Ptr

/-- `std::pair<Timer *, int64_t>`, also what a `TimerId` holds. -/
abbrev ActiveTimer := Ptr × Int

/-- `std::make_pair(timer->expiration(), timer)` -/
def Entry.of (timer : Ptr) (t : Timer) : Entry := (t.expiration, timer)

/-- `ActiveTimer(timer, timer->sequence())` -/
def ActiveTimer.of (timer : Ptr) (t : Timer) : ActiveTimer := (timer, t.sequence)

@[simp] theorem Entry.of_snd (timer : Ptr) (t : Timer) : (Entry.of timer t).2 = timer := rfl

@[simp] theorem ActiveTimer.of_fst (timer : Ptr) (t : Timer) : (ActiveTimer.of timer t).1 = timer :=
  rfl

/-- Pairs are compared lexicographically, pointers by their addresses. -/
def Entry.key (e : Entry) : Int ×ₗ Nat := toLex (e.1, e.2.addr)

def ActiveTimer.key (a : ActiveTimer) : Nat ×ₗ Int := toLex (a.1.addr, a.2)

abbrev TimerList := OrderedSet Entry.key

abbrev ActiveTimerSet := OrderedSet ActiveTimer.key

structure Timespec where
  tvSec : Int
  tvNsec : Int
deriving DecidableEq

/-- `clock` is what `Timestamp::now` returns. -/
def howMuchTimeFromNow (when_ clock : Timestamp) : Timespec :=
  let us := wrap64 (when_ - clock)
  let us := if us < 100 then 100 else us
  { tvSec := us.tdiv Timestamp.usPerS
    tvNsec := us.tmod Timestamp.usPerS * 1000 }

structure TimerQueue where
  heap : Heap Timer
  timers : TimerList
  activeTimers : ActiveTimerSet
  cancelingTimers : ActiveTimerSet
  callingExpiredTimers : Bool

namespace TimerQueue

def init : TimerQueue where
  heap := ∅
  timers := ∅
  activeTimers := ∅
  cancelingTimers := ∅
  callingExpiredTimers := false

/-- The answer is `earliest_changed`. -/
def insert (q : TimerQueue) (timer : Ptr) : Option (TimerQueue × Bool) := do
  let t ← q.heap.deref timer
  let earliestChanged := match q.timers.first? with
    | none => true
    | some e => decide (t.expiration < e.1)
  let (timers, inserted) := q.timers.insert (.of timer t)
  guard inserted
  let (activeTimers, inserted) := q.activeTimers.insert (.of timer t)
  guard inserted
  guard (timers.size = activeTimers.size)
  return ({ q with timers := timers, activeTimers := activeTimers }, earliestChanged)

/-- The answer is the value given to `timerfd_settime`, if it is called. -/
def addTimerInLoop (q : TimerQueue) (timer : Ptr) (clock : Timestamp) :
    Option (TimerQueue × Option Timespec) := do
  let (q, earliestChanged) ← q.insert timer
  if earliestChanged then
    let t ← q.heap.deref timer
    return (q, some (howMuchTimeFromNow t.expiration clock))
  else
    return (q, none)

def cancelInLoop (q : TimerQueue) (timer : ActiveTimer) : Option TimerQueue := do
  guard (q.timers.size = q.activeTimers.size)
  let q ← match q.activeTimers.find? timer.key with
    | some it => do
      let t ← q.heap.deref it.1
      let (timers, n) := q.timers.erase (Entry.of it.1 t).key
      guard (n = 1)
      let heap ← q.heap.delete it.1
      pure { q with
        heap := heap, timers := timers, activeTimers := (q.activeTimers.erase it.key).1 }
    | none =>
      if q.callingExpiredTimers then
        pure { q with cancelingTimers := (q.cancelingTimers.insert timer).1 }
      else
        pure q
  guard (q.timers.size = q.activeTimers.size)
  return q

/-- The loop of `get_expired` over the expired entries. -/
def eraseActive (heap : Heap Timer) : List Entry → ActiveTimerSet → Option ActiveTimerSet
  | [], activeTimers => some activeTimers
  | entry :: expired, activeTimers => do
    let t ← heap.deref entry.2
    let (activeTimers, n) := activeTimers.erase (ActiveTimer.of entry.2 t).key
    guard (n = 1)
    eraseActive heap expired activeTimers

def getExpired (q : TimerQueue) (now : Timestamp) : Option (TimerQueue × List Entry) := do
  let sentry : Int ×ₗ Nat := toLex (now, uintptrMax)
  let expired := q.timers.below sentry
  let timers := q.timers.eraseBelow sentry
  guard (timers.first?.all fun it => decide (now < it.1))
  let activeTimers ← eraseActive q.heap expired q.activeTimers
  guard (timers.size = activeTimers.size)
  return ({ q with timers := timers, activeTimers := activeTimers }, expired)

/-- One pass of the loop of `reset`. -/
def resetOne (q : TimerQueue) (now : Timestamp) (timer : Ptr) : Option TimerQueue := do
  let t ← q.heap.deref timer
  if t.repeat_ ∧ q.cancelingTimers.find? (ActiveTimer.of timer t).key = none then
    let heap ← q.heap.write timer (t.restart now)
    let (q, _) ← { q with heap := heap }.insert timer
    return q
  else
    let heap ← q.heap.delete timer
    return { q with heap := heap }

/-- The rest of `reset`. -/
def nextExpire (q : TimerQueue) (clock : Timestamp) : Option (Option Timespec) := do
  let nextExpire ← match q.timers.first? with
    | some e => (q.heap.deref e.2).map Timer.expiration
    | none => some .invalid
  return if nextExpire.valid then some (howMuchTimeFromNow nextExpire clock) else none

end TimerQueue

/-- Where the loop thread is in `handle_read`: `started` of the callbacks of the expired timers
have been started, or the timers of `expired` are still to be put back or deleted. -/
inductive HandleRead where
  | idle
  | calling (now : Timestamp) (expired : List Entry) (started : Nat)
  | resetting (now : Timestamp) (expired : List Entry)

/-- The expired timers that `handle_read` has taken out of the queue. -/
def HandleRead.held : HandleRead → List Entry
  | idle => []
  | calling _ expired _ => expired
  | resetting _ expired => expired

structure TimerLoop where
  queue : TimerQueue
  /-- `Timer::s_num_created_`, which wraps around. -/
  sNumCreated : Int
  /-- The timers made by `add_timer` whose `add_timer_in_loop` has not run yet. -/
  handedOver : List Ptr
  frame : HandleRead

inductive TimerAction where
  /-- `new Timer` on any thread; the allocator answers `addr`. -/
  | newTimer (addr : Nat) (when_ : Timestamp) (interval : Interval)
  | addTimerInLoop (timer : Ptr) (clock : Timestamp)
  /-- The id may be current, stale, or never have been issued. -/
  | cancelInLoop (timer : ActiveTimer)
  | handleRead (now : Timestamp)
  | callback
  | endCallbacks
  | resetOne
  | endReset (clock : Timestamp)

inductive TimerEffect where
  | run (timer : Ptr)
  | settime (newValue : Timespec)
deriving DecidableEq

namespace TimerLoop

def init : TimerLoop where
  queue := .init
  sNumCreated := 0
  handedOver := []
  frame := .idle

/-- The loop thread is outside `handle_read`, or inside a callback. -/
def MayCall (s : TimerLoop) : Prop :=
  match s.frame with
  | .idle => True
  | .calling _ _ started => 0 < started
  | .resetting .. => False

/-- The allocator returns memory that is not in use and ends before the last address. -/
def Pre (s : TimerLoop) : TimerAction → Prop
  | .newTimer addr _ _ => s.queue.heap.Free addr ∧ addr < uintptrMax
  | .addTimerInLoop timer _ => s.MayCall ∧ timer ∈ s.handedOver
  | .cancelInLoop _ => s.MayCall
  | .handleRead _ => s.frame = .idle
  | .callback => ∃ now expired started, s.frame = .calling now expired started ∧
      started < expired.length
  | .endCallbacks => ∃ now expired, s.frame = .calling now expired expired.length
  | .resetOne => ∃ now e expired, s.frame = .resetting now (e :: expired)
  | .endReset _ => ∃ now, s.frame = .resetting now []

def exec (s : TimerLoop) : TimerAction → Option (TimerLoop × Option TimerEffect)
  | .newTimer addr when_ interval =>
    let sNumCreated := (s.sNumCreated + 1).bmod (2 ^ 64)
    let heap := s.queue.heap.new addr (.make sNumCreated when_ interval)
    some ({ s with
      queue := { s.queue with heap := heap }, sNumCreated := sNumCreated,
      handedOver := s.queue.heap.newPtr addr :: s.handedOver }, none)
  | .addTimerInLoop timer clock => do
    let (queue, newValue) ← s.queue.addTimerInLoop timer clock
    return ({ s with queue := queue, handedOver := s.handedOver.filter (· ≠ timer) },
      newValue.map .settime)
  | .cancelInLoop timer => do
    let queue ← s.queue.cancelInLoop timer
    return ({ s with queue := queue }, none)
  | .handleRead now => do
    let (queue, expired) ← s.queue.getExpired now
    return ({ s with
      queue := { queue with callingExpiredTimers := true, cancelingTimers := ∅ },
      frame := .calling now expired 0 }, none)
  | .callback =>
    match s.frame with
    | .calling now expired started => do
      let e ← expired[started]?
      let _ ← s.queue.heap.deref e.2
      return ({ s with frame := .calling now expired (started + 1) }, some (.run e.2))
    | _ => none
  | .endCallbacks =>
    match s.frame with
    | .calling now expired _ =>
      some ({ s with
        queue := { s.queue with callingExpiredTimers := false },
        frame := .resetting now expired }, none)
    | _ => none
  | .resetOne =>
    match s.frame with
    | .resetting now (e :: expired) => do
      let queue ← s.queue.resetOne now e.2
      return ({ s with queue := queue, frame := .resetting now expired }, none)
    | _ => none
  | .endReset clock => do
    let newValue ← s.queue.nextExpire clock
    return ({ s with frame := .idle }, newValue.map .settime)

def program : Program TimerLoop TimerAction (Option TimerEffect) where
  pre := Pre
  exec := exec

end TimerLoop
end Httpancake
