import Httpancake.Reactor.ArmedTimers
import Mathlib.Order.MinMax

/-! # The kernel timer

`TimerThread` is the loop thread of `TimerLoop` with the clock and the timerfd that wakes it:
`reset_timerfd` reads the clock and then programs the timerfd, time passes, the timerfd fires, and
`handle_read`, which may also be called without need, reads the clock and then the timerfd. `Covers`
says that the timerfd wakes the loop for an expiration, as much too late as `reset_timerfd` was
between its two system calls. During `handle_read` it does so for the expirations that are not
`valid()`, since `reset` does not program the timerfd for these.

All this is about runs in which no `int64_t` overflows (`TimerThread.InRange`); in others, and by
the time between the two calls, a timer can be forgotten (`TimerThread.timer_forgotten`). -/

namespace Httpancake

namespace Timespec

def nanos (ts : Timespec) : Int := ts.tvSec * 1000000000 + ts.tvNsec

/-- What `timerfd_settime` accepts. -/
def Valid (ts : Timespec) : Prop := 0 ≤ ts.tvSec ∧ 0 ≤ ts.tvNsec ∧ ts.tvNsec < 1000000000

instance (ts : Timespec) : Decidable ts.Valid := inferInstanceAs (Decidable (_ ∧ _ ∧ _))

end Timespec

theorem Timespec.of_micros {us : Int} (h : 0 ≤ us) :
    Valid ⟨us.tdiv 1000000, us.tmod 1000000 * 1000⟩ ∧
      nanos ⟨us.tdiv 1000000, us.tmod 1000000 * 1000⟩ = us * 1000 := by
  simp only [Valid, nanos, Int.tdiv_eq_ediv_of_nonneg h, Int.tmod_eq_emod_of_nonneg h]
  omega

/-- `how_much_time_from_now` is at least 100 microseconds. -/
theorem howMuchTimeFromNow_spec {when_ clock : Timestamp} (h : IsInt64 (when_ - clock)) :
    (howMuchTimeFromNow when_ clock).Valid ∧
      (howMuchTimeFromNow when_ clock).nanos = max 100 (when_ - clock) * 1000 := by
  have hus : (if when_ - clock < 100 then 100 else when_ - clock) = max 100 (when_ - clock) := by
    split
    · next h => exact (max_eq_left h.le).symm
    · next h => exact (max_eq_right (not_lt.mp h)).symm
  have hpos : (0 : Int) ≤ max 100 (when_ - clock) := le_trans (by decide) (le_max_left 100 _)
  simp only [howMuchTimeFromNow, wrap64_of_isInt64 h, hus]
  exact Timespec.of_micros hpos

/-- What `reset_timerfd` gives to `timerfd_settime`. -/
structure Programming where
  newValue : Timespec
  /-- What `how_much_time_from_now` has read the clock as. -/
  reading : Timestamp

/-- A timer of the kernel that fires once. -/
structure Timerfd where
  armed : Bool
  /-- It has fired and was not read since. -/
  unread : Bool
  /-- The firing time that was programmed last. -/
  firing : Timestamp
  /-- When that was. -/
  programmed : Timestamp
  /-- The reading of the clock for it. -/
  reading : Timestamp

namespace Timerfd

def init : Timerfd where
  armed := false
  unread := false
  firing := 0
  programmed := 0
  reading := 0

/-- `timerfd_settime` with a relative value: zero disarms, what is not valid is refused. -/
def settime (fd : Timerfd) (time : Timestamp) (p : Programming) : Timerfd :=
  if p.newValue.Valid then
    { armed := decide (p.newValue.nanos ≠ 0)
      unread := false
      firing := time + p.newValue.nanos / 1000
      programmed := time
      reading := p.reading }
  else fd

def fire (fd : Timerfd) : Timerfd := { fd with armed := false, unread := true }

def read (fd : Timerfd) : Timerfd := { fd with unread := false }

/-- The time between the two system calls that programmed the timerfd. -/
def delay (fd : Timerfd) : Int := fd.programmed - fd.reading

/-- The timerfd wakes the loop for `expiration`, late by its delay, or 100 microseconds after it was
programmed. -/
def Covers (fd : Timerfd) (expiration : Timestamp) : Prop :=
  (fd.armed ∨ fd.unread) ∧ fd.firing ≤ max (expiration + fd.delay) (fd.programmed + 100)

theorem Covers.mono {fd : Timerfd} {e e' : Timestamp} (h : fd.Covers e) (hle : e ≤ e') :
    fd.Covers e' :=
  ⟨h.1, h.2.trans (max_le_max (Int.add_le_add_right hle _) le_rfl)⟩

theorem Covers.fire {fd : Timerfd} {e : Timestamp} (h : fd.Covers e) : fd.fire.Covers e :=
  ⟨.inr rfl, h.2⟩

theorem covers_settime (fd : Timerfd) (time : Timestamp) {e reading : Timestamp}
    (h : IsInt64 (e - reading)) :
    (fd.settime time ⟨howMuchTimeFromNow e reading, reading⟩).Covers e := by
  obtain ⟨hvalid, hnanos⟩ := howMuchTimeFromNow_spec h
  have harmed : ∀ us : Int, max 100 us * 1000 ≠ 0 := fun us => by omega
  have hfiring : ∀ a b c : Int, c + max 100 (a - b) ≤ max (a + (c - b)) (c + 100) :=
    fun a b c => by omega
  rw [settime, if_pos hvalid, hnanos, Int.mul_ediv_cancel _ (by decide)]
  exact ⟨.inl (decide_eq_true (harmed _)), hfiring e reading time⟩

end Timerfd

/-- No `int64_t` that the step computes overflows. -/
def TimerLoop.InRange (s : TimerLoop) : TimerAction → Prop
  | .addTimerInLoop timer clock => ∀ t, s.queue.heap.deref timer = some t →
      s.queue.earliest t.expiration → IsInt64 (t.expiration - clock)
  | .resetOne => ∀ now e expired, s.frame = .resetting now (e :: expired) →
      ∀ t, s.queue.heap.deref e.2 = some t → t.repeat_ → IsInt64 (now + t.interval.micros)
  | .endReset clock => ∀ e, s.queue.timers.first? = some e → e.1.valid → IsInt64 (e.1 - clock)
  | _ => True

structure TimerThread where
  loop : TimerLoop
  timerfd : Timerfd
  /-- The clock of `Timestamp::now` and of the timerfd. -/
  time : Timestamp
  /-- What `handle_read` read the clock as, until it has read the timerfd. -/
  entered : Option Timestamp
  /-- What `reset_timerfd` has computed, until it programs the timerfd. -/
  programming : Option Programming

inductive TimerThreadAction where
  | wait (time : Timestamp)
  | fire
  /-- `handle_read` reads the clock. -/
  | enterHandleRead
  /-- `handle_read` reads the timerfd and goes on. -/
  | readTimerfd
  /-- A step of the loop, with the reading of the clock if it comes to `reset_timerfd`. -/
  | loop (a : TimerAction)
  /-- `reset_timerfd` calls `timerfd_settime`. -/
  | settime

namespace TimerThread

def init (time : Timestamp) : TimerThread where
  loop := .init
  timerfd := .init
  time := time
  entered := none
  programming := none

/-- The readings of the clock are the time it is. A positive interval is truncated to no negative
number of microseconds. -/
def Allows (s : TimerThread) : TimerAction → Prop
  | .newTimer _ _ interval => interval.positive → 0 ≤ interval.micros
  | .addTimerInLoop _ clock => s.entered = none ∧ s.programming = none ∧ clock = s.time
  | .cancelInLoop _ => s.entered = none ∧ s.programming = none
  | .handleRead _ => False
  | .callback | .endCallbacks | .resetOne => s.programming = none
  | .endReset clock => s.programming = none ∧ clock = s.time

def Pre (s : TimerThread) : TimerThreadAction → Prop
  | .wait time => s.time ≤ time
  | .fire => s.timerfd.armed ∧ s.timerfd.firing ≤ s.time
  | .enterHandleRead => s.loop.frame = .idle ∧ s.entered = none ∧ s.programming = none
  | .readTimerfd => s.entered ≠ none
  | .loop a => TimerLoop.Pre s.loop a ∧ s.Allows a
  | .settime => s.programming ≠ none

/-- After a step of the loop, which may be about to program the timerfd. -/
def afterEffect (s : TimerThread) (loop : TimerLoop) :
    Option TimerEffect → TimerThread × Option TimerEffect
  | some (.settime newValue) =>
    ({ s with loop := loop, programming := some ⟨newValue, s.time⟩ }, none)
  | effect => ({ s with loop := loop }, effect)

@[simp] theorem afterEffect_none (s : TimerThread) (loop : TimerLoop) :
    s.afterEffect loop none = ({ s with loop := loop }, none) := rfl

@[simp] theorem afterEffect_settime (s : TimerThread) (loop : TimerLoop) (newValue : Timespec) :
    s.afterEffect loop (some (.settime newValue)) =
      ({ s with loop := loop, programming := some ⟨newValue, s.time⟩ }, none) := rfl

def exec (s : TimerThread) : TimerThreadAction → Option (TimerThread × Option TimerEffect)
  | .wait time => some ({ s with time := time }, none)
  | .fire => some ({ s with timerfd := s.timerfd.fire }, none)
  | .enterHandleRead => some ({ s with entered := some s.time }, none)
  | .readTimerfd => do
    let now ← s.entered
    let (loop, effect) ← s.loop.exec (.handleRead now)
    return ({ s with loop := loop, timerfd := s.timerfd.read, entered := none }, effect)
  | .loop a => (s.loop.exec a).map fun (loop, effect) => s.afterEffect loop effect
  | .settime => s.programming.map fun p =>
    ({ s with timerfd := s.timerfd.settime s.time p, programming := none },
      some (.settime p.newValue))

def program : Program TimerThread TimerThreadAction (Option TimerEffect) where
  pre := Pre
  exec := exec

def InRange (s : TimerThread) : TimerThreadAction → Prop
  | .loop a => s.loop.InRange a
  | _ => True

/-- The reading of the clock that `handle_read` works with. -/
def now? (s : TimerThread) : Option Timestamp :=
  match s.loop.frame with
  | .idle => s.entered
  | .calling now _ _ | .resetting now _ => some now

/-- The timerfd is about to be programmed for the first timer. -/
def Programs (loop : TimerLoop) (p : Programming) : Prop :=
  ∃ e, loop.queue.timers.first? = some e ∧ p.newValue = howMuchTimeFromNow e.1 p.reading ∧
    IsInt64 (e.1 - p.reading)

structure Inv (s : TimerThread) : Prop where
  placed : ∃ place, s.loop.Inv place
  time_pos : 0 < s.time
  now_pos : ∀ now, s.now? = some now → 0 < now
  entered : s.entered ≠ none → s.loop.frame = .idle ∧ s.programming = none
  /-- A timer that is put back expires after `now`. -/
  micros : ∀ p t, s.loop.queue.heap.deref p = some t → t.repeat_ → 0 ≤ t.interval.micros
  programs : ∀ p, s.programming = some p → Programs s.loop p ∧ p.reading ≤ s.time
  covers : s.programming = none → ∀ p t, s.loop.queue.Armed p t →
    s.loop.frame = .idle ∨ t.expiration ≤ 0 → s.timerfd.Covers t.expiration

namespace Inv
variable {s s' : TimerThread} {place : Ptr → Place} {loop : TimerLoop}
  {o : Option TimerEffect}

theorem init {time : Timestamp} (h : 0 < time) : (init time).Inv where
  placed := ⟨_, TimerLoop.Inv.init⟩
  time_pos := h
  now_pos _ hnow := by cases hnow
  entered hne := absurd rfl hne
  micros p t ht := by cases ht
  programs _ hp := by cases hp
  covers _ p t ht := by cases ht.1

/-- A step of the loop that stays where it is in `handle_read`. -/
theorem same_frame (h : s.Inv) (programming : Option Programming) (hplaced : loop.Inv place)
    (hframe : loop.frame = s.loop.frame)
    (hmicros : ∀ p t, loop.queue.heap.deref p = some t → t.repeat_ → 0 ≤ t.interval.micros)
    (hentered : s.entered ≠ none → programming = none)
    (hprograms : ∀ p, programming = some p → Programs loop p ∧ p.reading ≤ s.time)
    (hcovers : programming = none → ∀ p t, loop.queue.Armed p t →
      s.loop.frame = .idle ∨ t.expiration ≤ 0 → s.timerfd.Covers t.expiration) :
    Inv { s with loop := loop, programming := programming } where
  placed := ⟨place, hplaced⟩
  time_pos := h.time_pos
  now_pos := by
    have hnow : now? { s with loop := loop, programming := programming } = s.now? := by
      simp only [now?, hframe]
    rw [hnow]
    exact h.now_pos
  entered hne := ⟨hframe.trans (h.entered hne).1, hentered hne⟩
  micros := hmicros
  programs := hprograms
  covers hnone p t ht hexp := hcovers hnone p t ht (by rwa [← hframe])

theorem newTimer (h : s.Inv) {addr : Nat} {when_ : Timestamp} {interval : Interval}
    (hpre : TimerLoop.Pre s.loop (.newTimer addr when_ interval))
    (hmicros : interval.positive → 0 ≤ interval.micros)
    (hexec : s.loop.exec (.newTimer addr when_ interval) = some (loop, o)) :
    Inv { s with loop := loop } := by
  obtain ⟨place, hs⟩ := h.placed
  obtain ⟨loop', o', hexec', hloop⟩ := hs.newTimer hpre.1 hpre.2 when_ interval
  cases hexec.symm.trans hexec'
  have htimers : loop.queue.timers = s.loop.queue.timers := by
    cases hexec
    rfl
  refine h.same_frame s.programming hloop ?_ ?_ (fun hne => (h.entered hne).2)
    (fun p hp => ?_) fun hnone p t ht => ?_
  · cases hexec
    rfl
  · cases hexec
    intro p t ht
    rw [Heap.deref_new hpre.1] at ht
    split at ht
    · cases ht
      exact hmicros
    · exact h.micros p t ht
  · rw [Programs, htimers]
    exact h.programs p hp
  · exact h.covers hnone p t ((hs.armed_newTimer hpre hexec).mp ht)

theorem addTimerInLoop (h : s.Inv) {timer : Ptr} (hmem : timer ∈ s.loop.handedOver)
    (hentered : s.entered = none) (hnone : s.programming = none)
    (hrange : s.InRange (.loop (.addTimerInLoop timer s.time)))
    (hexec : s.loop.exec (.addTimerInLoop timer s.time) = some (loop, o)) :
    Inv (s.afterEffect loop o).1 := by
  obtain ⟨place, hs⟩ := h.placed
  obtain ⟨t, ht, hplace, hexec', hloop⟩ := hs.addTimerInLoop hmem s.time
  have hput : ∀ p u, (s.loop.queue.put timer t).Armed p u ↔
      p = timer ∧ u = t ∨ s.loop.queue.Armed p u :=
    fun p u => hs.queue.armed_put ht (by rw [hplace]; nofun)
  cases hexec.symm.trans hexec'
  by_cases hearliest : s.loop.queue.earliest t.expiration
  · rw [if_pos hearliest, afterEffect_settime]
    refine h.same_frame _ hloop rfl h.micros (fun hne => absurd hentered hne) (fun p hp => ?_)
      fun hsome => absurd hsome (Option.some_ne_none _)
    cases hp
    exact ⟨⟨Entry.of timer t, TimerQueue.first?_put hearliest, rfl, hrange t ht hearliest⟩,
      le_rfl⟩
  · rw [if_neg hearliest, afterEffect_none]
    refine h.same_frame s.programming hloop rfl h.micros (fun _ => hnone)
      (fun p hp => ?_) fun _ p u hu hexp => ?_
    · cases hnone.symm.trans hp
    · rcases (hput p u).mp hu with ⟨-, rfl⟩ | hu
      · obtain ⟨r, v, hv, hle⟩ := hs.queue.exists_armed_of_not_earliest hearliest
        exact (h.covers hnone r v hv (hexp.imp_right hle.trans)).mono hle
      · exact h.covers hnone p u hu hexp

theorem cancelInLoop (h : s.Inv) {id : ActiveTimer} (hnone : s.programming = none)
    (hexec : s.loop.exec (.cancelInLoop id) = some (loop, o)) : Inv { s with loop := loop } := by
  obtain ⟨place, hs⟩ := h.placed
  obtain ⟨q', hexec', hcancels, hloop⟩ := hs.cancelInLoop id
  cases hexec.symm.trans hexec'
  refine h.same_frame s.programming hloop rfl (fun p t ht => ?_)
    (fun _ => hnone) (fun p hp => ?_) fun _ p t ht => ?_
  · cases hcancels with
    | hit _ _ _ hderef =>
      rw [hderef] at ht
      split at ht
      · cases ht
      · exact h.micros p t ht
    | missed _ hheap => exact h.micros p t (hheap ▸ ht)
  · cases hnone.symm.trans hp
  · exact h.covers hnone p t ((hs.queue.armed_cancel hloop.queue hcancels).mp ht).1

/-- `handle_read` has read the clock and goes on: what waits expires after `now`. -/
theorem handleRead (h : s.Inv) {now : Timestamp} (hnow : s.entered = some now)
    (hexec : s.loop.exec (.handleRead now) = some (loop, o)) :
    Inv { s with loop := loop, timerfd := s.timerfd.read, entered := none } := by
  obtain ⟨place, hs⟩ := h.placed
  obtain ⟨hidle, hnone⟩ := h.entered (by rw [hnow]; nofun)
  have hpos : 0 < now := h.now_pos now (by rw [now?, hidle, hnow])
  obtain ⟨loop', hexec', hheap, -, -, -, hframe, hloop⟩ := hs.handleRead hidle now
  cases hexec.symm.trans hexec'
  constructor
  · exact ⟨_, hloop⟩
  · exact h.time_pos
  · intro now' hnow'
    rw [now?, hframe] at hnow'
    cases hnow'
    exact hpos
  · exact absurd rfl
  · intro p t ht
    exact h.micros p t (hheap ▸ ht)
  · intro p hp
    cases hnone.symm.trans hp
  · intro _ p t ht hexp
    obtain ⟨-, hlt⟩ := (hs.armed_handleRead hidle hexec).mp ht
    rw [hframe] at hexp
    rcases hexp with hexp | hexp
    · cases hexp
    · exact absurd (hpos.trans hlt) (not_lt.mpr hexp)

/-- A step within `handle_read` after which the same timers wait. -/
theorem same_queue (h : s.Inv) (hplaced : loop.Inv place) (hnone : s.programming = none)
    (hold : s.loop.frame ≠ .idle) (hframe : loop.frame ≠ .idle)
    (hnow : ∀ now, now? { s with loop := loop } = some now → s.now? = some now)
    (hheap : loop.queue.heap = s.loop.queue.heap)
    (htimers : loop.queue.timers = s.loop.queue.timers) : Inv { s with loop := loop } where
  placed := ⟨place, hplaced⟩
  time_pos := h.time_pos
  now_pos now hn := h.now_pos now (hnow now hn)
  entered hne := absurd (h.entered hne).1 hold
  micros p t ht := h.micros p t (hheap ▸ ht)
  programs p hp := by cases hnone.symm.trans hp
  covers _ p t ht hexp := by
    rw [TimerQueue.Armed, hheap, htimers] at ht
    exact h.covers hnone p t ht (.inr (hexp.resolve_left hframe))

theorem resetOne (h : s.Inv) (hnone : s.programming = none)
    (hpre : TimerLoop.Pre s.loop .resetOne) (hrange : s.InRange (.loop .resetOne))
    (hexec : s.loop.exec .resetOne = some (loop, o)) : Inv { s with loop := loop } := by
  obtain ⟨place, hs⟩ := h.placed
  obtain ⟨now, e, expired, hframe⟩ := hpre
  have hne : s.loop.frame ≠ .idle := by rw [hframe]; nofun
  have hpos : 0 < now := h.now_pos now (by rw [now?, hframe])
  obtain ⟨t, q', ht, hplace, hexec', hresets, place', hloop⟩ := hs.resetOne hframe
  cases hexec.symm.trans hexec'
  constructor
  · exact ⟨place', hloop⟩
  · exact h.time_pos
  · intro now' hnow'
    cases hnow'
    exact hpos
  · exact fun hentered => absurd (h.entered hentered).1 hne
  · intro p u hu
    by_cases hp : p = e.2
    · subst hp
      cases hresets with
      | kept hkeep hderef =>
        rw [hderef, if_pos rfl] at hu
        cases hu
        rw [Timer.restart, if_pos hkeep.1]
        exact h.micros _ t ht
      | deleted _ hderef =>
        rw [hderef, if_pos rfl] at hu
        cases hu
    · rw [hresets.deref_of_ne hp] at hu
      exact h.micros p u hu
  · intro p hp
    cases hnone.symm.trans hp
  · intro _ p u hu hexp
    rcases (hs.queue.armed_reset ht (by rw [hplace]; nofun) hresets).mp hu with ⟨-, hkeep, rfl⟩ | hu
    · -- it is put back for a time after `now`
      have hmicros := h.micros _ t ht hkeep.1
      have hsum := wrap64_of_isInt64 (hrange now e expired hframe t ht hkeep.1)
      rw [Timer.restart, if_pos hkeep.1, addTime] at hexp
      simp only [hsum] at hexp
      rcases hexp with hexp | hexp
      · cases hexp
      · exact absurd (Int.add_pos_of_pos_of_nonneg hpos hmicros) (not_lt.mpr hexp)
    · exact h.covers hnone p u hu (.inr (hexp.resolve_left nofun))

theorem endReset (h : s.Inv) (hnone : s.programming = none)
    (hpre : TimerLoop.Pre s.loop (.endReset s.time)) (hrange : s.InRange (.loop (.endReset s.time)))
    (hexec : s.loop.exec (.endReset s.time) = some (loop, o)) :
    Inv (s.afterEffect loop o).1 := by
  obtain ⟨place, hs⟩ := h.placed
  obtain ⟨now, hframe⟩ := hpre
  have hentered : s.entered = none := by
    by_contra hne
    cases hframe.symm.trans (h.entered hne).1
  obtain ⟨hexec', hloop⟩ := hs.endReset hframe s.time
  cases hexec.symm.trans hexec'
  have hend (prog : Option Programming)
      (hprograms : ∀ p, prog = some p → Programs s.loop p ∧ p.reading ≤ s.time)
      (hcovers : prog = none → ∀ p t, s.loop.queue.Armed p t → s.timerfd.Covers t.expiration) :
      Inv { s with loop := { s.loop with frame := .idle }, programming := prog } :=
    { placed := ⟨_, hloop⟩
      time_pos := h.time_pos
      now_pos := fun now' hnow' => by cases hentered.symm.trans hnow'
      entered := fun hne => absurd hentered hne
      micros := h.micros
      programs := hprograms
      covers := fun hprog p t ht _ => hcovers hprog p t ht }
  cases hfirst : s.loop.queue.timers.first? with
  | none =>
    refine hend s.programming (fun p hp => ?_) fun _ p t ht => ?_
    · cases hnone.symm.trans hp
    · exact absurd ht.2 (OrderedSet.first?_eq_none_iff.mp hfirst _)
  | some e =>
    by_cases hvalid : e.1.valid
    · simp only [if_pos hvalid, afterEffect_settime]
      refine hend _ (fun p hp => ?_) fun hsome => absurd hsome (Option.some_ne_none _)
      cases hp
      exact ⟨⟨e, hfirst, rfl, hrange e hfirst hvalid⟩, le_rfl⟩
    · -- not programmed: it was, when the timer was added
      simp only [if_neg hvalid, afterEffect_none]
      refine hend s.programming (fun p hp => ?_) fun _ p t ht => ?_
      · cases hnone.symm.trans hp
      · obtain ⟨u, hu, heq⟩ := hs.queue.mem_timers.mp (OrderedSet.mem_of_first? hfirst)
        have hinvalid : u.expiration ≤ 0 := by simpa [Timestamp.valid, heq] using hvalid
        have hle : u.expiration ≤ t.expiration :=
          heq ▸ TimerQueue.expiration_le_of_first? hfirst ht.2
        exact (h.covers hnone e.2 u hu (.inr hinvalid)).mono hle

/-- The timerfd is programmed for the first timer, and so for all. -/
theorem settime (h : s.Inv) {p : Programming} (hp : s.programming = some p) :
    Inv { s with timerfd := s.timerfd.settime s.time p, programming := none } := by
  obtain ⟨⟨e, hfirst, hvalue, hrange⟩, -⟩ := h.programs p hp
  refine { h with
    entered := fun hne => ⟨(h.entered hne).1, rfl⟩
    programs := fun _ hnone => by cases hnone
    covers := fun _ q t ht _ => ?_ }
  obtain ⟨newValue, reading⟩ := p
  obtain rfl : newValue = howMuchTimeFromNow e.1 reading := hvalue
  exact (s.timerfd.covers_settime s.time hrange).mono
    (TimerQueue.expiration_le_of_first? hfirst ht.2)

theorem loopStep (h : s.Inv) {a : TimerAction} (hpre : TimerLoop.Pre s.loop a)
    (hallows : s.Allows a) (hrange : s.InRange (.loop a))
    (hexec : s.loop.exec a = some (loop, o)) : Inv (s.afterEffect loop o).1 := by
  obtain ⟨place, hs⟩ := h.placed
  cases a with
  | newTimer =>
    have hloop := h.newTimer hpre hallows hexec
    cases hexec
    exact hloop
  | addTimerInLoop timer clock =>
    obtain ⟨hentered, hnone, rfl⟩ := hallows
    exact h.addTimerInLoop hpre.2 hentered hnone hrange hexec
  | cancelInLoop id =>
    obtain ⟨q', hexec', -⟩ := hs.cancelInLoop id
    obtain rfl : o = none := by cases hexec.symm.trans hexec'; rfl
    exact h.cancelInLoop hallows.2 hexec
  | handleRead => exact absurd hallows not_false
  | callback =>
    obtain ⟨now, expired, started, hframe, hlt⟩ := hpre
    obtain ⟨hexec', hloop⟩ := hs.callback hframe hlt
    cases hexec.symm.trans hexec'
    exact h.same_queue hloop hallows (by rw [hframe]; nofun) nofun
      (fun now' hnow => by rw [now?, hframe]; exact hnow) rfl rfl
  | endCallbacks =>
    obtain ⟨now, expired, hframe⟩ := hpre
    obtain ⟨hexec', hloop⟩ := hs.endCallbacks hframe
    cases hexec.symm.trans hexec'
    exact h.same_queue hloop hallows (by rw [hframe]; nofun) nofun
      (fun now' hnow => by rw [now?, hframe]; exact hnow) rfl rfl
  | resetOne =>
    obtain ⟨now, e, expired, hframe⟩ := hpre
    obtain ⟨t, q', -, -, hexec', -⟩ := hs.resetOne hframe
    obtain rfl : o = none := by cases hexec.symm.trans hexec'; rfl
    exact h.resetOne hallows ⟨now, e, expired, hframe⟩ hrange hexec
  | endReset clock =>
    obtain ⟨hnone, rfl⟩ := hallows
    exact h.endReset hnone hpre hrange hexec

theorem step (h : s.Inv) {a : TimerThreadAction} (hpre : Pre s a) (hrange : s.InRange a)
    (hexec : exec s a = some (s', o)) : s'.Inv := by
  cases a with
  | wait time =>
    cases hexec
    exact { h with
      time_pos := h.time_pos.trans_le hpre
      programs := fun p hp => ⟨(h.programs p hp).1, (h.programs p hp).2.trans hpre⟩ }
  | fire =>
    cases hexec
    exact { h with covers := fun hnone p t ht hexp => (h.covers hnone p t ht hexp).fire }
  | enterHandleRead =>
    cases hexec
    refine { h with now_pos := fun now hnow => ?_, entered := fun _ => ⟨hpre.1, hpre.2.2⟩ }
    simp only [now?, hpre.1] at hnow
    cases hnow
    exact h.time_pos
  | readTimerfd =>
    obtain ⟨now, hnow, hexec⟩ := Option.bind_eq_some_iff.mp hexec
    obtain ⟨⟨loop, effect⟩, hloop, heq⟩ := Option.bind_eq_some_iff.mp hexec
    cases heq
    exact h.handleRead hnow hloop
  | loop a =>
    obtain ⟨⟨loop, effect⟩, hloop, heq⟩ := Option.map_eq_some_iff.mp hexec
    obtain rfl : (s.afterEffect loop effect).1 = s' := congrArg Prod.fst heq
    exact h.loopStep hpre.1 hpre.2 hrange hloop
  | settime =>
    obtain ⟨p, hp, heq⟩ := Option.map_eq_some_iff.mp hexec
    cases heq
    exact h.settime hp

theorem of_reachable {time : Timestamp} (htime : 0 < time)
    (h : (program.restrict InRange).Reachable (.init time) s) : s.Inv := by
  induction h with
  | start => exact init htime
  | step _ hpre hexec ih => exact ih.step hpre.1 hpre.2 hexec

end Inv

/-- Only `reset_timerfd` programs the timerfd. -/
theorem exec_settime {s s' : TimerThread} (h : s.Inv) {a : TimerThreadAction} {newValue : Timespec}
    (hpre : Pre s a) (hexec : exec s a = some (s', some (.settime newValue))) :
    a = .settime ∧ ∃ reading, s.programming = some ⟨newValue, reading⟩ := by
  obtain ⟨place, hs⟩ := h.placed
  cases a with
  | wait | fire | enterHandleRead => cases hexec
  | readTimerfd =>
    obtain ⟨now, hnow, hexec⟩ := Option.bind_eq_some_iff.mp hexec
    obtain ⟨⟨loop, effect⟩, hloop, heq⟩ := Option.bind_eq_some_iff.mp hexec
    cases heq
    have hidle : s.loop.frame = .idle := (h.entered (by rw [hnow]; nofun)).1
    obtain ⟨loop', hexec', -⟩ := hs.handleRead hidle now
    cases hloop.symm.trans hexec'
  | loop a =>
    obtain ⟨⟨loop, effect⟩, hloop, heq⟩ := Option.map_eq_some_iff.mp hexec
    have heffect : (s.afterEffect loop effect).2 = some (.settime newValue) :=
      congrArg Prod.snd heq
    cases effect with
    | none => cases heffect
    | some effect => cases effect <;> cases heffect
  | settime =>
    obtain ⟨⟨newValue, reading⟩, hp, heq⟩ := Option.map_eq_some_iff.mp hexec
    cases heq
    exact ⟨rfl, reading, hp⟩

/-- **No timer is forgotten** while no `int64_t` overflows. Whenever timers are added and cancelled,
time passes, the timerfd fires and `handle_read` is called: outside `handle_read` and
`reset_timerfd`, while a timer waits, the timerfd is armed or has fired and is unread, and its
firing time is no later than 100 microseconds after it was programmed, or than the earliest
expiration and the time between the reading of the clock and `timerfd_settime`. It is only given
valid values other than zero, that denote the time from the reading to the earliest expiration but
no less than 100 microseconds. -/
theorem timer_not_forgotten {time : Timestamp} (htime : 0 < time) {s : TimerThread}
    (h : (program.restrict InRange).Reachable (.init time) s) :
    (s.loop.frame = .idle → s.entered = none → s.programming = none →
      ∀ e, s.loop.queue.timers.first? = some e →
        (s.timerfd.armed ∨ s.timerfd.unread) ∧
          s.timerfd.firing ≤ max (e.1 + (s.timerfd.programmed - s.timerfd.reading))
            (s.timerfd.programmed + 100)) ∧
    ∀ a s' newValue, program.pre s a → program.exec s a = some (s', some (.settime newValue)) →
      newValue.Valid ∧ newValue.nanos ≠ 0 ∧ ∃ e reading,
        s.loop.queue.timers.first? = some e ∧ s.programming = some ⟨newValue, reading⟩ ∧
        reading ≤ s.time ∧ newValue.nanos = max 100 (e.1 - reading) * 1000 := by
  have hs := Inv.of_reachable htime h
  constructor
  · intro hidle _ hnone e hfirst
    obtain ⟨place, hplaced⟩ := hs.placed
    obtain ⟨t, ht, heq⟩ := hplaced.queue.mem_timers.mp (OrderedSet.mem_of_first? hfirst)
    exact heq ▸ hs.covers hnone e.2 t ht (.inl hidle)
  · intro a s' newValue hpre hexec
    obtain ⟨-, reading, hp⟩ := exec_settime hs hpre hexec
    obtain ⟨⟨e, hfirst, hvalue, hrange⟩, hle⟩ := hs.programs _ hp
    obtain rfl : newValue = howMuchTimeFromNow e.1 reading := hvalue
    obtain ⟨hvalid, hnanos⟩ := howMuchTimeFromNow_spec hrange
    have hne : ∀ us : Int, max 100 us * 1000 ≠ 0 := fun us => by omega
    exact ⟨hvalid, hnanos ▸ hne _, e, reading, hfirst, hp, hle, hnanos⟩

/-- The loop is interrupted for 5 microseconds before it programs the timerfd, which has fired in
the end, and nothing has read it yet. -/
theorem timer_not_forgotten_fired : ∃ s : TimerThread,
    (program.restrict InRange).Reachable (.init 10) s ∧
    s.loop.queue.timers.first? = some (500, ⟨8, 0⟩) ∧ s.timerfd.firing = 505 ∧
    (s.timerfd.armed ∨ s.timerfd.unread) ∧
      s.timerfd.firing ≤ max (500 + (s.timerfd.programmed - s.timerfd.reading))
        (s.timerfd.programmed + 100) := by
  have hnew : (program.restrict InRange).Reachable (.init 10) _ :=
    .next .start (.loop (.newTimer 8 500 ⟨false, 0⟩)) ⟨⟨⟨rfl, by decide⟩, nofun⟩, trivial⟩ rfl
  have hadd := hnew.next (.loop (.addTimerInLoop ⟨8, 0⟩ 10))
    ⟨⟨⟨trivial, List.mem_cons_self⟩, rfl, rfl, rfl⟩, fun t ht _ => by cases ht; decide⟩ rfl
  have hlate := hadd.next (.wait 15) ⟨(by decide : (10 : Int) ≤ 15), trivial⟩ rfl
  have hset := hlate.next .settime ⟨Option.some_ne_none _, trivial⟩ rfl
  have hwait := hset.next (.wait 600) ⟨(by decide : (15 : Int) ≤ 600), trivial⟩ rfl
  have hfire := hwait.next .fire ⟨⟨rfl, by decide⟩, trivial⟩ rfl
  exact ⟨_, hfire, rfl, rfl, (timer_not_forgotten (by decide) hfire).1 rfl rfl rfl _ rfl⟩

/-- The loop is interrupted for 300 microseconds between the reading of the clock and
`timerfd_settime`; or the timer is that of `runAfter(9223372000000.0)`, for a time that is no
`int64_t`: it is the next one to be run, and the timerfd is set to the year 294000. -/
theorem timer_forgotten :
    (∃ s : TimerThread, program.Reachable (.init 10) s ∧ s.loop.frame = .idle ∧
      s.entered = none ∧ s.programming = none ∧
      s.loop.queue.timers.first? = some (500, ⟨8, 0⟩) ∧
      ¬ s.timerfd.firing ≤ max 500 (s.timerfd.programmed + 100)) ∧
    ∃ (s : TimerThread) (e : Entry), program.Reachable (.init 1700000000000000) s ∧
      s.loop.frame = .idle ∧ s.entered = none ∧ s.programming = none ∧
      s.timerfd.programmed = s.timerfd.reading ∧
      s.loop.queue.timers.first? = some e ∧
      ¬ s.timerfd.firing ≤ max e.1 (s.timerfd.programmed + 100) := by
  constructor
  · have hnew : program.Reachable (.init 10) _ :=
      .next .start (.loop (.newTimer 8 500 ⟨false, 0⟩)) ⟨⟨rfl, by decide⟩, nofun⟩ rfl
    have hadd := hnew.next (.loop (.addTimerInLoop ⟨8, 0⟩ 10))
      ⟨⟨trivial, List.mem_cons_self⟩, rfl, rfl, rfl⟩ rfl
    have hlate := hadd.next (.wait 310) (by decide : (10 : Int) ≤ 310) rfl
    have hset := hlate.next .settime (Option.some_ne_none _) rfl
    exact ⟨_, hset, rfl, rfl, rfl, rfl, by decide⟩
  · have hnew : program.Reachable (.init 1700000000000000) _ :=
      .next .start (.loop (.newTimer 8 (addTime 1700000000000000 ⟨true, 9223372000000000000⟩)
        ⟨false, 0⟩)) ⟨⟨rfl, by decide⟩, nofun⟩ rfl
    have hadd := hnew.next (.loop (.addTimerInLoop ⟨8, 0⟩ 1700000000000000))
      ⟨⟨trivial, List.mem_cons_self⟩, rfl, rfl, rfl⟩ rfl
    have hset := hadd.next .settime (Option.some_ne_none _) rfl
    exact ⟨_, _, hset, rfl, rfl, rfl, rfl, rfl, by decide⟩

end TimerThread
end Httpancake
