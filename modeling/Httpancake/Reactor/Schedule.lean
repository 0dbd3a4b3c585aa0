import Httpancake.Lib.Observation
import Httpancake.Reactor.ExpiredBatch
import Httpancake.Reactor.Timerfd

/-! # When callbacks are started

While no `int64_t` overflows, a timer is never early: the callback of one that was made for `when`
starts at `when` or later, and only once unless it repeats; each further start of a repeating timer
is one interval later at least (`TimerThread.timers_on_schedule`). `reset` counts the interval from
the reading of the clock on which `handle_read` works, so that the starts of a repeating timer
drift, but only backwards.

What carries this is that the expiration of a timer is no earlier than the schedule allows for its
next start (`TimerLoop.Scheduled`), and that the timers of a batch are due (`TimerLoop.Due`). -/

namespace Httpancake

/-- The reading of the clock that a batch works with. -/
def HandleRead.now? : HandleRead → Option Timestamp
  | idle => none
  | calling now _ _ | resetting now _ => some now

/-- The callbacks of a batch that were started. -/
def HandleRead.ran : HandleRead → List Ptr
  | idle => []
  | calling _ expired started => (expired.take started).map Prod.snd
  | resetting _ expired => expired.map Prod.snd

/-- The callback that a step has started. -/
def TimerEffect.started (p : Ptr) (o : Option TimerEffect) (time : Timestamp) : List Timestamp :=
  if TimerEffect.run? o = some p then [time] else []

theorem TimerEffect.started_congr {p : Ptr} {o o' : Option TimerEffect} {time : Timestamp}
    (h : TimerEffect.run? o = TimerEffect.run? o') :
    TimerEffect.started p o time = TimerEffect.started p o' time := by
  rw [TimerEffect.started, h]
  rfl

theorem TimerEffect.started_of_quiet {p : Ptr} {o : Option TimerEffect} {time : Timestamp}
    (h : TimerEffect.run? o = none) : TimerEffect.started p o time = [] :=
  if_neg (by rw [h]; exact (Option.some_ne_none p).symm)

/-- The times at which a callback was started keep to the schedule. -/
structure Timely (when_ : Timestamp) (interval : Interval) (times : List Timestamp) : Prop where
  not_early : ∀ k (hk : k < times.length), when_ + k * interval.micros ≤ times[k]
  once : interval.positive = false → times.length ≤ 1

theorem Timely.concat {when_ time : Timestamp} {interval : Interval} {times : List Timestamp}
    (h : Timely when_ interval times) (htime : when_ + times.length * interval.micros ≤ time)
    (honce : interval.positive = false → times = []) : Timely when_ interval (times ++ [time]) where
  not_early k hk := by
    rw [List.length_append, List.length_singleton, Nat.lt_succ_iff_lt_or_eq] at hk
    rcases hk with hlt | rfl
    · rw [List.getElem_append_left hlt]
      exact h.not_early k hlt
    · simpa using htime
  once hpositive := by rw [honce hpositive]; rfl

/-- What a cancellation leaves of a timer. -/
theorem TimerQueue.Cancels.deref_of_some {q q' : TimerQueue} {place : Ptr → Place}
    {id : ActiveTimer} (h : q.Cancels place id q') {p : Ptr} {t : Timer}
    (ht : q'.heap.deref p = some t) : q.heap.deref p = some t := by
  cases h with
  | hit _ _ _ hderef =>
    rw [hderef] at ht
    split at ht
    · cases ht
    · exact ht
  | missed _ hheap => rwa [hheap] at ht

namespace TimerLoop
variable {s s' : TimerLoop} {place : Ptr → Place} {p : Ptr} {when_ time : Timestamp}
  {interval : Interval} {times : List Timestamp} {a : TimerAction} {o : Option TimerEffect}

/-- The timers of the batch had expired when it began. -/
def Due (s : TimerLoop) : Prop :=
  ∀ now ∈ s.frame.now?, ∀ p ∈ s.held, ∀ t, s.queue.heap.deref p = some t → t.expiration ≤ now

/-- The starts so far, and the earliest time that is left for the next one. -/
structure Scheduled (s : TimerLoop) (p : Ptr) (when_ : Timestamp) (interval : Interval)
    (times : List Timestamp) : Prop where
  timely : Timely when_ interval times
  pending : ∀ t, s.queue.heap.deref p = some t → t.interval = interval ∧
    t.repeat_ = interval.positive ∧ ∃ m : Nat, when_ + m * interval.micros ≤ t.expiration ∧
      times.length = (if p ∈ s.frame.ran then m + 1 else m) ∧ (interval.positive = false → m = 0)

/-- A step that leaves the timer as it is, or deletes it. -/
theorem Scheduled.of_deref (h : s.Scheduled p when_ interval times)
    (hderef : ∀ t, s'.queue.heap.deref p = some t → s.queue.heap.deref p = some t)
    (hran : p ∈ s'.frame.ran ↔ p ∈ s.frame.ran) : s'.Scheduled p when_ interval times where
  timely := h.timely
  pending t ht := by
    simp only [hran]
    exact h.pending t (hderef t ht)

/-- Started callbacks belong to the batch. -/
theorem ran_subset_held (hp : p ∈ s.frame.ran) : p ∈ s.held := by
  rw [TimerLoop.held]
  cases hframe : s.frame with
  | idle =>
    rw [hframe] at hp
    cases hp
  | calling now expired started =>
    rw [hframe, HandleRead.ran, List.map_take] at hp
    exact List.mem_of_mem_take hp
  | resetting now expired =>
    rw [hframe] at hp
    exact hp

theorem ran_endCallbacks {now : Timestamp} {expired : List Entry}
    (hframe : s.frame = .calling now expired expired.length) :
    (HandleRead.resetting now expired).ran = s.frame.ran := by
  rw [hframe, HandleRead.ran, HandleRead.ran, List.take_length]

/-- **The step lemma.** -/
theorem Due.step (h : s.Due) (hs : s.Inv place) (hpre : Pre s a)
    (hexec : exec s a = some (s', o)) : s'.Due := by
  cases a with
  | newTimer addr when_ interval =>
    cases hexec
    intro now hnow p hp t ht
    rw [Heap.deref_new hpre.1] at ht
    split at ht
    · next heq =>
      -- the new timer is not in the batch
      obtain ⟨-, u, hu⟩ := (hs.held p).mp hp
      rw [heq, Heap.newPtr_not_live] at hu
      cases hu
    · exact h now hnow p hp t ht
  | addTimerInLoop timer clock =>
    obtain ⟨t, -, -, hexec', -⟩ := hs.addTimerInLoop hpre.2 clock
    cases hexec.symm.trans hexec'
    exact h
  | cancelInLoop id =>
    obtain ⟨q', hexec', hcancels, -⟩ := hs.cancelInLoop id
    cases hexec.symm.trans hexec'
    exact fun now hnow p hp t ht => h now hnow p hp t (hcancels.deref_of_some ht)
  | handleRead now =>
    obtain ⟨s₁, hexec', hheap, -, -, -, hframe, -⟩ := hs.handleRead hpre now
    cases hexec.symm.trans hexec'
    intro now' hnow' p hp t ht
    rw [hframe] at hnow'
    cases hnow'
    rw [TimerLoop.held, hframe] at hp
    obtain ⟨-, u, hu, hle⟩ := hs.queue.mem_due_snd.mp hp
    rw [hheap] at ht
    cases ht.symm.trans hu
    exact hle
  | callback =>
    obtain ⟨now, expired, started, hframe, hlt⟩ := hpre
    obtain ⟨hexec', -⟩ := hs.callback hframe hlt
    cases hexec.symm.trans hexec'
    rw [Due, TimerLoop.held, hframe] at h
    exact h
  | endCallbacks =>
    obtain ⟨now, expired, hframe⟩ := hpre
    obtain ⟨hexec', -⟩ := hs.endCallbacks hframe
    cases hexec.symm.trans hexec'
    rw [Due, TimerLoop.held, hframe] at h
    exact h
  | resetOne =>
    obtain ⟨now, e, expired, hframe⟩ := hpre
    obtain ⟨t, q', -, -, hexec', hresets, -⟩ := hs.resetOne hframe
    cases hexec.symm.trans hexec'
    have hnodup := hs.nodup
    rw [TimerLoop.held, hframe] at hnodup
    rw [Due, TimerLoop.held, hframe] at h
    intro now' hnow' p hp u hu
    have hne : p ≠ e.2 := fun heq => (List.nodup_cons.mp hnodup).1 (heq ▸ hp)
    rw [hresets.deref_of_ne hne] at hu
    exact h now' hnow' p (List.mem_cons_of_mem _ hp) u hu
  | endReset clock =>
    obtain ⟨now, hframe⟩ := hpre
    obtain ⟨hexec', -⟩ := hs.endReset hframe clock
    cases hexec.symm.trans hexec'
    intro now' hnow'
    cases hnow'

/-- The next callback of the batch is not early, and the timer has one start more. -/
theorem Scheduled.callback (h : s.Scheduled p when_ interval times) (hs : s.Inv place)
    (hdue : s.Due) {now : Timestamp} {expired : List Entry} {started : Nat}
    (hframe : s.frame = .calling now expired started) (hlt : started < expired.length)
    (htime : now ≤ time) :
    Scheduled { s with frame := .calling now expired (started + 1) } p when_ interval
      (times ++ TimerEffect.started p (some (.run expired[started].2)) time) := by
  have hran : (HandleRead.calling now expired (started + 1)).ran =
      s.frame.ran ++ [expired[started].2] := by
    rw [hframe, HandleRead.ran, HandleRead.ran, List.take_succ_eq_append_getElem hlt,
      List.map_append]
    rfl
  by_cases hp : expired[started].2 = p
  · subst hp
    have hheld : s.held = expired.map Prod.snd := by rw [TimerLoop.held, hframe]; rfl
    have hmem : expired[started].2 ∈ s.held :=
      hheld ▸ List.mem_map_of_mem (List.getElem_mem hlt)
    have hnew : expired[started].2 ∉ s.frame.ran := by
      have hnodup := hs.nodup
      rw [hheld, ← List.take_append_drop (started + 1) expired, List.map_append] at hnodup
      have hfirst := hnodup.of_append_left
      rw [List.take_succ_eq_append_getElem hlt, List.map_append, List.nodup_append] at hfirst
      rw [hframe]
      exact fun hmem => hfirst.2.2 _ hmem _ (List.mem_singleton_self _) rfl
    obtain ⟨-, t, ht⟩ := (hs.held _).mp hmem
    obtain ⟨hinterval, hrepeat, m, hle, hlength, honce⟩ := h.pending t ht
    rw [if_neg hnew] at hlength
    have hexpired : t.expiration ≤ now := hdue now (by rw [hframe]; rfl) _ hmem t ht
    have hstarted : TimerEffect.started expired[started].2 (some (.run expired[started].2)) time =
        [time] := if_pos rfl
    rw [hstarted]
    refine ⟨h.timely.concat ?_ fun hpositive => ?_, fun u hu => ?_⟩
    · rw [hlength]
      exact hle.trans (hexpired.trans htime)
    · exact List.length_eq_zero_iff.mp (hlength.trans (honce hpositive))
    · obtain rfl : t = u := Option.some.inj (ht.symm.trans hu)
      refine ⟨hinterval, hrepeat, m, hle, ?_, honce⟩
      rw [hran, if_pos (List.mem_append_right _ (List.mem_singleton_self _)), List.length_append,
        hlength]
      rfl
  · have hstarted : TimerEffect.started p (some (.run expired[started].2)) time = [] :=
      if_neg fun heq => hp (Option.some.inj heq)
    rw [hstarted, List.append_nil]
    refine h.of_deref (fun _ => id) ?_
    rw [hran, List.mem_append, List.mem_singleton]
    exact or_iff_left (Ne.symm hp)

/-- A timer that `reset` puts back waits for one interval more. -/
theorem Scheduled.resetOne (h : s.Scheduled p when_ interval times) (hs : s.Inv place)
    (hdue : s.Due) (hrange : s.InRange .resetOne) {now : Timestamp} {e : Entry}
    {expired : List Entry} {t : Timer} {q' : TimerQueue}
    (hframe : s.frame = .resetting now (e :: expired))
    (ht : s.queue.heap.deref e.2 = some t) (hresets : s.queue.Resets place now e.2 t q') :
    Scheduled { s with queue := q', frame := .resetting now expired } p when_ interval times := by
  have hheld : s.held = e.2 :: expired.map Prod.snd := by rw [TimerLoop.held, hframe]; rfl
  have hran : s.frame.ran = e.2 :: expired.map Prod.snd := by rw [hframe]; rfl
  by_cases hp : p = e.2
  · subst hp
    obtain ⟨hinterval, hrepeat, m, hle, hlength, -⟩ := h.pending t ht
    rw [hran, if_pos List.mem_cons_self] at hlength
    have hexpired : t.expiration ≤ now :=
      hdue now (by rw [hframe]; rfl) _ (hheld ▸ List.mem_cons_self) t ht
    have hrest : e.2 ∉ expired.map Prod.snd := by
      have hnodup := hs.nodup
      rw [hheld] at hnodup
      exact (List.nodup_cons.mp hnodup).1
    refine ⟨h.timely, fun u hu => ?_⟩
    cases hresets with
    | deleted _ hderef =>
      rw [hderef, if_pos rfl] at hu
      cases hu
    | kept hkeep hderef =>
      rw [hderef, if_pos rfl, Timer.restart, if_pos hkeep.1] at hu
      cases hu
      refine ⟨hinterval, hrepeat, m + 1, ?_, hlength.trans (if_neg hrest).symm, fun hpositive => ?_⟩
      · change _ ≤ wrap64 (now + t.interval.micros)
        rw [wrap64_of_isInt64 (hrange now e expired hframe t ht hkeep.1), hinterval,
          Int.natCast_succ, Int.add_mul, Int.one_mul, ← Int.add_assoc]
        exact Int.add_le_add_right (hle.trans hexpired) _
      · exact absurd (hrepeat.symm.trans hkeep.1) (by rw [hpositive]; exact Bool.false_ne_true)
  · refine h.of_deref (fun u hu => ?_) ?_
    · rwa [hresets.deref_of_ne hp] at hu
    · rw [hran]
      exact (List.mem_cons.trans (or_iff_right hp)).symm

/-- **The step lemma.** -/
theorem Scheduled.step (h : s.Scheduled p when_ interval times) (hs : s.Inv place) (hdue : s.Due)
    (hmade : p.obj < s.queue.heap.made) (htime : ∀ now ∈ s.frame.now?, now ≤ time)
    (hpre : Pre s a) (hrange : s.InRange a)
    (hexec : exec s a = some (s', o)) :
    s'.Scheduled p when_ interval (times ++ TimerEffect.started p o time) := by
  have hquiet (hs' : s'.Scheduled p when_ interval times) (ho : TimerEffect.run? o = none) :
      s'.Scheduled p when_ interval (times ++ TimerEffect.started p o time) := by
    rw [TimerEffect.started_of_quiet ho, List.append_nil]
    exact hs'
  cases a with
  | newTimer addr when_ interval =>
    cases hexec
    refine hquiet (h.of_deref (fun t ht => ?_) Iff.rfl) rfl
    rw [Heap.deref_new hpre.1, if_neg] at ht
    · exact ht
    · rintro rfl
      exact Nat.lt_irrefl _ hmade
  | addTimerInLoop timer clock =>
    obtain ⟨t, -, -, hexec', -⟩ := hs.addTimerInLoop hpre.2 clock
    cases hexec.symm.trans hexec'
    refine hquiet (h.of_deref (fun _ => id) Iff.rfl) ?_
    split <;> rfl
  | cancelInLoop id =>
    obtain ⟨q', hexec', hcancels, -⟩ := hs.cancelInLoop id
    cases hexec.symm.trans hexec'
    exact hquiet (h.of_deref (fun t => hcancels.deref_of_some) Iff.rfl) rfl
  | handleRead now =>
    obtain ⟨s₁, hexec', hheap, -, -, -, hframe, -⟩ := hs.handleRead hpre now
    cases hexec.symm.trans hexec'
    have hidle : s.frame = .idle := hpre
    refine hquiet (h.of_deref (fun t ht => hheap ▸ ht) ?_) rfl
    rw [hframe, hidle]
    exact Iff.rfl
  | callback =>
    obtain ⟨now, expired, started, hframe, hlt⟩ := hpre
    obtain ⟨hexec', -⟩ := hs.callback hframe hlt
    cases hexec.symm.trans hexec'
    exact h.callback hs hdue hframe hlt (htime now (by rw [hframe]; rfl))
  | endCallbacks =>
    obtain ⟨now, expired, hframe⟩ := hpre
    obtain ⟨hexec', -⟩ := hs.endCallbacks hframe
    cases hexec.symm.trans hexec'
    refine hquiet (h.of_deref (fun _ => id) ?_) rfl
    rw [ran_endCallbacks hframe]
  | resetOne =>
    obtain ⟨now, e, expired, hframe⟩ := hpre
    obtain ⟨t, q', ht, -, hexec', hresets, -⟩ := hs.resetOne hframe
    cases hexec.symm.trans hexec'
    exact hquiet (h.resetOne hs hdue hrange hframe ht hresets) rfl
  | endReset clock =>
    obtain ⟨now, hframe⟩ := hpre
    obtain ⟨o', hexec', ho, -⟩ := hs.endReset_run? hframe clock
    cases hexec.symm.trans hexec'
    refine hquiet (h.of_deref (fun _ => id) ?_) ho
    rw [hframe]
    exact Iff.rfl

/-- The heap only grows, and the reading of the clock is that of `handle_read`. -/
theorem made_step (hs : s.Inv place) (hpre : Pre s a) (hexec : exec s a = some (s', o)) :
    s.queue.heap.made ≤ s'.queue.heap.made ∧
      ∀ now ∈ s'.frame.now?, a = .handleRead now ∨ now ∈ s.frame.now? := by
  cases a with
  | newTimer addr when_ interval =>
    cases hexec
    exact ⟨Nat.le_succ _, fun _ => .inr⟩
  | addTimerInLoop timer clock =>
    obtain ⟨t, -, -, hexec', -⟩ := hs.addTimerInLoop hpre.2 clock
    cases hexec.symm.trans hexec'
    exact ⟨Nat.le_refl _, fun _ => .inr⟩
  | cancelInLoop id =>
    obtain ⟨q', hexec', hcancels, -⟩ := hs.cancelInLoop id
    cases hexec.symm.trans hexec'
    exact ⟨hcancels.made_eq.ge, fun _ => .inr⟩
  | handleRead now =>
    obtain ⟨s₁, hexec', hheap, -, -, -, hframe, -⟩ := hs.handleRead hpre now
    cases hexec.symm.trans hexec'
    refine ⟨Nat.le_of_eq (by rw [hheap]), fun now' hnow' => .inl ?_⟩
    rw [hframe] at hnow'
    cases hnow'
    rfl
  | callback =>
    obtain ⟨now, expired, started, hframe, hlt⟩ := hpre
    obtain ⟨hexec', -⟩ := hs.callback hframe hlt
    cases hexec.symm.trans hexec'
    rw [hframe]
    exact ⟨Nat.le_refl _, fun _ => .inr⟩
  | endCallbacks =>
    obtain ⟨now, expired, hframe⟩ := hpre
    obtain ⟨hexec', -⟩ := hs.endCallbacks hframe
    cases hexec.symm.trans hexec'
    rw [hframe]
    exact ⟨Nat.le_refl _, fun _ => .inr⟩
  | resetOne =>
    obtain ⟨now, e, expired, hframe⟩ := hpre
    obtain ⟨t, q', -, -, hexec', hresets, -⟩ := hs.resetOne hframe
    cases hexec.symm.trans hexec'
    rw [hframe]
    exact ⟨hresets.made_eq.ge, fun _ => .inr⟩
  | endReset clock =>
    obtain ⟨now, hframe⟩ := hpre
    obtain ⟨hexec', -⟩ := hs.endReset hframe clock
    cases hexec.symm.trans hexec'
    refine ⟨Nat.le_refl _, fun now' hnow' => ?_⟩
    cases hnow'

/-- A timer that was just made. -/
theorem scheduled_newTimer {addr : Nat} (hpre : Pre s (.newTimer addr when_ interval))
    (hexec : exec s (.newTimer addr when_ interval) = some (s', o)) (hs : s.Inv place) :
    (s.queue.heap.newPtr addr).obj < s'.queue.heap.made ∧
      s'.Scheduled (s.queue.heap.newPtr addr) when_ interval [] := by
  have hran : s.queue.heap.newPtr addr ∉ s.frame.ran := by
    intro hmem
    obtain ⟨-, t, ht⟩ := (hs.held _).mp (ran_subset_held hmem)
    rw [Heap.newPtr_not_live] at ht
    cases ht
  cases hexec
  refine ⟨Nat.lt_succ_self _, ⟨fun k hk => absurd hk (Nat.not_lt_zero k), fun _ => Nat.zero_le _⟩,
    fun t ht => ?_⟩
  rw [Heap.deref_new hpre.1, if_pos rfl] at ht
  cases ht
  refine ⟨rfl, rfl, 0, ?_, (if_neg hran).symm, fun _ => rfl⟩
  exact Int.le_of_eq (by simp [Timer.make])

/-- Only a callback is started, and its timer exists. -/
theorem obj_lt_of_run (hexec : exec s a = some (s', o)) (hrun : TimerEffect.run? o = some p) :
    p.obj < s.queue.heap.made := by
  cases a with
  | newTimer =>
    cases hexec
    cases hrun
  | addTimerInLoop timer clock =>
    obtain ⟨⟨queue, newValue⟩, -, heq⟩ := Option.bind_eq_some_iff.mp hexec
    cases heq
    cases newValue <;> cases hrun
  | endReset clock =>
    obtain ⟨newValue, -, heq⟩ := Option.bind_eq_some_iff.mp hexec
    cases heq
    cases newValue <;> cases hrun
  | cancelInLoop | handleRead =>
    obtain ⟨r, -, heq⟩ := Option.bind_eq_some_iff.mp hexec
    cases heq
    cases hrun
  | callback =>
    rw [exec] at hexec
    split at hexec
    · obtain ⟨e, -, hexec⟩ := Option.bind_eq_some_iff.mp hexec
      obtain ⟨t, ht, heq⟩ := Option.bind_eq_some_iff.mp hexec
      cases heq
      cases hrun
      exact Heap.obj_lt_made ht
    · cases hexec
  | endCallbacks =>
    rw [exec] at hexec
    split at hexec
    · cases hexec
      cases hrun
    · cases hexec
  | resetOne =>
    rw [exec] at hexec
    split at hexec
    · obtain ⟨r, -, heq⟩ := Option.bind_eq_some_iff.mp hexec
      cases heq
      cases hrun
    · cases hexec

end TimerLoop

/-- What is noted of a run: the timers that are made, and the callbacks that are started. -/
inductive TimerNote where
  | made (p : Ptr) (when_ : Timestamp) (interval : Interval)
  | started (p : Ptr) (time : Timestamp)

namespace TimerNote

def timer : TimerNote → Ptr
  | made p _ _ | started p _ => p

/-- When a callback of the timer was started. -/
def time? (p : Ptr) : TimerNote → Option Timestamp
  | made _ _ _ => none
  | started q time => if q = p then some time else none

/-- When the callbacks of a timer were started. -/
def timesOf (p : Ptr) (notes : List TimerNote) : List Timestamp := notes.filterMap (time? p)

theorem timesOf_append (p : Ptr) (notes notes' : List TimerNote) :
    timesOf p (notes ++ notes') = timesOf p notes ++ timesOf p notes' := List.filterMap_append

theorem timesOf_eq_nil {p : Ptr} {notes : List TimerNote} (h : ∀ n ∈ notes, n.timer ≠ p) :
    timesOf p notes = [] := by
  rw [timesOf, List.filterMap_eq_nil_iff]
  intro n hn
  cases n with
  | made => rfl
  | started q time => exact if_neg (h _ hn)

end TimerNote

namespace TimerThread
variable {s s' : TimerThread} {a : TimerThreadAction} {o : Option TimerEffect}
  {notes : List TimerNote}

open TimerNote

/-- The timer that a step makes. -/
def makes (s : TimerThread) : TimerThreadAction → List TimerNote
  | .loop (.newTimer addr when_ interval) =>
    [.made (s.loop.queue.heap.newPtr addr) when_ interval]
  | _ => []

/-- What a step adds to the notes. -/
def noted (s : TimerThread) (a : TimerThreadAction) : List TimerNote :=
  s.makes a ++ (((exec s a).bind fun r => TimerEffect.run? r.2).toList.map (.started · s.time))

/-- What happened to the timers in a run. -/
def history (time : Timestamp) (as : List TimerThreadAction) : List TimerNote :=
  program.observe noted (.init time) as

/-- Only `newTimer` makes a timer. -/
theorem mem_makes {n : TimerNote} (h : n ∈ s.makes a) : ∃ addr when_ interval,
    a = .loop (.newTimer addr when_ interval) ∧
      n = .made (s.loop.queue.heap.newPtr addr) when_ interval := by
  cases a with
  | wait | fire | enterHandleRead | readTimerfd | settime => cases h
  | loop a =>
    cases a with
    | newTimer addr when_ interval => exact ⟨addr, when_, interval, rfl, List.mem_singleton.mp h⟩
    | addTimerInLoop | cancelInLoop | handleRead | callback | endCallbacks | resetOne
    | endReset => cases h

theorem noted_eq (hexec : exec s a = some (s', o)) :
    noted s a = s.makes a ++ (TimerEffect.run? o).toList.map (.started · s.time) := by
  rw [noted, hexec]
  rfl

theorem timesOf_noted (hexec : exec s a = some (s', o)) (p : Ptr) :
    timesOf p (noted s a) = TimerEffect.started p o s.time := by
  have hmakes : timesOf p (s.makes a) = [] := by
    rw [timesOf, List.filterMap_eq_nil_iff]
    intro n hn
    obtain ⟨addr, when_, interval, -, rfl⟩ := mem_makes hn
    rfl
  rw [noted_eq hexec, timesOf_append, hmakes, List.nil_append, TimerEffect.started]
  cases TimerEffect.run? o with
  | none => rfl
  | some q => by_cases hq : q = p <;> simp [timesOf, time?, hq]

/-- What a run leaves, with its notes. -/
structure OnSchedule (s : TimerThread) (notes : List TimerNote) : Prop where
  inv : s.Inv
  due : s.loop.Due
  clock : ∀ now, now ∈ s.loop.frame.now? ∨ now ∈ s.entered → now ≤ s.time
  exist : ∀ n ∈ notes, n.timer.obj < s.loop.queue.heap.made
  scheduled : ∀ p when_ interval, .made p when_ interval ∈ notes →
    s.loop.Scheduled p when_ interval (timesOf p notes)

theorem afterEffect_time (s : TimerThread) (loop : TimerLoop) (effect : Option TimerEffect) :
    (s.afterEffect loop effect).1.time = s.time := by
  rcases effect with - | ⟨-⟩ | ⟨-⟩ <;> rfl

theorem afterEffect_entered (s : TimerThread) (loop : TimerLoop) (effect : Option TimerEffect) :
    (s.afterEffect loop effect).1.entered = s.entered := by
  rcases effect with - | ⟨-⟩ | ⟨-⟩ <;> rfl

theorem afterEffect_loop (s : TimerThread) (loop : TimerLoop) (effect : Option TimerEffect) :
    (s.afterEffect loop effect).1.loop = loop := by
  rcases effect with - | ⟨-⟩ | ⟨-⟩ <;> rfl

/-- It is no callback that is put off. -/
theorem afterEffect_run? (s : TimerThread) (loop : TimerLoop) (effect : Option TimerEffect) :
    TimerEffect.run? (s.afterEffect loop effect).2 = TimerEffect.run? effect := by
  rcases effect with - | ⟨-⟩ | ⟨-⟩ <;> rfl

/-- A step of the loop. -/
theorem OnSchedule.of_loop (h : s.OnSchedule notes) {b : TimerAction} {effect : Option TimerEffect}
    (hpre : Pre s a) (hrange : s.InRange a) (hstep : exec s a = some (s', o))
    (hloop : TimerLoop.Pre s.loop b) (hin : s.loop.InRange b)
    (hexec : s.loop.exec b = some (s'.loop, effect))
    (hrun : TimerEffect.run? o = TimerEffect.run? effect) (htime : s'.time = s.time)
    (hclock : ∀ now, now ∈ s'.loop.frame.now? ∨ now ∈ s'.entered → now ≤ s.time)
    (hmakes : ∀ n ∈ s.makes a, ∃ addr when_ interval, b = .newTimer addr when_ interval ∧
      n = .made (s.loop.queue.heap.newPtr addr) when_ interval) :
    s'.OnSchedule (notes ++ noted s a) := by
  obtain ⟨place, hs⟩ := h.inv.placed
  obtain ⟨hmade, -⟩ := TimerLoop.made_step hs hloop hexec
  refine ⟨h.inv.step hpre hrange hstep, h.due.step hs hloop hexec, htime.symm ▸ hclock, ?_, ?_⟩
  · intro n hn
    rcases List.mem_append.mp hn with hold | hnew
    · exact (h.exist n hold).trans_le hmade
    · rw [noted_eq hstep] at hnew
      rcases List.mem_append.mp hnew with hnew | hnew
      · obtain ⟨addr, when_, interval, rfl, rfl⟩ := hmakes n hnew
        exact (TimerLoop.scheduled_newTimer hloop hexec hs).1
      · obtain ⟨q, hq, rfl⟩ := List.mem_map.mp hnew
        exact (TimerLoop.obj_lt_of_run hexec (hrun ▸ Option.mem_toList.mp hq)).trans_le hmade
  · intro p when_ interval hmem
    rw [timesOf_append, timesOf_noted hstep, TimerEffect.started_congr hrun]
    rcases List.mem_append.mp hmem with hold | hnew
    · refine (h.scheduled p when_ interval hold).step hs h.due (h.exist _ hold) ?_ hloop hin hexec
      exact fun now hnow => h.clock now (.inl hnow)
    · rw [noted_eq hstep] at hnew
      rcases List.mem_append.mp hnew with hnew | hnew
      · obtain ⟨addr, when_, interval, rfl, heq⟩ := hmakes _ hnew
        cases heq
        -- no note is about the new timer yet
        have hnone : timesOf (s.loop.queue.heap.newPtr addr) notes = [] := by
          apply timesOf_eq_nil
          intro n hn heq
          exact (h.exist n hn).ne (congrArg Ptr.obj heq)
        have hquiet : none = effect := (Prod.mk.inj (Option.some.inj hexec)).2
        rw [hnone, ← hquiet, TimerEffect.started_of_quiet rfl]
        exact (TimerLoop.scheduled_newTimer hloop hexec hs).2
      · obtain ⟨q, -, heq⟩ := List.mem_map.mp hnew
        cases heq

/-- **The step lemma.** -/
theorem OnSchedule.step (h : s.OnSchedule notes) (hpre : Pre s a) (hrange : s.InRange a)
    (hexec : exec s a = some (s', o)) : s'.OnSchedule (notes ++ noted s a) := by
  have hquiet (hnoted : noted s a = []) (hs' : s'.OnSchedule notes) :
      s'.OnSchedule (notes ++ noted s a) := by
    rw [hnoted, List.append_nil]
    exact hs'
  have hinv := h.inv.step hpre hrange hexec
  cases a with
  | wait time =>
    cases hexec
    exact hquiet rfl ⟨hinv, h.due, fun now hnow => (h.clock now hnow).trans hpre, h.exist,
      h.scheduled⟩
  | fire =>
    cases hexec
    exact hquiet rfl ⟨hinv, h.due, h.clock, h.exist, h.scheduled⟩
  | enterHandleRead =>
    cases hexec
    refine hquiet rfl ⟨hinv, h.due, fun now hnow => ?_, h.exist, h.scheduled⟩
    rcases hnow with hnow | hnow
    · exact h.clock now (.inl hnow)
    · cases hnow
      exact le_rfl
  | readTimerfd =>
    obtain ⟨now, hnow, hbind⟩ := Option.bind_eq_some_iff.mp hexec
    obtain ⟨⟨loop, effect⟩, hloop, heq⟩ := Option.bind_eq_some_iff.mp hbind
    cases heq
    obtain ⟨place, hs⟩ := h.inv.placed
    have hidle : TimerLoop.Pre s.loop (.handleRead now) :=
      (h.inv.entered (by rw [hnow]; exact Option.some_ne_none _)).1
    refine h.of_loop hpre hrange hexec hidle trivial hloop rfl rfl (fun now' hnow' => ?_)
      fun n hn => by cases hn
    rcases hnow' with hnow' | hnow'
    · rcases (TimerLoop.made_step hs hidle hloop).2 now' hnow' with heq | hold
      · cases heq
        exact h.clock now (.inr hnow)
      · exact h.clock now' (.inl hold)
    · cases hnow'
  | loop b =>
    obtain ⟨⟨loop, effect⟩, hloop, heq⟩ := Option.map_eq_some_iff.mp hexec
    obtain rfl : (s.afterEffect loop effect).1 = s' := congrArg Prod.fst heq
    obtain rfl : (s.afterEffect loop effect).2 = o := congrArg Prod.snd heq
    obtain ⟨place, hs⟩ := h.inv.placed
    refine h.of_loop hpre hrange hexec hpre.1 hrange (by rw [afterEffect_loop, hloop])
      (afterEffect_run? s loop effect) (afterEffect_time s loop effect) (fun now' hnow' => ?_)
      fun n hn => ?_
    · rw [afterEffect_loop, afterEffect_entered] at hnow'
      rcases hnow' with hnow' | hnow'
      · rcases (TimerLoop.made_step hs hpre.1 hloop).2 now' hnow' with rfl | hold
        · exact absurd hpre.2 not_false
        · exact h.clock now' (.inl hold)
      · exact h.clock now' (.inr hnow')
    · obtain ⟨addr, when_, interval, heq, hnote⟩ := mem_makes hn
      cases heq
      exact ⟨addr, when_, interval, rfl, hnote⟩
  | settime =>
    obtain ⟨p, hp, heq⟩ := Option.map_eq_some_iff.mp hexec
    cases heq
    refine hquiet ?_ ⟨hinv, h.due, h.clock, h.exist, h.scheduled⟩
    rw [noted_eq hexec]
    rfl

theorem onSchedule_init {time : Timestamp} (h : 0 < time) : (init time).OnSchedule [] where
  inv := .init h
  due now hnow := by cases hnow
  clock now hnow := by rcases hnow with hnow | hnow <;> cases hnow
  exist n hn := by cases hn
  scheduled p when_ interval hmem := by cases hmem

/-- **Timers keep to their schedule.** In every run in which no `int64_t` overflows, whatever timers
are made, added and cancelled, however late the loop gets to them: the callback of a timer that was
made for `when` is started at `when` at the earliest, the callback of a repeating timer the `k`-th
time no earlier than `k - 1` intervals later, and that of any other timer once at most. -/
theorem timers_on_schedule {time : Timestamp} (htime : 0 < time) {as : List TimerThreadAction}
    {effects : List (Option TimerEffect)}
    (hadm : (program.restrict InRange).Admissible (.init time) as)
    (hrun : program.run (.init time) as = some (s, effects)) {p : Ptr} {when_ : Timestamp}
    {interval : Interval} (hmade : .made p when_ interval ∈ history time as) :
    Timely when_ interval (timesOf p (history time as)) := by
  rw [← Program.run_restrict InRange] at hrun
  have hall : s.OnSchedule ((program.restrict InRange).observe noted (.init time) as) :=
    Program.run_observed (fun s notes a s' o h hpre hexec => h.step hpre.1 hpre.2 hexec)
      (onSchedule_init htime) hadm hrun
  rw [Program.observe_restrict] at hall
  exact (hall.scheduled p when_ interval hmade).timely

/-- A timer for 500 that repeats every 100. The loop is late for it, twice. -/
def late : List TimerThreadAction :=
  [.loop (.newTimer 8 500 ⟨true, 100⟩), .loop (.addTimerInLoop ⟨8, 0⟩ 10), .settime, .wait 600,
    .fire, .enterHandleRead, .readTimerfd, .loop .callback, .loop .endCallbacks, .loop .resetOne,
    .loop (.endReset 600), .settime, .wait 750, .fire, .enterHandleRead, .readTimerfd,
    .loop .callback]

theorem timers_on_schedule_late :
    timesOf ⟨8, 0⟩ (history 10 late) = [600, 750] ∧
      Timely 500 ⟨true, 100⟩ (timesOf ⟨8, 0⟩ (history 10 late)) := by
  have hend : ∀ s : TimerThread, (program.restrict InRange).Admissible s [] := fun _ => trivial
  have hadm : (program.restrict InRange).Admissible (.init 10) late :=
    .cons ⟨⟨⟨rfl, by decide⟩, fun _ => by decide⟩, trivial⟩ rfl <|
    .cons ⟨⟨⟨trivial, List.mem_cons_self⟩, rfl, rfl, rfl⟩,
      fun t ht _ => by cases ht; decide⟩ rfl <|
    .cons ⟨Option.some_ne_none _, trivial⟩ rfl <|
    .cons ⟨(by decide : (10 : Int) ≤ 600), trivial⟩ rfl <| .cons ⟨⟨rfl, by decide⟩, trivial⟩ rfl <|
    .cons ⟨⟨rfl, rfl, rfl⟩, trivial⟩ rfl <| .cons ⟨Option.some_ne_none _, trivial⟩ rfl <|
    .cons ⟨⟨⟨600, _, 0, rfl, Nat.zero_lt_one⟩, rfl⟩, trivial⟩ rfl <|
    .cons ⟨⟨⟨600, _, rfl⟩, rfl⟩, trivial⟩ rfl <|
    .cons ⟨⟨⟨600, _, [], rfl⟩, rfl⟩, fun _ _ _ hframe t ht _ => by
      cases hframe
      cases ht
      decide⟩ rfl <|
    .cons ⟨⟨⟨600, rfl⟩, rfl, rfl⟩, fun e he _ => by cases he; decide⟩ rfl <|
    .cons ⟨Option.some_ne_none _, trivial⟩ rfl <|
    .cons ⟨(by decide : (600 : Int) ≤ 750), trivial⟩ rfl <|
    .cons ⟨⟨rfl, by decide⟩, trivial⟩ rfl <| .cons ⟨⟨rfl, rfl, rfl⟩, trivial⟩ rfl <|
    .cons ⟨Option.some_ne_none _, trivial⟩ rfl <|
    .cons ⟨⟨⟨750, _, 0, rfl, Nat.zero_lt_one⟩, rfl⟩, trivial⟩ rfl (hend _)
  refine ⟨rfl, timers_on_schedule (by decide) hadm rfl ?_⟩
  exact List.mem_cons_self

end TimerThread
end Httpancake
