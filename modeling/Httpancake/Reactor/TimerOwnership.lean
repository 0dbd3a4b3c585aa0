import Httpancake.Lib.HeapIndex
import Httpancake.Reactor.TimerQueue

/-! # Who owns a timer

Every timer that exists has a `Place`: handed over to the loop thread, in the queue, or held by the
batch of `handle_read`. `TimerQueue.Placed` says what the two sets are for given places, with one
lemma for each operation of the queue, and `TimerLoop.Inv` adds the batch and the timers handed
over. The result is `timer_queue_ownership`. -/

namespace Httpancake

inductive Place where
  | handedOver
  | active
  | expired

theorem Entry.separates : Heap.Separates Entry.key Entry.of := by
  intro p t q u heq
  simp only [Entry.key, Entry.of, EmbeddingLike.apply_eq_iff_eq, Prod.mk.injEq] at heq
  exact heq.2

theorem ActiveTimer.separates : Heap.Separates ActiveTimer.key ActiveTimer.of := by
  intro p t q u heq
  simp only [ActiveTimer.key, ActiveTimer.of, EmbeddingLike.apply_eq_iff_eq, Prod.mk.injEq] at heq
  exact heq.1

namespace TimerQueue
variable {q q' : TimerQueue} {place place' : Ptr → Place} {timer : Ptr} {t : Timer}

/-- Both sets consist of the existing timers whose place is `active`. -/
structure Placed (q : TimerQueue) (place : Ptr → Place) : Prop where
  timers : q.heap.Indexed (place · = .active) Entry.of q.timers
  active : q.heap.Indexed (place · = .active) ActiveTimer.of q.activeTimers
  size : q.timers.size = q.activeTimers.size
  addr : ∀ p t, q.heap.deref p = some t → p.addr < uintptrMax

/-- The queue with one more timer. -/
def put (q : TimerQueue) (timer : Ptr) (t : Timer) : TimerQueue :=
  { q with
    timers := q.timers.place (.of timer t)
    activeTimers := q.activeTimers.place (.of timer t) }

/-- No timer of the queue expires at `when_` or before. -/
def earliest (q : TimerQueue) (when_ : Timestamp) : Bool :=
  q.timers.first?.all fun e => decide (when_ < e.1)

/-- What `get_expired` collects. -/
def due (q : TimerQueue) (now : Timestamp) : List Entry := q.timers.below (toLex (now, uintptrMax))

/-- `reset` puts the timer back. -/
def Keeps (q : TimerQueue) (timer : Ptr) (t : Timer) : Prop :=
  t.repeat_ ∧ q.cancelingTimers.find? (ActiveTimer.of timer t).key = none

/-- What `cancel_in_loop` does: the id names an active timer, which is deleted, or it names none
and is kept while callbacks run. -/
inductive Cancels (q : TimerQueue) (place : Ptr → Place) (id : ActiveTimer) (q' : TimerQueue) : Prop
  | hit {p : Ptr} {u : Timer} (hu : q.heap.deref p = some u) (hp : place p = .active)
    (hkey : (ActiveTimer.of p u).key = id.key)
    (hderef : ∀ r, q'.heap.deref r = if r = p then none else q.heap.deref r)
    (hmade : q'.heap.made = q.heap.made)
    (hcalling : q'.callingExpiredTimers = q.callingExpiredTimers)
    (hcanceling : q'.cancelingTimers = q.cancelingTimers)
  | missed (hnone : ∀ p u, q.heap.deref p = some u → place p = .active →
      (ActiveTimer.of p u).key ≠ id.key)
    (hheap : q'.heap = q.heap)
    (htimers : q'.timers = q.timers)
    (hcalling : q'.callingExpiredTimers = q.callingExpiredTimers)
    (hcanceling : q'.cancelingTimers =
      if q.callingExpiredTimers then (q.cancelingTimers.insert id).1 else q.cancelingTimers)

theorem Cancels.deref_of_not_active {id : ActiveTimer} (h : q.Cancels place id q') :
    ∀ p, place p ≠ .active → q'.heap.deref p = q.heap.deref p := by
  intro p hp
  cases h with
  | hit _ hact _ hderef =>
    rw [hderef, if_neg]
    rintro rfl
    exact hp hact
  | missed _ hheap => rw [hheap]

theorem Cancels.made_eq {id : ActiveTimer} (h : q.Cancels place id q') :
    q'.heap.made = q.heap.made := by
  cases h with
  | hit _ _ _ _ hmade => exact hmade
  | missed _ hheap => rw [hheap]

theorem Cancels.calling_eq {id : ActiveTimer} (h : q.Cancels place id q') :
    q'.callingExpiredTimers = q.callingExpiredTimers := by
  cases h with
  | hit _ _ _ _ _ hcalling => exact hcalling
  | missed _ _ _ hcalling => exact hcalling

/-- What `reset` does with one timer. -/
inductive Resets (q : TimerQueue) (place : Ptr → Place) (now : Timestamp) (timer : Ptr) (t : Timer)
    (q' : TimerQueue) : Prop
  | kept (hkeep : q.Keeps timer t)
    (hderef : ∀ p, q'.heap.deref p =
      if p = timer then some (t.restart now) else q.heap.deref p)
    (hmade : q'.heap.made = q.heap.made)
    (hcanceling : q'.cancelingTimers = q.cancelingTimers)
    (hplaced : q'.Placed (Function.update place timer .active))
  | deleted (hkeep : ¬ q.Keeps timer t)
    (hderef : ∀ p, q'.heap.deref p = if p = timer then none else q.heap.deref p)
    (hmade : q'.heap.made = q.heap.made)
    (hcanceling : q'.cancelingTimers = q.cancelingTimers)
    (hplaced : q'.Placed place)

namespace Resets
variable {now : Timestamp}

theorem made_eq (h : q.Resets place now timer t q') : q'.heap.made = q.heap.made := by
  cases h with
  | kept _ _ hmade | deleted _ _ hmade => exact hmade

theorem canceling_eq (h : q.Resets place now timer t q') :
    q'.cancelingTimers = q.cancelingTimers := by
  cases h with
  | kept _ _ _ hcanceling | deleted _ _ _ hcanceling => exact hcanceling

theorem deref_of_ne (h : q.Resets place now timer t q') {p : Ptr} (hp : p ≠ timer) :
    q'.heap.deref p = q.heap.deref p := by
  cases h with
  | kept _ hderef | deleted _ hderef => rw [hderef, if_neg hp]

end Resets

namespace Placed

/-- Timers outside the queue do not matter to it. -/
theorem congr (h : q.Placed place) (htimers : q'.timers = q.timers)
    (hactive : q'.activeTimers = q.activeTimers)
    (heq : ∀ p t, q'.heap.deref p = some t ∧ place' p = .active ↔
      q.heap.deref p = some t ∧ place p = .active)
    (haddr : ∀ p t, q'.heap.deref p = some t → p.addr < uintptrMax) : q'.Placed place' where
  timers := htimers ▸ h.timers.congr heq
  active := hactive ▸ h.active.congr heq
  size := by rw [htimers, hactive, h.size]
  addr := haddr

/-- `insert` puts a timer from outside the queue into it. -/
theorem put (h : q.Placed place) (ht : q.heap.deref timer = some t) (hp : place timer ≠ .active) :
    (q.put timer t).Placed (Function.update place timer .active) := by
  have htimers := h.timers.new_key Entry.separates ht hp
  have hactive := h.active.new_key ActiveTimer.separates ht hp
  have hplace : ∀ p t', q.heap.deref p = some t' ∧
      Function.update place timer .active p = .active ↔
        q.heap.deref p = some t' ∧ (p = timer ∨ place p = .active) := by
    intro p t'
    rw [Function.update_apply]
    split <;> simp_all
  constructor
  · exact (h.timers.place Entry.separates ht hp).congr hplace
  · exact (h.active.place ActiveTimer.separates ht hp).congr hplace
  · have hsize := OrderedSet.size_place hactive
    rw [← h.size, ← OrderedSet.size_place htimers] at hsize
    exact hsize.symm
  · exact h.addr

theorem insert (h : q.Placed place) (ht : q.heap.deref timer = some t)
    (hp : place timer ≠ .active) :
    q.insert timer = some (q.put timer t, q.earliest t.expiration) := by
  have htimers := h.timers.new_key Entry.separates ht hp
  have hactive := h.active.new_key ActiveTimer.separates ht hp
  have hsize := (h.put ht hp).size
  simp only [TimerQueue.put] at hsize
  cases hfirst : q.timers.first? <;>
    simp [TimerQueue.insert, ht, OrderedSet.insert_of_new htimers,
      OrderedSet.insert_of_new hactive, hsize, hfirst, TimerQueue.put, TimerQueue.earliest]

theorem addTimerInLoop (h : q.Placed place) (ht : q.heap.deref timer = some t)
    (hp : place timer ≠ .active) (clock : Timestamp) :
    q.addTimerInLoop timer clock = some (q.put timer t,
      if q.earliest t.expiration then some (howMuchTimeFromNow t.expiration clock) else none) := by
  have hderef : (q.put timer t).heap.deref timer = some t := ht
  cases hb : q.earliest t.expiration <;>
    simp [TimerQueue.addTimerInLoop, h.insert ht hp, hb, hderef]

/-- `cancel_in_loop` deletes the active timer that the id names, if there is one. -/
theorem cancelInLoop (h : q.Placed place) (id : ActiveTimer) :
    ∃ q', q.cancelInLoop id = some q' ∧ q'.Placed place ∧ q.Cancels place id q' := by
  cases hfind : q.activeTimers.find? id.key with
  | none =>
    have hnone : ∀ p t, q.heap.deref p = some t → place p = .active →
        (ActiveTimer.of p t).key ≠ id.key := fun p t ht hp =>
      OrderedSet.find?_eq_none_iff.mp hfind _ (h.active.mem ht hp)
    by_cases hcall : q.callingExpiredTimers = true
    · refine ⟨{ q with cancelingTimers := (q.cancelingTimers.insert id).1 },
        by simp [TimerQueue.cancelInLoop, h.size, hfind, hcall],
        h.congr rfl rfl (fun _ _ => Iff.rfl) h.addr, .missed hnone rfl rfl rfl ?_⟩
      rw [if_pos hcall]
    · refine ⟨q, by simp [TimerQueue.cancelInLoop, h.size, hfind, hcall], h,
        .missed hnone rfl rfl rfl ?_⟩
      rw [if_neg hcall]
  | some it =>
    obtain ⟨hit, hkey⟩ := OrderedSet.find?_eq_some_iff.mp hfind
    obtain ⟨p, t, ht, hact, rfl⟩ := (h.active it).mp hit
    obtain ⟨heap, hdel, hmade, hderef⟩ := Heap.delete_spec ht
    have hmem := h.timers.mem ht hact
    have hsize : (q.timers.erase (Entry.of p t).key).1.size =
        (q.activeTimers.erase (ActiveTimer.of p t).key).1.size := by
      have htimers := OrderedSet.size_erase_of_mem hmem
      have hactive := OrderedSet.size_erase_of_mem hit
      have hq := h.size
      omega
    have hcancel : q.cancelInLoop id = some { q with
        heap := heap
        timers := (q.timers.erase (Entry.of p t).key).1
        activeTimers := (q.activeTimers.erase (ActiveTimer.of p t).key).1 } := by
      simp [TimerQueue.cancelInLoop, h.size, hfind, ht, OrderedSet.erase_snd_of_mem hmem, hdel,
        hsize]
    have hplace : ∀ r t', heap.deref r = some t' ∧ place r = .active ↔
        q.heap.deref r = some t' ∧ place r = .active ∧ r ≠ p := by
      intro r t'
      rw [hderef]
      split <;> simp_all
    refine ⟨_, hcancel, ?_, .hit ht hact hkey hderef hmade rfl rfl⟩
    constructor
    · exact (h.timers.erase Entry.separates ht hact).congr hplace
    · exact (h.active.erase ActiveTimer.separates ht hact).congr hplace
    · exact hsize
    · intro r t' hr
      rw [hderef] at hr
      split at hr
      · cases hr
      · exact h.addr r t' hr

/-- The loop of `get_expired` takes the expired timers out of the second set. -/
theorem eraseActive {heap : Heap Timer} {A : Ptr → Prop} {expired : List Entry}
    {activeTimers : ActiveTimerSet} (h : heap.Indexed A ActiveTimer.of activeTimers)
    (hexp : ∀ e ∈ expired, A e.2 ∧ ∃ t, heap.deref e.2 = some t)
    (hnodup : (expired.map Prod.snd).Nodup) :
    ∃ activeTimers', TimerQueue.eraseActive heap expired activeTimers = some activeTimers' ∧
      heap.Indexed (fun p => A p ∧ p ∉ expired.map Prod.snd) ActiveTimer.of activeTimers' ∧
      activeTimers'.size + expired.length = activeTimers.size := by
  induction expired generalizing A activeTimers with
  | nil => exact ⟨activeTimers, rfl, h.congr fun p t => by simp, rfl⟩
  | cons e expired ih =>
    obtain ⟨hA, t, ht⟩ := hexp e List.mem_cons_self
    rw [List.map_cons, List.nodup_cons] at hnodup
    have hmem := h.mem ht hA
    obtain ⟨activeTimers', hrun, hidx, hsize⟩ := ih (h.erase ActiveTimer.separates ht hA) (by
      intro e' he'
      obtain ⟨hA', ht'⟩ := hexp e' (List.mem_cons_of_mem _ he')
      refine ⟨⟨hA', fun heq => hnodup.1 ?_⟩, ht'⟩
      exact heq ▸ List.mem_map_of_mem he') hnodup.2
    refine ⟨activeTimers', ?_, hidx.congr fun p t' => by simp [and_assoc], ?_⟩
    · have hone := OrderedSet.erase_snd_of_mem hmem
      simp [TimerQueue.eraseActive, ht, hone, hrun]
    · have herase := OrderedSet.size_erase_of_mem hmem
      rw [List.length_cons]
      omega

/-- An entry is before the sentry when it is due: no timer has the address `UINTPTR_MAX`. -/
theorem key_lt_sentry (h : q.Placed place) {e : Entry} (he : e ∈ q.timers) (now : Timestamp) :
    e.key < toLex (now, uintptrMax) ↔ e.1 ≤ now := by
  obtain ⟨p, t, ht, -, rfl⟩ := (h.timers e).mp he
  have haddr := h.addr p t ht
  rw [Entry.key, Prod.Lex.toLex_lt_toLex]
  simp [Entry.of, haddr, le_iff_lt_or_eq]

theorem mem_due (h : q.Placed place) {now : Timestamp} {e : Entry} :
    e ∈ q.due now ↔ e ∈ q.timers ∧ e.1 ≤ now := by
  rw [due, OrderedSet.mem_below]
  exact and_congr_right fun he => h.key_lt_sentry he now

/-- The due timers, by their data. -/
theorem mem_due_snd (h : q.Placed place) {now : Timestamp} :
    timer ∈ (q.due now).map Prod.snd ↔
      place timer = .active ∧ ∃ t, q.heap.deref timer = some t ∧ t.expiration ≤ now := by
  rw [List.mem_map]
  constructor
  · rintro ⟨e, he, rfl⟩
    obtain ⟨hmem, hle⟩ := h.mem_due.mp he
    obtain ⟨p, t, ht, hact, rfl⟩ := (h.timers e).mp hmem
    exact ⟨hact, t, ht, hle⟩
  · rintro ⟨hact, t, ht, hle⟩
    exact ⟨Entry.of timer t, h.mem_due.mpr ⟨h.timers.mem ht hact, hle⟩, rfl⟩

theorem nodup_due (h : q.Placed place) (now : Timestamp) : ((q.due now).map Prod.snd).Nodup :=
  h.timers.nodup_below (fun _ _ => rfl) _

/-- `get_expired` takes the due timers out of the queue. -/
theorem getExpired (h : q.Placed place) (now : Timestamp) :
    ∃ q', q.getExpired now = some (q', q.due now) ∧ q'.heap = q.heap ∧
      q'.Placed (fun p => if p ∈ (q.due now).map Prod.snd then .expired else place p) := by
  have hptr : ∀ p t, Prod.snd (Entry.of p t) = p := fun _ _ => rfl
  have hidx := h.timers.eraseBelow hptr (toLex (now, uintptrMax))
  have hfirst : (q.timers.eraseBelow (toLex (now, uintptrMax))).first?.all
      (fun it => decide (now < it.1)) = true := by
    cases hfirst : (q.timers.eraseBelow (toLex (now, uintptrMax))).first? with
    | none => rfl
    | some it =>
      obtain ⟨hit, hle⟩ := OrderedSet.mem_eraseBelow.mp (OrderedSet.mem_of_first? hfirst)
      have hnot := (not_congr (h.key_lt_sentry hit now)).mp (not_lt.mpr hle)
      exact decide_eq_true (lt_of_not_ge hnot)
  have hexp : ∀ e ∈ q.due now, place e.2 = .active ∧ ∃ t, q.heap.deref e.2 = some t := by
    intro e he
    obtain ⟨hact, t, ht, -⟩ := h.mem_due_snd.mp (List.mem_map_of_mem he)
    exact ⟨hact, t, ht⟩
  obtain ⟨activeTimers, hrun, hactive, hsize⟩ := eraseActive h.active hexp (h.nodup_due now)
  have hsize' : (q.timers.eraseBelow (toLex (now, uintptrMax))).size = activeTimers.size := by
    have hbelow := OrderedSet.size_eraseBelow q.timers (toLex (now, uintptrMax))
    have hq := h.size
    rw [due] at hsize
    omega
  have hplace : ∀ p t, q.heap.deref p = some t ∧
      (if p ∈ (q.due now).map Prod.snd then Place.expired else place p) = .active ↔
      q.heap.deref p = some t ∧ place p = .active ∧ p ∉ (q.due now).map Prod.snd := by
    intro p t
    split <;> simp_all
  have hget : q.getExpired now = some ({ q with
      timers := q.timers.eraseBelow (toLex (now, uintptrMax))
      activeTimers := activeTimers }, q.due now) := by
    rw [due] at hrun
    simp [TimerQueue.getExpired, hfirst, hrun, hsize', due]
  refine ⟨_, hget, rfl, ?_⟩
  constructor
  · exact hidx.congr hplace
  · exact hactive.congr hplace
  · exact hsize'
  · exact h.addr

/-- `reset` puts an expired timer back or deletes it. -/
theorem resetOne (h : q.Placed place) (ht : q.heap.deref timer = some t)
    (hp : place timer ≠ .active) (now : Timestamp) :
    ∃ q', q.resetOne now timer = some q' ∧ q.Resets place now timer t q' := by
  have hout : ∀ (heap : Heap Timer) (o : Option Timer),
      (∀ p, heap.deref p = if p = timer then o else q.heap.deref p) →
      { q with heap := heap }.Placed place := by
    intro heap o hderef
    refine h.congr rfl rfl (fun p u => ?_) (fun p u hu => ?_)
    · rw [hderef]
      split <;> simp_all
    · rw [hderef] at hu
      split at hu
      · simp_all [h.addr timer t ht]
      · exact h.addr p u hu
  by_cases hkeep : q.Keeps timer t
  · obtain ⟨heap, hwrite, hmade, hderef⟩ := Heap.write_spec ht (t.restart now)
    have htimer : heap.deref timer = some (t.restart now) := by rw [hderef, if_pos rfl]
    have hplaced := hout heap _ hderef
    have hins := hplaced.insert htimer hp
    refine ⟨TimerQueue.put { q with heap := heap } timer (t.restart now), ?_,
      .kept hkeep hderef hmade rfl (hplaced.put htimer hp)⟩
    rw [Keeps] at hkeep
    simp only [TimerQueue.resetOne, ht, Option.bind_eq_bind, Option.bind_some, if_pos hkeep, hwrite,
      hins]
    rfl
  · obtain ⟨heap, hdel, hmade, hderef⟩ := Heap.delete_spec ht
    refine ⟨{ q with heap := heap }, ?_, .deleted hkeep hderef hmade rfl (hout heap _ hderef)⟩
    rw [Keeps] at hkeep
    simp only [TimerQueue.resetOne, ht, Option.bind_eq_bind, Option.bind_some, if_neg hkeep, hdel]
    rfl

theorem nextExpire (h : q.Placed place) (clock : Timestamp) :
    q.nextExpire clock = some (match q.timers.first? with
      | none => none
      | some e => if e.1.valid then some (howMuchTimeFromNow e.1 clock) else none) := by
  cases hfirst : q.timers.first? with
  | none => simp [TimerQueue.nextExpire, hfirst, Timestamp.invalid, Timestamp.valid]
  | some e =>
    obtain ⟨p, t, ht, -, rfl⟩ := (h.timers e).mp (OrderedSet.mem_of_first? hfirst)
    simp only [TimerQueue.nextExpire, hfirst, Entry.of, ht, Option.map_some, Option.bind_eq_bind,
      Option.bind_some]
    rfl

end Placed

/-- The two sets hold the same timers, each under its current expiration and its sequence number. -/
def Agree (q : TimerQueue) : Prop :=
  (∀ e ∈ q.timers, ∃ t, q.heap.deref e.2 = some t ∧ e.1 = t.expiration ∧
    (e.2, t.sequence) ∈ q.activeTimers) ∧
  ∀ a ∈ q.activeTimers, ∃ t, q.heap.deref a.1 = some t ∧ a.2 = t.sequence ∧
    (t.expiration, a.1) ∈ q.timers

theorem Placed.agree (h : q.Placed place) : q.Agree := by
  constructor
  · intro e he
    obtain ⟨p, t, ht, hact, rfl⟩ := (h.timers e).mp he
    exact ⟨t, ht, rfl, h.active.mem ht hact⟩
  · intro a ha
    obtain ⟨p, t, ht, hact, rfl⟩ := (h.active a).mp ha
    exact ⟨t, ht, rfl, h.timers.mem ht hact⟩

end TimerQueue

namespace TimerLoop
variable {s s' : TimerLoop} {place : Ptr → Place}

/-- The pointers of the batch. -/
def held (s : TimerLoop) : List Ptr := s.frame.held.map Prod.snd

structure Inv (s : TimerLoop) (place : Ptr → Place) : Prop where
  queue : s.queue.Placed place
  handedOver : ∀ p, p ∈ s.handedOver ↔ place p = .handedOver ∧ ∃ t, s.queue.heap.deref p = some t
  held : ∀ p, p ∈ s.held ↔ place p = .expired ∧ ∃ t, s.queue.heap.deref p = some t
  nodup : s.held.Nodup

namespace Inv

/-- A step that moves no timer. -/
theorem of_eq (h : s.Inv place) (hqueue : s'.queue.Placed place)
    (hheap : s'.queue.heap = s.queue.heap) (hhanded : s'.handedOver = s.handedOver)
    (hheld : s'.held = s.held) : s'.Inv place where
  queue := hqueue
  handedOver p := by rw [hhanded, hheap, h.handedOver]
  held p := by rw [hheld, hheap, h.held]
  nodup := hheld ▸ h.nodup

theorem init : init.Inv fun _ => .active := by
  have hnone : ∀ p, TimerLoop.init.queue.heap.deref p = none := fun _ => rfl
  constructor
  · constructor
    · intro e
      simp only [hnone, reduceCtorEq, false_and, exists_false, iff_false]
      exact OrderedSet.not_mem_empty
    · intro a
      simp only [hnone, reduceCtorEq, false_and, exists_false, iff_false]
      exact OrderedSet.not_mem_empty
    · rfl
    · intro p t ht
      rw [hnone] at ht
      cases ht
  · simp [TimerLoop.init]
  · simp [TimerLoop.init, TimerLoop.held, HandleRead.held]
  · exact .nil

theorem newTimer (h : s.Inv place) {addr : Nat} (hfree : s.queue.heap.Free addr)
    (haddr : addr < uintptrMax) (when_ : Timestamp) (interval : Interval) :
    ∃ s' o, exec s (.newTimer addr when_ interval) = some (s', o) ∧
      s'.Inv (Function.update place (s.queue.heap.newPtr addr) .handedOver) := by
  have hnone : s.queue.heap.deref (s.queue.heap.newPtr addr) = none := Heap.newPtr_not_live
  refine ⟨_, _, rfl, ?_⟩
  constructor
  · refine h.queue.congr rfl rfl (fun p t => ?_) (fun p t ht => ?_)
    · simp only [Heap.deref_new hfree, Function.update_apply]
      split <;> simp_all
    · simp only [Heap.deref_new hfree] at ht
      split at ht
      · simp_all [Heap.newPtr]
      · exact h.queue.addr p t ht
  · intro p
    simp only [Heap.deref_new hfree, Function.update_apply, List.mem_cons, h.handedOver]
    split <;> simp_all
  · intro p
    have hheld := h.held p
    simp only [Heap.deref_new hfree, Function.update_apply]
    split <;> simp_all [TimerLoop.held]
  · exact h.nodup

theorem addTimerInLoop (h : s.Inv place) {timer : Ptr} (hmem : timer ∈ s.handedOver)
    (clock : Timestamp) :
    ∃ t, s.queue.heap.deref timer = some t ∧ place timer = .handedOver ∧
      exec s (.addTimerInLoop timer clock) = some ({ s with
        queue := s.queue.put timer t, handedOver := s.handedOver.filter (· ≠ timer) },
        if s.queue.earliest t.expiration then
          some (.settime (howMuchTimeFromNow t.expiration clock)) else none) ∧
      Inv { s with
        queue := s.queue.put timer t, handedOver := s.handedOver.filter (· ≠ timer) }
        (Function.update place timer .active) := by
  obtain ⟨hplace, t, ht⟩ := (h.handedOver timer).mp hmem
  have hout : place timer ≠ .active := by rw [hplace]; nofun
  have hadd := h.queue.addTimerInLoop ht hout clock
  refine ⟨t, ht, hplace, ?_, ?_⟩
  · simp only [exec, hadd, Option.bind_eq_bind, Option.bind_some]
    split <;> rfl
  constructor
  · exact h.queue.put ht hout
  · intro p
    simp only [List.mem_filter, h.handedOver, Function.update_apply, TimerQueue.put]
    split <;> simp_all
  · intro p
    have hheld := h.held p
    simp only [Function.update_apply, TimerQueue.put]
    split <;> simp_all [TimerLoop.held]
  · exact h.nodup

theorem cancelInLoop (h : s.Inv place) (id : ActiveTimer) :
    ∃ q', exec s (.cancelInLoop id) = some ({ s with queue := q' }, none) ∧
      s.queue.Cancels place id q' ∧ Inv { s with queue := q' } place := by
  obtain ⟨q', hcancel, hq', hcancels⟩ := h.queue.cancelInLoop id
  have hderef := hcancels.deref_of_not_active
  refine ⟨q', by simp only [exec, hcancel]; rfl, hcancels, ?_⟩
  constructor
  · exact hq'
  · intro p
    rw [h.handedOver]
    refine and_congr_right fun hp => ?_
    rw [hderef p (by rw [hp]; nofun)]
  · intro p
    refine (h.held p).trans (and_congr_right fun hp => ?_)
    rw [hderef p (by rw [hp]; nofun)]
  · exact h.nodup

theorem handleRead (h : s.Inv place) (hidle : s.frame = .idle) (now : Timestamp) :
    ∃ s', exec s (.handleRead now) = some (s', none) ∧ s'.queue.heap = s.queue.heap ∧
      s'.queue.callingExpiredTimers = true ∧ s'.queue.cancelingTimers = ∅ ∧
      s'.handedOver = s.handedOver ∧ s'.frame = .calling now (s.queue.due now) 0 ∧
      s'.Inv fun p => if p ∈ (s.queue.due now).map Prod.snd then .expired else place p := by
  obtain ⟨q', hget, hheap, hq'⟩ := h.queue.getExpired now
  have hexp : ∀ p ∈ (s.queue.due now).map Prod.snd, place p = .active ∧
      ∃ t, s.queue.heap.deref p = some t := by
    intro p hp
    obtain ⟨hact, t, ht, -⟩ := h.queue.mem_due_snd.mp hp
    exact ⟨hact, t, ht⟩
  have hheld : ∀ p, ¬ (place p = .expired ∧ ∃ t, s.queue.heap.deref p = some t) := by
    intro p hp
    have hmem := (h.held p).mpr hp
    simp [TimerLoop.held, hidle, HandleRead.held] at hmem
  have hexec : exec s (.handleRead now) = some ({ s with
      queue := { q' with callingExpiredTimers := true, cancelingTimers := ∅ },
      frame := .calling now (s.queue.due now) 0 }, none) := by
    simp only [exec, hget]
    rfl
  refine ⟨_, hexec, hheap, rfl, rfl, rfl, rfl, ?_⟩
  constructor
  · exact hq'.congr rfl rfl (fun _ _ => Iff.rfl) hq'.addr
  · intro p
    rw [h.handedOver, hheap]
    split
    · rename_i hp
      simp [(hexp p hp).1]
    · rfl
  · intro p
    rw [hheap]
    split
    · rename_i hp
      simp only [true_and]
      exact iff_of_true hp (hexp p hp).2
    · rename_i hp
      exact iff_of_false hp (hheld p)
  · exact h.queue.nodup_due now

theorem callback (h : s.Inv place) {now : Timestamp} {expired : List Entry} {started : Nat}
    (hframe : s.frame = .calling now expired started) (hlt : started < expired.length) :
    exec s .callback = some ({ s with frame := .calling now expired (started + 1) },
      some (.run expired[started].2)) ∧
      Inv { s with frame := .calling now expired (started + 1) } place := by
  have hheld : s.held = expired.map Prod.snd := by rw [TimerLoop.held, hframe]; rfl
  have hmem : expired[started].2 ∈ s.held :=
    hheld ▸ List.mem_map_of_mem (List.getElem_mem hlt)
  obtain ⟨-, t, ht⟩ := (h.held _).mp hmem
  constructor
  · simp [exec, hframe, List.getElem?_eq_getElem hlt, ht]
  · exact h.of_eq h.queue rfl rfl hheld.symm

theorem endCallbacks (h : s.Inv place) {now : Timestamp} {expired : List Entry} {started : Nat}
    (hframe : s.frame = .calling now expired started) :
    exec s .endCallbacks = some ({ s with
      queue := { s.queue with callingExpiredTimers := false },
      frame := .resetting now expired }, none) ∧
      Inv { s with
        queue := { s.queue with callingExpiredTimers := false },
        frame := .resetting now expired } place := by
  have hheld : s.held = expired.map Prod.snd := by rw [TimerLoop.held, hframe]; rfl
  constructor
  · simp only [exec, hframe]
  · exact h.of_eq (h.queue.congr rfl rfl (fun _ _ => Iff.rfl) h.queue.addr) rfl rfl hheld.symm

/-- The first timer of the batch leaves it. -/
theorem resetOne (h : s.Inv place) {now : Timestamp} {e : Entry} {expired : List Entry}
    (hframe : s.frame = .resetting now (e :: expired)) :
    ∃ t q', s.queue.heap.deref e.2 = some t ∧ place e.2 = .expired ∧
      exec s .resetOne = some ({ s with queue := q', frame := .resetting now expired }, none) ∧
      s.queue.Resets place now e.2 t q' ∧
      ∃ place', Inv { s with queue := q', frame := .resetting now expired } place' := by
  have hheld : s.held = e.2 :: expired.map Prod.snd := by rw [TimerLoop.held, hframe]; rfl
  have hnodup := h.nodup
  rw [hheld, List.nodup_cons] at hnodup
  obtain ⟨hplace, t, ht⟩ := (h.held e.2).mp (hheld ▸ List.mem_cons_self)
  obtain ⟨q', hreset, hresets⟩ := h.queue.resetOne ht (by rw [hplace]; nofun) now
  -- the timers other than the first are where they were
  have hothers : ∀ (place' : Ptr → Place) (o : Option Timer), q'.Placed place' →
      (∀ p, q'.heap.deref p = if p = e.2 then o else s.queue.heap.deref p) →
      (∀ p, p ≠ e.2 → place' p = place p) →
      (place' e.2 = .active ∨ place' e.2 = .expired ∧ o = none) →
      Inv { s with queue := q', frame := .resetting now expired } place' := by
    intro place' o hq' hderef hsame hfirst
    constructor
    · exact hq'
    · intro p
      rw [h.handedOver]
      by_cases hp : p = e.2
      · subst hp
        rcases hfirst with hfirst | ⟨hfirst, -⟩ <;> simp [hplace, hfirst]
      · rw [hsame p hp, hderef, if_neg hp]
    · intro p
      have hp := h.held p
      rw [hheld] at hp
      by_cases hpe : p = e.2
      · subst hpe
        rcases hfirst with hfirst | ⟨-, rfl⟩
        · simp [TimerLoop.held, HandleRead.held, hfirst, hnodup.1]
        · simp [TimerLoop.held, HandleRead.held, hderef, hnodup.1]
      · rw [List.mem_cons, or_iff_right hpe] at hp
        rw [hsame p hpe, hderef, if_neg hpe]
        exact hp
    · exact hnodup.2
  refine ⟨t, q', ht, hplace, by simp [exec, hframe, hreset], hresets, ?_⟩
  cases hresets with
  | kept _ hderef _ _ hplaced =>
    exact ⟨_, hothers _ _ hplaced hderef (fun p hp => Function.update_of_ne hp _ _)
      (.inl (Function.update_self ..))⟩
  | deleted _ hderef _ _ hplaced =>
    exact ⟨_, hothers _ _ hplaced hderef (fun _ _ => rfl) (.inr ⟨hplace, rfl⟩)⟩

theorem endReset (h : s.Inv place) {now : Timestamp} (hframe : s.frame = .resetting now [])
    (clock : Timestamp) :
    exec s (.endReset clock) = some ({ s with frame := .idle },
      match s.queue.timers.first? with
      | none => none
      | some e => if e.1.valid then some (.settime (howMuchTimeFromNow e.1 clock)) else none) ∧
      Inv { s with frame := .idle } place := by
  have hheld : s.held = [] := by rw [TimerLoop.held, hframe]; rfl
  constructor
  · simp only [exec, h.queue.nextExpire, Option.bind_eq_bind, Option.bind_some]
    cases s.queue.timers.first? with
    | none => rfl
    | some e => cases hvalid : e.1.valid <;> simp [hvalid]
  · exact h.of_eq h.queue rfl rfl hheld.symm

/-- No step fails. -/
theorem step (h : s.Inv place) {a : TimerAction} (hpre : Pre s a) :
    ∃ s' o, exec s a = some (s', o) ∧ ∃ place', s'.Inv place' := by
  cases a with
  | newTimer addr when_ interval =>
    obtain ⟨s', o, hexec, hs'⟩ := h.newTimer hpre.1 hpre.2 when_ interval
    exact ⟨s', o, hexec, _, hs'⟩
  | addTimerInLoop timer clock =>
    obtain ⟨t, -, -, hexec, hs'⟩ := h.addTimerInLoop hpre.2 clock
    exact ⟨_, _, hexec, _, hs'⟩
  | cancelInLoop id =>
    obtain ⟨q', hexec, -, hs'⟩ := h.cancelInLoop id
    exact ⟨_, _, hexec, _, hs'⟩
  | handleRead now =>
    obtain ⟨s', hexec, -, -, -, -, -, hs'⟩ := h.handleRead hpre now
    exact ⟨_, _, hexec, _, hs'⟩
  | callback =>
    obtain ⟨now, expired, started, hframe, hlt⟩ := hpre
    obtain ⟨hexec, hs'⟩ := h.callback hframe hlt
    exact ⟨_, _, hexec, _, hs'⟩
  | endCallbacks =>
    obtain ⟨now, expired, hframe⟩ := hpre
    obtain ⟨hexec, hs'⟩ := h.endCallbacks hframe
    exact ⟨_, _, hexec, _, hs'⟩
  | resetOne =>
    obtain ⟨now, e, expired, hframe⟩ := hpre
    obtain ⟨t, q', -, -, hexec, -, hs'⟩ := h.resetOne hframe
    exact ⟨_, _, hexec, hs'⟩
  | endReset clock =>
    obtain ⟨now, hframe⟩ := hpre
    obtain ⟨hexec, hs'⟩ := h.endReset hframe clock
    exact ⟨_, _, hexec, _, hs'⟩

theorem safe (s : TimerLoop) (a : TimerAction) (h : ∃ place, s.Inv place)
    (hpre : program.pre s a) :
    ∃ s' o, program.exec s a = some (s', o) ∧ ∃ place, s'.Inv place := by
  obtain ⟨place, hs⟩ := h
  exact hs.step hpre

theorem preserved (h : s.Inv place) {a : TimerAction} (hpre : Pre s a)
    (hexec : exec s a = some (s', o)) : ∃ place', s'.Inv place' := by
  obtain ⟨s₁, o₁, hexec₁, hs₁⟩ := h.step hpre
  cases hexec.symm.trans hexec₁
  exact hs₁

theorem of_reachable (h : program.Reachable .init s) : ∃ place, s.Inv place := by
  induction h with
  | start => exact ⟨_, init⟩
  | step _ hpre hexec ih =>
    obtain ⟨place, hs⟩ := ih
    exact hs.preserved hpre hexec

end Inv

inductive Whereabouts where
  | handedOver
  | active
  | held
  | deleted

/-- Where the timer `obj` is, from the program's own data. -/
def At (s : TimerLoop) (obj : Nat) : Whereabouts → Prop
  | .handedOver => ∃ p ∈ s.handedOver, p.obj = obj
  | .active => (∃ e ∈ s.queue.timers, e.2.obj = obj) ∧ ∃ a ∈ s.queue.activeTimers, a.1.obj = obj
  | .held => ∃ e ∈ s.frame.held, e.2.obj = obj
  | .deleted => s.queue.heap.Deleted obj

def Whereabouts.of : Place → Whereabouts
  | .handedOver => .handedOver
  | .active => .active
  | .expired => .held

namespace Inv

/-- A timer that exists is where its place says. -/
theorem at_iff (h : s.Inv place) {p : Ptr} {t : Timer} (ht : s.queue.heap.deref p = some t)
    (w : Whereabouts) : s.At p.obj w ↔ w = .of (place p) := by
  cases w with
  | handedOver =>
    constructor
    · rintro ⟨q, hq, hobj⟩
      obtain ⟨hplace, u, hu⟩ := (h.handedOver q).mp hq
      rw [← Heap.eq_of_obj hu ht hobj, hplace]
      rfl
    · intro heq
      have hplace : place p = .handedOver := by
        cases hp : place p <;> simp_all [Whereabouts.of]
      exact ⟨p, (h.handedOver p).mpr ⟨hplace, t, ht⟩, rfl⟩
  | active =>
    constructor
    · rintro ⟨⟨e, he, hobj⟩, -⟩
      obtain ⟨q, u, hu, hplace, rfl⟩ := (h.queue.timers e).mp he
      rw [← Heap.eq_of_obj hu ht hobj, hplace]
      rfl
    · intro heq
      have hplace : place p = .active := by
        cases hp : place p <;> simp_all [Whereabouts.of]
      exact ⟨⟨_, h.queue.timers.mem ht hplace, rfl⟩, ⟨_, h.queue.active.mem ht hplace, rfl⟩⟩
  | held =>
    constructor
    · rintro ⟨e, he, hobj⟩
      obtain ⟨hplace, u, hu⟩ := (h.held e.2).mp (List.mem_map_of_mem he)
      rw [← Heap.eq_of_obj hu ht hobj, hplace]
      rfl
    · intro heq
      have hplace : place p = .expired := by
        cases hp : place p <;> simp_all [Whereabouts.of]
      obtain ⟨e, he, rfl⟩ := List.mem_map.mp ((h.held p).mpr ⟨hplace, t, ht⟩)
      exact ⟨e, he, rfl⟩
  | deleted =>
    constructor
    · rintro ⟨-, hdead⟩
      rw [hdead p.addr] at ht
      cases ht
    · intro heq
      cases hp : place p <;> simp [hp, Whereabouts.of] at heq

/-- Only timers that exist are anywhere but deleted. -/
theorem live_of_at (h : s.Inv place) {obj : Nat} {w : Whereabouts} (hw : w ≠ .deleted)
    (hat : s.At obj w) : ∃ p t, p.obj = obj ∧ s.queue.heap.deref p = some t := by
  cases w with
  | handedOver =>
    obtain ⟨p, hp, hobj⟩ := hat
    obtain ⟨-, t, ht⟩ := (h.handedOver p).mp hp
    exact ⟨p, t, hobj, ht⟩
  | active =>
    obtain ⟨⟨e, he, hobj⟩, -⟩ := hat
    obtain ⟨p, t, ht, -, rfl⟩ := (h.queue.timers e).mp he
    exact ⟨p, t, hobj, ht⟩
  | held =>
    obtain ⟨e, he, hobj⟩ := hat
    obtain ⟨-, t, ht⟩ := (h.held e.2).mp (List.mem_map_of_mem he)
    exact ⟨e.2, t, hobj, ht⟩
  | deleted => exact absurd rfl hw

theorem existsUnique_at (h : s.Inv place) {obj : Nat} (hobj : obj < s.queue.heap.made) :
    ∃! w, s.At obj w := by
  by_cases hdead : s.queue.heap.Deleted obj
  · refine ⟨.deleted, hdead, fun w hw => ?_⟩
    by_contra hne
    obtain ⟨p, t, rfl, ht⟩ := h.live_of_at hne hw
    rw [hdead.2 p.addr] at ht
    cases ht
  · have hlive : ∃ addr t, s.queue.heap.deref ⟨addr, obj⟩ = some t := by
      by_contra hno
      refine hdead ⟨hobj, fun addr => Option.eq_none_iff_forall_ne_some.mpr fun t ht => ?_⟩
      exact hno ⟨addr, t, ht⟩
    obtain ⟨addr, t, ht⟩ := hlive
    exact ⟨.of (place ⟨addr, obj⟩), (h.at_iff ht _).mpr rfl, fun w hw => (h.at_iff ht w).mp hw⟩

end Inv

/-- **Ownership.** Whatever timers are added and cancelled, from outside or from callbacks, whenever
`handle_read` runs, and wherever the allocator puts the timers: no assertion fails and no timer is
used or deleted after its deletion. The two sets agree, and every timer is handed over, in both
sets, in the batch, or deleted, and only one of these. -/
theorem timer_queue_ownership {actions : List TimerAction} (h : program.Admissible .init actions) :
    ∃ s effects, program.run .init actions = some (s, effects) ∧ s.queue.Agree ∧
      ∀ obj < s.queue.heap.made, ∃! w, s.At obj w := by
  obtain ⟨s, effects, hrun, place, hs⟩ := Program.run_of_safe Inv.safe ⟨_, Inv.init⟩ h
  exact ⟨s, effects, hrun, hs.queue.agree, fun obj hobj => hs.existsUnique_at hobj⟩

/-- A repeating timer fires, its callback cancels it, and the next timer gets its address. -/
def reuse : List TimerAction :=
  [.newTimer 8 5 ⟨true, 10⟩, .addTimerInLoop ⟨8, 0⟩ 0, .handleRead 7, .callback,
    .cancelInLoop (⟨8, 0⟩, 1), .endCallbacks, .resetOne, .newTimer 8 9 ⟨false, 0⟩,
    .endReset 7, .addTimerInLoop ⟨8, 1⟩ 7]

theorem timer_queue_ownership_reuse :
    ∃ s effects, program.run .init reuse = some (s, effects) ∧ s.queue.Agree ∧
      ∀ obj < s.queue.heap.made, ∃! w, s.At obj w := by
  apply timer_queue_ownership
  have hend : ∀ s : TimerLoop, program.Admissible s [] := fun _ => trivial
  exact .cons ⟨rfl, by decide⟩ rfl <| .cons ⟨trivial, by decide⟩ rfl <| .cons rfl rfl <|
    .cons ⟨_, _, _, rfl, by decide⟩ rfl <| .cons (Nat.succ_pos 0) rfl <|
    .cons ⟨_, _, rfl⟩ rfl <| .cons ⟨_, _, _, rfl⟩ rfl <| .cons ⟨rfl, by decide⟩ rfl <|
    .cons ⟨_, rfl⟩ rfl <| .cons ⟨trivial, by decide⟩ rfl (hend _)

end TimerLoop
end Httpancake
