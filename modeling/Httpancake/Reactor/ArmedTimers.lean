import Httpancake.Reactor.TimerOwnership

/-! # The timers that wait

`q.Armed p t`: the timer `p`, with the data `t`, waits in `timers_`. One lemma for each operation of
the queue says which timers wait after it. -/

namespace Httpancake

namespace TimerQueue
variable {q q' : TimerQueue} {place : Ptr → Place} {timer p : Ptr} {t u : Timer} {e e' : Entry}

def Armed (q : TimerQueue) (p : Ptr) (t : Timer) : Prop :=
  q.heap.deref p = some t ∧ Entry.of p t ∈ q.timers

theorem Armed.unique (h : q.Armed p t) (h' : q.Armed p u) : t = u :=
  Option.some.inj (h.1.symm.trans h'.1)

namespace Placed

theorem armed_iff (h : q.Placed place) :
    q.Armed p t ↔ q.heap.deref p = some t ∧ place p = .active := by
  refine and_congr_right fun ht => ?_
  constructor
  · intro hmem
    obtain ⟨r, u, -, hact, heq⟩ := (h.timers _).mp hmem
    rwa [show p = r from congrArg Prod.snd heq]
  · exact fun hact => h.timers.mem ht hact

theorem mem_timers (h : q.Placed place) :
    e ∈ q.timers ↔ ∃ t, q.Armed e.2 t ∧ e.1 = t.expiration := by
  constructor
  · intro he
    obtain ⟨r, u, hu, hact, rfl⟩ := (h.timers e).mp he
    exact ⟨u, h.armed_iff.mpr ⟨hu, hact⟩, rfl⟩
  · rintro ⟨t, ht, heq⟩
    have hmem := ht.2
    rwa [Entry.of, ← heq] at hmem

/-- One more timer waits. -/
theorem armed_put (h : q.Placed place) (ht : q.heap.deref timer = some t)
    (hp : place timer ≠ .active) :
    (q.put timer t).Armed p u ↔ p = timer ∧ u = t ∨ q.Armed p u := by
  rw [(h.put ht hp).armed_iff, h.armed_iff, Function.update_apply]
  change q.heap.deref p = some u ∧ _ ↔ _
  by_cases hpt : p = timer
  · subst hpt
    simp [ht, hp, eq_comm]
  · simp [hpt]

/-- The timer that the id names does not wait any more. -/
theorem armed_cancel (h : q.Placed place) (h' : q'.Placed place) {id : ActiveTimer}
    (hcancel : q.Cancels place id q') :
    q'.Armed p u ↔ q.Armed p u ∧ (ActiveTimer.of p u).key ≠ id.key := by
  rw [h'.armed_iff, h.armed_iff]
  cases hcancel with
  | @hit r v hv hact hkey hderef =>
    rw [hderef]
    by_cases hp : p = r
    · subst hp
      refine iff_of_false (by simp) ?_
      rintro ⟨⟨hu, -⟩, hne⟩
      obtain rfl := Option.some.inj (hu.symm.trans hv)
      exact hne hkey
    · rw [if_neg hp]
      refine (and_iff_left_of_imp ?_).symm
      rintro ⟨hu, -⟩ heq
      exact hp (ActiveTimer.separates.eq_of_key hu hv (heq.trans hkey.symm))
  | missed hnone hheap =>
    rw [hheap]
    exact (and_iff_left_of_imp fun hu => hnone p u hu.1 hu.2).symm

/-- A timer that `reset` puts back waits for its next expiration. -/
theorem armed_reset (h : q.Placed place) (ht : q.heap.deref timer = some t)
    (hp : place timer ≠ .active) {now : Timestamp} (hreset : q.Resets place now timer t q') :
    q'.Armed p u ↔ p = timer ∧ q.Keeps timer t ∧ u = t.restart now ∨ q.Armed p u := by
  rw [h.armed_iff]
  cases hreset with
  | kept hkeep hderef _ _ hplaced =>
    rw [hplaced.armed_iff, hderef, Function.update_apply]
    by_cases hpt : p = timer
    · subst hpt
      simp [hp, hkeep, eq_comm]
    · simp [hpt]
  | deleted hkeep hderef _ _ hplaced =>
    rw [hplaced.armed_iff, hderef]
    by_cases hpt : p = timer
    · subst hpt
      simp [hp, hkeep]
    · simp [hpt]

end Placed

theorem expiration_le_of_first? (hfirst : q.timers.first? = some e) (he' : e' ∈ q.timers) :
    e.1 ≤ e'.1 := by
  have hle := OrderedSet.key_le_of_first? hfirst he'
  rw [Entry.key, Entry.key, Prod.Lex.toLex_le_toLex] at hle
  rcases hle with hlt | ⟨heq, -⟩
  · exact hlt.le
  · exact heq.le

theorem sorted_due (q : TimerQueue) (now : Timestamp) : (q.due now).Pairwise (·.1 ≤ ·.1) := by
  refine (q.timers.sorted.filter _).imp fun {e e'} hlt => ?_
  rw [Entry.key, Entry.key, Prod.Lex.toLex_lt_toLex] at hlt
  rcases hlt with hlt | ⟨heq, -⟩
  · exact hlt.le
  · exact heq.le

theorem earliest_iff {when_ : Timestamp} : q.earliest when_ ↔ ∀ e ∈ q.timers, when_ < e.1 := by
  cases hfirst : q.timers.first? with
  | none =>
    have hnone := OrderedSet.first?_eq_none_iff.mp hfirst
    simp [earliest, hfirst, hnone]
  | some e =>
    simp only [earliest, hfirst, Option.all_some, decide_eq_true_eq]
    constructor
    · intro hlt e' he'
      exact hlt.trans_le (expiration_le_of_first? hfirst he')
    · exact fun h => h e (OrderedSet.mem_of_first? hfirst)

theorem lt_of_earliest {when_ : Timestamp} (hearliest : q.earliest when_)
    (ht : q.Armed p t) : when_ < t.expiration :=
  earliest_iff.mp hearliest _ ht.2

theorem first?_put (hearliest : q.earliest t.expiration) :
    (q.put timer t).timers.first? = some (Entry.of timer t) := by
  refine OrderedSet.first?_place fun e he => ?_
  rw [Entry.key, Entry.key, Prod.Lex.toLex_lt_toLex]
  exact .inl (earliest_iff.mp hearliest e he)

/-- A timer that is not the earliest comes after one. -/
theorem Placed.exists_armed_of_not_earliest (h : q.Placed place) {when_ : Timestamp}
    (hearliest : ¬ q.earliest when_) : ∃ p t, q.Armed p t ∧ t.expiration ≤ when_ := by
  rw [earliest_iff] at hearliest
  simp only [not_forall, not_lt, exists_prop] at hearliest
  obtain ⟨e, he, hle⟩ := hearliest
  obtain ⟨t, ht, heq⟩ := h.mem_timers.mp he
  exact ⟨e.2, t, ht, heq ▸ hle⟩

end TimerQueue

namespace TimerLoop
variable {s s' : TimerLoop} {place : Ptr → Place} {p : Ptr} {t : Timer}

theorem Inv.armed_newTimer (h : s.Inv place) {addr : Nat} {when_ : Timestamp} {interval : Interval}
    (hpre : Pre s (.newTimer addr when_ interval))
    (hexec : exec s (.newTimer addr when_ interval) = some (s', o)) :
    s'.queue.Armed p t ↔ s.queue.Armed p t := by
  obtain ⟨s₁, o₁, hexec₁, hs₁⟩ := h.newTimer hpre.1 hpre.2 when_ interval
  cases hexec.symm.trans hexec₁
  rw [hs₁.queue.armed_iff, h.queue.armed_iff]
  cases hexec
  simp only [Heap.deref_new hpre.1, Function.update_apply]
  split
  · next hp =>
    refine iff_of_false (by simp) ?_
    rw [hp, Heap.newPtr_not_live]
    simp
  · rfl

/-- The timers that are not due stay. -/
theorem Inv.armed_handleRead (h : s.Inv place) (hidle : s.frame = .idle) {now : Timestamp}
    (hexec : exec s (.handleRead now) = some (s', o)) :
    s'.queue.Armed p t ↔ s.queue.Armed p t ∧ now < t.expiration := by
  obtain ⟨s₁, hexec₁, hheap, -, -, -, -, hs₁⟩ := h.handleRead hidle now
  cases hexec.symm.trans hexec₁
  rw [hs₁.queue.armed_iff, hheap, h.queue.armed_iff, and_assoc]
  refine and_congr_right fun ht => ?_
  have hdue : p ∈ (s.queue.due now).map Prod.snd ↔ _ := h.queue.mem_due_snd
  split
  · next hp =>
    obtain ⟨-, u, hu, hle⟩ := hdue.mp hp
    obtain rfl : t = u := Option.some.inj (ht.symm.trans hu)
    simp [not_lt.mpr hle]
  · next hp =>
    refine (and_iff_left_of_imp fun hact => ?_).symm
    by_contra hle
    exact hp (hdue.mpr ⟨hact, t, ht, not_lt.mp hle⟩)

/-- While callbacks run, `calling_expired_timers_` is set. -/
theorem callingExpiredTimers_of_calling (h : program.Reachable .init s) {now : Timestamp}
    {expired : List Entry} {started : Nat} (hframe : s.frame = .calling now expired started) :
    s.queue.callingExpiredTimers = true := by
  induction h generalizing now expired started with
  | start => cases hframe
  | @step s a s' o h hpre hexec ih =>
    obtain ⟨place, hs⟩ := Inv.of_reachable h
    cases a with
    | newTimer =>
      cases hexec
      exact ih hframe
    | addTimerInLoop timer clock =>
      obtain ⟨t, -, -, hexec', -⟩ := hs.addTimerInLoop hpre.2 clock
      cases hexec.symm.trans hexec'
      exact ih hframe
    | cancelInLoop id =>
      obtain ⟨q', hexec', hcancels, -⟩ := hs.cancelInLoop id
      cases hexec.symm.trans hexec'
      exact hcancels.calling_eq.trans (ih hframe)
    | handleRead now =>
      obtain ⟨s₁, hexec', -, hcalling, -⟩ := hs.handleRead hpre now
      cases hexec.symm.trans hexec'
      exact hcalling
    | callback =>
      obtain ⟨now, expired, started, hold, hlt⟩ := hpre
      obtain ⟨hexec', -⟩ := hs.callback hold hlt
      cases hexec.symm.trans hexec'
      exact ih hold
    | endCallbacks =>
      obtain ⟨now, expired, hold⟩ := hpre
      obtain ⟨hexec', -⟩ := hs.endCallbacks hold
      cases hexec.symm.trans hexec'
      cases hframe
    | resetOne =>
      obtain ⟨now, e, expired, hold⟩ := hpre
      obtain ⟨t, q', -, -, hexec', -⟩ := hs.resetOne hold
      cases hexec.symm.trans hexec'
      cases hframe
    | endReset clock =>
      obtain ⟨now, hold⟩ := hpre
      obtain ⟨hexec', -⟩ := hs.endReset hold clock
      cases hexec.symm.trans hexec'
      cases hframe

end TimerLoop
end Httpancake
