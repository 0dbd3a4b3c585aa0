import Httpancake.Reactor.ArmedTimers

/-! # One call of `handle_read`

`Batch` relates the queue on entry, the steps made since, and the queue now: the callbacks that were
started are the first of the due timers, and what waits is what was not due, what was added, and
what `reset` has put back, less what was cancelled meanwhile. At the end this says which timers ran
and which wait (`handle_read_batch`). -/

namespace Httpancake

def TimerEffect.run? : Option TimerEffect → Option Ptr
  | some (.run timer) => some timer
  | _ => none

/-- The step cancels the timer by its id. -/
def TimerAction.Cancels (a : TimerAction) (p : Ptr) (t : Timer) : Prop :=
  ∃ id, a = .cancelInLoop id ∧ (ActiveTimer.of p t).key = id.key

namespace TimerLoop

variable {s s₁ s' s'' : TimerLoop} {place : Ptr → Place} {now : Timestamp} {p : Ptr} {t u : Timer}
  {acts : List TimerAction} {effects : List (Option TimerEffect)} {a : TimerAction}
  {o : Option TimerEffect}

/-- One of the steps cancels the timer. -/
def Cancelled (acts : List TimerAction) (p : Ptr) (t : Timer) : Prop := ∃ a ∈ acts, a.Cancels p t

/-- One of the steps adds the timer, which is `t` then, and none of the later ones cancels it. -/
def Added (s₁ : TimerLoop) (acts : List TimerAction) (p : Ptr) (t : Timer) : Prop :=
  ∃ before clock after s' effects, acts = before ++ .addTimerInLoop p clock :: after ∧
    program.run s₁ before = some (s', effects) ∧ s'.queue.heap.deref p = some t ∧
    ¬ Cancelled after p t

theorem cancelled_concat : Cancelled (acts ++ [a]) p t ↔ Cancelled acts p t ∨ a.Cancels p t := by
  simp [Cancelled, or_and_right, exists_or]

theorem added_concat (hrun : program.run s₁ acts = some (s', effects)) :
    Added s₁ (acts ++ [a]) p t ↔ Added s₁ acts p t ∧ ¬ a.Cancels p t ∨
      (∃ clock, a = .addTimerInLoop p clock) ∧ s'.queue.heap.deref p = some t := by
  constructor
  · rintro ⟨before, clock, after, s₂, effects₂, heq, hrun₂, ht, hkept⟩
    rcases List.eq_nil_or_concat after with rfl | ⟨after, b, rfl⟩
    · obtain ⟨rfl, hlast⟩ := List.append_inj' heq rfl
      cases hrun.symm.trans hrun₂
      exact .inr ⟨⟨clock, (List.cons.inj hlast).1⟩, ht⟩
    · rw [List.concat_eq_append, ← List.cons_append, ← List.append_assoc] at heq
      obtain ⟨rfl, hlast⟩ := List.append_inj' heq rfl
      rw [List.concat_eq_append, cancelled_concat, not_or, ← (List.cons.inj hlast).1] at hkept
      exact .inl ⟨⟨before, clock, after, s₂, effects₂, rfl, hrun₂, ht, hkept.1⟩, hkept.2⟩
  · rintro (⟨⟨before, clock, after, s₂, effects₂, rfl, hrun₂, ht, hkept⟩, hlast⟩ |
      ⟨⟨clock, rfl⟩, ht⟩)
    · refine ⟨before, clock, after ++ [a], s₂, effects₂, by simp, hrun₂, ht, ?_⟩
      rw [cancelled_concat, not_or]
      exact ⟨hkept, hlast⟩
    · exact ⟨acts, clock, [], s', effects, rfl, hrun, ht, by simp [Cancelled]⟩

/-- How far `handle_read` has come with the timers that are due: `started` callbacks were started,
and `reset` is done with the timers of `done`. -/
inductive Progress (due : List Entry) (now : Timestamp) : HandleRead → Nat → List Entry → Prop
  | calling : Progress due now (.calling now due started) started []
  | resetting (hdue : due = done ++ rest) :
    Progress due now (.resetting now rest) due.length done

/-- What waits without `reset`. -/
def Stays (s s₁ : TimerLoop) (now : Timestamp) (acts : List TimerAction) (p : Ptr) (t : Timer) :
    Prop :=
  (s.queue.Armed p t ∧ now < t.expiration) ∧ ¬ Cancelled acts p t ∨ Added s₁ acts p t

/-- What `reset` puts back. -/
def Restarted (s : TimerLoop) (now : Timestamp) (acts : List TimerAction) (p : Ptr) (t : Timer) :
    Prop :=
  ∃ u, s.queue.Armed p u ∧ u.repeat_ ∧ ¬ Cancelled acts p u ∧ t = u.restart now

/-- From `s` the loop entered `handle_read`, in `s₁`, and then did `acts`. -/
structure Batch (s s₁ : TimerLoop) (now : Timestamp) (acts : List TimerAction)
    (effects : List (Option TimerEffect)) (s' : TimerLoop) (started : Nat) (done : List Entry) :
    Prop where
  progress : Progress (s.queue.due now) now s'.frame started done
  runs : effects.filterMap TimerEffect.run? = ((s.queue.due now).take started).map Prod.snd
  held : ∀ p ∈ s'.held, s'.queue.heap.deref p = s.queue.heap.deref p
  canceling : ∀ p ∈ s'.held, ∀ t, s'.queue.heap.deref p = some t →
    (s'.queue.cancelingTimers.find? (ActiveTimer.of p t).key ≠ none ↔ Cancelled acts p t)
  armed : ∀ p t, s'.queue.Armed p t ↔
    Stays s s₁ now acts p t ∨ p ∈ done.map Prod.snd ∧ Restarted s now acts p t

theorem stays_concat (hrun : program.run s₁ acts = some (s', effects)) :
    Stays s s₁ now (acts ++ [a]) p t ↔ Stays s s₁ now acts p t ∧ ¬ a.Cancels p t ∨
      (∃ clock, a = .addTimerInLoop p clock) ∧ s'.queue.heap.deref p = some t := by
  rw [Stays, Stays, cancelled_concat, added_concat hrun, not_or, ← and_assoc, ← or_assoc,
    ← or_and_right]

namespace Batch
variable {started started' : Nat} {done : List Entry}

/-- A step that neither adds nor cancels, and after which the same timers wait. -/
theorem quiet (hb : Batch s s₁ now acts effects s' started done)
    (hrun : program.run s₁ acts = some (s', effects)) (ha : ∀ p t, ¬ a.Cancels p t)
    (hadd : ∀ p clock, a ≠ .addTimerInLoop p clock)
    (hprogress : Progress (s.queue.due now) now s''.frame started' done)
    (hruns : (effects ++ [o]).filterMap TimerEffect.run? =
      ((s.queue.due now).take started').map Prod.snd)
    (hheld : s''.held = s'.held)
    (hderef : ∀ p ∈ s'.held, s''.queue.heap.deref p = s'.queue.heap.deref p)
    (hcanceling : s''.queue.cancelingTimers = s'.queue.cancelingTimers)
    (harmed : ∀ p t, s''.queue.Armed p t ↔ s'.queue.Armed p t) :
    Batch s s₁ now (acts ++ [a]) (effects ++ [o]) s'' started' done where
  progress := hprogress
  runs := hruns
  held p hp := by
    rw [hheld] at hp
    rw [hderef p hp, hb.held p hp]
  canceling p hp t ht := by
    rw [hheld] at hp
    rw [hderef p hp] at ht
    rw [hcanceling, cancelled_concat, or_iff_left (ha p t)]
    exact hb.canceling p hp t ht
  armed p t := by
    have hnew : ¬ ((∃ clock, a = .addTimerInLoop p clock) ∧ s'.queue.heap.deref p = some t) :=
      fun h => h.1.elim (hadd p)
    rw [harmed, hb.armed, stays_concat hrun, or_iff_left hnew, and_iff_left (ha p t)]
    simp only [Restarted, cancelled_concat, or_iff_left (ha _ _)]

theorem addTimerInLoop (hb : Batch s s₁ now acts effects s' started done)
    (hrun : program.run s₁ acts = some (s', effects)) (h : s'.Inv place) {timer : Ptr}
    {clock : Timestamp} (hpre : Pre s' (.addTimerInLoop timer clock))
    (hexec : exec s' (.addTimerInLoop timer clock) = some (s'', o)) :
    Batch s s₁ now (acts ++ [.addTimerInLoop timer clock]) (effects ++ [o]) s'' started done := by
  obtain ⟨u, hu, hplace, hexec', -⟩ := h.addTimerInLoop hpre.2 clock
  have hput : ∀ p t, (s'.queue.put timer u).Armed p t ↔ p = timer ∧ t = u ∨ s'.queue.Armed p t :=
    fun p t => h.queue.armed_put hu (by simp [hplace])
  have hrun? : TimerEffect.run? (if s'.queue.earliest u.expiration then
      some (.settime (howMuchTimeFromNow u.expiration clock)) else none) = none := by
    split <;> rfl
  have hcancels : ∀ p t, ¬ TimerAction.Cancels (.addTimerInLoop timer clock) p t := by
    simp [TimerAction.Cancels]
  cases hexec.symm.trans hexec'
  refine ⟨hb.progress, ?_, hb.held, fun p hp t ht => ?_, fun p t => ?_⟩
  · rw [List.filterMap_append, hb.runs]
    simp [hrun?]
  · rw [cancelled_concat, or_iff_left (hcancels p t)]
    exact hb.canceling p hp t ht
  · have hnew : (∃ clock', TimerAction.addTimerInLoop timer clock = .addTimerInLoop p clock') ∧
        s'.queue.heap.deref p = some t ↔ p = timer ∧ t = u := by
      constructor
      · rintro ⟨⟨clock', heq⟩, ht⟩
        cases heq
        exact ⟨rfl, Option.some.inj (ht.symm.trans hu)⟩
      · rintro ⟨rfl, rfl⟩
        exact ⟨⟨clock, rfl⟩, hu⟩
    rw [hput, hb.armed, stays_concat hrun, and_iff_left (hcancels p t), hnew]
    simp only [Restarted, cancelled_concat, or_iff_left (hcancels _ _)]
    rw [or_comm, or_assoc, or_assoc, or_comm (a := p = timer ∧ t = u)]

theorem cancelInLoop (hb : Batch s s₁ now acts effects s' started done)
    (hrun : program.run s₁ acts = some (s', effects)) (hreach : program.Reachable .init s')
    {id : ActiveTimer} (hpre : Pre s' (.cancelInLoop id))
    (hexec : exec s' (.cancelInLoop id) = some (s'', o)) :
    Batch s s₁ now (acts ++ [.cancelInLoop id]) (effects ++ [o]) s'' started done := by
  obtain ⟨place, h⟩ := Inv.of_reachable hreach
  obtain ⟨q', hexec', hcancels, hs''⟩ := h.cancelInLoop id
  have hkey : ∀ p t, TimerAction.Cancels (.cancelInLoop id) p t ↔
      (ActiveTimer.of p t).key = id.key := by
    simp [TimerAction.Cancels]
  have hheld : ∀ p ∈ s'.held, place p = .expired ∧ ∃ t, s'.queue.heap.deref p = some t :=
    fun p hp => (h.held p).mp hp
  have hderef : ∀ p ∈ s'.held, q'.heap.deref p = s'.queue.heap.deref p := fun p hp =>
    hcancels.deref_of_not_active p (by rw [(hheld p hp).1]; nofun)
  have hcalling : s'.queue.callingExpiredTimers = true ∧ done = [] := by
    have hprogress := hb.progress
    have hmay : s'.MayCall := hpre
    rw [MayCall] at hmay
    generalize hframe : s'.frame = frame at hprogress hmay
    cases hprogress with
    | calling => exact ⟨callingExpiredTimers_of_calling hreach hframe, rfl⟩
    | resetting => cases hmay
  obtain ⟨hcalling, rfl⟩ := hcalling
  cases hexec.symm.trans hexec'
  refine ⟨hb.progress, ?_, fun p hp => ?_, fun p hp t ht => ?_, fun p t => ?_⟩
  · rw [List.filterMap_append, hb.runs]
    simp [TimerEffect.run?]
  · rw [hderef p hp, hb.held p hp]
  · rw [hderef p hp] at ht
    have hold := hb.canceling p hp t ht
    rw [cancelled_concat, hkey, ← hold]
    cases hcancels with
    | hit hu hact heq _ _ _ hcanceling =>
      have hne : (ActiveTimer.of p t).key ≠ id.key := by
        intro hid
        rw [← ActiveTimer.separates.eq_of_key ht hu (hid.trans heq.symm), (hheld p hp).1] at hact
        cases hact
      rw [hcanceling, or_iff_left hne]
    | missed _ _ _ _ hcanceling =>
      rw [hcanceling, if_pos hcalling, OrderedSet.find?_insert_ne_none_iff]
      exact or_congr_right eq_comm
  · rw [h.queue.armed_cancel hs''.queue hcancels, hb.armed, stays_concat hrun, hkey]
    simp

theorem resetOne (hb : Batch s s₁ now acts effects s' started done) (h₀ : s.Inv place₀)
    (hrun : program.run s₁ acts = some (s', effects)) (h : s'.Inv place) (hpre : Pre s' .resetOne)
    (hexec : exec s' .resetOne = some (s'', o)) :
    ∃ done', Batch s s₁ now (acts ++ [.resetOne]) (effects ++ [o]) s'' started done' := by
  obtain ⟨now', e, rest, hframe⟩ := hpre
  obtain ⟨t, q', ht, hplace, hexec', hresets, -⟩ := h.resetOne hframe
  have hheld : s'.held = e.2 :: rest.map Prod.snd := by rw [TimerLoop.held, hframe]; rfl
  have hmem : e.2 ∈ s'.held := hheld ▸ List.mem_cons_self
  have hnodup := h.nodup
  rw [hheld, List.nodup_cons] at hnodup
  have hne : ∀ p ∈ rest.map Prod.snd, p ≠ e.2 := fun p hp heq => hnodup.1 (heq ▸ hp)
  have hcancels : ∀ p t, ¬ TimerAction.resetOne.Cancels p t := by simp [TimerAction.Cancels]
  have hprogress := hb.progress
  rw [hframe] at hprogress
  obtain ⟨hdue, rfl, rfl⟩ : s.queue.due now = done ++ e :: rest ∧ now' = now ∧
      started = (s.queue.due now).length := by
    cases hprogress with
    | resetting hdue => exact ⟨hdue, rfl, rfl⟩
  -- whether `reset` puts the timer back
  have hrestarted : ∀ u, Restarted s now' acts e.2 u ↔
      s'.queue.Keeps e.2 t ∧ u = t.restart now' := by
    have hold : s.queue.Armed e.2 t := by
      have hduemem : e.2 ∈ (s.queue.due now').map Prod.snd := by simp [hdue]
      rw [h₀.queue.armed_iff, ← hb.held e.2 hmem]
      exact ⟨ht, (h₀.queue.mem_due_snd.mp hduemem).1⟩
    have hkept : s'.queue.cancelingTimers.find? (ActiveTimer.of e.2 t).key = none ↔
        ¬ Cancelled acts e.2 t := by
      rw [← hb.canceling e.2 hmem t ht, Ne, not_not]
    intro u
    rw [TimerQueue.Keeps, hkept, and_assoc]
    constructor
    · rintro ⟨v, hv, hkeep⟩
      obtain rfl := hold.unique hv
      exact hkeep
    · exact fun hkeep => ⟨t, hold, hkeep⟩
  cases hexec.symm.trans hexec'
  refine ⟨done ++ [e], .resetting (by simp [hdue]), ?_, fun p hp => ?_, fun p hp u hu => ?_,
    fun p u => ?_⟩
  · rw [List.filterMap_append, hb.runs]
    simp [TimerEffect.run?]
  · rw [hresets.deref_of_ne (hne p hp)]
    exact hb.held p (hheld ▸ List.mem_cons_of_mem _ hp)
  · rw [hresets.deref_of_ne (hne p hp)] at hu
    rw [hresets.canceling_eq, cancelled_concat, or_iff_left (hcancels p u)]
    exact hb.canceling p (hheld ▸ List.mem_cons_of_mem _ hp) u hu
  · have hfirst : p = e.2 ∧ s'.queue.Keeps e.2 t ∧ u = t.restart now' ↔
        p = e.2 ∧ Restarted s now' acts p u := by
      refine and_congr_right ?_
      rintro rfl
      exact (hrestarted u).symm
    have hnew : ¬ ((∃ clock, TimerAction.resetOne = .addTimerInLoop p clock) ∧
        s'.queue.heap.deref p = some u) := by simp
    rw [h.queue.armed_reset ht (by simp [hplace]) hresets, hb.armed, hfirst,
      stays_concat hrun, and_iff_left (hcancels p u), or_iff_left hnew]
    simp only [Restarted, cancelled_concat, or_iff_left (hcancels _ _), List.map_append,
      List.mem_append, List.map_cons, List.map_nil, List.mem_singleton, or_and_right]
    rw [or_comm, or_assoc]

/-- What one step within `handle_read` does to the batch. -/
theorem step (hb : Batch s s₁ now acts effects s' started done)
    (hrun : program.run s₁ acts = some (s', effects)) (hs : program.Reachable .init s)
    (hreach : program.Reachable .init s') (hpre : Pre s' a) (hexec : exec s' a = some (s'', o))
    (hend : ∀ clock, a ≠ .endReset clock) :
    ∃ started' done', Batch s s₁ now (acts ++ [a]) (effects ++ [o]) s'' started' done' := by
  obtain ⟨place₀, h₀⟩ := Inv.of_reachable hs
  obtain ⟨place, h⟩ := Inv.of_reachable hreach
  have hprogress := hb.progress
  cases a with
  | newTimer addr when_ interval =>
    have harmed := fun p t => h.armed_newTimer (p := p) (t := t) hpre hexec
    cases hexec
    refine ⟨started, done, hb.quiet hrun (by simp [TimerAction.Cancels]) (by simp) hprogress ?_ rfl
      (fun p hp => ?_) rfl harmed⟩
    · rw [List.filterMap_append, hb.runs]
      simp [TimerEffect.run?]
    · obtain ⟨-, t, ht⟩ := (h.held p).mp hp
      rw [Heap.deref_new hpre.1, if_neg]
      rintro rfl
      rw [Heap.newPtr_not_live] at ht
      cases ht
  | addTimerInLoop => exact ⟨started, done, hb.addTimerInLoop hrun h hpre hexec⟩
  | cancelInLoop => exact ⟨started, done, hb.cancelInLoop hrun hreach hpre hexec⟩
  | handleRead =>
    rw [show s'.frame = .idle from hpre] at hprogress
    cases hprogress
  | callback =>
    obtain ⟨now', expired, started', hframe, hlt⟩ := hpre
    rw [hframe] at hprogress
    cases hprogress
    have hheld : s'.held = (s.queue.due now).map Prod.snd := by rw [TimerLoop.held, hframe]; rfl
    obtain ⟨hexec', -⟩ := h.callback hframe hlt
    cases hexec.symm.trans hexec'
    refine ⟨started + 1, [], hb.quiet hrun (by simp [TimerAction.Cancels]) (by simp) .calling ?_
      hheld.symm (fun _ _ => rfl) rfl fun _ _ => Iff.rfl⟩
    rw [List.filterMap_append, hb.runs, List.take_succ_eq_append_getElem hlt, List.map_append]
    rfl
  | endCallbacks =>
    obtain ⟨now', expired, hframe⟩ := hpre
    rw [hframe] at hprogress
    cases hprogress
    have hheld : s'.held = (s.queue.due now).map Prod.snd := by rw [TimerLoop.held, hframe]; rfl
    obtain ⟨hexec', -⟩ := h.endCallbacks hframe
    cases hexec.symm.trans hexec'
    refine ⟨_, [], hb.quiet hrun (by simp [TimerAction.Cancels]) (by simp) (.resetting rfl) ?_
      hheld.symm (fun _ _ => rfl) rfl fun _ _ => Iff.rfl⟩
    rw [List.filterMap_append, hb.runs]
    simp [TimerEffect.run?]
  | resetOne =>
    obtain ⟨done', hb'⟩ := hb.resetOne h₀ hrun h hpre hexec
    exact ⟨started, done', hb'⟩
  | endReset clock => exact absurd rfl (hend clock)

/-- After `get_expired`. -/
theorem start (h : s.Inv place) (hidle : s.frame = .idle)
    (hexec : exec s (.handleRead now) = some (s₁, o)) : Batch s s₁ now [] [] s₁ 0 [] := by
  obtain ⟨s', hexec', hheap, -, hcanceling, -, hframe, -⟩ := h.handleRead hidle now
  cases hexec.symm.trans hexec'
  refine ⟨hframe ▸ .calling, by simp, fun p _ => by rw [hheap], fun p _ t _ => ?_, fun p t => ?_⟩
  · rw [hcanceling]
    simp [Cancelled, OrderedSet.find?_eq_none_iff]
  · rw [h.armed_handleRead hidle hexec]
    simp [Stays, Cancelled, Added]

theorem of_run (hs : program.Reachable .init s) (hidle : s.frame = .idle)
    (hexec : exec s (.handleRead now) = some (s₁, o))
    (hend : ∀ clock, .endReset clock ∉ acts) (hadm : program.Admissible s₁ acts)
    (hrun : program.run s₁ acts = some (s', effects)) :
    ∃ started done, Batch s s₁ now acts effects s' started done := by
  obtain ⟨place, h⟩ := Inv.of_reachable hs
  have hs₁ : program.Reachable .init s₁ := hs.next (.handleRead now) hidle hexec
  refine Program.run_history (I := fun acts effects s' => (∀ clock, .endReset clock ∉ acts) →
    ∃ started done, Batch s s₁ now acts effects s' started done) ?_ ?_ hadm hrun hend
  · exact fun _ => ⟨0, [], start h hidle hexec⟩
  · intro acts effects s' a s'' o hreach hrun ih hpre hexec hend
    have hlast := fun clock => not_or.mp (mt List.mem_append.mpr (hend clock))
    obtain ⟨started, done, hb⟩ := ih fun clock => (hlast clock).1
    refine hb.step hrun hs (hs₁.trans hreach) hpre hexec fun clock heq => ?_
    exact (hlast clock).2 (heq ▸ List.mem_cons_self)

end Batch

/-- The end of `handle_read` starts no callback. -/
theorem Inv.endReset_run? (h : s.Inv place) (hframe : s.frame = .resetting now [])
    (clock : Timestamp) :
    ∃ o, exec s (.endReset clock) = some ({ s with frame := .idle }, o) ∧
      TimerEffect.run? o = none ∧ Inv { s with frame := .idle } place := by
  obtain ⟨hexec, hs'⟩ := h.endReset hframe clock
  refine ⟨_, hexec, ?_, hs'⟩
  split
  · rfl
  · split <;> rfl

theorem added_iff (hexec : program.exec s (.handleRead now) = some (s₁, o)) :
    Added s₁ acts p t ↔
      ∃ before clock after s' effects, acts = before ++ .addTimerInLoop p clock :: after ∧
        program.run s (.handleRead now :: before) = some (s', effects) ∧
        s'.queue.heap.deref p = some t ∧ ¬ Cancelled after p t := by
  constructor
  · rintro ⟨before, clock, after, s', effects, heq, hrun, ht, hkept⟩
    exact ⟨before, clock, after, s', _, heq, (Program.run_cons hexec).mpr ⟨_, hrun, rfl⟩, ht, hkept⟩
  · rintro ⟨before, clock, after, s', effects, heq, hrun, ht, hkept⟩
    obtain ⟨effects₁, hrun₁, -⟩ := (Program.run_cons hexec).mp hrun
    exact ⟨before, clock, after, s', effects₁, heq, hrun₁, ht, hkept⟩

theorem Inv.restarted_due (h : s.Inv place) :
    p ∈ (s.queue.due now).map Prod.snd ∧ Restarted s now acts p t ↔
      ∃ u, (s.queue.Armed p u ∧ u.expiration ≤ now) ∧ u.repeat_ ∧ ¬ Cancelled acts p u ∧
        t = { u with expiration := wrap64 (now + u.interval.micros) } ∧
        (IsInt64 (now + u.interval.micros) → t.expiration = now + u.interval.micros) := by
  constructor
  · rintro ⟨hdue, u, hu, hrepeat, hkept, rfl⟩
    obtain ⟨-, v, hv, hle⟩ := h.queue.mem_due_snd.mp hdue
    obtain rfl : u = v := Option.some.inj (hu.1.symm.trans hv)
    rw [Timer.restart, if_pos hrepeat]
    exact ⟨u, ⟨hu, hle⟩, hrepeat, hkept, rfl, wrap64_of_isInt64⟩
  · rintro ⟨u, ⟨hu, hle⟩, hrepeat, hkept, rfl, -⟩
    refine ⟨h.queue.mem_due_snd.mpr ⟨(h.queue.armed_iff.mp hu).2, u, hu.1, hle⟩, u, hu, hrepeat,
      hkept, ?_⟩
    rw [Timer.restart, if_pos hrepeat]
    rfl

/-- **One call of `handle_read`.** Whatever timers its callbacks add and cancel, it starts the
callbacks of the timers that are due, each once and by ascending expiration, and no others. At its
end wait: the timers that were not due and not cancelled; those that were added and not cancelled
since; and the repeating ones that were due and not cancelled, for the sum of `now` and their
interval as an `int64_t`, which is the sum itself where it is in range. -/
theorem handle_read_batch (h : program.Reachable .init s) (hidle : s.frame = .idle)
    {clock : Timestamp} (hend : ∀ clock, .endReset clock ∉ acts)
    (hadm : program.Admissible s (.handleRead now :: (acts ++ [.endReset clock]))) :
    ∃ s' effects, program.run s (.handleRead now :: (acts ++ [.endReset clock])) =
        some (s', effects) ∧
      (∃ due : List Entry, effects.filterMap TimerEffect.run? = due.map Prod.snd ∧
        (due.map Prod.snd).Nodup ∧ due.Pairwise (·.1 ≤ ·.1) ∧
        ∀ e, e ∈ due ↔ e ∈ s.queue.timers ∧ e.1 ≤ now) ∧
      (∀ e ∈ s'.queue.timers, ∃ t, s'.queue.Armed e.2 t ∧ e.1 = t.expiration) ∧
      ∀ p t, s'.queue.Armed p t ↔
        (s.queue.Armed p t ∧ now < t.expiration) ∧ ¬ Cancelled acts p t ∨
        (∃ before clock after s₁ effects₁, acts = before ++ .addTimerInLoop p clock :: after ∧
          program.run s (.handleRead now :: before) = some (s₁, effects₁) ∧
          s₁.queue.heap.deref p = some t ∧ ¬ Cancelled after p t) ∨
        ∃ u, (s.queue.Armed p u ∧ u.expiration ≤ now) ∧ u.repeat_ ∧ ¬ Cancelled acts p u ∧
          t = { u with expiration := wrap64 (now + u.interval.micros) } ∧
          (IsInt64 (now + u.interval.micros) → t.expiration = now + u.interval.micros) := by
  obtain ⟨place, hs⟩ := Inv.of_reachable h
  obtain ⟨s₁, hexec, -⟩ := hs.handleRead hidle now
  have hs₁ : program.Reachable .init s₁ := h.next _ hadm.1 hexec
  have hadm₁ := hadm.2 s₁ none hexec
  -- the steps before the last one
  obtain ⟨s₂, effects, hrun, -⟩ :=
    Program.run_of_safe Inv.safe (Inv.of_reachable hs₁) hadm₁.of_append
  obtain ⟨started, done, hb⟩ :=
    Batch.of_run h hidle hexec hend hadm₁.of_append hrun
  -- the last one
  obtain ⟨place₂, hs₂⟩ := Inv.of_reachable (hs₁.trans (.of_run hadm₁.of_append hrun))
  obtain ⟨⟨now', hframe⟩, -⟩ := ((Program.Admissible.append_iff hrun).mp hadm₁).2
  obtain ⟨o, hexec₂, ho, hs'⟩ := hs₂.endReset_run? hframe clock
  have hprogress := hb.progress
  rw [hframe] at hprogress
  obtain ⟨rfl, rfl⟩ : started = (s.queue.due now).length ∧ done = s.queue.due now := by
    cases hprogress with
    | resetting hdue => exact ⟨rfl, by simp [hdue]⟩
  have hruns := hb.runs
  rw [List.take_length] at hruns
  have hrun' : program.run s₁ (acts ++ [.endReset clock]) = _ :=
    Program.run_concat.mpr ⟨s₂, effects, o, hrun, hexec₂, rfl⟩
  refine ⟨_, _, (Program.run_cons hexec).mpr ⟨_, hrun', rfl⟩, ⟨s.queue.due now, ?_,
    hs.queue.nodup_due now, s.queue.sorted_due now, fun e => hs.queue.mem_due⟩,
    fun e => hs'.queue.mem_timers.mp, fun p t => ?_⟩
  · rw [List.filterMap_cons_none rfl, List.filterMap_append, hruns, List.filterMap_cons_none ho]
    exact List.append_nil _
  · refine (hb.armed p t).trans (or_assoc.trans (or_congr_right (or_congr ?_ ?_)))
    · exact added_iff hexec
    · exact hs.restarted_due

/-- The callback of a repeating timer adds another timer. -/
theorem handle_read_batch_repeating : ∃ s s' : TimerLoop, program.Reachable .init s ∧
    (∃ effects, program.run s [.handleRead 7, .callback, .newTimer 16 20 ⟨false, 0⟩,
      .addTimerInLoop ⟨16, 1⟩ 7, .endCallbacks, .resetOne, .endReset 8] = some (s', effects)) ∧
    s'.queue.Armed ⟨8, 0⟩ ⟨17, ⟨true, 10⟩, true, 1⟩ := by
  have hnew : program.Reachable .init _ :=
    .next .start (.newTimer 8 5 ⟨true, 10⟩) ⟨rfl, by decide⟩ rfl
  have hadd := hnew.next (.addTimerInLoop ⟨8, 0⟩ 1) ⟨trivial, List.mem_cons_self⟩ rfl
  obtain ⟨s', effects, hrun, -, -, harmed⟩ := @handle_read_batch _ 7 [.callback,
    .newTimer 16 20 ⟨false, 0⟩, .addTimerInLoop ⟨16, 1⟩ 7, .endCallbacks, .resetOne] hadd rfl 8
    (by simp) <| .cons rfl rfl <| .cons ⟨7, _, 0, rfl, Nat.zero_lt_one⟩ rfl <|
      .cons ⟨rfl, by decide⟩ rfl <| .cons ⟨Nat.zero_lt_one, List.mem_cons_self⟩ rfl <|
      .cons ⟨7, _, rfl⟩ rfl <| .cons ⟨7, _, [], rfl⟩ rfl <| .cons ⟨7, rfl⟩ rfl trivial
  refine ⟨_, s', hadd, ⟨effects, hrun⟩, (harmed _ _).mpr (.inr (.inr
    ⟨⟨5, ⟨true, 10⟩, true, 1⟩, ⟨⟨rfl, List.mem_cons_self⟩, by decide⟩, rfl, ?_, rfl,
      fun _ => rfl⟩))⟩
  simp [Cancelled, TimerAction.Cancels]

/-- `runEvery(9223372000000.0)` when the clock is at 1700000000 seconds: the sum of the two is no
`int64_t`, and the timer is due at once and is put back for a time that is long past. -/
theorem handle_read_overflow : ∃ (s s' : TimerLoop) (u : Timer), program.Reachable .init s ∧
    (∃ effects, program.run s [.handleRead 1700000000000000, .callback, .endCallbacks, .resetOne,
      .endReset 1700000000000000] = some (s', effects)) ∧
    u.interval = ⟨true, 9223372000000000000⟩ ∧ s.queue.Armed ⟨8, 0⟩ u ∧
    u.expiration ≤ 1700000000000000 ∧ u.repeat_ ∧
    ∀ t, s'.queue.Armed ⟨8, 0⟩ t → t.expiration ≠ 1700000000000000 + u.interval.micros := by
  have hnew : program.Reachable .init _ :=
    .next .start (.newTimer 8 (addTime 1700000000000000 ⟨true, 9223372000000000000⟩)
      ⟨true, 9223372000000000000⟩) ⟨rfl, by decide⟩ rfl
  have hadd := hnew.next (.addTimerInLoop ⟨8, 0⟩ 1700000000000000)
    ⟨trivial, List.mem_cons_self⟩ rfl
  refine ⟨_, _, _, hadd, ⟨_, rfl⟩, rfl, ⟨rfl, List.mem_cons_self⟩, by decide, rfl, fun t ht => ?_⟩
  cases ht.1
  decide

end TimerLoop
end Httpancake
