import Httpancake.Reactor.TimerOwnership

/-! # `add_timer` on any thread

`add_timer` makes a timer, hands it over to the loop thread and then reads its sequence number for
the `TimerId`. The loop thread may have deleted the timer by then. `add_timer_safe_iff`: all reads
of a run are good exactly when it never deletes a timer whose sequence number is still to be
read. -/

namespace Httpancake

/-! ## What the loop thread deletes -/

/-- The actions of the queue that are not part of `add_timer`. -/
def TimerAction.Other : TimerAction → Prop
  | .newTimer .. | .addTimerInLoop .. => False
  | _ => True

namespace TimerLoop
variable {s s' : TimerLoop} {place : Ptr → Place} {p : Ptr} {u : Timer} {a : TimerAction}
  {o : Option TimerEffect}

/-- The action deletes the timer `p`: its id is cancelled while it waits, or `reset` comes to it
and does not put it back. -/
def Deletes (s : TimerLoop) (p : Ptr) (u : Timer) : TimerAction → Prop
  | .cancelInLoop id =>
    ActiveTimer.of p u ∈ s.queue.activeTimers ∧ (ActiveTimer.of p u).key = id.key
  | .resetOne =>
    ∃ now when_ expired, s.frame = .resetting now ((when_, p) :: expired) ∧ ¬ s.queue.Keeps p u
  | _ => False

theorem Inv.place_of_mem_active (h : s.Inv place)
    (hmem : ActiveTimer.of p u ∈ s.queue.activeTimers) : place p = .active := by
  obtain ⟨r, v, -, hact, heq⟩ := (h.queue.active _).mp hmem
  rwa [show p = r from congrArg Prod.fst heq]

theorem Inv.place_of_resetting (h : s.Inv place) {now when_ : Timestamp} {expired : List Entry}
    (hframe : s.frame = .resetting now ((when_, p) :: expired)) : place p = .expired := by
  have hmem : p ∈ s.held := by
    rw [TimerLoop.held, hframe]
    exact List.mem_cons_self
  exact ((h.held p).mp hmem).1

/-- A timer that is handed over is not deleted. -/
theorem Inv.not_deletes (h : s.Inv place) (hmem : p ∈ s.handedOver) : ¬ s.Deletes p u a := by
  have hplace := ((h.handedOver p).mp hmem).1
  intro hdel
  cases a with
  | cancelInLoop id =>
    rw [h.place_of_mem_active hdel.1] at hplace
    cases hplace
  | resetOne =>
    obtain ⟨now, when_, expired, hframe, -⟩ := hdel
    rw [h.place_of_resetting hframe] at hplace
    cases hplace
  | newTimer | addTimerInLoop | handleRead | callback | endCallbacks | endReset => exact hdel

/-- What an action leaves alone, and what it deletes. -/
structure Touches (s : TimerLoop) (a : TimerAction) (s' : TimerLoop) : Prop where
  handedOver : s'.handedOver = s.handedOver
  deleted : ∀ p u, s.queue.heap.deref p = some u → s.Deletes p u a →
    s'.queue.heap.deref p = none
  kept : ∀ p u, s.queue.heap.deref p = some u → ¬ s.Deletes p u a →
    ∃ u', s'.queue.heap.deref p = some u' ∧ u'.sequence = u.sequence

/-- An action that changes no timer. -/
theorem Touches.of_heap_eq (hheap : s'.queue.heap = s.queue.heap)
    (hhanded : s'.handedOver = s.handedOver) (hnone : ∀ p u, ¬ s.Deletes p u a) :
    s.Touches a s' where
  handedOver := hhanded
  deleted p u _ hdel := absurd hdel (hnone p u)
  kept p u hu _ := ⟨u, by rw [hheap]; exact hu, rfl⟩

theorem Inv.touches_cancel (h : s.Inv place) {id : ActiveTimer}
    (hexec : exec s (.cancelInLoop id) = some (s', o)) : s.Touches (.cancelInLoop id) s' := by
  obtain ⟨q', hexec', hcancels, -⟩ := h.cancelInLoop id
  cases hexec.symm.trans hexec'
  cases hcancels with
  | @hit r v hv hact hkey hderef =>
    refine ⟨rfl, fun p u hu hdel => ?_, fun p u hu hdel => ?_⟩
    · have hpr := ActiveTimer.separates.eq_of_key hu hv (hdel.2.trans hkey.symm)
      rw [hderef, if_pos hpr]
    · have hpr : p ≠ r := by
        rintro rfl
        obtain rfl := Option.some.inj (hu.symm.trans hv)
        exact hdel ⟨h.queue.active.mem hu hact, hkey⟩
      exact ⟨u, by rw [hderef, if_neg hpr]; exact hu, rfl⟩
  | missed hnone hheap =>
    refine ⟨rfl, fun p u hu hdel => ?_, fun p u hu _ => ⟨u, by rw [hheap]; exact hu, rfl⟩⟩
    exact absurd hdel.2 (hnone p u hu (h.place_of_mem_active hdel.1))

theorem Inv.touches_reset (h : s.Inv place) (hpre : Pre s .resetOne)
    (hexec : exec s .resetOne = some (s', o)) : s.Touches .resetOne s' := by
  obtain ⟨now, e, expired, hframe⟩ := hpre
  obtain ⟨t, q', ht, -, hexec', hresets, -⟩ := h.resetOne hframe
  cases hexec.symm.trans hexec'
  -- the frame says which timer is next
  have hnext {p : Ptr} {u : Timer} (hdel : s.Deletes p u .resetOne) :
      p = e.2 ∧ ¬ s.queue.Keeps p u := by
    obtain ⟨now', when_, expired', hframe', hkeep⟩ := hdel
    rw [hframe] at hframe'
    cases hframe'
    exact ⟨rfl, hkeep⟩
  cases hresets with
  | kept hkeep hderef =>
    refine ⟨rfl, fun p u hu hdel => ?_, fun p u hu _ => ?_⟩
    · obtain ⟨rfl, hno⟩ := hnext hdel
      obtain rfl := Option.some.inj (hu.symm.trans ht)
      exact absurd hkeep hno
    · by_cases hp : p = e.2
      · subst hp
        obtain rfl := Option.some.inj (hu.symm.trans ht)
        exact ⟨_, by rw [hderef, if_pos rfl], Timer.restart_sequence _ _⟩
      · exact ⟨u, by rw [hderef, if_neg hp]; exact hu, rfl⟩
  | deleted hkeep hderef =>
    refine ⟨rfl, fun p u hu hdel => ?_, fun p u hu hdel => ?_⟩
    · rw [hderef, if_pos (hnext hdel).1]
    · have hp : p ≠ e.2 := by
        rintro rfl
        obtain rfl := Option.some.inj (hu.symm.trans ht)
        exact hdel ⟨now, e.1, expired, hframe, hkeep⟩
      exact ⟨u, by rw [hderef, if_neg hp]; exact hu, rfl⟩

theorem Inv.touches (h : s.Inv place) (hother : a.Other) (hpre : Pre s a)
    (hexec : exec s a = some (s', o)) : s.Touches a s' := by
  cases a with
  | newTimer | addTimerInLoop => exact hother.elim
  | cancelInLoop id => exact h.touches_cancel hexec
  | resetOne => exact h.touches_reset hpre hexec
  | handleRead now =>
    obtain ⟨s₁, hexec', hheap, -, -, hhanded, -⟩ := h.handleRead hpre now
    cases hexec.symm.trans hexec'
    exact .of_heap_eq hheap hhanded fun _ _ => id
  | callback =>
    obtain ⟨now, expired, started, hframe, hlt⟩ := hpre
    cases hexec.symm.trans (h.callback hframe hlt).1
    exact .of_heap_eq rfl rfl fun _ _ => id
  | endCallbacks =>
    obtain ⟨now, expired, hframe⟩ := hpre
    cases hexec.symm.trans (h.endCallbacks hframe).1
    exact .of_heap_eq rfl rfl fun _ _ => id
  | endReset clock =>
    obtain ⟨now, hframe⟩ := hpre
    cases hexec.symm.trans (h.endReset hframe clock).1
    exact .of_heap_eq rfl rfl fun _ _ => id

end TimerLoop

/-! ## The calls -/

/-- Where a thread is in `add_timer`. `created` is the sequence number that the timer was made
with. -/
inductive AddTimerCall where
  | idle
  | made (timer : Ptr) (created : Int)
  /-- `runInLoop` has returned. -/
  | handedOver (timer : Ptr) (created : Int)

structure TimerCalls (T : Type*) where
  loop : TimerLoop
  /-- The timers whose `add_timer_in_loop` other threads have queued. -/
  pendingFuncs : List Ptr
  callers : T → AddTimerCall

inductive AddTimerAction (T : Type*) where
  | newTimer (t : T) (addr : Nat) (when_ : Timestamp) (interval : Interval)
  | runInLoop (t : T) (clock : Timestamp)
  /-- `return TimerId(timer, timer->sequence())` -/
  | returnId (t : T)
  /-- The loop thread calls the next queued `add_timer_in_loop`. -/
  | doPendingFuncs (clock : Timestamp)
  /-- Anything else that the loop thread does. -/
  | loop (a : TimerAction)

namespace TimerCalls
variable {T : Type*} [DecidableEq T] (tid : T)

omit [DecidableEq T] in
def init : TimerCalls T where
  loop := .init
  pendingFuncs := []
  callers _ := .idle

/-- The loop thread `tid` runs one function at a time, and queued ones outside `handle_read`. -/
def Pre (s : TimerCalls T) : AddTimerAction T → Prop
  | .newTimer t addr when_ interval => s.callers t = .idle ∧ (t = tid → s.loop.MayCall) ∧
      s.loop.Pre (.newTimer addr when_ interval)
  | .runInLoop t _ => ∃ timer created, s.callers t = .made timer created
  | .returnId t => ∃ timer created, s.callers t = .handedOver timer created
  | .doPendingFuncs _ => s.callers tid = .idle ∧ s.loop.frame = .idle ∧ s.pendingFuncs ≠ []
  | .loop a => s.callers tid = .idle ∧ a.Other ∧ s.loop.Pre a

def exec (s : TimerCalls T) : AddTimerAction T → Option (TimerCalls T × Option ActiveTimer)
  | .newTimer t addr when_ interval =>
    (s.loop.exec (.newTimer addr when_ interval)).map fun (loop, _) =>
      let timer := s.loop.queue.heap.newPtr addr
      ({ s with
        loop, callers := Function.update s.callers t (.made timer loop.sNumCreated) }, none)
  | .runInLoop t clock =>
    match s.callers t with
    | .made timer created =>
      let callers := Function.update s.callers t (.handedOver timer created)
      if t = tid then
        (s.loop.exec (.addTimerInLoop timer clock)).map fun (loop, _) =>
          ({ s with loop, callers }, none)
      else
        some ({ s with pendingFuncs := s.pendingFuncs ++ [timer], callers }, none)
    | _ => none
  | .returnId t =>
    match s.callers t with
    | .handedOver timer _ =>
      (s.loop.queue.heap.deref timer).map fun u =>
        ({ s with callers := Function.update s.callers t .idle }, some (.of timer u))
    | _ => none
  | .doPendingFuncs clock =>
    match s.pendingFuncs with
    | timer :: pendingFuncs =>
      (s.loop.exec (.addTimerInLoop timer clock)).map fun (loop, _) =>
        ({ s with loop, pendingFuncs }, none)
    | [] => none
  | .loop a => (s.loop.exec a).map fun (loop, _) => ({ s with loop }, none)

def program : Program (TimerCalls T) (AddTimerAction T) (Option ActiveTimer) where
  pre := Pre tid
  exec := exec tid

/-- Whoever reads next reads from a live timer, and returns the id of the timer it made. -/
def ReadsCreated (s : TimerCalls T) : Prop :=
  ∀ t timer created, s.callers t = .handedOver timer created →
    ∃ s', (program tid).exec s (.returnId t) = some (s', some (timer, created))

/-- `ReadsCreated` holds in every state of the run. -/
def SafeRun (actions : List (AddTimerAction T)) : Prop :=
  ∀ actions' s os, actions' <+: actions → (program tid).run .init actions' = some (s, os) →
    s.ReadsCreated tid

/-- The loop thread deletes no timer whose sequence number is still to be read. -/
def LeavesUnread (s : TimerCalls T) : AddTimerAction T → Prop
  | .loop a => ∀ t timer created u, s.callers t = .handedOver timer created →
      s.loop.queue.heap.deref timer = some u → ¬ s.loop.Deletes timer u a
  | _ => True

/-! ## The timers of the calls -/

variable {tid : T} {s s' : TimerCalls T} {a : AddTimerAction T} {o : Option ActiveTimer}

omit [DecidableEq T] in
/-- A call that has not returned has a live timer with the sequence number it was made with. Only a
timer that is handed over can be queued. -/
structure Inv (s : TimerCalls T) : Prop where
  loop : ∃ place, s.loop.Inv place
  made : ∀ t timer created, s.callers t = .made timer created →
    (∃ u, s.loop.queue.heap.deref timer = some u ∧ u.sequence = created) ∧
      timer ∈ s.loop.handedOver ∧ timer ∉ s.pendingFuncs
  handedOver : ∀ t timer created, s.callers t = .handedOver timer created →
    ∃ u, s.loop.queue.heap.deref timer = some u ∧ u.sequence = created
  distinct : ∀ t t' timer created created', s.callers t = .made timer created →
    s.callers t' = .made timer created' → t = t'
  pendingFuncs : ∀ p ∈ s.pendingFuncs, p ∈ s.loop.handedOver
  nodup : s.pendingFuncs.Nodup

omit [DecidableEq T] in
theorem Inv.init : (TimerCalls.init : TimerCalls T).Inv where
  loop := ⟨_, TimerLoop.Inv.init⟩
  made := nofun
  handedOver := nofun
  distinct := nofun
  pendingFuncs := nofun
  nodup := .nil

theorem Inv.readsCreated (h : s.Inv) : s.ReadsCreated tid := by
  intro t timer created hcall
  obtain ⟨u, hu, rfl⟩ := h.handedOver t timer created hcall
  refine ⟨{ s with callers := Function.update s.callers t .idle }, ?_⟩
  simp only [program, exec, hcall, hu, Option.map_some]
  rfl

omit [DecidableEq T] in
theorem Inv.deref_of_handedOver (h : s.Inv) {p : Ptr} (hp : p ∈ s.loop.handedOver) :
    ∃ u, s.loop.queue.heap.deref p = some u := by
  obtain ⟨place, hplace⟩ := h.loop
  exact ((hplace.handedOver p).mp hp).2

/-- A call makes a timer. -/
theorem Inv.of_made (h : s.Inv) {l : TimerLoop} (t : T) {timer : Ptr} {u : Timer}
    (hl : ∃ place, l.Inv place) (hnew : s.loop.queue.heap.deref timer = none)
    (hu : l.queue.heap.deref timer = some u)
    (hold : ∀ p v, s.loop.queue.heap.deref p = some v → l.queue.heap.deref p = some v)
    (hhanded : l.handedOver = timer :: s.loop.handedOver) :
    Inv { s with loop := l, callers := Function.update s.callers t (.made timer u.sequence) } := by
  have hne {p : Ptr} (hp : ∃ v, s.loop.queue.heap.deref p = some v) : p ≠ timer := by
    rintro rfl
    obtain ⟨v, hv⟩ := hp
    rw [hnew] at hv
    cases hv
  have hlive {t' : T} {p : Ptr} {created : Int} (hcall : s.callers t' = .made p created) :
      p ≠ timer := by
    obtain ⟨⟨v, hv, -⟩, -⟩ := h.made t' p created hcall
    exact hne ⟨v, hv⟩
  refine ⟨hl, fun t' p created hcall => ?_, fun t' p created hcall => ?_, ?_, fun p hp => ?_,
    h.nodup⟩
  · simp only [Function.update_apply] at hcall
    split at hcall
    · cases hcall
      refine ⟨⟨u, hu, rfl⟩, hhanded ▸ List.mem_cons_self, fun hmem => ?_⟩
      exact hne (h.deref_of_handedOver (h.pendingFuncs _ hmem)) rfl
    · obtain ⟨⟨v, hv, hseq⟩, hmem, hpending⟩ := h.made t' p created hcall
      exact ⟨⟨v, hold p v hv, hseq⟩, hhanded ▸ List.mem_cons_of_mem _ hmem, hpending⟩
  · simp only [Function.update_apply] at hcall
    split at hcall
    · cases hcall
    · obtain ⟨v, hv, hseq⟩ := h.handedOver t' p created hcall
      exact ⟨v, hold p v hv, hseq⟩
  · intro t₁ t₂ p created created' hcall hcall'
    simp only [Function.update_apply] at hcall hcall'
    split at hcall <;> split at hcall'
    · simp only [*]
    · cases hcall
      exact absurd rfl (hlive hcall')
    · cases hcall'
      exact absurd rfl (hlive hcall)
    · exact h.distinct t₁ t₂ p created created' hcall hcall'
  · exact hhanded ▸ List.mem_cons_of_mem _ (h.pendingFuncs p hp)

theorem Inv.newTimer (h : s.Inv) {t : T} {addr : Nat} {when_ : Timestamp} {interval : Interval}
    (hpre : Pre tid s (.newTimer t addr when_ interval))
    (hexec : exec tid s (.newTimer t addr when_ interval) = some (s', o)) : s'.Inv := by
  obtain ⟨-, -, hfree, haddr⟩ := hpre
  obtain ⟨place, hplace⟩ := h.loop
  obtain ⟨l, o₁, hl, hinv⟩ := hplace.newTimer hfree haddr when_ interval
  rw [exec, hl] at hexec
  cases hl
  cases hexec
  set made := Timer.make ((s.loop.sNumCreated + 1).bmod (2 ^ 64)) when_ interval
  have hmade : (s.loop.queue.heap.new addr made).deref (s.loop.queue.heap.newPtr addr) =
      some made := (Heap.deref_new hfree).trans (if_pos rfl)
  have hold : ∀ p v, s.loop.queue.heap.deref p = some v →
      (s.loop.queue.heap.new addr made).deref p = some v := by
    intro p v hv
    have hne : p ≠ s.loop.queue.heap.newPtr addr := by
      rintro rfl
      rw [Heap.newPtr_not_live] at hv
      cases hv
    exact ((Heap.deref_new hfree).trans (if_neg hne)).trans hv
  exact h.of_made t ⟨_, hinv⟩ Heap.newPtr_not_live hmade hold rfl

omit [DecidableEq T] in
/-- `add_timer_in_loop` moves one timer into the queue. -/
theorem Inv.added (h : s.Inv) {timer : Ptr} {clock : Timestamp} {l : TimerLoop}
    {o : Option TimerEffect} (hmem : timer ∈ s.loop.handedOver)
    (hexec : s.loop.exec (.addTimerInLoop timer clock) = some (l, o)) :
    (∃ place, l.Inv place) ∧ l.queue.heap = s.loop.queue.heap ∧
      ∀ p, p ∈ s.loop.handedOver → p ≠ timer → p ∈ l.handedOver := by
  obtain ⟨place, hplace⟩ := h.loop
  obtain ⟨u, -, -, hadd, hinv⟩ := hplace.addTimerInLoop hmem clock
  cases hexec.symm.trans hadd
  refine ⟨⟨_, hinv⟩, rfl, fun p hp hne => List.mem_filter.mpr ⟨hp, decide_eq_true hne⟩⟩

/-- `runInLoop` returns to a call. -/
theorem Inv.of_handedOver (h : s.Inv) {l : TimerLoop} {t : T} {timer : Ptr} {created : Int}
    {pendingFuncs : List Ptr} (hcall : s.callers t = .made timer created)
    (hl : ∃ place, l.Inv place) (hheap : l.queue.heap = s.loop.queue.heap)
    (hkeep : ∀ p, p ∈ s.loop.handedOver → p ≠ timer → p ∈ l.handedOver)
    (hsub : ∀ p ∈ pendingFuncs, p ≠ timer → p ∈ s.pendingFuncs)
    (hmem : ∀ p ∈ pendingFuncs, p ∈ l.handedOver) (hnodup : pendingFuncs.Nodup) :
    Inv ⟨l, pendingFuncs, Function.update s.callers t (.handedOver timer created)⟩ := by
  -- the other calls have other timers
  have hmade {t' : T} {p : Ptr} {c : Int} (ht : t' ≠ t) (hcall' : s.callers t' = .made p c) :
      p ≠ timer := by
    rintro rfl
    exact ht (h.distinct t' t p c created hcall' hcall)
  refine ⟨hl, fun t' p c hcall' => ?_, fun t' p c hcall' => ?_, fun t₁ t₂ p c c' h₁ h₂ => ?_, hmem,
    hnodup⟩
  · simp only [Function.update_apply] at hcall'
    split at hcall'
    · cases hcall'
    · next ht =>
      obtain ⟨hu, hhanded, hpending⟩ := h.made t' p c hcall'
      have hne := hmade ht hcall'
      exact ⟨hheap ▸ hu, hkeep p hhanded hne, fun hp => hpending (hsub p hp hne)⟩
  · simp only [Function.update_apply] at hcall'
    split at hcall'
    · cases hcall'
      exact hheap ▸ (h.made t timer created hcall).1
    · exact hheap ▸ h.handedOver t' p c hcall'
  · simp only [Function.update_apply] at h₁ h₂
    split at h₁ <;> split at h₂
    · cases h₁
    · cases h₁
    · cases h₂
    · exact h.distinct t₁ t₂ p c c' h₁ h₂

theorem Inv.runInLoop (h : s.Inv) {t : T} {clock : Timestamp}
    (hpre : Pre tid s (.runInLoop t clock))
    (hexec : exec tid s (.runInLoop t clock) = some (s', o)) : s'.Inv := by
  obtain ⟨timer, created, hcall⟩ := hpre
  obtain ⟨-, hmem, hpending⟩ := h.made t timer created hcall
  simp only [exec, hcall] at hexec
  split at hexec
  · obtain ⟨⟨l, o₁⟩, hl, heq⟩ := Option.map_eq_some_iff.mp hexec
    cases heq
    obtain ⟨hinv, hheap, hkeep⟩ := h.added hmem hl
    refine h.of_handedOver hcall hinv hheap hkeep (fun p hp _ => hp) (fun p hp => ?_) h.nodup
    exact hkeep p (h.pendingFuncs p hp) fun heq => hpending (heq ▸ hp)
  · cases hexec
    refine h.of_handedOver hcall h.loop rfl (fun p hp _ => hp) (fun p hp hne => ?_) ?_ ?_
    · rcases List.mem_append.mp hp with hp | hp
      · exact hp
      · exact absurd (List.mem_singleton.mp hp) hne
    · intro p hp
      rcases List.mem_append.mp hp with hp | hp
      · exact h.pendingFuncs p hp
      · exact List.mem_singleton.mp hp ▸ hmem
    · rw [← List.concat_eq_append]
      exact h.nodup.concat hpending

theorem Inv.returnId (h : s.Inv) {t : T} (hpre : Pre tid s (.returnId t))
    (hexec : exec tid s (.returnId t) = some (s', o)) : s'.Inv := by
  obtain ⟨timer, created, hcall⟩ := hpre
  simp only [exec, hcall] at hexec
  obtain ⟨u, -, heq⟩ := Option.map_eq_some_iff.mp hexec
  cases heq
  -- the call is over
  have hother {t' : T} {c : AddTimerCall} (hc : c ≠ .idle)
      (hcall' : Function.update s.callers t .idle t' = c) : s.callers t' = c := by
    rw [Function.update_apply] at hcall'
    split at hcall'
    · exact absurd hcall'.symm hc
    · exact hcall'
  exact { h with
    made := fun t' p c hcall' => h.made t' p c (hother nofun hcall')
    handedOver := fun t' p c hcall' => h.handedOver t' p c (hother nofun hcall')
    distinct := fun t₁ t₂ p c c' h₁ h₂ =>
      h.distinct t₁ t₂ p c c' (hother nofun h₁) (hother nofun h₂) }

theorem Inv.doPendingFuncs (h : s.Inv) {clock : Timestamp}
    (hexec : exec tid s (.doPendingFuncs clock) = some (s', o)) : s'.Inv := by
  rw [exec] at hexec
  cases hpending : s.pendingFuncs with
  | nil =>
    rw [hpending] at hexec
    cases hexec
  | cons timer rest =>
    rw [hpending] at hexec
    obtain ⟨⟨l, o₁⟩, hl, heq⟩ := Option.map_eq_some_iff.mp hexec
    cases heq
    have hmem : timer ∈ s.pendingFuncs := hpending ▸ List.mem_cons_self
    have hrest {p : Ptr} (hp : p ∈ rest) : p ∈ s.pendingFuncs :=
      hpending ▸ List.mem_cons_of_mem _ hp
    have hnodup := h.nodup
    rw [hpending, List.nodup_cons] at hnodup
    obtain ⟨hinv, hheap, hkeep⟩ := h.added (h.pendingFuncs timer hmem) hl
    refine ⟨hinv, fun t p c hcall => ?_, fun t p c hcall => ?_, h.distinct, fun p hp => ?_,
      hnodup.2⟩
    · obtain ⟨hu, hhanded, hno⟩ := h.made t p c hcall
      have hne : p ≠ timer := fun heq => hno (heq ▸ hmem)
      exact ⟨hheap ▸ hu, hkeep p hhanded hne, fun hp => hno (hrest hp)⟩
    · exact hheap ▸ h.handedOver t p c hcall
    · exact hkeep p (h.pendingFuncs p (hrest hp)) fun heq => hnodup.1 (heq ▸ hp)

/-- The other actions of the loop thread leave the calls alone that they leave their timers. -/
theorem Inv.otherAction (h : s.Inv) {a : TimerAction} (hpre : Pre tid s (.loop a))
    (hok : LeavesUnread s (.loop a)) (hexec : exec tid s (.loop a) = some (s', o)) : s'.Inv := by
  obtain ⟨-, hother, hpre⟩ := hpre
  obtain ⟨⟨l, o₁⟩, hl, heq⟩ := Option.map_eq_some_iff.mp hexec
  cases heq
  obtain ⟨place, hplace⟩ := h.loop
  have htouch := hplace.touches hother hpre hl
  refine ⟨hplace.preserved hpre hl, fun t p c hcall => ?_, fun t p c hcall => ?_, h.distinct,
    fun p hp => ?_, h.nodup⟩
  · obtain ⟨⟨u, hu, hseq⟩, hhanded, hpending⟩ := h.made t p c hcall
    obtain ⟨u', hu', hsame⟩ := htouch.kept p u hu (hplace.not_deletes hhanded)
    exact ⟨⟨u', hu', hsame.trans hseq⟩, htouch.handedOver ▸ hhanded, hpending⟩
  · obtain ⟨u, hu, hseq⟩ := h.handedOver t p c hcall
    obtain ⟨u', hu', hsame⟩ := htouch.kept p u hu (hok t p c u hcall hu)
    exact ⟨u', hu', hsame.trans hseq⟩
  · exact htouch.handedOver ▸ h.pendingFuncs p hp

theorem preserves_inv : ((program tid).restrict (LeavesUnread (T := T))).Preserves Inv := by
  intro s a s' o h hpre hexec
  obtain ⟨hpre, hok⟩ := hpre
  cases a with
  | newTimer => exact h.newTimer hpre hexec
  | runInLoop => exact h.runInLoop hpre hexec
  | returnId t => exact h.returnId (show Pre tid s (.returnId t) from hpre) hexec
  | doPendingFuncs clock =>
    exact h.doPendingFuncs (show exec tid s (.doPendingFuncs clock) = some (s', o) from hexec)
  | loop => exact h.otherAction hpre hok hexec

/-- A timer that is deleted too early is read all the same. -/
theorem Inv.not_readsCreated (h : s.Inv) (hpre : Pre tid s a) (hbad : ¬ LeavesUnread s a) :
    ∃ s' o, exec tid s a = some (s', o) ∧ ¬ s'.ReadsCreated tid := by
  cases a with
  | newTimer | runInLoop | returnId | doPendingFuncs => exact absurd trivial hbad
  | loop a =>
    simp only [LeavesUnread, not_forall, not_not] at hbad
    obtain ⟨t, timer, created, u, hcall, hu, hdel⟩ := hbad
    obtain ⟨-, hother, hpre⟩ := hpre
    obtain ⟨place, hplace⟩ := h.loop
    obtain ⟨l, o, hl, -⟩ := hplace.step hpre
    have hgone := (hplace.touches hother hpre hl).deleted timer u hu hdel
    refine ⟨{ s with loop := l }, none, by rw [exec, hl]; rfl, fun hreads => ?_⟩
    obtain ⟨s₁, hread⟩ := hreads t timer created hcall
    simp only [program, exec, hcall, hgone, Option.map_none] at hread
    cases hread

/-- **When `add_timer` is safe.** -/
theorem add_timer_safe_iff {actions : List (AddTimerAction T)}
    (hadm : (program tid).Admissible .init actions) :
    SafeRun tid actions ↔ ((program tid).restrict LeavesUnread).Admissible .init actions :=
  Program.forall_states_iff preserves_inv (fun _ h => h.readsCreated)
    (fun _ _ h hpre hbad => h.not_readsCreated hpre hbad) Inv.init hadm

/-! ## Two runs -/

theorem leavesUnread_of_idle {T : Type*} {s : TimerCalls T}
    (h : ∀ t timer created, s.callers t ≠ .handedOver timer created) (a : AddTimerAction T) :
    LeavesUnread s a := by
  cases a with
  | loop a => exact fun t timer created u hcall _ _ => h t timer created hcall
  | newTimer | runInLoop | returnId | doPendingFuncs => trivial

/-- Another thread adds a timer and returns before the timer is due. -/
def readEarly : List (AddTimerAction Bool) :=
  [.newTimer false 8 5 ⟨false, 0⟩, .runInLoop false 1, .returnId false, .doPendingFuncs 1,
    .loop (.handleRead 7), .loop .callback, .loop .endCallbacks, .loop .resetOne]

theorem add_timer_safe_readEarly : SafeRun true readEarly := by
  have hok : ((program true).restrict LeavesUnread).Admissible .init readEarly := by
    refine .cons ⟨⟨rfl, nofun, rfl, by decide⟩, trivial⟩ rfl ?_
    refine .cons ⟨⟨_, _, rfl⟩, trivial⟩ rfl ?_
    refine .cons ⟨⟨_, _, rfl⟩, trivial⟩ rfl ?_
    refine .cons ⟨⟨rfl, rfl, List.cons_ne_nil _ _⟩, trivial⟩ rfl ?_
    -- no thread is in a call any more
    have hidle {t : Bool} {timer : Ptr} {created : Int} {c c' : AddTimerCall} :
        Function.update (Function.update (Function.update (fun _ => AddTimerCall.idle) false c)
          false c') false .idle t ≠ .handedOver timer created := by
      cases t <;> nofun
    refine .cons ⟨⟨rfl, trivial, rfl⟩, leavesUnread_of_idle (fun _ _ _ => hidle) _⟩ rfl ?_
    refine .cons ⟨⟨rfl, trivial, 7, _, 0, rfl, Nat.zero_lt_one⟩,
      leavesUnread_of_idle (fun _ _ _ => hidle) _⟩ rfl ?_
    refine .cons ⟨⟨rfl, trivial, 7, _, rfl⟩, leavesUnread_of_idle (fun _ _ _ => hidle) _⟩ rfl ?_
    exact .cons ⟨⟨rfl, trivial, 7, _, _, rfl⟩, leavesUnread_of_idle (fun _ _ _ => hidle) _⟩ rfl
      trivial
  exact (add_timer_safe_iff (Program.Admissible.of_restrict hok)).mpr hok

/-- The timer fires and is deleted before its sequence number is read. -/
theorem add_timer_unsafe : ∃ s : TimerCalls Bool,
    (program true).Reachable .init s ∧ ¬ s.ReadsCreated true := by
  have hnew : (program true).Reachable (TimerCalls.init : TimerCalls Bool) _ :=
    .next .start (.newTimer false 8 5 ⟨false, 0⟩) ⟨rfl, nofun, rfl, by decide⟩ rfl
  have hqueued := hnew.next (.runInLoop false 1) ⟨_, _, rfl⟩ rfl
  have hadded := hqueued.next (.doPendingFuncs 1) ⟨rfl, rfl, List.cons_ne_nil _ _⟩ rfl
  have hread := hadded.next (.loop (.handleRead 7)) ⟨rfl, trivial, rfl⟩ rfl
  have hfired := hread.next (.loop .callback) ⟨rfl, trivial, 7, _, 0, rfl, Nat.zero_lt_one⟩ rfl
  have hended := hfired.next (.loop .endCallbacks) ⟨rfl, trivial, 7, _, rfl⟩ rfl
  have hdeleted := hended.next (.loop .resetOne) ⟨rfl, trivial, 7, _, _, rfl⟩ rfl
  refine ⟨_, hdeleted, fun hreads => ?_⟩
  obtain ⟨s', hreturn⟩ := hreads false ⟨8, 0⟩ 1 rfl
  cases hreturn

end TimerCalls
end Httpancake
