import Httpancake.Reactor.EventLoop

/-! # Stopping the loop of a thread

`EventLoopThread` of `src/reactor/EventLoopThread.cpp`: the thread `tid` constructs a loop,
publishes it and runs it. Other threads get it from `startLoop`, call it and stop it, directly or in
`~EventLoopThread`. `stopLoop_` is `true` from the constructor on, but `loop` sets it to `false`
when it is entered: a stop that comes between the publication and the entry is lost, and a later one
is not (`EventLoopThread.stop_heeded_iff`). -/

namespace Httpancake

/-- What `threadFunc` does next. -/
inductive ThreadStage where
  /-- `EventLoop lp`. -/
  | construct
  /-- `lp_ = &lp`, under the mutex, and `notify_one`. -/
  | publish
  /-- `stopLoop_ = false`. -/
  | enter
  /-- The first test of `while(!stopLoop_)`. -/
  | test
  /-- `loop` iterates, or has ended if its phase is `done`. -/
  | running
  /-- The thread has ended, and `lp` with it. -/
  | returned
  deriving DecidableEq, Repr

structure EventLoopThread (T F : Type*) where
  stage : ThreadStage
  /-- The local variable of `threadFunc`. -/
  lp : EventLoop T F
  /-- The threads to which `startLoop` has returned the loop. -/
  users : T → Bool
  exiting : Bool
  /-- The thread in `~EventLoopThread`. -/
  destroyer : Option T
  /-- `thread_.join()` has returned. -/
  joined : Bool

inductive ThreadAction (T F : Type*) where
  | construct
  | publish
  | enter
  | test
  | returns
  | startLoop (t : T)
  /-- A step of `loop`, or of a call of the loop. -/
  | lp (a : LoopAction T F)
  /-- `~EventLoopThread` up to the store of `stopLoop_`. -/
  | destroy (t : T)
  | join

namespace EventLoopThread

variable {T F : Type*} [DecidableEq T]

omit [DecidableEq T] in
/-- The constructor of `EventLoop`. -/
def construct : EventLoop T F where
  stopLoop := true
  callingPendingunctors := false
  wakeupFd := 0
  pendingFuncs := []
  phase := .poll
  funcs := []
  callers _ := .idle
  pushed := []
  executed := []
  rounds := 0

def init : EventLoopThread T F where
  stage := .construct
  lp := construct
  users _ := false
  exiting := false
  destroyer := none
  joined := false

omit [DecidableEq T] in
/-- `lp_` is not null. -/
def Published (s : EventLoopThread T F) : Prop := s.stage ≠ .construct ∧ s.stage ≠ .publish

omit [DecidableEq T] in
/-- `loop` has set `stopLoop_` to `false`. -/
def Entered (s : EventLoopThread T F) : Prop :=
  s.stage = .test ∨ s.stage = .running ∨ s.stage = .returned

instance (s : EventLoopThread T F) : Decidable s.Published := inferInstanceAs (Decidable (_ ∧ _))

instance (s : EventLoopThread T F) : Decidable s.Entered := inferInstanceAs (Decidable (_ ∨ _))

/-- The first test of the loop. -/
def test (s : EventLoopThread T F) : EventLoopThread T F :=
  { s with
    stage := .running
    lp := { s.lp with phase := if s.lp.stopLoop then .done else .poll } }

/-- A thread other than the loop's own calls a loop that it has got from `startLoop`. -/
def MayUse (tid : T) (s : EventLoopThread T F) (t : T) : Prop :=
  if t = tid then s.stage = .running else s.users t ∧ s.destroyer ≠ some t

/-- When a thread comes to an action. The wait in `startLoop` ends when the loop is published, and
`join` when the thread has ended. -/
def Pre (tid : T) (s : EventLoopThread T F) : ThreadAction T F → Prop
  | .construct => s.stage = .construct
  | .publish => s.stage = .publish
  | .enter => s.stage = .enter
  | .test => s.stage = .test
  | .returns => s.stage = .running ∧ s.lp.phase = .done ∧ s.lp.callers tid = .idle
  | .startLoop t => t ≠ tid ∧ s.Published ∧ s.lp.callers t = .idle ∧ s.destroyer = none
  | .lp a => (eventLoop tid).pre s.lp a ∧
      match a with
      | .queueInLoop t _ | .runInLoop t _ | .stopLoop t => s.MayUse tid t
      | .handleWakeup | .loop => s.stage = .running
      | .wakeup _ => True
  | .destroy t => t ≠ tid ∧ s.lp.callers t = .idle ∧ s.destroyer = none
  | .join => (∃ t ∈ s.destroyer, s.lp.callers t = .idle) ∧ s.stage = .returned ∧ s.joined = false

/-- A call of a loop that is gone fails, and so does one through `lp_` while it is null. A `wakeup`
that comes too late does not: the write fails and goes unnoticed. -/
def exec (tid : T) (s : EventLoopThread T F) :
    ThreadAction T F → Option (EventLoopThread T F × Unit)
  | .construct => some ({ s with stage := .publish, lp := construct }, ())
  | .publish => some ({ s with stage := .enter }, ())
  | .enter => some ({ s with stage := .test, lp := { s.lp with stopLoop := false } }, ())
  | .test => some (s.test, ())
  | .returns => some ({ s with stage := .returned }, ())
  | .startLoop t => some ({ s with users := Function.update s.users t true }, ())
  | .lp (.wakeup t) => some ({ s with lp := s.lp.wakeup t }, ())
  | .lp a =>
    if s.stage = .returned then none
    else ((eventLoop tid).exec s.lp a).map fun r => ({ s with lp := r.1 }, r.2)
  | .destroy t =>
    if s.Published ∧ s.stage ≠ .returned then
      some ({ s with exiting := true, destroyer := some t, lp := s.lp.stop tid t }, ())
    else none
  | .join => some ({ s with joined := true }, ())

end EventLoopThread

/-- The thread of a loop, the threads that call the loop and the one that destroys both. -/
def eventLoopThread {T F : Type*} [DecidableEq T] (tid : T) :
    Program (EventLoopThread T F) (ThreadAction T F) Unit where
  pre := EventLoopThread.Pre tid
  exec := EventLoopThread.exec tid

/-! ## A loop that is to stop -/

namespace LoopAction
variable {T F : Type*}

/-- A step of `loop` itself. -/
def iterates : LoopAction T F → Nat
  | .loop => 1
  | _ => 0

/-- A call that may queue a functor. -/
def pushes : LoopAction T F → Nat
  | .queueInLoop _ _ | .runInLoop _ _ => 1
  | _ => 0

/-- The thread that makes a call. -/
def caller : LoopAction T F → Option T
  | .queueInLoop t _ | .runInLoop t _ | .stopLoop t | .wakeup t => some t
  | .handleWakeup | .loop => none

end LoopAction

namespace EventLoop
variable {T F : Type*} [DecidableEq T] {tid : T} {l l' : EventLoop T F}

omit [DecidableEq T] in
/-- The steps of `loop` up to its end, when `stopLoop_` is set and nothing more is queued. -/
def stepsLeft (l : EventLoop T F) : Nat :=
  match l.phase with
  | .poll => 2 * l.pendingFuncs.length + 4
  | .events => 2 * l.pendingFuncs.length + 3
  | .swap => 2 * l.pendingFuncs.length + 2
  | .calling => 2 * l.funcs.length + 1
  | .functor => 2 * l.funcs.length + 2
  | .done => 0

/-- What any step does when `stopLoop_` is set. -/
structure Winds (l : EventLoop T F) (a : LoopAction T F) (l' : EventLoop T F) : Prop where
  stopLoop : l'.stopLoop = true
  poll : l'.phase = .poll → l.phase = .poll ∧ l.wakeupFd ≤ l'.wakeupFd
  rounds : l'.rounds = l.rounds ∨ l'.rounds = l.rounds + 1 ∧ l'.phase = .done
  done : l.phase = .done → l'.phase = .done ∧ l'.rounds = l.rounds
  stepsLeft : l'.stepsLeft + a.iterates ≤ l.stepsLeft + 2 * a.pushes

omit [DecidableEq T] in
/-- A step that leaves the position in `loop` alone. -/
theorem Winds.of_phase {a : LoopAction T F} (hstop : l'.stopLoop = true)
    (hphase : l'.phase = l.phase) (hrounds : l'.rounds = l.rounds) (hfuncs : l'.funcs = l.funcs)
    (hpending : l'.pendingFuncs.length ≤ l.pendingFuncs.length + a.pushes)
    (hwakeup : l.phase = .poll → l.wakeupFd ≤ l'.wakeupFd) (hiterates : a.iterates = 0) :
    l.Winds a l' := by
  refine ⟨hstop, fun hpoll => ?_, .inl hrounds, fun hdone => ⟨hphase.trans hdone, hrounds⟩, ?_⟩
  · have hold := hphase.symm.trans hpoll
    exact ⟨hold, hwakeup hold⟩
  · simp only [EventLoop.stepsLeft, hphase, hfuncs, hiterates]
    split <;> omega

omit [DecidableEq T] in
theorem callNext_winds (hstop : l.stopLoop = true) (hphase : l.phase = .calling) :
    l.Winds .loop l.callNext := by
  have hdone {p : Prop} (hdone : l.phase = .done) : p := by
    rw [hphase] at hdone
    cases hdone
  cases hfuncs : l.funcs with
  | nil =>
    have hnext : l.callNext = { l with
        callingPendingunctors := false, rounds := l.rounds + 1, phase := .done } := by
      simp [callNext, hfuncs, hstop]
    rw [hnext]
    refine ⟨hstop, by simp, .inr ⟨rfl, rfl⟩, hdone, ?_⟩
    simp [stepsLeft, hphase, hfuncs, LoopAction.iterates]
  | cons f fs =>
    have hnext : l.callNext = { l with
        funcs := fs, executed := l.executed ++ [f], phase := .functor } := by
      simp [callNext, hfuncs]
    rw [hnext]
    refine ⟨hstop, by simp, .inl rfl, hdone, ?_⟩
    simp only [stepsLeft, hphase, hfuncs, LoopAction.iterates, List.length_cons]
    omega

omit [DecidableEq T] in
theorem loop_winds (hstop : l.stopLoop = true) (hphase : l.phase ≠ .done) :
    l.Winds .loop l.loop := by
  rw [loop]
  cases h : l.phase with
  | poll | events | swap | functor =>
    refine ⟨hstop, by simp [h], .inl rfl, fun hdone => absurd hdone hphase, ?_⟩
    simp only [stepsLeft, h, LoopAction.iterates]
    omega
  | calling => exact callNext_winds hstop h
  | done => exact absurd h hphase

theorem step_winds {a : LoopAction T F} {o : Unit} (hstop : l.stopLoop = true)
    (hpre : (eventLoop tid).pre l a) (hexec : (eventLoop tid).exec l a = some (l', o)) :
    l.Winds a l' := by
  cases a with
  | queueInLoop t f =>
    cases hexec
    refine .of_phase hstop rfl rfl rfl ?_ (fun _ => Nat.le_refl _) rfl
    simp [queueInLoop, LoopAction.pushes]
  | runInLoop t f =>
    cases hexec
    rw [runInLoop]
    split
    · exact .of_phase hstop rfl rfl rfl (Nat.le_add_right _ _) (fun _ => Nat.le_refl _) rfl
    · refine .of_phase hstop rfl rfl rfl ?_ (fun _ => Nat.le_refl _) rfl
      simp [queueInLoop, LoopAction.pushes]
  | stopLoop t =>
    cases hexec
    exact .of_phase rfl rfl rfl rfl (Nat.le_add_right _ _) (fun _ => Nat.le_refl _) rfl
  | wakeup t =>
    cases hexec
    refine .of_phase hstop rfl rfl rfl (Nat.le_add_right _ _) (fun _ => ?_) rfl
    simp only [wakeup]
    split <;> omega
  | handleWakeup =>
    cases hexec
    refine .of_phase hstop rfl rfl rfl (Nat.le_add_right _ _) (fun hpoll => ?_) rfl
    cases hpoll.symm.trans hpre.1
  | loop =>
    cases hexec
    exact loop_winds hstop hpre.1

omit [DecidableEq T] in
theorem loop_callers (l : EventLoop T F) : l.loop.callers = l.callers := by
  rw [loop]
  split
  · rfl
  · rfl
  · rfl
  · rw [callNext]
    split <;> rfl
  · rfl
  · rfl

theorem stop_callers {t t' : T} (hne : t' ≠ t) : (l.stop tid t').callers t = l.callers t := by
  simp only [stop]
  split
  · exact Function.update_of_ne hne.symm _ _
  · rfl

theorem stop_callers_self {t : T} (hne : t ≠ tid) : (l.stop tid t).callers t = .stopped := by
  simp [stop, hne]

/-- A call leaves the other threads where they are. -/
theorem callers_step {a : LoopAction T F} {o : Unit} {t : T} (hne : a.caller ≠ some t)
    (hexec : (eventLoop tid).exec l a = some (l', o)) : l'.callers t = l.callers t := by
  have hother {t' : T} (hne : some t' ≠ some t) (c : LoopCaller) :
      Function.update l.callers t' c t = l.callers t :=
    Function.update_of_ne (fun heq => hne (congrArg some heq.symm)) _ _
  have hqueue {t' : T} (hne : some t' ≠ some t) (f : F) :
      (l.queueInLoop tid t' f).callers t = l.callers t := by
    simp only [queueInLoop]
    split
    · exact hother hne _
    · rfl
  cases a with
  | queueInLoop t' f =>
    cases hexec
    exact hqueue hne f
  | runInLoop t' f =>
    cases hexec
    rw [runInLoop]
    split
    · rfl
    · exact hqueue hne f
  | stopLoop t' =>
    cases hexec
    exact stop_callers fun heq => hne (congrArg some heq)
  | wakeup t' =>
    cases hexec
    exact hother hne _
  | handleWakeup =>
    cases hexec
    rfl
  | loop =>
    cases hexec
    rw [loop_callers]

/-- Who has set `stopLoop_` next calls `wakeup`. -/
theorem stopped_step {a : LoopAction T F} {o : Unit} {t : T} (h : l.callers t = .stopped)
    (hpre : (eventLoop tid).pre l a) (hexec : (eventLoop tid).exec l a = some (l', o)) :
    l'.callers t = .stopped ∨ a = .wakeup t := by
  by_cases hcaller : a.caller = some t
  · have hbusy : l.callers t ≠ .idle := by
      rw [h]
      nofun
    cases a with
    | queueInLoop t' f | runInLoop t' f | stopLoop t' =>
      cases hcaller
      exact absurd hpre.1 hbusy
    | wakeup t' =>
      cases hcaller
      exact .inr rfl
    | handleWakeup | loop => cases hcaller
  · exact .inl ((callers_step hcaller hexec).trans h)

end EventLoop

namespace ThreadAction
variable {T F : Type*}

/-- The call of `stopLoop` that the action makes. -/
def stops : ThreadAction T F → Option T
  | .lp (.stopLoop t) | .destroy t => some t
  | _ => none

/-- A step of the thread itself. -/
def ownSteps : ThreadAction T F → Nat
  | .test | .returns => 1
  | .lp a => a.iterates
  | _ => 0

def pushes : ThreadAction T F → Nat
  | .lp a => a.pushes
  | _ => 0

end ThreadAction

namespace EventLoopThread
variable {T F : Type*} [DecidableEq T] {tid t : T} {s s' s₁ : EventLoopThread T F}

omit [DecidableEq T] in
/-- The steps of the thread up to its end, when `stopLoop_` is set for good. -/
def stepsLeft (s : EventLoopThread T F) : Nat :=
  match s.stage with
  | .construct | .publish | .enter | .returned => 0
  | .test => 2
  | .running => s.lp.stepsLeft + 1

/-- The thread is leaving `loop` since `s`: it completes one more iteration at most and is then
behind the loop, `poll` does not block it, and its own steps, two for every functor that is still
queued and a number that is fixed, bring it to its end. -/
structure Leaving (tid : T) (s s' : EventLoopThread T F) : Prop where
  rounds : s'.lp.rounds ≤ s.lp.rounds + 1
  left : s.lp.rounds < s'.lp.rounds → s'.lp.phase = .done
  awake : s'.stage = .running → s'.lp.phase = .poll → 0 < s'.lp.wakeupFd
  returns : ∀ {acts os s''}, (eventLoopThread tid).Admissible s' acts →
    (eventLoopThread tid).run s' acts = some (s'', os) →
    s'.stepsLeft + (acts.map (2 * ThreadAction.pushes ·)).sum ≤
      (acts.map ThreadAction.ownSteps).sum → s''.stage = .returned

/-- The call of `stopLoop` that the thread `t` is making will be heeded: when it has returned, the
loop is left. -/
def Heeds (tid : T) (s : EventLoopThread T F) (t : T) : Prop :=
  ∀ s₁, (eventLoopThread tid).Reachable s s₁ → s₁.lp.callers t = .idle →
    ∀ s', (eventLoopThread tid).Reachable s₁ s' → s₁.Leaving tid s'

omit [DecidableEq T] in
/-- `stopLoop_` has been set since the entry of `loop`. -/
structure Halting (s : EventLoopThread T F) : Prop where
  entered : s.Entered
  stopLoop : s.lp.stopLoop = true

/-- What any step does then. -/
structure Ends (s : EventLoopThread T F) (a : ThreadAction T F) (s' : EventLoopThread T F) :
    Prop where
  halting : s'.Halting
  poll : s'.stage = .running → s'.lp.phase = .poll →
    s.stage = .running ∧ s.lp.phase = .poll ∧ s.lp.wakeupFd ≤ s'.lp.wakeupFd
  rounds : s'.lp.rounds = s.lp.rounds ∨ s'.lp.rounds = s.lp.rounds + 1 ∧ s'.lp.phase = .done
  done : s.lp.phase = .done → s'.lp.phase = .done ∧ s'.lp.rounds = s.lp.rounds
  stepsLeft : s'.stepsLeft + a.ownSteps ≤ s.stepsLeft + 2 * a.pushes

omit [DecidableEq T] in
theorem Entered.ne (h : s.Entered) :
    s.stage ≠ .construct ∧ s.stage ≠ .publish ∧ s.stage ≠ .enter := by
  rcases h with h | h | h <;> rw [h] <;> decide

omit [DecidableEq T] in
/-- A step on the loop. -/
theorem Halting.ends {a : ThreadAction T F} {b : LoopAction T F} (h : s.Halting)
    (hstage : s'.stage = s.stage) (hwinds : s.lp.Winds b s'.lp)
    (hown : a.ownSteps = b.iterates) (hpushes : a.pushes = b.pushes)
    (hrunning : b.iterates = 0 ∨ s.stage = .running) : s.Ends a s' := by
  have hentered : s'.Entered := by
    rw [Entered, hstage]
    exact h.entered
  refine ⟨⟨hentered, hwinds.stopLoop⟩, fun hrun hpoll => ?_, hwinds.rounds, hwinds.done, ?_⟩
  · exact ⟨hstage.symm.trans hrun, hwinds.poll hpoll⟩
  · have hsteps := hwinds.stepsLeft
    simp only [EventLoopThread.stepsLeft, hstage, hown, hpushes]
    rcases hrunning with hzero | hrun
    · split <;> omega
    · simp only [hrun]
      omega

theorem exec_lp {a : LoopAction T F} {o : Unit}
    (hexec : (eventLoopThread tid).exec s (.lp a) = some (s', o)) :
    ∃ l', (eventLoop tid).exec s.lp a = some (l', o) ∧ s' = { s with lp := l' } := by
  cases a with
  | wakeup t =>
    cases hexec
    exact ⟨_, rfl, rfl⟩
  | _ =>
    simp only [eventLoopThread, exec] at hexec
    split at hexec
    · cases hexec
    · obtain ⟨r, hr, heq⟩ := Option.map_eq_some_iff.mp hexec
      cases heq
      exact ⟨_, hr, rfl⟩

theorem Halting.step {a : ThreadAction T F} {o : Unit} (h : s.Halting)
    (hpre : (eventLoopThread tid).pre s a) (hexec : (eventLoopThread tid).exec s a = some (s', o)) :
    s.Ends a s' := by
  obtain ⟨hconstruct, hpublish, henter⟩ := h.entered.ne
  have hrefl : s.lp.Winds .handleWakeup s.lp :=
    .of_phase h.stopLoop rfl rfl rfl (Nat.le_add_right _ _) (fun _ => Nat.le_refl _) rfl
  cases a with
  | construct => exact absurd hpre hconstruct
  | publish => exact absurd hpre hpublish
  | enter => exact absurd hpre henter
  | test =>
    cases hexec
    have hdone : s.test.lp.phase = .done := by simp [EventLoopThread.test, h.stopLoop]
    refine ⟨⟨.inr (.inl rfl), h.stopLoop⟩, fun _ hpoll => ?_, .inl rfl, fun _ => ⟨hdone, rfl⟩, ?_⟩
    · cases hdone.symm.trans hpoll
    · have hstage : s.stage = .test := hpre
      simp [EventLoopThread.stepsLeft, EventLoopThread.test, EventLoop.stepsLeft, h.stopLoop,
        hstage, ThreadAction.ownSteps]
  | returns =>
    cases hexec
    refine ⟨⟨.inr (.inr rfl), h.stopLoop⟩, nofun, .inl rfl, fun hdone => ⟨hdone, rfl⟩, ?_⟩
    simp only [EventLoopThread.stepsLeft, hpre.1, ThreadAction.ownSteps]
    omega
  | startLoop t | join =>
    cases hexec
    exact h.ends rfl hrefl rfl rfl (.inl rfl)
  | destroy t =>
    simp only [eventLoopThread, exec] at hexec
    split at hexec
    · cases hexec
      refine h.ends (b := .handleWakeup) rfl ?_ rfl rfl (.inl rfl)
      exact .of_phase rfl rfl rfl rfl (Nat.le_add_right _ _) (fun _ => Nat.le_refl _) rfl
    · cases hexec
  | lp b =>
    obtain ⟨l', hl, rfl⟩ := exec_lp hexec
    refine h.ends rfl (EventLoop.step_winds h.stopLoop hpre.1 hl) rfl rfl ?_
    cases b with
    | loop => exact .inr hpre.2
    | _ => exact .inl rfl

/-- `poll` does not block. -/
def Awake (s : EventLoopThread T F) : Prop :=
  s.stage = .running → s.lp.phase = .poll → 0 < s.lp.wakeupFd

/-- The call of `t` is on its way to the `wakeup`, or its `wakeup` has been written. -/
structure Halted (t : T) (s : EventLoopThread T F) : Prop extends s.Halting where
  awake : s.lp.callers t = .stopped ∨ s.Awake

omit [DecidableEq T] in
theorem Ends.awake {a : ThreadAction T F} (h : s.Ends a s') (hawake : s.Awake) : s'.Awake := by
  intro hrun hpoll
  obtain ⟨hrun', hpoll', hle⟩ := h.poll hrun hpoll
  exact Nat.lt_of_lt_of_le (hawake hrun' hpoll') hle

theorem preserves_halted :
    (eventLoopThread tid : Program (EventLoopThread T F) _ _).Preserves (Halted t) := by
  intro s a s' o h hpre hexec
  have hends := h.toHalting.step hpre hexec
  refine ⟨hends.halting, ?_⟩
  rcases h.awake with hstopped | hawake
  · have hcases : s'.lp.callers t = .stopped ∨ a = .lp (.wakeup t) := by
      obtain ⟨hconstruct, -⟩ := h.entered.ne
      cases a with
      | construct => exact absurd hpre hconstruct
      | publish | enter | test | returns | startLoop | join =>
        cases hexec
        exact .inl hstopped
      | destroy t' =>
        simp only [eventLoopThread, exec] at hexec
        split at hexec
        · cases hexec
          left
          rw [EventLoop.stop_callers, hstopped]
          rintro rfl
          cases hstopped.symm.trans hpre.2.1
        · cases hexec
      | lp b =>
        obtain ⟨l', hl, rfl⟩ := exec_lp hexec
        exact (EventLoop.stopped_step hstopped hpre.1 hl).imp_right (congrArg _)
    rcases hcases with hstill | rfl
    · exact .inl hstill
    · cases hexec
      right
      intro _ _
      exact s.lp.wakeup_pos t
  · exact .inr (hends.awake hawake)

/-- The iterations since the state with `r` completed ones. -/
structure Finishing (r : Nat) (s : EventLoopThread T F) : Prop extends s.Halting where
  awake : s.Awake
  rounds : s.lp.rounds = r ∨ s.lp.rounds = r + 1 ∧ s.lp.phase = .done

theorem preserves_finishing {r : Nat} :
    (eventLoopThread tid : Program (EventLoopThread T F) _ _).Preserves (Finishing r) := by
  intro s a s' o h hpre hexec
  have hends := h.toHalting.step hpre hexec
  refine ⟨hends.halting, hends.awake h.awake, ?_⟩
  rcases h.rounds with hr | ⟨hr, hdone⟩
  · rw [← hr]
    exact hends.rounds
  · obtain ⟨hdone', hsame⟩ := hends.done hdone
    exact .inr ⟨hsame.trans hr, hdone'⟩

theorem Finishing.leaving (h : s'.Finishing s.lp.rounds) : s.Leaving tid s' where
  rounds := by
    rcases h.rounds with hr | ⟨hr, -⟩ <;> omega
  left hlt := by
    rcases h.rounds with hr | ⟨-, hdone⟩
    · omega
    · exact hdone
  awake := h.awake
  returns {acts os s''} hadm hrun hsteps := by
    have hkeeps : (eventLoopThread tid : Program (EventLoopThread T F) _ _).Preserves Halting :=
      fun s a s' o hs hpre hexec => (hs.step hpre hexec).halting
    obtain ⟨hhalting, hmeasure⟩ := Program.run_measure hkeeps
      (fun s a s' o hs hpre hexec => (hs.step hpre hexec).stepsLeft) h.toHalting hadm hrun
    have hzero : s''.stepsLeft = 0 := by omega
    rw [EventLoopThread.stepsLeft] at hzero
    rcases hhalting.entered with hstage | hstage | hstage
    · simp [hstage] at hzero
    · simp [hstage] at hzero
    · exact hstage

/-- Who stops the loop has got it, or destroys it. -/
theorem stop_spec {a : ThreadAction T F} {o : Unit} (hstops : a.stops = some t)
    (hpre : (eventLoopThread tid).pre s a) (hexec : (eventLoopThread tid).exec s a = some (s₁, o)) :
    s₁.stage = s.stage ∧ s₁.lp = s.lp.stop tid t ∧ s.stage ≠ .returned ∧
      s.lp.MayCall tid t ∧ (t = tid → s.stage = .running) ∧
      (t ≠ tid → s.users t ∨ s.Published) := by
  cases a with
  | destroy t' =>
    cases hstops
    simp only [eventLoopThread, exec] at hexec
    split at hexec
    · next hlp =>
      cases hexec
      exact ⟨rfl, rfl, hlp.2, ⟨hpre.2.1, fun heq => absurd heq hpre.1⟩,
        fun heq => absurd heq hpre.1, fun _ => .inr hlp.1⟩
    · cases hexec
  | lp b =>
    cases b with
    | stopLoop t' =>
      cases hstops
      obtain ⟨hmay, huse⟩ := hpre
      simp only [eventLoopThread, exec] at hexec
      split at hexec
      · cases hexec
      · next hstage =>
        cases hexec
        refine ⟨rfl, rfl, hstage, hmay, fun heq => ?_, fun hne => ?_⟩
        · simp only [MayUse, if_pos heq] at huse
          exact huse
        · simp only [MayUse, if_neg hne] at huse
          exact .inl huse.1
    | _ => cases hstops
  | _ => cases hstops

/-- A stop after the entry. -/
theorem heeds_of_entered {a : ThreadAction T F} {o : Unit} (hstops : a.stops = some t)
    (hpre : (eventLoopThread tid).pre s a) (hexec : (eventLoopThread tid).exec s a = some (s₁, o))
    (hentered : s.Entered) : s₁.Heeds tid t := by
  obtain ⟨hstage, hlp, -, hmay, -⟩ := stop_spec hstops hpre hexec
  have hhalted : s₁.Halted t := by
    refine ⟨⟨?_, ?_⟩, ?_⟩
    · rw [Entered, hstage]
      exact hentered
    · rw [hlp]
      rfl
    · rw [Awake, hlp]
      rcases eq_or_ne t tid with heq | hne
      · right
        intro _ hpoll
        rcases hmay.2 heq with hevents | hfunctor
        · cases hevents.symm.trans hpoll
        · cases hfunctor.symm.trans hpoll
      · exact .inl (EventLoop.stop_callers_self hne)
  intro s₂ hreach hidle s₃ hreach'
  have hhalted₂ : s₂.Halted t := hreach.invariant preserves_halted hhalted
  have hawake : s₂.Awake := hhalted₂.awake.resolve_left fun hstopped => by
    cases hstopped.symm.trans hidle
  have hfinishing : s₃.Finishing s₂.lp.rounds :=
    hreach'.invariant preserves_finishing ⟨hhalted₂.toHalting, hawake, .inl rfl⟩
  exact hfinishing.leaving

/-! ## A stop before the entry -/

/-- What holds outside of `loop`. -/
structure Sound (tid : T) (s : EventLoopThread T F) : Prop where
  users : ∀ t, s.users t → s.Published
  idle : s.stage ≠ .running → s.lp.callers tid = .idle

theorem preserves_sound :
    (eventLoopThread tid : Program (EventLoopThread T F) _ _).Preserves (Sound tid) := by
  intro s a s' o h hpre hexec
  cases a with
  | construct =>
    cases hexec
    refine ⟨fun t ht => absurd hpre (h.users t ht).1, fun _ => rfl⟩
  | publish =>
    cases hexec
    have hstage : s.stage = .publish := hpre
    exact ⟨fun _ _ => ⟨nofun, nofun⟩, fun _ => h.idle (by rw [hstage]; nofun)⟩
  | enter =>
    cases hexec
    have hstage : s.stage = .enter := hpre
    exact ⟨fun _ _ => ⟨nofun, nofun⟩, fun _ => h.idle (by rw [hstage]; nofun)⟩
  | test =>
    cases hexec
    exact ⟨fun _ _ => ⟨nofun, nofun⟩, fun hne => absurd rfl hne⟩
  | returns =>
    cases hexec
    exact ⟨fun _ _ => ⟨nofun, nofun⟩, fun _ => hpre.2.2⟩
  | startLoop t =>
    cases hexec
    exact ⟨fun _ _ => hpre.2.1, h.idle⟩
  | join =>
    cases hexec
    exact ⟨h.users, h.idle⟩
  | destroy t =>
    simp only [eventLoopThread, exec] at hexec
    split at hexec
    · cases hexec
      exact ⟨h.users, fun hne => (EventLoop.stop_callers hpre.1).trans (h.idle hne)⟩
    · cases hexec
  | lp b =>
    obtain ⟨l', hl, rfl⟩ := exec_lp hexec
    refine ⟨h.users, fun hne => ?_⟩
    by_cases hcaller : b.caller = some tid
    · have hrunning (huse : s.MayUse tid tid) : s.stage = .running := by
        rwa [MayUse, if_pos rfl] at huse
      cases b with
      | queueInLoop t f | runInLoop t f | stopLoop t =>
        cases hcaller
        exact absurd (hrunning hpre.2) hne
      | wakeup t =>
        cases hcaller
        cases hl
        exact Function.update_self _ _ _
      | handleWakeup | loop => cases hcaller
    · exact (EventLoop.callers_step hcaller hl).trans (h.idle hne)

theorem sound_of_reachable (h : (eventLoopThread tid).Reachable (init : EventLoopThread T F) s) :
    s.Sound tid := by
  refine h.invariant preserves_sound ⟨fun t ht => ?_, fun _ => rfl⟩
  cases ht

/-- The loop iterates, and nothing stops it. -/
structure Looping (tid : T) (s : EventLoopThread T F) : Prop where
  stage : s.stage = .running
  stopLoop : s.lp.stopLoop = false
  idle : s.lp.callers tid = .idle

/-- The next step of `loop`. -/
theorem Looping.next (h : s.Looping tid) (hphase : s.lp.phase ≠ .done)
    (hstop : s.lp.loop.stopLoop = false) :
    (eventLoopThread tid).Reachable s { s with lp := s.lp.loop } ∧
      Looping tid { s with lp := s.lp.loop } := by
  have hexec :
      (eventLoopThread tid).exec s (.lp .loop) = some ({ s with lp := s.lp.loop }, ()) := by
    simp only [eventLoopThread, exec, h.stage]
    rfl
  refine ⟨.next .start (.lp .loop) ⟨⟨hphase, h.idle⟩, h.stage⟩ hexec, h.stage, hstop, ?_⟩
  change s.lp.loop.callers tid = _
  rw [EventLoop.loop_callers]
  exact h.idle

/-- The rest of the batch and the end of the iteration. -/
theorem Looping.batch (h : s.Looping tid) {funcs : List F} (hfuncs : s.lp.funcs = funcs)
    (hphase : s.lp.phase = .calling) :
    ∃ s', (eventLoopThread tid).Reachable s s' ∧ s'.Looping tid ∧ s'.lp.phase = .poll ∧
      s'.lp.rounds = s.lp.rounds + 1 := by
  induction funcs generalizing s with
  | nil =>
    have hloop : s.lp.loop = { s.lp with
        callingPendingunctors := false, rounds := s.lp.rounds + 1, phase := .poll } := by
      simp [EventLoop.loop, hphase, EventLoop.callNext, hfuncs, h.stopLoop]
    have hnext := h.next (by simp [hphase]) (by rw [hloop]; exact h.stopLoop)
    refine ⟨_, hnext.1, hnext.2, ?_, ?_⟩
    · rw [hloop]
    · rw [hloop]
  | cons f funcs ih =>
    have hloop : s.lp.loop = { s.lp with
        funcs := funcs, executed := s.lp.executed ++ [f], phase := .functor } := by
      simp [EventLoop.loop, hphase, EventLoop.callNext, hfuncs]
    obtain ⟨hreach₁, h₁⟩ := h.next (by simp [hphase]) (by rw [hloop]; exact h.stopLoop)
    rw [hloop] at hreach₁ h₁
    obtain ⟨hreach₂, h₂⟩ := h₁.next (fun h => by cases h) h.stopLoop
    obtain ⟨s', hreach, hs'⟩ := ih h₂ rfl rfl
    exact ⟨s', (hreach₁.trans hreach₂).trans hreach, hs'⟩

/-- A whole iteration. -/
theorem Looping.iteration (h : s.Looping tid) (hphase : s.lp.phase = .poll) :
    ∃ s', (eventLoopThread tid).Reachable s s' ∧ s'.Looping tid ∧ s'.lp.phase = .poll ∧
      s'.lp.rounds = s.lp.rounds + 1 := by
  have hloop : s.lp.loop = { s.lp with phase := .events } := by
    rw [EventLoop.loop, hphase]
  obtain ⟨hreach₁, h₁⟩ := h.next (by simp [hphase]) (by rw [hloop]; exact h.stopLoop)
  rw [hloop] at hreach₁ h₁
  obtain ⟨hreach₂, h₂⟩ := h₁.next (fun h => by cases h) h.stopLoop
  obtain ⟨hreach₃, h₃⟩ := h₂.next (fun h => by cases h) h.stopLoop
  obtain ⟨s', hreach, hs'⟩ := h₃.batch rfl rfl
  exact ⟨s', ((hreach₁.trans hreach₂).trans hreach₃).trans hreach, hs'⟩

/-- A stop before the entry is overwritten: when the call has returned, the loop can iterate for
ever. -/
theorem Heeds.entered {a : ThreadAction T F} {o : Unit}
    (h : (eventLoopThread tid).Reachable init s) (hstops : a.stops = some t)
    (hpre : (eventLoopThread tid).pre s a) (hexec : (eventLoopThread tid).exec s a = some (s₁, o))
    (hheeds : s₁.Heeds tid t) : s.Entered := by
  by_contra hentered
  have hsound := sound_of_reachable h
  obtain ⟨hstage, hlp, hreturned, hmay, hown, hpublished⟩ := stop_spec hstops hpre hexec
  have hne : t ≠ tid := fun heq => hentered (.inr (.inl (hown heq)))
  have henter : s.stage = .enter := by
    have hpub : s.Published := (hpublished hne).elim (hsound.users t) id
    cases hstage' : s.stage with
    | construct => exact absurd hstage' hpub.1
    | publish => exact absurd hstage' hpub.2
    | enter => rfl
    | test => exact absurd (.inl hstage') hentered
    | running => exact absurd (.inr (.inl hstage')) hentered
    | returned => exact absurd hstage' hreturned
  have h₁ : (eventLoopThread tid).Reachable init s₁ := h.next a hpre hexec
  have hstopped : s₁.lp.callers t ≠ .idle := by
    rw [hlp, EventLoop.stop_callers_self hne]
    nofun
  set s₂ : EventLoopThread T F := { s₁ with lp := s₁.lp.wakeup t }
  have hreturns : (eventLoopThread tid).Reachable s₁ s₂ :=
    .next .start (.lp (.wakeup t)) ⟨hstopped, trivial⟩ rfl
  have hidle₂ : s₂.lp.callers t = .idle := Function.update_self _ _ _
  set s₃ : EventLoopThread T F := { s₂ with stage := .test, lp := { s₂.lp with stopLoop := false } }
  have henters : (eventLoopThread tid).Reachable s₂ s₃ :=
    .next .start .enter (hstage.trans henter) rfl
  have hsound₃ := sound_of_reachable ((h₁.trans hreturns).trans henters)
  have htests : (eventLoopThread tid).Reachable s₃ s₃.test := .next .start .test rfl rfl
  have hlooping : s₃.test.Looping tid := ⟨rfl, rfl, hsound₃.idle nofun⟩
  obtain ⟨s₄, hreach₄, hlooping₄, hphase₄, hrounds₄⟩ := hlooping.iteration rfl
  obtain ⟨s₅, hreach₅, -, -, hrounds₅⟩ := hlooping₄.iteration hphase₄
  have hleaving := hheeds s₂ hreturns hidle₂ s₅
    (((henters.trans htests).trans hreach₄).trans hreach₅)
  have hle := hleaving.rounds
  have hsame : s₃.test.lp.rounds = s₂.lp.rounds := rfl
  omega

/-- **When a stop is heeded.** After a call of `stopLoop`, direct or in `~EventLoopThread`, has
returned, the thread leaves its loop within one more iteration and ends, if and only if the loop had
been entered when the call set `stopLoop_`. -/
theorem stop_heeded_iff {a : ThreadAction T F} {o : Unit}
    (h : (eventLoopThread tid).Reachable init s) (hstops : a.stops = some t)
    (hpre : (eventLoopThread tid).pre s a)
    (hexec : (eventLoopThread tid).exec s a = some (s₁, o)) : s₁.Heeds tid t ↔ s.Entered :=
  ⟨fun hheeds => hheeds.entered h hstops hpre hexec, heeds_of_entered hstops hpre hexec⟩

/-- The loop of the thread `false` is stopped by the thread `true` when it has been entered. -/
theorem stop_heeded_running : ∃ s s₁ : EventLoopThread Bool Unit,
    (eventLoopThread false).Reachable init s ∧
      (eventLoopThread false).exec s (.lp (.stopLoop true)) = some (s₁, ()) ∧
      (s₁.Heeds false true ↔ s.Entered) ∧ s.Entered := by
  have h₀ : (eventLoopThread false).Reachable (init : EventLoopThread Bool Unit) _ := .start
  have h₁ := (h₀.next .construct rfl rfl).next .publish rfl rfl
  have h₂ := h₁.next (.startLoop true) ⟨by decide, ⟨nofun, nofun⟩, rfl, rfl⟩ rfl
  have h₃ := h₂.next .enter rfl rfl
  have h₄ := h₃.next .test rfl rfl
  have hiff := stop_heeded_iff (a := .lp (.stopLoop true)) h₄ rfl ⟨⟨rfl, nofun⟩, rfl, nofun⟩ rfl
  exact ⟨_, _, h₄, rfl, hiff, .inr (.inl rfl)⟩

/-- `~EventLoopThread` comes before the entry: its `wakeup` ends the first `poll`, and in the second
the loop waits for ever, and `join` for the loop. -/
theorem stop_lost : ∃ s s' : EventLoopThread Bool Unit,
    (eventLoopThread false).Reachable init s ∧
      s.destroyer = some true ∧ s.lp.callers true = .idle ∧
      (eventLoopThread false).Reachable s s' ∧ s'.lp.rounds = s.lp.rounds + 1 ∧
      s'.stage = .running ∧ s'.lp.phase = .poll ∧ s'.lp.stopLoop = false ∧ s'.lp.wakeupFd = 0 ∧
      s'.lp.pendingFuncs = [] ∧ s'.lp.callers = fun _ => .idle := by
  have h₀ : (eventLoopThread false).Reachable (init : EventLoopThread Bool Unit) _ := .start
  have h₁ := (h₀.next .construct rfl rfl).next .publish rfl rfl
  have h₂ := h₁.next (.startLoop true) ⟨by decide, ⟨nofun, nofun⟩, rfl, rfl⟩ rfl
  have h₃ := h₂.next (.destroy true) ⟨by decide, rfl, rfl⟩ rfl
  have h₄ := h₃.next (.lp (.wakeup true)) ⟨nofun, trivial⟩ rfl
  have h₅ := (h₄.restart.next .enter rfl rfl).next .test rfl rfl
  have h₆ := (h₅.next (.lp .loop) ⟨⟨nofun, rfl⟩, rfl⟩ rfl).next
    (.lp .handleWakeup) ⟨⟨rfl, rfl⟩, rfl⟩ rfl
  have h₇ := (h₆.next (.lp .loop) ⟨⟨nofun, rfl⟩, rfl⟩ rfl).next (.lp .loop) ⟨⟨nofun, rfl⟩, rfl⟩ rfl
  have h₈ := h₇.next (.lp .loop) ⟨⟨nofun, rfl⟩, rfl⟩ rfl
  refine ⟨_, _, h₄, rfl, rfl, h₈, rfl, rfl, rfl, rfl, rfl, rfl, ?_⟩
  funext t
  cases t <;> rfl

end EventLoopThread
end Httpancake
