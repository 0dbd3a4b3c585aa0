import Httpancake.Lib.Program
import Mathlib.Algebra.Group.Nat.Defs
import Mathlib.Logic.Function.Basic
import Mathlib.Data.List.Basic

/-! # The event loop and its functors

`EventLoop` of `src/reactor/EventLoop.cpp`. The threads are those of a type `T`, of which `tid` runs
the loop; `queueInLoop` is two steps, the push under the mutex and the write of the eventfd. What
a callback or a functor does to its own loop is further steps of the thread `tid`.

* `EventLoop.Accounts`: what has been pushed is what has been executed, the rest of the batch and
  the queue; outside of the callbacks the queue is empty or a wake-up is on its way.
* `pending_funcs_run_in_order`: the results about every run. -/

namespace Httpancake

/-- The position of the loop's thread in `loop`. -/
inductive LoopPhase where
  | poll
  /-- The callbacks of `activeQueue_`. -/
  | events
  /-- In `doPendingFuncs_`, before the swap. -/
  | swap
  /-- Between two functors. -/
  | calling
  | functor
  /-- Behind the loop. -/
  | done
  deriving DecidableEq, Repr

/-- What a thread has left to do of a call from outside of the loop. -/
inductive LoopCaller where
  | idle
  /-- The functor is pushed, and `wakeup` is next. -/
  | queued
  /-- `stopLoop_` is set, and `wakeup` is next. -/
  | stopped
  deriving DecidableEq, Repr

structure EventLoop (T F : Type*) where
  stopLoop : Bool
  callingPendingunctors : Bool
  /-- The counter of the eventfd. -/
  wakeupFd : Nat
  pendingFuncs : List F
  phase : LoopPhase
  /-- The rest of the batch that `doPendingFuncs_` has taken. -/
  funcs : List F
  callers : T → LoopCaller
  /-- All functors that `queueInLoop` has accepted. -/
  pushed : List F
  /-- The functors that `doPendingFuncs_` has called. -/
  executed : List F
  /-- The number of completed iterations. -/
  rounds : Nat

inductive LoopAction (T F : Type*) where
  | queueInLoop (t : T) (f : F)
  | runInLoop (t : T) (f : F)
  | stopLoop (t : T)
  | wakeup (t : T)
  | handleWakeup
  | loop

/-- An eventfd holds at most `2 ^ 64 - 2`; a write that would pass it fails. -/
def eventfdMax : Nat := 2 ^ 64 - 2

namespace EventLoop

variable {T F : Type*} [DecidableEq T]

/-- The push, and the test whether `wakeup` is called. -/
def queueInLoop (tid : T) (s : EventLoop T F) (t : T) (f : F) : EventLoop T F :=
  { s with
    pendingFuncs := s.pendingFuncs ++ [f]
    pushed := s.pushed ++ [f]
    callers :=
      if t ≠ tid ∨ s.callingPendingunctors then Function.update s.callers t .queued
      else s.callers }

/-- On the loop's thread the functor is called. -/
def runInLoop (tid : T) (s : EventLoop T F) (t : T) (f : F) : EventLoop T F :=
  if t = tid then s else s.queueInLoop tid t f

def stop (tid : T) (s : EventLoop T F) (t : T) : EventLoop T F :=
  { s with
    stopLoop := true
    callers := if t ≠ tid then Function.update s.callers t .stopped else s.callers }

/-- `n < sizeof(one)` compares as unsigned, so that a failed write goes unnoticed. -/
def wakeup (s : EventLoop T F) (t : T) : EventLoop T F :=
  { s with
    wakeupFd := if s.wakeupFd < eventfdMax then s.wakeupFd + 1 else s.wakeupFd
    callers := Function.update s.callers t .idle }

omit [DecidableEq T] in
def handleWakeup (s : EventLoop T F) : EventLoop T F := { s with wakeupFd := 0 }

omit [DecidableEq T] in
/-- The call of the next functor of the batch, and behind the last one the end of the iteration. -/
def callNext (s : EventLoop T F) : EventLoop T F :=
  match s.funcs with
  | f :: fs => { s with funcs := fs, executed := s.executed ++ [f], phase := .functor }
  | [] =>
    { s with
      callingPendingunctors := false
      rounds := s.rounds + 1
      phase := if s.stopLoop then .done else .poll }

/-- The next step of `loop` and of `doPendingFuncs_`. -/
def loop (s : EventLoop T F) : EventLoop T F :=
  match s.phase with
  | .poll => { s with phase := .events }
  | .events => { s with callingPendingunctors := true, phase := .swap }
  | .swap => { s with funcs := s.pendingFuncs, pendingFuncs := s.funcs, phase := .calling }
  | .calling => s.callNext
  | .functor => { s with phase := .calling }
  | .done => s

/-- A thread calls when it has completed its last call, the loop's own thread from a callback or
a functor. -/
def MayCall (tid : T) (s : EventLoop T F) (t : T) : Prop :=
  s.callers t = .idle ∧ (t = tid → s.phase = .events ∨ s.phase = .functor)

/-- At the start of `loop`. -/
structure Starts (s : EventLoop T F) : Prop where
  stopLoop : s.stopLoop = false
  callingPendingunctors : s.callingPendingunctors = false
  pendingFuncs : s.pendingFuncs = []
  phase : s.phase = .poll
  funcs : s.funcs = []
  pushed : s.pushed = []
  executed : s.executed = []

end EventLoop

open EventLoop

/-- The loop of the thread `tid` and the calls of all threads. -/
def eventLoop {T F : Type*} [DecidableEq T] (tid : T) :
    Program (EventLoop T F) (LoopAction T F) Unit where
  pre s
    | .queueInLoop t _ | .runInLoop t _ | .stopLoop t => s.MayCall tid t
    | .wakeup t => s.callers t ≠ .idle
    | .handleWakeup => s.phase = .events ∧ s.callers tid = .idle
    | .loop => s.phase ≠ .done ∧ s.callers tid = .idle
  exec s
    | .queueInLoop t f => some (s.queueInLoop tid t f, ())
    | .runInLoop t f => some (s.runInLoop tid t f, ())
    | .stopLoop t => some (s.stop tid t, ())
    | .wakeup t => some (s.wakeup t, ())
    | .handleWakeup => some (s.handleWakeup, ())
    | .loop => some (s.loop, ())

namespace EventLoop

variable {T F : Type*} [DecidableEq T] {tid : T} {s s' : EventLoop T F}

/-- A wake-up is signalled or on its way. -/
def Awake (s : EventLoop T F) : Prop := 0 < s.wakeupFd ∨ ∃ t, s.callers t = .queued

/-- Nothing that was pushed is lost, and nothing waits without a wake-up. -/
structure Accounts (s : EventLoop T F) : Prop where
  pushed_eq : s.pushed = s.executed ++ s.funcs ++ s.pendingFuncs
  funcs_eq_nil : s.phase ≠ .calling → s.phase ≠ .functor → s.funcs = []
  calling_of_functor : s.phase = .calling ∨ s.phase = .functor ∨ s.phase = .swap →
    s.callingPendingunctors = true
  awake : s.phase ≠ .events → s.phase ≠ .swap → s.pendingFuncs ≠ [] → s.Awake

omit [DecidableEq T] in
theorem Starts.accounts (h : s.Starts) : s.Accounts where
  pushed_eq := by rw [h.pushed, h.executed, h.funcs, h.pendingFuncs]; rfl
  funcs_eq_nil _ _ := h.funcs
  calling_of_functor := by
    rw [h.phase]
    nofun
  awake _ _ hne := absurd h.pendingFuncs hne

theorem Accounts.queueInLoop (h : s.Accounts) {t : T} (hmay : s.MayCall tid t) (f : F) :
    (s.queueInLoop tid t f).Accounts where
  pushed_eq := by
    simp only [EventLoop.queueInLoop, h.pushed_eq, List.append_assoc]
  funcs_eq_nil := h.funcs_eq_nil
  calling_of_functor := h.calling_of_functor
  awake := by
    intro hevents _ _
    -- the loop's own thread is in a functor here
    have hwakes : t ≠ tid ∨ s.callingPendingunctors := by
      rcases eq_or_ne t tid with ht | ht
      · have hfunctor : s.phase = .functor := (hmay.2 ht).resolve_left hevents
        exact .inr (h.calling_of_functor (.inr (.inl hfunctor)))
      · exact .inl ht
    refine .inr ⟨t, ?_⟩
    simp only [EventLoop.queueInLoop, if_pos hwakes, Function.update_self]

theorem Accounts.runInLoop (h : s.Accounts) {t : T} (hmay : s.MayCall tid t) (f : F) :
    (s.runInLoop tid t f).Accounts := by
  rw [EventLoop.runInLoop]
  split
  · exact h
  · exact h.queueInLoop hmay f

theorem Accounts.stop (h : s.Accounts) {t : T} (hmay : s.MayCall tid t) :
    (s.stop tid t).Accounts where
  pushed_eq := h.pushed_eq
  funcs_eq_nil := h.funcs_eq_nil
  calling_of_functor := h.calling_of_functor
  awake := by
    intro hevents hswap hne
    apply (h.awake hevents hswap hne).imp_right
    intro ⟨t', ht'⟩
    have hdiff : t' ≠ t := by
      intro heq
      rw [heq, hmay.1] at ht'
      cases ht'
    refine ⟨t', ?_⟩
    simp only [EventLoop.stop]
    split
    · rw [Function.update_of_ne hdiff]
      exact ht'
    · exact ht'

theorem wakeup_pos (s : EventLoop T F) (t : T) : 0 < (s.wakeup t).wakeupFd := by
  simp only [EventLoop.wakeup]
  split
  · exact Nat.succ_pos _
  · next hfull => exact Nat.lt_of_lt_of_le (by decide) (Nat.le_of_not_lt hfull)

theorem Accounts.wakeup (h : s.Accounts) (t : T) : (s.wakeup t).Accounts where
  pushed_eq := h.pushed_eq
  funcs_eq_nil := h.funcs_eq_nil
  calling_of_functor := h.calling_of_functor
  awake _ _ _ := .inl (s.wakeup_pos t)

omit [DecidableEq T] in
theorem Accounts.handleWakeup (h : s.Accounts) (hphase : s.phase = .events) :
    s.handleWakeup.Accounts where
  pushed_eq := h.pushed_eq
  funcs_eq_nil := h.funcs_eq_nil
  calling_of_functor := h.calling_of_functor
  awake hevents := absurd hphase hevents

omit [DecidableEq T] in
theorem Accounts.callNext (h : s.Accounts) (hphase : s.phase = .calling) :
    s.callNext.Accounts := by
  have hawake : s.pendingFuncs ≠ [] → s.Awake :=
    h.awake (by rw [hphase]; nofun) (by rw [hphase]; nofun)
  have hpushed := h.pushed_eq
  rw [EventLoop.callNext]
  split
  · next f fs hfuncs =>
    refine ⟨?_, fun _ hne => absurd rfl hne, fun _ => h.calling_of_functor (.inl hphase),
      fun _ _ => hawake⟩
    rw [hfuncs] at hpushed
    simp only [hpushed, List.append_assoc, List.cons_append, List.nil_append]
  · next hfuncs =>
    refine ⟨hpushed, fun _ _ => hfuncs, ?_, fun _ _ => hawake⟩
    simp only
    split <;> nofun

omit [DecidableEq T] in
theorem Accounts.loop (h : s.Accounts) : s.loop.Accounts := by
  have hsame : s.phase ≠ .events → s.phase ≠ .swap → s.pendingFuncs ≠ [] → s.Awake := h.awake
  rw [EventLoop.loop]
  cases hphase : s.phase with
  | poll =>
    rw [hphase] at hsame
    refine ⟨h.pushed_eq, fun _ _ => h.funcs_eq_nil ?_ ?_, nofun, fun hne => absurd rfl hne⟩
    · rw [hphase]; nofun
    · rw [hphase]; nofun
  | events =>
    refine ⟨h.pushed_eq, fun _ _ => h.funcs_eq_nil ?_ ?_, fun _ => rfl,
      fun _ hne => absurd rfl hne⟩
    · rw [hphase]; nofun
    · rw [hphase]; nofun
  | swap =>
    have hnil : s.funcs = [] := h.funcs_eq_nil (by rw [hphase]; nofun) (by rw [hphase]; nofun)
    refine ⟨?_, fun hne => absurd rfl hne, fun _ => h.calling_of_functor (.inr (.inr hphase)),
      fun _ _ hne => absurd hnil hne⟩
    rw [h.pushed_eq, hnil]
    simp only [List.append_nil]
  | calling =>
    exact h.callNext hphase
  | functor =>
    exact ⟨h.pushed_eq, fun hne => absurd rfl hne,
      fun _ => h.calling_of_functor (.inr (.inl hphase)),
      fun _ _ => hsame (by rw [hphase]; nofun) (by rw [hphase]; nofun)⟩
  | done => exact h

theorem preserves_accounts : (eventLoop tid : Program (EventLoop T F) _ _).Preserves Accounts := by
  intro s a s' o h hpre hexec
  cases a <;> cases hexec
  case queueInLoop t f => exact h.queueInLoop hpre f
  case runInLoop t f => exact h.runInLoop hpre f
  case stopLoop t => exact h.stop hpre
  case wakeup t => exact h.wakeup t
  case handleWakeup => exact h.handleWakeup hpre.1
  case loop => exact h.loop

/-! ## Later iterations -/

/-- The functors `p`, pushed before the end of the iteration `r`, have been called two iterations
later. -/
structure Drains (p : List F) (r : Nat) (s : EventLoop T F) : Prop where
  pushed : p <+: s.pushed
  taken : r < s.rounds → s.phase = .calling ∨ s.phase = .functor → p <+: s.executed ++ s.funcs
  executed : r + 1 < s.rounds → p <+: s.executed

variable {p : List F} {r : Nat}

omit [DecidableEq T] in
theorem Drains.callNext (h : s.Drains p r) (hphase : s.phase = .calling) :
    s.callNext.Drains p r := by
  have htaken := fun hr => h.taken hr (.inl hphase)
  rw [EventLoop.callNext]
  split
  · next f fs hfuncs =>
    refine ⟨h.pushed, fun hr _ => ?_, fun hr => (h.executed hr).trans (List.prefix_append _ _)⟩
    have hprefix := htaken hr
    rw [hfuncs] at hprefix
    simpa only [List.append_assoc, List.cons_append, List.nil_append] using hprefix
  · next hfuncs =>
    refine ⟨h.pushed, fun _ => ?_, fun hr => ?_⟩
    · simp only
      split <;> nofun
    · have hprefix := htaken (Nat.lt_of_succ_lt_succ hr)
      rwa [hfuncs, List.append_nil] at hprefix

omit [DecidableEq T] in
theorem Drains.loop (h : s.Drains p r) (haccounts : s.Accounts) : s.loop.Drains p r := by
  rw [EventLoop.loop]
  cases hphase : s.phase with
  | poll | events => exact ⟨h.pushed, fun _ => nofun, h.executed⟩
  | swap =>
    have hnil : s.funcs = [] :=
      haccounts.funcs_eq_nil (by rw [hphase]; nofun) (by rw [hphase]; nofun)
    refine ⟨h.pushed, fun _ _ => ?_, h.executed⟩
    have hprefix := h.pushed
    rwa [haccounts.pushed_eq, hnil, List.append_nil] at hprefix
  | calling => exact h.callNext hphase
  | functor => exact ⟨h.pushed, fun hr _ => h.taken hr (.inr hphase), h.executed⟩
  | done => exact h

theorem preserves_drains : (eventLoop tid : Program (EventLoop T F) _ _).Preserves
    fun s => s.Accounts ∧ s.Drains p r := by
  intro s a s' o ⟨haccounts, h⟩ hpre hexec
  refine ⟨preserves_accounts s a s' o haccounts hpre hexec, ?_⟩
  have hqueue (t : T) (f : F) : (s.queueInLoop tid t f).Drains p r :=
    ⟨h.pushed.trans (List.prefix_append _ _), h.taken, h.executed⟩
  cases a <;> cases hexec
  case queueInLoop t f => exact hqueue t f
  case runInLoop t f =>
    rw [EventLoop.runInLoop]
    split
    · exact h
    · exact hqueue t f
  case stopLoop t => exact ⟨h.pushed, h.taken, h.executed⟩
  case wakeup t => exact ⟨h.pushed, h.taken, h.executed⟩
  case handleWakeup => exact ⟨h.pushed, h.taken, h.executed⟩
  case loop => exact h.loop haccounts

end EventLoop

/-- **Functors run once and in order, without a lost wake-up.** What has been executed is the
front of what has been pushed, the rest is in the batch and in the queue, and two iterations later
it has been executed too. In `poll` with functors in the queue, the eventfd is readable or a
thread that has pushed is about to write it. -/
theorem pending_funcs_run_in_order {T F : Type*} [DecidableEq T] {tid : T} {s₀ s : EventLoop T F}
    (hstart : s₀.Starts) (h : (eventLoop tid).Reachable s₀ s) :
    s.executed <+: s.pushed ∧
    s.pushed = s.executed ++ s.funcs ++ s.pendingFuncs ∧
    (s.phase = .poll → s.pendingFuncs ≠ [] →
      0 < s.wakeupFd ∨ ∃ t, s.callers t = .queued) ∧
    ∀ s', (eventLoop tid).Reachable s s' → s.rounds + 2 ≤ s'.rounds →
      s.pushed <+: s'.executed := by
  have haccounts := h.invariant preserves_accounts hstart.accounts
  have hpushed := haccounts.pushed_eq
  refine ⟨?_, hpushed, ?_, ?_⟩
  · rw [hpushed, List.append_assoc]
    exact List.prefix_append _ _
  · intro hphase
    exact haccounts.awake (by rw [hphase]; nofun) (by rw [hphase]; nofun)
  · intro s' h' hrounds
    have hdrains : s.Drains s.pushed s.rounds :=
      ⟨List.prefix_refl _, fun hr => absurd hr (Nat.lt_irrefl _),
        fun hr => absurd hr (Nat.not_lt.mpr (Nat.le_succ _))⟩
    exact (h'.invariant preserves_drains ⟨haccounts, hdrains⟩).2.executed hrounds

namespace EventLoop

/-- Two threads, of which `false` is about to run the loop. -/
def idleLoop : EventLoop Bool Nat where
  stopLoop := false
  callingPendingunctors := false
  wakeupFd := 0
  pendingFuncs := []
  phase := .poll
  funcs := []
  callers _ := .idle
  pushed := []
  executed := []
  rounds := 0

end EventLoop

/-- The functor 1 queues the functor 2. -/
theorem pending_funcs_run_nested : ∃ s, (eventLoop false).Reachable idleLoop s ∧
    s.phase = .poll ∧ s.executed = [1] ∧ s.pendingFuncs = [2] ∧
    (0 < s.wakeupFd ∨ ∃ t, s.callers t = .queued) := by
  have hpushed : (eventLoop false).Reachable idleLoop _ :=
    .next (.next .start (.queueInLoop true 1) ⟨rfl, nofun⟩ rfl) (.wakeup true) nofun rfl
  have htaken := ((hpushed.next .loop ⟨nofun, rfl⟩ rfl).next .handleWakeup ⟨rfl, rfl⟩ rfl).next
    .loop ⟨nofun, rfl⟩ rfl
  have hfunctor := (htaken.next .loop ⟨nofun, rfl⟩ rfl).next .loop ⟨nofun, rfl⟩ rfl
  have hnested := (hfunctor.next (.queueInLoop false 2) ⟨rfl, fun _ => .inr rfl⟩ rfl).next
    (.wakeup false) nofun rfl
  have hend := (hnested.next .loop ⟨nofun, rfl⟩ rfl).next .loop ⟨nofun, rfl⟩ rfl
  have hstart : idleLoop.Starts := ⟨rfl, rfl, rfl, rfl, rfl, rfl, rfl⟩
  exact ⟨_, hend, rfl, rfl, rfl, (pending_funcs_run_in_order hstart hend).2.2.1 rfl nofun⟩

end Httpancake
