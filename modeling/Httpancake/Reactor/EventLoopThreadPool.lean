import Httpancake.Reactor.EventLoopThread

/-! # Starting the loops of a pool

`EventLoopThreadPool` of `src/reactor/EventLoopThreadPool.cpp`. For every loop, `start` constructs
an `EventLoopThread` and waits in `startLoop`, on the mutex and the condition variable of that
thread, until `threadFunc` has published the loop; `getNextLoop` then hands the loops out in turn.

`thread_` stands before `mutex_` and `cond_`, so that `threadFunc` can come to these before they are
constructed (`EventLoopThreadPool.threadFunc_too_early`). Where it does not, no notification is lost
and nobody is blocked for ever, and `start` returns (`EventLoopThreadPool.start_returns`). -/

namespace Httpancake

/-- What `threadFunc` does next. -/
inductive ThreadFunc where
  /-- `EventLoop lp`. -/
  | construct
  /-- `lock_guard`. -/
  | lock
  /-- `lp_ = &lp`. -/
  | publish
  /-- `cond_.notify_one()`. -/
  | notify
  | unlock
  /-- `lp_->loop()`. -/
  | loop
deriving DecidableEq, Repr

/-- The members of `EventLoopThread` that are declared behind `thread_`. -/
inductive ThreadMember where
  | mutex | cond
deriving DecidableEq, Repr

/-- What `start` does next with a thread: the rest of the constructor, and `startLoop`. -/
inductive StartLoop where
  /-- The constructor of `mutex_`. -/
  | mutex
  /-- The constructor of `cond_`. -/
  | cond
  /-- `while(lp_ == nullptr)`, without the mutex. -/
  | test
  /-- `unique_lock`. -/
  | lock
  /-- The predicate of `cond_.wait`. -/
  | check
  /-- Inside `cond_.wait`, without the mutex. -/
  | blocked
  /-- Woken up; `cond_.wait` takes the mutex again. -/
  | wake
  | unlock
deriving DecidableEq, Repr

inductive MutexOwner where
  | threadFunc | startLoop
deriving DecidableEq, Repr

/-- An `EventLoopThread`, up to the loop. -/
structure PoolThread where
  stage : ThreadFunc
  /-- `lp_` is not null. -/
  lp : Bool
  mutex : Option MutexOwner
  uninitialised : List ThreadMember
deriving DecidableEq, Repr

inductive PoolStage where
  | idle
  /-- The head of the `for` loop of `start`. -/
  | forLoop
  /-- In the constructor or in `startLoop` of the last thread. -/
  | startLoop (p : StartLoop)
  /-- `start` has returned. -/
  | started
deriving DecidableEq, Repr

structure EventLoopThreadPool where
  threadNum : Int
  started : Bool
  /-- The size of `threads_`. -/
  count : Nat
  threads : Nat → PoolThread
  /-- The loops, by the positions of their threads. -/
  lpQueue : List Nat
  next : Nat
  stage : PoolStage

inductive PoolAction where
  | start
  | forLoop
  | startLoop
  /-- `cond_.wait` wakes up without a notification. -/
  | spurious
  | threadFunc (i : Nat)
  | getNextLoop
deriving DecidableEq, Repr

/-! ## One thread and the wait for it -/

/-- `threadFunc` holds the mutex. -/
def ThreadFunc.holds : ThreadFunc → Bool
  | .publish | .notify | .unlock => true
  | .construct | .lock | .loop => false

def ThreadFunc.published : ThreadFunc → Bool
  | .notify | .unlock | .loop => true
  | .construct | .lock | .publish => false

/-- The member that the next step of `threadFunc` needs. -/
def ThreadFunc.member : ThreadFunc → Option ThreadMember
  | .lock | .unlock => some .mutex
  | .notify => some .cond
  | .construct | .publish | .loop => none

/-- The steps of `threadFunc` up to the loop. -/
def ThreadFunc.stepsLeft : ThreadFunc → Nat
  | .construct => 5
  | .lock => 4
  | .publish => 3
  | .notify => 2
  | .unlock => 1
  | .loop => 0

/-- `startLoop` holds the mutex. -/
def StartLoop.holds : StartLoop → Bool
  | .check | .unlock => true
  | .mutex | .cond | .test | .lock | .blocked | .wake => false

/-- The members whose constructors are still to come. -/
def StartLoop.uninitialised : StartLoop → List ThreadMember
  | .mutex => [.mutex, .cond]
  | .cond => [.cond]
  | .test | .lock | .check | .blocked | .wake | .unlock => []

/-- The steps of the constructor and of `startLoop` up to its return, when `lp_` is `lp` and nobody
wakes up who is not notified. -/
def StartLoop.stepsLeft (lp : Bool) : StartLoop → Nat
  | .mutex => if lp then 3 else 10
  | .cond => if lp then 2 else 9
  | .test => if lp then 1 else 8
  | .lock => if lp then 4 else 7
  | .check => if lp then 3 else 6
  | .blocked => if lp then 4 else 5
  | .wake => if lp then 4 else 7
  | .unlock => 2

namespace PoolThread

/-- `thread_` has been constructed. -/
def fresh : PoolThread := ⟨.construct, false, none, [.mutex, .cond]⟩

def threadFunc (t : PoolThread) : PoolThread :=
  match t.stage with
  | .construct => { t with stage := .lock }
  | .lock => { t with stage := .publish, mutex := some .threadFunc }
  | .publish => { t with stage := .notify, lp := true }
  | .notify => { t with stage := .unlock }
  | .unlock => { t with stage := .loop, mutex := none }
  | .loop => t

/-- `notify_one` wakes up the one thread that may wait. -/
def notified (t : PoolThread) (p : StartLoop) : StartLoop :=
  if t.stage = .notify ∧ p = .blocked then .wake else p

/-- The next step of `threadFunc` does not need what is not constructed. -/
def InTime (t : PoolThread) : Prop := ∀ m ∈ t.stage.member, m ∉ t.uninitialised

instance (t : PoolThread) : Decidable t.InTime :=
  inferInstanceAs (Decidable (∀ m ∈ t.stage.member, m ∉ t.uninitialised))

/-- A step of the constructor or of `startLoop`; `none` is its return. -/
def startLoop (t : PoolThread) : StartLoop → PoolThread × Option StartLoop
  | .mutex => ({ t with mutex := none, uninitialised := [.cond] }, some .cond)
  | .cond => ({ t with uninitialised := [] }, some .test)
  | .test => (t, if t.lp then none else some .lock)
  | .lock | .wake => ({ t with mutex := some .startLoop }, some .check)
  | .check =>
    if t.lp then (t, some .unlock) else ({ t with mutex := none }, some .blocked)
  | .blocked => (t, some .blocked)
  | .unlock => ({ t with mutex := none }, some .test)

/-- `threadFunc` can go on. -/
def MayRun (t : PoolThread) : Prop := t.stage ≠ .loop ∧ (t.stage = .lock → t.mutex = none)

/-- `startLoop` can go on. -/
def MayStart (t : PoolThread) (p : StartLoop) : Prop :=
  p ≠ .blocked ∧ (p = .lock ∨ p = .wake → t.mutex = none)

instance (t : PoolThread) : Decidable t.MayRun := inferInstanceAs (Decidable (_ ∧ _))

instance (t : PoolThread) (p : StartLoop) : Decidable (t.MayStart p) :=
  inferInstanceAs (Decidable (_ ∧ (_ → _)))

/-- Who holds the mutex. -/
def owner (stage : ThreadFunc) (p : Option StartLoop) : Option MutexOwner :=
  if stage.holds then some .threadFunc
  else if p.any StartLoop.holds then some .startLoop else none

/-- A thread and the `startLoop` that waits for it, if one does. -/
structure Handover (t : PoolThread) (p : Option StartLoop) : Prop where
  lp : t.lp = t.stage.published
  mutex : t.mutex = owner t.stage p
  exclusive : t.stage.holds → p.any StartLoop.holds = false
  /-- Who is blocked will be notified. -/
  blocked : p = some .blocked → t.stage ≠ .unlock ∧ t.stage ≠ .loop
  unlock : p = some .unlock → t.lp
  uninitialised : t.uninitialised = (p.map StartLoop.uninitialised).getD []
  /-- `mutex_` is not locked before it is constructed. -/
  early : p = some .mutex → t.stage.holds = false

variable {t : PoolThread} {p : StartLoop} {p? : Option StartLoop}

theorem Handover.fresh : fresh.Handover (some .mutex) :=
  ⟨rfl, rfl, nofun, nofun, nofun, rfl, fun _ => rfl⟩

/-- Nobody holds a free mutex. -/
theorem Handover.free (h : t.Handover p?) (hmutex : t.mutex = none) :
    t.stage.holds = false ∧ p?.any StartLoop.holds = false := by
  have howner := h.mutex.symm.trans hmutex
  rw [owner] at howner
  split at howner
  · cases howner
  · next hholds =>
    split at howner
    · cases howner
    · next hstarts =>
      exact ⟨Bool.of_not_eq_true hholds, Bool.of_not_eq_true hstarts⟩

theorem owner_of_not_holds {stage : ThreadFunc} (hholds : stage.holds = false)
    (p? : Option StartLoop) :
    owner stage p? = if p?.any StartLoop.holds then some .startLoop else none := by
  rw [owner, hholds]
  rfl

theorem any_notified : (p?.map t.notified).any StartLoop.holds = p?.any StartLoop.holds := by
  cases p? with
  | none => rfl
  | some p =>
    simp only [Option.map_some, Option.any_some, notified]
    split
    · next hwake =>
      rw [hwake.2]
      rfl
    · rfl

theorem uninitialised_notified :
    (p?.map t.notified).map StartLoop.uninitialised = p?.map StartLoop.uninitialised := by
  cases p? with
  | none => rfl
  | some p =>
    simp only [Option.map_some, notified]
    split
    · next hwake =>
      rw [hwake.2]
      rfl
    · rfl

theorem notified_of_ne (hstage : t.stage ≠ .notify) : p?.map t.notified = p? := by
  have hid : t.notified = id := by
    funext p
    exact if_neg fun hwake => hstage hwake.1
  rw [hid, Option.map_id_fun, id]

theorem Handover.threadFunc (h : t.Handover p?) (hrun : t.MayRun) (htime : t.InTime) :
    t.threadFunc.Handover (p?.map t.notified) := by
  obtain ⟨stage, lp, mutex, uninitialised⟩ := t
  cases stage with
  | construct =>
    rw [notified_of_ne ThreadFunc.noConfusion]
    exact ⟨h.lp, h.mutex, nofun, fun _ => ⟨nofun, nofun⟩, h.unlock, h.uninitialised, fun _ => rfl⟩
  | lock =>
    rw [notified_of_ne ThreadFunc.noConfusion]
    refine ⟨h.lp, rfl, fun _ => (h.free (hrun.2 rfl)).2, fun _ => ⟨nofun, nofun⟩, h.unlock,
      h.uninitialised, fun hmutex => ?_⟩
    have hall := h.uninitialised
    rw [hmutex] at hall
    exact absurd (hall ▸ List.mem_cons_self) (htime .mutex rfl)
  | publish =>
    rw [notified_of_ne ThreadFunc.noConfusion]
    exact ⟨rfl, h.mutex, h.exclusive, fun _ => ⟨nofun, nofun⟩, fun _ => rfl, h.uninitialised,
      h.early⟩
  | notify =>
    refine ⟨h.lp, h.mutex, fun hholds => any_notified.trans (h.exclusive hholds),
      fun hblocked => ?_, fun _ => h.lp, ?_, fun hmutex => ?_⟩
    · -- `notify_one` has woken up who was blocked
      obtain ⟨p, -, hp⟩ := Option.map_eq_some_iff.mp hblocked
      rw [notified] at hp
      split at hp
      · cases hp
      · next hne => exact absurd ⟨rfl, hp⟩ hne
    · rw [uninitialised_notified]
      exact h.uninitialised
    · obtain ⟨p, hp, hnotified⟩ := Option.map_eq_some_iff.mp hmutex
      rw [notified] at hnotified
      split at hnotified
      · cases hnotified
      · exact h.early (hp.trans (congrArg some hnotified))
  | unlock =>
    rw [notified_of_ne ThreadFunc.noConfusion]
    have hstarts := h.exclusive rfl
    refine ⟨h.lp, ?_, nofun, fun hblocked => absurd rfl (h.blocked hblocked).1, h.unlock,
      h.uninitialised, fun _ => rfl⟩
    rw [threadFunc, owner_of_not_holds rfl, hstarts]
    rfl
  | loop => exact absurd rfl hrun.1

/-- A step of `startLoop` that does not return. -/
theorem Handover.startLoop {t' : PoolThread} {p' : StartLoop} (h : t.Handover (some p))
    (hstart : t.MayStart p) (hstep : t.startLoop p = (t', some p')) : t'.Handover (some p') := by
  have hown (hholds : p.holds = true) : t.stage.holds = false := by
    by_contra hthread
    have hfree := h.exclusive (Bool.of_not_eq_false hthread)
    rw [Option.any_some, hholds] at hfree
    cases hfree
  cases p with
  | mutex =>
    cases hstep
    exact ⟨h.lp, (owner_of_not_holds (h.early rfl) (some .cond)).symm, fun _ => rfl, nofun, nofun,
      rfl, nofun⟩
  | cond =>
    cases hstep
    exact ⟨h.lp, h.mutex, fun _ => rfl, nofun, nofun, rfl, nofun⟩
  | test =>
    rw [PoolThread.startLoop] at hstep
    split at hstep
    · cases hstep
    · cases hstep
      exact ⟨h.lp, h.mutex, fun _ => rfl, nofun, nofun, h.uninitialised, nofun⟩
  | lock | wake =>
    cases hstep
    have hfree := (h.free (hstart.2 (by simp))).1
    refine ⟨h.lp, ?_, fun hholds => absurd (hfree.symm.trans hholds) nofun, nofun, nofun,
      h.uninitialised, nofun⟩
    exact (owner_of_not_holds hfree (some .check)).symm
  | check =>
    have hholds := hown rfl
    rw [PoolThread.startLoop] at hstep
    split at hstep
    · next hlp =>
      cases hstep
      exact ⟨h.lp, h.mutex, fun hthread => absurd (hholds.symm.trans hthread) nofun, nofun,
        fun _ => hlp, h.uninitialised, nofun⟩
    · next hlp =>
      cases hstep
      have howner := owner_of_not_holds hholds (some .blocked)
      refine ⟨h.lp, howner.symm, fun _ => rfl, fun _ => ?_, nofun, h.uninitialised, nofun⟩
      -- the loop is not published, and nobody else holds the mutex
      have hstage := h.lp
      constructor
      · intro heq
        rw [heq] at hstage
        exact hlp hstage
      · intro heq
        rw [heq] at hstage
        exact hlp hstage
  | blocked => exact absurd rfl hstart.1
  | unlock =>
    cases hstep
    exact ⟨h.lp, (owner_of_not_holds (hown rfl) (some .test)).symm, fun _ => rfl, nofun, nofun,
      h.uninitialised, nofun⟩

/-- The return of `startLoop`. -/
theorem Handover.returns {t' : PoolThread} (h : t.Handover (some p))
    (hstep : t.startLoop p = (t', none)) : t' = t ∧ t.lp ∧ t.Handover none := by
  cases p with
  | test =>
    rw [PoolThread.startLoop] at hstep
    split at hstep
    · next hlp =>
      cases hstep
      exact ⟨rfl, hlp, h.lp, h.mutex, fun _ => rfl, nofun, nofun, h.uninitialised, nofun⟩
    · cases hstep
  | check =>
    rw [PoolThread.startLoop] at hstep
    split at hstep <;> cases hstep
  | mutex | cond | lock | wake | blocked | unlock => cases hstep

theorem Handover.spurious (h : t.Handover (some .blocked)) : t.Handover (some .wake) :=
  ⟨h.lp, h.mutex, fun _ => rfl, nofun, nofun, h.uninitialised, nofun⟩

theorem startLoop_lp (t : PoolThread) (p : StartLoop) : (t.startLoop p).1.lp = t.lp := by
  cases p with
  | check =>
    rw [startLoop]
    split <;> rfl
  | mutex | cond | test | lock | blocked | wake | unlock => rfl

theorem startLoop_stage (t : PoolThread) (p : StartLoop) : (t.startLoop p).1.stage = t.stage := by
  cases p with
  | check =>
    rw [startLoop]
    split <;> rfl
  | mutex | cond | test | lock | blocked | wake | unlock => rfl

/-- When the constructor is through, nothing comes too early. -/
theorem inTime_of_nil (h : t.uninitialised = []) : t.InTime := by
  intro m _
  rw [h]
  exact List.not_mem_nil

/-- **Nobody waits for ever.** -/
theorem Handover.progress (h : t.Handover (some p)) : t.MayStart p ∨ t.MayRun ∧ t.InTime := by
  by_cases hbuilt : p.uninitialised = []
  swap
  · -- nothing can keep the constructor from going on
    left
    cases p with
    | mutex | cond =>
      refine ⟨StartLoop.noConfusion, fun hlock => ?_⟩
      rcases hlock with hlock | hlock <;> cases hlock
    | test | lock | check | blocked | wake | unlock => exact absurd rfl hbuilt
  have htime : t.InTime := inTime_of_nil (h.uninitialised.trans hbuilt)
  by_cases hmutex : t.mutex = none
  · by_cases hblocked : p = .blocked
    · right
      exact ⟨⟨(h.blocked (congrArg some hblocked)).2, fun _ => hmutex⟩, htime⟩
    · exact .inl ⟨hblocked, fun _ => hmutex⟩
  · by_cases hstage : t.stage.holds
    · right
      refine ⟨?_, htime⟩
      constructor
      · intro heq
        rw [heq] at hstage
        cases hstage
      · intro heq
        rw [heq] at hstage
        cases hstage
    · left
      have howner := h.mutex
      rw [owner_of_not_holds (Bool.of_not_eq_true hstage)] at howner
      split at howner
      · next hholds =>
        constructor
        · intro heq
          rw [heq] at hholds
          cases hholds
        · intro heq
          rcases heq with heq | heq
          · rw [heq] at hholds
            cases hholds
          · rw [heq] at hholds
            cases hholds
      · exact absurd howner hmutex

/-! ### As an `EventLoopThread` -/

section
variable {T F : Type*} [DecidableEq T]

/-- The thread as `eventLoopThread` has it, when only `base` may have got the loop. -/
def toThread (t : PoolThread) (base : T) (got : Bool) : EventLoopThread T F :=
  { EventLoopThread.init with
    stage := match t.stage with
      | .construct => .construct
      | .lock | .publish => .publish
      | .notify | .unlock | .loop => .enter
    users := Function.update (fun _ => false) base got }

/-- The waits on the mutex and on the condition variable add nothing to what a thread of the pool
can do. -/
theorem Handover.reachable {tid base : T} {got : Bool} (h : t.Handover p?) (hne : base ≠ tid)
    (hgot : got → t.lp) :
    (eventLoopThread tid : Program (EventLoopThread T F) _ _).Reachable .init
      (t.toThread base got) := by
  have hinit : (eventLoopThread tid : Program (EventLoopThread T F) _ _).Reachable .init
      (PoolThread.fresh.toThread base false) := by
    have heq : (PoolThread.fresh.toThread base false : EventLoopThread T F) = .init := by
      simp [toThread, EventLoopThread.init, PoolThread.fresh]
    exact heq ▸ .start
  have hconstructed := hinit.next .construct rfl rfl
  have hpublished := hconstructed.next .publish rfl rfl
  obtain ⟨stage, lp, mutex, uninitialised⟩ := t
  have hlp : lp = stage.published := h.lp
  cases stage with
  | construct | lock | publish =>
    have hno : got = false := Bool.of_not_eq_true fun hyes => nomatch hlp.symm.trans (hgot hyes)
    subst hno
    first
    | exact hinit
    | exact hconstructed
  | notify | unlock | loop =>
    cases got with
    | false => exact hpublished
    | true =>
      have hgets := hpublished.next (.startLoop base) ⟨hne, ⟨nofun, nofun⟩, rfl, rfl⟩ rfl
      simp only [toThread, PoolThread.fresh, Function.update_idem] at hgets
      exact hgets

end

/-! ### The steps that are left -/

theorem threadFunc_stepsLeft (hrun : t.MayRun) :
    t.threadFunc.stage.stepsLeft + 1 = t.stage.stepsLeft := by
  obtain ⟨stage, lp, mutex, uninitialised⟩ := t
  cases stage with
  | loop => exact absurd rfl hrun.1
  | construct | lock | publish | notify | unlock => rfl

/-- What `threadFunc` does brings `startLoop` no further from its return. -/
theorem notified_stepsLeft (h : t.Handover (some p)) :
    (t.notified p).stepsLeft t.threadFunc.lp ≤ p.stepsLeft t.lp := by
  obtain ⟨stage, lp, mutex, uninitialised⟩ := t
  cases stage with
  | construct | lock | unlock | loop => exact Nat.le_refl _
  | publish =>
    change p.stepsLeft true ≤ p.stepsLeft lp
    cases p with
    | mutex | cond | test | lock | check | blocked | wake | unlock => cases lp <;> decide
  | notify =>
    have hlp : lp = true := h.lp
    subst hlp
    cases p with
    | mutex | cond | test | lock | check | blocked | wake | unlock => exact Nat.le_refl _

theorem startLoop_stepsLeft {t' : PoolThread} {p' : StartLoop} (h : t.Handover (some p))
    (hstart : t.MayStart p) (hstep : t.startLoop p = (t', some p')) :
    p'.stepsLeft t'.lp + 1 ≤ p.stepsLeft t.lp := by
  cases p with
  | mutex | cond =>
    cases hstep
    simp only [StartLoop.stepsLeft]
    split <;> omega
  | test =>
    rw [startLoop] at hstep
    split at hstep
    · cases hstep
    · next hlp =>
      cases hstep
      simp [StartLoop.stepsLeft, hlp]
  | lock | wake =>
    cases hstep
    simp only [StartLoop.stepsLeft]
    split <;> omega
  | check =>
    rw [startLoop] at hstep
    split at hstep
    · next hlp =>
      cases hstep
      simp [StartLoop.stepsLeft, hlp]
    · next hlp =>
      cases hstep
      simp [StartLoop.stepsLeft, hlp]
  | blocked => exact absurd rfl hstart.1
  | unlock =>
    cases hstep
    simp [StartLoop.stepsLeft, h.unlock rfl]

theorem returns_stepsLeft {t' : PoolThread} (hstep : t.startLoop p = (t', none)) :
    p.stepsLeft t.lp = 1 := by
  cases p with
  | test =>
    rw [startLoop] at hstep
    split at hstep
    · next hlp => exact if_pos hlp
    · cases hstep
  | check =>
    rw [startLoop] at hstep
    split at hstep <;> cases hstep
  | mutex | cond | lock | wake | blocked | unlock => cases hstep

theorem spurious_stepsLeft (lp : Bool) :
    StartLoop.wake.stepsLeft lp ≤ StartLoop.blocked.stepsLeft lp + 2 := by
  cases lp <;> decide

end PoolThread

/-! ## The pool -/

namespace EventLoopThreadPool

def init (threadNum : Int) : EventLoopThreadPool where
  threadNum := threadNum
  started := false
  count := 0
  threads _ := .fresh
  lpQueue := []
  next := 0
  stage := .idle

def setThread (s : EventLoopThreadPool) (i : Nat) (t : PoolThread) : EventLoopThreadPool :=
  { s with threads := Function.update s.threads i t }

/-- The second call ends the process. -/
def start (s : EventLoopThreadPool) : Option EventLoopThreadPool :=
  if s.started then none else some { s with started := true, stage := .forLoop }

/-- `i` is the size of `threads_`. -/
def forLoop (s : EventLoopThreadPool) : EventLoopThreadPool :=
  if s.count < s.threadNum then
    { s.setThread s.count .fresh with count := s.count + 1, stage := .startLoop .mutex }
  else { s with stage := .started }

/-- The rest of the constructor and `lpQueue_.push_back(threads_[i]->startLoop())`, step by
step. -/
def startLoop (s : EventLoopThreadPool) (p : StartLoop) : EventLoopThreadPool :=
  let i := s.count - 1
  match (s.threads i).startLoop p with
  | (t, some p) => { s.setThread i t with stage := .startLoop p }
  | (t, none) => { s.setThread i t with lpQueue := s.lpQueue ++ [i], stage := .forLoop }

/-- The `startLoop` that waits for the thread `i`. -/
def waiter (s : EventLoopThreadPool) (i : Nat) : Option StartLoop :=
  match s.stage with
  | .startLoop p => if i + 1 = s.count then some p else none
  | .idle | .forLoop | .started => none

def threadFunc (s : EventLoopThreadPool) (i : Nat) : EventLoopThreadPool :=
  let t := s.threads i
  { s.setThread i t.threadFunc with
    stage := ((s.waiter i).map fun p => .startLoop (t.notified p)).getD s.stage }

/-- Without loops the process ends. -/
def getNextLoop (s : EventLoopThreadPool) : Option (EventLoopThreadPool × Nat) := do
  let rLp ← s.lpQueue[s.next]?
  return ({ s with next := if s.next + 1 = s.lpQueue.length then 0 else s.next + 1 }, rLp)

/-- When a thread comes to an action. One thread calls the pool. -/
def Pre (s : EventLoopThreadPool) : PoolAction → Prop
  | .start | .getNextLoop => s.stage = .idle ∨ s.stage = .started
  | .forLoop => s.stage = .forLoop
  | .startLoop => ∃ p, s.stage = .startLoop p ∧ (s.threads (s.count - 1)).MayStart p
  | .spurious => s.stage = .startLoop .blocked
  | .threadFunc i => i < s.count ∧ (s.threads i).MayRun

instance (s : EventLoopThreadPool) (a : PoolAction) : Decidable (s.Pre a) :=
  match a with
  | .start | .getNextLoop => inferInstanceAs (Decidable (_ ∨ _))
  | .forLoop | .spurious => inferInstanceAs (Decidable (_ = _))
  | .threadFunc _ => inferInstanceAs (Decidable (_ ∧ _))
  | .startLoop =>
    match h : s.stage with
    | .startLoop p => decidable_of_iff ((s.threads (s.count - 1)).MayStart p) (by simp [Pre, h])
    | .idle | .forLoop | .started => isFalse (by simp [Pre, h])

/-- What is not constructed must not be used. -/
def exec (s : EventLoopThreadPool) : PoolAction → Option (EventLoopThreadPool × Option Nat)
  | .start => s.start.map (·, none)
  | .forLoop => some (s.forLoop, none)
  | .startLoop =>
    match s.stage with
    | .startLoop p => some (s.startLoop p, none)
    | .idle | .forLoop | .started => none
  | .spurious => some ({ s with stage := .startLoop .wake }, none)
  | .threadFunc i => if (s.threads i).InTime then some (s.threadFunc i, none) else none
  | .getNextLoop => s.getNextLoop.map fun (s', rLp) => (s', some rLp)

/-- A step that comes to no member before the constructor, and does not end the process. -/
def InOrder (s : EventLoopThreadPool) : PoolAction → Prop
  | .start => s.started = false
  | .getNextLoop => s.lpQueue ≠ []
  | .threadFunc i => (s.threads i).InTime
  | .forLoop | .startLoop | .spurious => True

instance (s : EventLoopThreadPool) (a : PoolAction) : Decidable (s.InOrder a) :=
  match a with
  | .start => inferInstanceAs (Decidable (_ = _))
  | .getNextLoop => inferInstanceAs (Decidable (_ ≠ _))
  | .threadFunc _ => inferInstanceAs (Decidable (PoolThread.InTime _))
  | .forLoop | .startLoop | .spurious => .isTrue trivial

end EventLoopThreadPool

/-- The thread that starts the pool and takes its loops, and the threads of the loops. -/
def eventLoopThreadPool : Program EventLoopThreadPool PoolAction (Option Nat) where
  pre := EventLoopThreadPool.Pre
  exec := EventLoopThreadPool.exec

instance (s : EventLoopThreadPool) (a : PoolAction) : Decidable (eventLoopThreadPool.pre s a) :=
  inferInstanceAs (Decidable (s.Pre a))

namespace PoolStage

/-- The threads that are constructed and whose loop is not in `lpQueue_` yet. -/
def waits : PoolStage → Nat
  | .startLoop _ => 1
  | .idle | .forLoop | .started => 0

/-- The steps of `start` before the next test of `i < threadNum_`, and that test. -/
def stepsLeft (lp : Bool) : PoolStage → Nat
  | .idle => 2
  | .forLoop => 1
  | .startLoop p => p.stepsLeft lp + 1
  | .started => 0

end PoolStage

namespace PoolAction

/-- A step of `start` or of a thread that it has constructed, other than a spurious wake-up. -/
def works : PoolAction → Nat
  | .start | .forLoop | .startLoop | .threadFunc _ => 1
  | .spurious | .getNextLoop => 0

def wakesUp : PoolAction → Nat
  | .spurious => 1
  | .start | .forLoop | .startLoop | .threadFunc _ | .getNextLoop => 0

end PoolAction

namespace EventLoopThreadPool

variable {s s' : EventLoopThreadPool} {i j : Nat} {t : PoolThread} {p : StartLoop}

structure Sound (s : EventLoopThreadPool) : Prop where
  handover : ∀ i < s.count, (s.threads i).Handover (s.waiter i)
  lpQueue : s.lpQueue = List.range s.lpQueue.length
  published : ∀ i ∈ s.lpQueue, (s.threads i).lp
  count : s.count = s.lpQueue.length + s.stage.waits
  count_le : s.count ≤ s.threadNum.toNat
  idle : s.stage = .idle ↔ s.started = false
  empty : s.stage = .idle → s.count = 0
  full : s.stage = .started → s.count = s.threadNum.toNat
  next : s.next = 0 ∨ s.next < s.lpQueue.length

theorem waiter_of_stage (h : s.stage = .startLoop p) (i : Nat) :
    s.waiter i = if i + 1 = s.count then some p else none := by
  rw [waiter, h]

theorem waiter_of_waits (h : s.stage.waits = 0) (i : Nat) : s.waiter i = none := by
  rw [waiter]
  cases hstage : s.stage with
  | startLoop p =>
    rw [hstage] at h
    cases h
  | idle | forLoop | started => rfl

/-- Who waits, waits for the thread that was constructed last. -/
theorem waiter_eq_some (h : s.waiter i = some p) : s.stage = .startLoop p ∧ i + 1 = s.count := by
  rw [waiter] at h
  split at h
  · next hstage =>
    split at h
    · next hlast =>
      cases h
      exact ⟨hstage, hlast⟩
    · cases h
  all_goals cases h

/-- What a step changes in one thread and in the wait for it. -/
theorem Sound.setThread (h : s.Sound) {stage : PoolStage} (hi : i < s.count)
    (hwaits : stage.waits = s.stage.waits) (hidle : stage = .idle ↔ s.stage = .idle)
    (hstarted : stage = .started → s.stage = .started) (hlp : (s.threads i).lp → t.lp)
    (hothers : ∀ j ≠ i, waiter { s with stage := stage } j = s.waiter j)
    (hhandover : t.Handover (waiter { s with stage := stage } i)) :
    Sound { s.setThread i t with stage := stage } where
  handover j hj := by
    change (Function.update s.threads i t j).Handover (waiter { s with stage := stage } j)
    rcases eq_or_ne j i with rfl | hne
    · rwa [Function.update_self]
    · rw [Function.update_of_ne hne, hothers j hne]
      exact h.handover j hj
  lpQueue := h.lpQueue
  published j hj := by
    change (Function.update s.threads i t j).lp
    rcases eq_or_ne j i with rfl | hne
    · rw [Function.update_self]
      exact hlp (h.published j hj)
    · rw [Function.update_of_ne hne]
      exact h.published j hj
  count := h.count.trans (congrArg _ hwaits.symm)
  count_le := h.count_le
  idle := hidle.trans h.idle
  empty hstage := h.empty (hidle.mp hstage)
  full hstage := h.full (hstarted hstage)
  next := h.next

theorem threadFunc_of_free (h : s.waiter i = none) :
    s.threadFunc i = { s.setThread i (s.threads i).threadFunc with stage := s.stage } := by
  simp only [threadFunc, h, Option.map_none, Option.getD_none]

theorem threadFunc_of_waits (h : s.waiter i = some p) :
    s.threadFunc i = { s.setThread i (s.threads i).threadFunc with
      stage := .startLoop ((s.threads i).notified p) } := by
  simp only [threadFunc, h, Option.map_some, Option.getD_some]

theorem Sound.threadFunc (h : s.Sound) (hi : i < s.count) (hrun : (s.threads i).MayRun)
    (htime : (s.threads i).InTime) : (s.threadFunc i).Sound := by
  have hhandover := (h.handover i hi).threadFunc hrun htime
  have hlp : (s.threads i).lp → (s.threads i).threadFunc.lp := by
    intro hlp
    rw [hhandover.lp]
    have hstage := (h.handover i hi).lp.symm.trans hlp
    generalize s.threads i = t at hstage
    obtain ⟨stage, lp, mutex, uninitialised⟩ := t
    cases stage with
    | construct | lock | publish => cases hstage
    | notify | unlock | loop => rfl
  cases hwaiter : s.waiter i with
  | none =>
    rw [hwaiter] at hhandover
    rw [threadFunc_of_free hwaiter]
    exact h.setThread hi rfl Iff.rfl id hlp (fun _ _ => rfl) (hwaiter ▸ hhandover)
  | some p =>
    rw [hwaiter] at hhandover
    obtain ⟨hstage, hlast⟩ := waiter_eq_some hwaiter
    rw [threadFunc_of_waits hwaiter]
    refine h.setThread hi (by rw [hstage]; rfl) (by simp [hstage]) nofun hlp ?_ ?_
    · intro j hne
      have hj : ¬ j + 1 = s.count := by omega
      rw [waiter_of_stage hstage, if_neg hj]
      exact if_neg hj
    · rw [waiter_of_stage rfl, if_pos hlast]
      exact hhandover

theorem Sound.startLoop (h : s.Sound) (hstage : s.stage = .startLoop p)
    (hstart : (s.threads (s.count - 1)).MayStart p) : (s.startLoop p).Sound := by
  have hcount := h.count
  rw [hstage, PoolStage.waits] at hcount
  have hlast : s.count - 1 + 1 = s.count := by omega
  have hi : s.count - 1 < s.count := by omega
  have hold := h.handover _ hi
  rw [waiter_of_stage hstage, if_pos hlast] at hold
  rw [EventLoopThreadPool.startLoop]
  generalize hstep : (s.threads (s.count - 1)).startLoop p = r
  have hlp : r.1.lp = (s.threads (s.count - 1)).lp := by
    rw [← hstep]
    exact PoolThread.startLoop_lp _ _
  obtain ⟨t, _ | p'⟩ := r
  · obtain ⟨rfl, hpublished, hnew⟩ := hold.returns hstep
    have hlength : s.count - 1 = s.lpQueue.length := by omega
    have hthreads : Function.update s.threads (s.count - 1) (s.threads (s.count - 1)) = s.threads :=
      Function.update_eq_self _ _
    simp only [EventLoopThreadPool.setThread, hthreads]
    refine ⟨fun j hj => ?_, ?_, fun j hj => ?_, ?_, h.count_le, ?_, nofun, nofun, ?_⟩
    · rcases eq_or_ne j (s.count - 1) with rfl | hne
      · exact hnew
      · have hwaiter := h.handover j hj
        rwa [waiter_of_stage hstage, if_neg (by omega)] at hwaiter
    · rw [List.length_append, List.length_singleton, List.range_succ, ← h.lpQueue, hlength]
    · rcases List.mem_append.mp hj with hj | hj
      · exact h.published j hj
      · cases List.mem_singleton.mp hj
        exact hpublished
    · simpa [PoolStage.waits] using hcount
    · exact iff_of_false nofun fun hnot => nomatch hstage.symm.trans (h.idle.mpr hnot)
    · rw [List.length_append]
      exact h.next.imp_right fun hlt => Nat.lt_add_right 1 hlt
  · refine h.setThread hi (by rw [hstage]; rfl) (by simp [hstage]) nofun (fun h => hlp ▸ h) ?_ ?_
    · intro j hne
      have hj : ¬ j + 1 = s.count := by omega
      rw [waiter_of_stage hstage, if_neg hj]
      exact if_neg hj
    · rw [waiter_of_stage rfl, if_pos hlast]
      exact hold.startLoop hstart hstep

theorem Sound.forLoop (h : s.Sound) (hstage : s.stage = .forLoop) : s.forLoop.Sound := by
  have hcount := h.count
  rw [hstage, PoolStage.waits] at hcount
  have hstarted : s.started ≠ false := fun hnot => nomatch hstage.symm.trans (h.idle.mpr hnot)
  rw [EventLoopThreadPool.forLoop]
  split
  · next hlt =>
    refine ⟨fun j hj => ?_, h.lpQueue, fun j hj => ?_, ?_, ?_, iff_of_false nofun hstarted, nofun,
      nofun, h.next⟩
    · change (Function.update s.threads s.count .fresh j).Handover _
      rw [waiter_of_stage rfl]
      rcases eq_or_ne j s.count with rfl | hne
      · rw [Function.update_self, if_pos rfl]
        exact .fresh
      · have hold := h.handover j (by change j < s.count + 1 at hj; omega)
        rw [waiter_of_waits (by rw [hstage]; rfl)] at hold
        rwa [Function.update_of_ne hne, if_neg (by simpa using hne)]
    · have hne : j ≠ s.count := by
        have hmem := h.lpQueue ▸ hj
        have hlt := List.mem_range.mp hmem
        omega
      change (Function.update s.threads s.count .fresh j).lp
      rw [Function.update_of_ne hne]
      exact h.published j hj
    · change s.count + 1 = s.lpQueue.length + 1
      omega
    · change s.count + 1 ≤ s.threadNum.toNat
      omega
  · next hge =>
    have hle := h.count_le
    refine ⟨fun j hj => ?_, h.lpQueue, h.published, hcount, hle, iff_of_false nofun hstarted, nofun,
      fun _ => ?_, h.next⟩
    · rw [waiter_of_waits rfl]
      have hold := h.handover j hj
      rwa [waiter_of_waits (by rw [hstage]; rfl)] at hold
    · change s.count = s.threadNum.toNat
      omega

theorem exec_threadFunc {o : Option Nat}
    (hexec : eventLoopThreadPool.exec s (.threadFunc i) = some (s', o)) :
    (s.threads i).InTime ∧ s' = s.threadFunc i ∧ o = none := by
  change (if (s.threads i).InTime then some (s.threadFunc i, none) else none) = _ at hexec
  split at hexec
  · next htime =>
    cases hexec
    exact ⟨htime, rfl, rfl⟩
  · cases hexec

theorem preserves_sound : eventLoopThreadPool.Preserves Sound := by
  intro s a s' o h hpre hexec
  cases a with
  | start =>
    obtain ⟨s₁, hstart, heq⟩ := Option.map_eq_some_iff.mp hexec
    cases heq
    rw [EventLoopThreadPool.start] at hstart
    split at hstart
    · cases hstart
    · next hstarted =>
      cases hstart
      have hstage := h.idle.mpr (Bool.of_not_eq_true hstarted)
      have hold := h.handover
      have hcount := h.count
      rw [hstage] at hcount
      refine ⟨fun i hi => ?_, h.lpQueue, h.published, hcount, h.count_le, by simp, nofun, nofun,
        h.next⟩
      have hhandover := hold i hi
      rw [waiter_of_waits (by rw [hstage]; rfl)] at hhandover
      rwa [waiter_of_waits rfl]
  | forLoop =>
    cases hexec
    exact h.forLoop hpre
  | startLoop =>
    obtain ⟨p, hstage, hstart⟩ := hpre
    simp only [eventLoopThreadPool, exec, hstage] at hexec
    cases hexec
    exact h.startLoop hstage hstart
  | spurious =>
    cases hexec
    have hstage : s.stage = .startLoop .blocked := hpre
    refine ⟨fun i hi => ?_, h.lpQueue, h.published, ?_, h.count_le, ?_, nofun, nofun, h.next⟩
    · have hold := h.handover i hi
      rw [waiter_of_stage hstage] at hold
      rw [waiter_of_stage rfl]
      change i < s.count at hi
      change (s.threads i).Handover (if i + 1 = s.count then some .wake else none)
      split
      · next hlast =>
        rw [if_pos hlast] at hold
        exact hold.spurious
      · next hlast => rwa [if_neg hlast] at hold
    · have hcount := h.count
      rwa [hstage] at hcount
    · exact iff_of_false nofun fun hnot => nomatch hstage.symm.trans (h.idle.mpr hnot)
  | threadFunc i =>
    obtain ⟨htime, rfl, rfl⟩ := exec_threadFunc hexec
    exact h.threadFunc hpre.1 hpre.2 htime
  | getNextLoop =>
    obtain ⟨⟨s₁, rLp⟩, hnext, heq⟩ := Option.map_eq_some_iff.mp hexec
    cases heq
    obtain ⟨rLp', hget, heq⟩ := Option.bind_eq_some_iff.mp hnext
    cases heq
    refine ⟨h.handover, h.lpQueue, h.published, h.count, h.count_le, h.idle, h.empty, h.full, ?_⟩
    have hlt := (List.getElem?_eq_some_iff.mp hget).1
    by_cases hlast : s.next + 1 = s.lpQueue.length
    · exact .inl (if_pos hlast)
    · right
      change (if s.next + 1 = s.lpQueue.length then 0 else s.next + 1) < s.lpQueue.length
      rw [if_neg hlast]
      omega

theorem sound_init (threadNum : Int) : (init threadNum).Sound :=
  ⟨nofun, rfl, nofun, rfl, Nat.zero_le _, by simp [init], fun _ => rfl, nofun, .inl rfl⟩

theorem sound_of_reachable {threadNum : Int}
    (h : eventLoopThreadPool.Reachable (init threadNum) s) : s.Sound :=
  h.invariant preserves_sound (sound_init threadNum)

/-! ### `start` returns -/

/-- The steps of the first `n` threads up to their loops. -/
def threadsLeft (threads : Nat → PoolThread) : Nat → Nat
  | 0 => 0
  | n + 1 => threadsLeft threads n + (threads n).stage.stepsLeft

theorem threadsLeft_of_le {threads : Nat → PoolThread} {n : Nat} (h : n ≤ i) :
    threadsLeft (Function.update threads i t) n = threadsLeft threads n := by
  induction n with
  | zero => rfl
  | succ n ih => rw [threadsLeft, ih (Nat.le_of_lt h), Function.update_of_ne (Nat.ne_of_lt h),
      threadsLeft]

theorem threadsLeft_update {threads : Nat → PoolThread} {n : Nat} (h : i < n) :
    threadsLeft (Function.update threads i t) n + (threads i).stage.stepsLeft =
      threadsLeft threads n + t.stage.stepsLeft := by
  induction n with
  | zero => cases h
  | succ n ih =>
    rw [threadsLeft, threadsLeft]
    rcases Nat.lt_succ_iff_lt_or_eq.mp h with hlt | rfl
    · rw [Function.update_of_ne (Nat.ne_of_gt hlt)]
      have hprev := ih hlt
      omega
    · rw [Function.update_self, threadsLeft_of_le (Nat.le_refl _)]
      omega

/-- A thread that is not constructed yet takes 16 steps: five of `threadFunc`, two of the
constructor, eight of `startLoop` and the test before them. -/
def stepsLeft (s : EventLoopThreadPool) : Nat :=
  threadsLeft s.threads s.count + s.stage.stepsLeft (s.threads (s.count - 1)).lp +
    16 * (s.threadNum.toNat - s.count)

theorem stepsLeft_init (threadNum : Int) : (init threadNum).stepsLeft = 16 * threadNum.toNat + 2 :=
  calc
    (init threadNum).stepsLeft = 0 + 2 + 16 * (threadNum.toNat - 0) := rfl
    _ = 16 * threadNum.toNat + 2 := by omega

theorem stepsLeft_threadFunc (h : s.Sound) (hi : i < s.count) (hrun : (s.threads i).MayRun) :
    (s.threadFunc i).stepsLeft + 1 ≤ s.stepsLeft := by
  have hthread := PoolThread.threadFunc_stepsLeft hrun
  have hsum : threadsLeft (Function.update s.threads i (s.threads i).threadFunc) s.count + 1 =
      threadsLeft s.threads s.count := by
    have hupdate : threadsLeft (Function.update s.threads i (s.threads i).threadFunc) s.count + _ =
        _ + (s.threads i).threadFunc.stage.stepsLeft := threadsLeft_update hi
    omega
  suffices hstage : (s.threadFunc i).stage.stepsLeft
      (Function.update s.threads i (s.threads i).threadFunc (s.count - 1)).lp ≤
        s.stage.stepsLeft (s.threads (s.count - 1)).lp by
    change threadsLeft (Function.update s.threads i (s.threads i).threadFunc) s.count +
      (s.threadFunc i).stage.stepsLeft
        (Function.update s.threads i (s.threads i).threadFunc (s.count - 1)).lp +
      16 * (s.threadNum.toNat - s.count) + 1 ≤ s.stepsLeft
    rw [stepsLeft]
    omega
  cases hwaiter : s.waiter i with
  | none =>
    rw [threadFunc_of_free hwaiter]
    change s.stage.stepsLeft _ ≤ _
    cases hstage : s.stage with
    | startLoop p =>
      -- the wait is for another thread
      have hne : s.count - 1 ≠ i := by
        intro heq
        have hlast : i + 1 = s.count := by omega
        rw [waiter_of_stage hstage, if_pos hlast] at hwaiter
        cases hwaiter
      exact Nat.le_of_eq (by rw [Function.update_of_ne hne])
    | idle | forLoop | started => exact Nat.le_refl _
  | some p =>
    obtain ⟨hstage, hlast⟩ := waiter_eq_some hwaiter
    have hi' : s.count - 1 = i := by omega
    have hold := hwaiter ▸ h.handover i hi
    rw [threadFunc_of_waits hwaiter, hstage, hi', Function.update_self]
    exact Nat.add_le_add_right (PoolThread.notified_stepsLeft hold) 1

theorem stepsLeft_startLoop (h : s.Sound) (hstage : s.stage = .startLoop p)
    (hstart : (s.threads (s.count - 1)).MayStart p) :
    (s.startLoop p).stepsLeft + 1 ≤ s.stepsLeft := by
  have hcount := h.count
  rw [hstage, PoolStage.waits] at hcount
  have hlast : s.count - 1 + 1 = s.count := by omega
  have hi : s.count - 1 < s.count := by omega
  have hold := h.handover _ hi
  rw [waiter_of_stage hstage, if_pos hlast] at hold
  rw [EventLoopThreadPool.startLoop, stepsLeft.eq_def s, hstage]
  generalize hstep : (s.threads (s.count - 1)).startLoop p = r
  have hsame : r.1.stage = (s.threads (s.count - 1)).stage := by
    rw [← hstep]
    exact PoolThread.startLoop_stage _ _
  have hsum : threadsLeft (Function.update s.threads (s.count - 1) r.1) s.count =
      threadsLeft s.threads s.count := by
    apply Nat.add_right_cancel (m := (s.threads (s.count - 1)).stage.stepsLeft)
    rw [threadsLeft_update hi, hsame]
  obtain ⟨t, _ | p'⟩ := r
  · have hleft := PoolThread.returns_stepsLeft hstep
    change threadsLeft (Function.update s.threads (s.count - 1) t) s.count + 1 +
      16 * (s.threadNum.toNat - s.count) + 1 ≤ _
    rw [hsum]
    simp only [PoolStage.stepsLeft]
    omega
  · have hleft := PoolThread.startLoop_stepsLeft hold hstart hstep
    change threadsLeft (Function.update s.threads (s.count - 1) t) s.count +
      (p'.stepsLeft (Function.update s.threads (s.count - 1) t (s.count - 1)).lp + 1) +
      16 * (s.threadNum.toNat - s.count) + 1 ≤ _
    rw [hsum, Function.update_self]
    simp only [PoolStage.stepsLeft]
    omega

theorem stepsLeft_forLoop (hstage : s.stage = .forLoop) :
    s.forLoop.stepsLeft + 1 ≤ s.stepsLeft := by
  rw [EventLoopThreadPool.forLoop, stepsLeft.eq_def s, hstage]
  split
  · next hlt =>
    change threadsLeft (Function.update s.threads s.count .fresh) s.count +
        (Function.update s.threads s.count .fresh s.count).stage.stepsLeft +
      (StartLoop.mutex.stepsLeft (Function.update s.threads s.count .fresh s.count).lp + 1) +
      16 * (s.threadNum.toNat - (s.count + 1)) + 1 ≤ _
    rw [threadsLeft_of_le (Nat.le_refl _), Function.update_self]
    simp only [PoolThread.fresh, ThreadFunc.stepsLeft, StartLoop.stepsLeft, PoolStage.stepsLeft]
    have hroom : 0 < s.threadNum.toNat - s.count := by omega
    simp only [Bool.false_eq_true, if_false]
    omega
  · simp only [stepsLeft, PoolStage.stepsLeft]
    omega

/-- **The step lemma.** -/
theorem stepsLeft_step {a : PoolAction} {o : Option Nat} (h : s.Sound)
    (hpre : eventLoopThreadPool.pre s a) (hexec : eventLoopThreadPool.exec s a = some (s', o)) :
    s'.stepsLeft + a.works ≤ s.stepsLeft + 2 * a.wakesUp := by
  cases a with
  | start =>
    obtain ⟨s₁, hstart, heq⟩ := Option.map_eq_some_iff.mp hexec
    cases heq
    rw [EventLoopThreadPool.start] at hstart
    split at hstart
    · cases hstart
    · next hstarted =>
      cases hstart
      have hstage := h.idle.mpr (Bool.of_not_eq_true hstarted)
      simp only [stepsLeft, hstage, PoolStage.stepsLeft, PoolAction.works, PoolAction.wakesUp]
      omega
  | forLoop =>
    cases hexec
    exact stepsLeft_forLoop hpre
  | startLoop =>
    obtain ⟨p, hstage, hstart⟩ := hpre
    simp only [eventLoopThreadPool, exec, hstage] at hexec
    cases hexec
    exact stepsLeft_startLoop h hstage hstart
  | spurious =>
    cases hexec
    have hstage : s.stage = .startLoop .blocked := hpre
    have hleft := PoolThread.spurious_stepsLeft (s.threads (s.count - 1)).lp
    simp only [stepsLeft, hstage, PoolStage.stepsLeft, PoolAction.works, PoolAction.wakesUp]
    omega
  | threadFunc i =>
    obtain ⟨-, rfl, -⟩ := exec_threadFunc hexec
    exact stepsLeft_threadFunc h hpre.1 hpre.2
  | getNextLoop =>
    obtain ⟨⟨s₁, rLp⟩, hnext, heq⟩ := Option.map_eq_some_iff.mp hexec
    cases heq
    obtain ⟨rLp', hget, heq⟩ := Option.bind_eq_some_iff.mp hnext
    cases heq
    exact Nat.le_refl _

/-- **Nobody waits for ever.** As long as `start` has not returned, it can go on, or the thread that
it waits for. -/
theorem Sound.progress (h : s.Sound) (hidle : s.stage ≠ .idle) (hstarted : s.stage ≠ .started) :
    ∃ a, a.works = 1 ∧ (eventLoopThreadPool.restrict InOrder).pre s a := by
  cases hstage : s.stage with
  | idle => exact absurd hstage hidle
  | started => exact absurd hstage hstarted
  | forLoop => exact ⟨.forLoop, rfl, hstage, trivial⟩
  | startLoop p =>
    have hcount := h.count
    rw [hstage, PoolStage.waits] at hcount
    have hlast : s.count - 1 + 1 = s.count := by omega
    have hi : s.count - 1 < s.count := by omega
    have hold := h.handover _ hi
    rw [waiter_of_stage hstage, if_pos hlast] at hold
    rcases hold.progress with hstart | ⟨hrun, htime⟩
    · exact ⟨.startLoop, rfl, ⟨p, hstage, hstart⟩, trivial⟩
    · exact ⟨.threadFunc (s.count - 1), rfl, ⟨hi, hrun⟩, htime⟩

/-- **The step lemma.** What is in order does not fail. -/
theorem Sound.exec (h : s.Sound) {a : PoolAction}
    (hpre : (eventLoopThreadPool.restrict InOrder).pre s a) :
    ∃ s' o, eventLoopThreadPool.exec s a = some (s', o) := by
  obtain ⟨hpre, horder⟩ := hpre
  cases a with
  | start =>
    have hstart : s.start = some { s with started := true, stage := .forLoop } :=
      if_neg (by rw [horder]; exact Bool.false_ne_true)
    exact ⟨_, _, congrArg (Option.map (·, none)) hstart⟩
  | forLoop => exact ⟨_, _, rfl⟩
  | startLoop =>
    obtain ⟨p, hstage, -⟩ := hpre
    refine ⟨s.startLoop p, none, ?_⟩
    simp only [eventLoopThreadPool, EventLoopThreadPool.exec, hstage]
  | spurious => exact ⟨_, _, rfl⟩
  | threadFunc i => exact ⟨_, _, if_pos horder⟩
  | getNextLoop =>
    have hlt : s.next < s.lpQueue.length := by
      have hpos := List.length_pos_iff.mpr horder
      rcases h.next with hzero | hlt
      · rwa [hzero]
      · exact hlt
    obtain ⟨r, hnext⟩ : ∃ r, s.getNextLoop = some r := by
      rw [getNextLoop, List.getElem?_eq_getElem hlt]
      exact ⟨_, rfl⟩
    exact ⟨r.1, some r.2, Option.map_eq_some_iff.mpr ⟨r, hnext, rfl⟩⟩

/-- Every loop is in `lpQueue_`, in the order of the threads, and published. -/
structure Complete (s : EventLoopThreadPool) (threadNum : Int) : Prop where
  lpQueue : s.lpQueue = List.range threadNum.toNat
  published : ∀ i < threadNum.toNat, (s.threads i).lp

theorem threadNum_step {a : PoolAction} {o : Option Nat}
    (hexec : eventLoopThreadPool.exec s a = some (s', o)) : s'.threadNum = s.threadNum := by
  cases a with
  | start =>
    obtain ⟨s₁, hstart, heq⟩ := Option.map_eq_some_iff.mp hexec
    cases heq
    rw [EventLoopThreadPool.start] at hstart
    split at hstart <;> cases hstart
    rfl
  | forLoop =>
    cases hexec
    rw [EventLoopThreadPool.forLoop]
    split <;> rfl
  | startLoop =>
    simp only [eventLoopThreadPool, exec] at hexec
    split at hexec <;> cases hexec
    rw [EventLoopThreadPool.startLoop]
    split <;> rfl
  | spurious =>
    cases hexec
    rfl
  | threadFunc =>
    obtain ⟨-, rfl, -⟩ := exec_threadFunc hexec
    rfl
  | getNextLoop =>
    obtain ⟨⟨s₁, rLp⟩, hnext, heq⟩ := Option.map_eq_some_iff.mp hexec
    cases heq
    obtain ⟨rLp', hget, heq⟩ := Option.bind_eq_some_iff.mp hnext
    cases heq
    rfl

theorem threadNum_of_reachable {threadNum : Int}
    (h : eventLoopThreadPool.Reachable (init threadNum) s) : s.threadNum = threadNum :=
  h.invariant (I := fun s => s.threadNum = threadNum)
    (fun _ _ _ _ hs _ hexec => (threadNum_step hexec).trans hs) rfl

theorem Sound.complete (h : s.Sound) (hstage : s.stage = .started) : s.Complete s.threadNum := by
  have hcount := h.count
  rw [hstage, PoolStage.waits, Nat.add_zero, h.full hstage] at hcount
  have hqueue := h.lpQueue
  rw [← hcount] at hqueue
  exact ⟨hqueue, fun i hi => h.published i (hqueue ▸ List.mem_range.mpr hi)⟩

/-- **`start` returns.** In a run in which every thread comes to `mutex_` and `cond_` after the
constructor, `start` is called once and `getNextLoop` when there are loops, nothing fails; `start`
and the threads take a bounded number of steps, two more for every spurious wake-up; before `start`
returns, one of them can always go on; and when it has, every loop is there. -/
theorem start_returns {threadNum : Int} {as : List PoolAction}
    (hadm : (eventLoopThreadPool.restrict InOrder).Admissible (init threadNum) as) :
    ∃ s os, eventLoopThreadPool.run (init threadNum) as = some (s, os) ∧
      (as.map PoolAction.works).sum ≤
        16 * threadNum.toNat + 2 + (as.map (2 * PoolAction.wakesUp ·)).sum ∧
      (s.stage ≠ .idle → s.stage ≠ .started →
        ∃ a, a.works = 1 ∧ (eventLoopThreadPool.restrict InOrder).pre s a) ∧
      (s.stage = .started → s.Complete threadNum) := by
  have hall := hadm.of_restrict
  obtain ⟨s, os, hrun, hsound⟩ := Program.run_of_safe (I := Sound)
    (fun s a hs hpre => by
      obtain ⟨s', o, hexec⟩ := hs.exec hpre
      exact ⟨s', o, hexec, preserves_sound s a s' o hs hpre.1 hexec⟩)
    (sound_init threadNum) hadm
  rw [Program.run_restrict] at hrun
  obtain ⟨-, hmeasure⟩ := Program.run_measure preserves_sound
    (fun s a s' o hs hpre hexec => stepsLeft_step hs hpre hexec) (sound_init threadNum) hall hrun
  rw [stepsLeft_init] at hmeasure
  have hworks : (as.map PoolAction.works).sum ≤ s.stepsLeft + (as.map PoolAction.works).sum :=
    Nat.le_add_left _ _
  refine ⟨s, os, hrun, Nat.le_trans hworks hmeasure, hsound.progress, fun hstage => ?_⟩
  rw [← threadNum_of_reachable (.of_run hall hrun)]
  exact hsound.complete hstage

/-- The thread `i` is constructed and started. `startLoop` blocks, wakes up too early, and is
notified in the end. -/
def handedOver (i : Nat) : List PoolAction :=
  [.forLoop, .threadFunc i, .startLoop, .startLoop, .startLoop, .startLoop, .startLoop, .spurious,
    .startLoop, .startLoop, .threadFunc i, .threadFunc i, .threadFunc i, .threadFunc i, .startLoop,
    .startLoop, .startLoop, .startLoop]

/-- A pool of two loops. -/
def twoLoops : List PoolAction := .start :: (handedOver 0 ++ handedOver 1) ++ [.forLoop]

theorem start_returns_two : ∃ s os, eventLoopThreadPool.run (init 2) twoLoops = some (s, os) ∧
    s.stage = .started ∧ s.Complete 2 := by
  have hadm : (eventLoopThreadPool.restrict InOrder).Admissible (init 2) twoLoops := by decide
  obtain ⟨s, os, hrun, -, -, hcomplete⟩ := start_returns hadm
  have hstage : ((eventLoopThreadPool.run (init 2) twoLoops).map (·.1.stage)) = some .started := rfl
  rw [hrun] at hstage
  exact ⟨s, os, hrun, Option.some.inj hstage, hcomplete (Option.some.inj hstage)⟩

/-- The new thread may come to `mutex_` before the constructor does. -/
theorem threadFunc_too_early : ∃ as, eventLoopThreadPool.Admissible (init 1) as ∧
    eventLoopThreadPool.run (init 1) as = none :=
  ⟨[.start, .forLoop, .threadFunc 0, .threadFunc 0], by decide, rfl⟩

/-- A thread of the pool is one of `eventLoopThread`, and `base` has got its loop when it is in
`lpQueue_`. -/
theorem thread_reachable {T F : Type*} [DecidableEq T] {threadNum : Int} {tid base : T}
    (h : eventLoopThreadPool.Reachable (init threadNum) s) (hne : base ≠ tid) (hi : i < s.count) :
    (eventLoopThread tid : Program (EventLoopThread T F) _ _).Reachable .init
      ((s.threads i).toThread base (i ∈ s.lpQueue)) := by
  have hsound := sound_of_reachable h
  apply (hsound.handover i hi).reachable hne
  intro hmem
  exact hsound.published i (of_decide_eq_true hmem)

/-! ### The loops in turn -/

theorem getNextLoop_spec {rLp : Nat} (h : s.Sound) (hnext : s.getNextLoop = some (s', rLp)) :
    rLp = s.next ∧ s.next < s.lpQueue.length ∧
      s' = { s with next := if s.next + 1 = s.lpQueue.length then 0 else s.next + 1 } := by
  obtain ⟨rLp', hget, heq⟩ := Option.bind_eq_some_iff.mp hnext
  cases heq
  obtain ⟨hlt, hget⟩ := List.getElem?_eq_some_iff.mp hget
  refine ⟨?_, hlt, rfl⟩
  have hrange := List.getElem_of_eq h.lpQueue hlt
  rw [← hget, hrange, List.getElem_range]

/-- `getNextLoop` only changes `next_`, and nothing else does. -/
theorem next_step {a : PoolAction} (hexec : eventLoopThreadPool.exec s a = some (s', none)) :
    s'.next = s.next := by
  cases a with
  | start =>
    obtain ⟨s₁, hstart, heq⟩ := Option.map_eq_some_iff.mp hexec
    cases heq
    rw [EventLoopThreadPool.start] at hstart
    split at hstart <;> cases hstart
    rfl
  | forLoop =>
    cases hexec
    rw [EventLoopThreadPool.forLoop]
    split <;> rfl
  | startLoop =>
    simp only [eventLoopThreadPool, exec] at hexec
    split at hexec <;> cases hexec
    rw [EventLoopThreadPool.startLoop]
    split <;> rfl
  | spurious =>
    cases hexec
    rfl
  | threadFunc =>
    obtain ⟨-, rfl, -⟩ := exec_threadFunc hexec
    rfl
  | getNextLoop =>
    obtain ⟨⟨s₁, rLp⟩, -, heq⟩ := Option.map_eq_some_iff.mp hexec
    cases heq

/-- `start` is called once. -/
theorem started_step {a : PoolAction} {o : Option Nat} (h : s.Sound) (hstage : s.stage = .started)
    (hpre : eventLoopThreadPool.pre s a) (hexec : eventLoopThreadPool.exec s a = some (s', o)) :
    s'.stage = .started := by
  cases a with
  | start =>
    obtain ⟨s₁, hstart, heq⟩ := Option.map_eq_some_iff.mp hexec
    rw [EventLoopThreadPool.start] at hstart
    split at hstart
    · cases hstart
    · next hstarted =>
      cases hstage.symm.trans (h.idle.mpr (Bool.of_not_eq_true hstarted))
  | forLoop => cases hstage.symm.trans hpre
  | startLoop =>
    obtain ⟨p, hp, -⟩ := hpre
    cases hstage.symm.trans hp
  | spurious => cases hstage.symm.trans hpre
  | threadFunc i =>
    obtain ⟨-, rfl, -⟩ := exec_threadFunc hexec
    rw [threadFunc_of_free (waiter_of_waits (by rw [hstage]; rfl) i)]
    exact hstage
  | getNextLoop =>
    obtain ⟨⟨s₁, rLp⟩, hnext, heq⟩ := Option.map_eq_some_iff.mp hexec
    cases heq
    obtain ⟨-, -, rfl⟩ := getNextLoop_spec h hnext
    exact hstage

/-- The loops that `getNextLoop` has handed out are the first `k` in turn. -/
structure Turn (os : List (Option Nat)) (s : EventLoopThreadPool) (k : Nat) : Prop where
  handed : os.filterMap id = (List.range k).map (· % s.threadNum.toNat)
  next : s.next = k % s.threadNum.toNat
  started : 0 < k → s.stage = .started

/-- The position of the next loop. -/
theorem succ_mod_eq {k n : Nat} (hn : k % n < n) :
    (k + 1) % n = if k % n + 1 = n then 0 else k % n + 1 := by
  rw [Nat.add_mod]
  rcases Nat.lt_or_ge 1 n with hlt | hge
  · rw [Nat.mod_eq_of_lt hlt]
    split
    · next heq => rw [heq, Nat.mod_self]
    · exact Nat.mod_eq_of_lt (by omega)
  · obtain rfl : n = 1 := by omega
    simp [Nat.mod_one]

theorem turn_of_run {threadNum : Int} {as : List PoolAction} {os : List (Option Nat)}
    (hadm : eventLoopThreadPool.Admissible (init threadNum) as)
    (hrun : eventLoopThreadPool.run (init threadNum) as = some (s, os)) :
    Turn os s (os.filterMap id).length := by
  refine Program.run_history (I := fun _ os s => Turn os s (os.filterMap id).length)
    ⟨rfl, (Nat.zero_mod _).symm, nofun⟩ ?_ hadm hrun
  intro as os s a s' o hreach _ h hpre hexec
  have hnum := threadNum_step hexec
  have hsound := sound_of_reachable hreach
  cases o with
  | none =>
    rw [List.filterMap_append]
    have hnil : List.filterMap id [(none : Option Nat)] = [] := rfl
    rw [hnil, List.append_nil]
    refine ⟨?_, ?_, fun hpos => started_step hsound (h.started hpos) hpre hexec⟩
    · rw [List.filterMap_append, hnil, List.append_nil, hnum]
      exact h.handed
    · rw [next_step hexec, hnum]
      exact h.next
  | some rLp =>
    obtain ⟨hhanded, hnext, -⟩ := h
    have ha : a = .getNextLoop := by
      cases a with
      | getNextLoop => rfl
      | start =>
        obtain ⟨s₁, -, heq⟩ := Option.map_eq_some_iff.mp hexec
        cases heq
      | forLoop | spurious => cases hexec
      | threadFunc =>
        obtain ⟨-, -, heq⟩ := exec_threadFunc hexec
        cases heq
      | startLoop =>
        simp only [eventLoopThreadPool, exec] at hexec
        split at hexec <;> cases hexec
    subst ha
    obtain ⟨⟨s₁, rLp'⟩, hget, heq⟩ := Option.map_eq_some_iff.mp hexec
    cases heq
    obtain ⟨rfl, hlt, rfl⟩ := getNextLoop_spec hsound hget
    -- there is a loop, so `start` has returned
    have hstage : s.stage = .started := by
      refine hpre.resolve_left fun hidle => ?_
      have hcount := hsound.count
      have hempty := hsound.empty hidle
      omega
    have hlength : s.lpQueue.length = s.threadNum.toNat := by
      rw [(hsound.complete hstage).lpQueue, List.length_range]
    rw [hnext, hlength] at hlt
    have hone : List.filterMap id [some s.next] = [s.next] := rfl
    rw [List.filterMap_append, hone, List.length_append, List.length_singleton]
    refine ⟨?_, ?_, fun _ => hstage⟩
    · rw [List.filterMap_append, hone, List.range_succ, List.map_append, List.map_singleton]
      exact congrArg₂ _ hhanded (congrArg (fun k => [k]) hnext)
    · change (if s.next + 1 = s.lpQueue.length then 0 else s.next + 1) = _
      rw [hnext, hlength]
      exact (succ_mod_eq hlt).symm

end EventLoopThreadPool
end Httpancake
