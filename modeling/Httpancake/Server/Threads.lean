import Httpancake.Lib.LoopThreads
import Httpancake.Network.Outcomes
import Httpancake.Reactor.TimerQueue

/-! # One loop per thread

The functions of the event loops, the timer queues, the connections and the server as threads run
them: in the order of the source, each call of a poller, each access to a buffer of a connection or
to a set of timers, each call of another function and each function handed to a loop. The tests are
the source's, on whatever the object is like when they are made: other threads change `state_` at
any time, so a `TcpConnection` or a `TimerQueue` below is any.

* `Course`: which list of operations a call of a function can turn into.
* `Runs.course`: what a function of `TcpConnection` does is one of its courses; `ShowsTimers` is
  about the functions of `TimerQueue`, `onMessage_course` about `webServer::onMessage`.
* `serverLoops`: all threads, each running the functions it has called or been handed. -/

namespace Httpancake
namespace Threads

inductive Loop where
  | base
  | worker (w : Nat)
deriving DecidableEq

/-- What is not locked: the pollers, the sets of timers and the buffers. -/
inductive Unlocked where
  | updateHandler (lp : Loop)
  | removeHandler (lp : Loop)
  | poll (lp : Loop)
  | timers (lp : Loop)
  | activeTimers (lp : Loop)
  | cancelingTimers (lp : Loop)
  | inputBuffer (conn : Nat)
  | outputBuffer (conn : Nat)
deriving DecidableEq

inductive HandlerId where
  | wakeup (lp : Loop)
  | timerfd (lp : Loop)
  | acceptor
  | conn (conn : Nat)
deriving DecidableEq

/-- The calls that any thread may make. -/
inductive PublicCall where
  | start
  | send (conn : Nat) (msg : Bytes)
  | shutdown (conn : Nat)
  | forceClose (conn : Nat)
  | runAt (lp : Loop)
  | runAfter (lp : Loop)
  | runEvery (lp : Loop)
  | cancel (lp : Loop)
deriving DecidableEq

inductive ServerFunction where
  | loop (lp : Loop)
  | handleEvents (handler : HandlerId)
  /-- A callback of the handler of a connection. -/
  | callback (conn : Nat) (cb : EventCallback)
  /-- `TimerQueue::handle_read` -/
  | timerHandleRead (lp : Loop)
  | addTimerInLoop (lp : Loop)
  | cancelInLoop (lp : Loop)
  /-- `Acceptor::handleRead` -/
  | acceptorHandleRead
  | listen
  | handleRemoveConnection (conn : Nat)
  | handleRemoveConnectionInLoop (conn : Nat)
  | connectEstablished (conn : Nat)
  | connectDestroyed (conn : Nat)
  | handleClose (conn : Nat)
  | sendInLoop (conn : Nat) (msg : Bytes)
  | shutdownInLoop (conn : Nat)
  | connCb (conn : Nat)
  | messageCb (conn : Nat)
  | writeCb (conn : Nat)
  | timerCallback
  | public_ (call : PublicCall)
deriving DecidableEq

abbrev Op := LoopOp Loop ServerFunction Unlocked

/-- The worker loops, and the one each connection is given. -/
structure Layout where
  threadNum : Nat
  lp : Nat → Nat

/-! ## The functions -/

section Functions
variable (l : Layout)

/-- `lp_` of a connection. -/
def Layout.lp_ (conn : Nat) : Loop := .worker (l.lp conn)

/-- `ownerLp_` of a handler. -/
def Layout.ownerLp : HandlerId → Loop
  | .wakeup lp | .timerfd lp => lp
  | .acceptor => .base
  | .conn conn => l.lp_ conn

/-- `Handler::update`: a handler in use whose events are none leaves the epoll set. -/
def update (id : HandlerId) (h : Handler) : List Op :=
  [.access (.updateHandler (l.ownerLp id)),
    if h.state = .using_ ∧ h.events = .none then .unwatch (l.ownerLp id) (.handleEvents id)
    else .watch (l.ownerLp id) (.handleEvents id)]

def removeHandler (id : HandlerId) : List Op :=
  [.access (.removeHandler (l.ownerLp id)), .unwatch (l.ownerLp id) (.handleEvents id)]

/-- The callbacks that are set; `EventLoop::handleWakeup` reads the eventfd only. -/
def eventCallback : HandlerId → EventCallback → List Op
  | .conn conn, cb => [.call (.callback conn cb)]
  | .timerfd lp, .readCb => [.call (.timerHandleRead lp)]
  | .acceptor, .readCb => [.call .acceptorHandleRead]
  | _, _ => []

def handleEvents (id : HandlerId) (revents : EventMask) : List Op :=
  (Handler.handleEvents revents).flatMap (eventCallback id)

/-- The test of `while` and what follows it. -/
def loop (stopLoop : Bool) (lp : Loop) : List Op :=
  if stopLoop then []
  else [.access (.poll lp), .poll lp, .doPendingFuncs lp, .call (.loop lp)]

/-! ### `TimerQueue` -/

def addTimer (lp : Loop) : List Op := [.runInLoop lp (.addTimerInLoop lp)]

def cancel (lp : Loop) : List Op := [.runInLoop lp (.cancelInLoop lp)]

/-- `assert(timers_.size() == active_timers_.size())` -/
def assertSizes (lp : Loop) : List Op := [.access (.timers lp), .access (.activeTimers lp)]

/-- The front of the queue is read before the two insertions. -/
def insert (lp : Loop) : List Op :=
  [.access (.timers lp), .access (.timers lp), .access (.activeTimers lp)] ++ assertSizes lp

def addTimerInLoop (lp : Loop) : List Op := insert lp

def cancelInLoop (lp : Loop) (q : TimerQueue) (timer : ActiveTimer) : List Op :=
  assertSizes lp ++ .access (.activeTimers lp) ::
    (match q.activeTimers.find? timer.key with
      | some _ => [.access (.timers lp), .access (.activeTimers lp)]
      | none => if q.callingExpiredTimers then [.access (.cancelingTimers lp)] else []) ++
    assertSizes lp

/-- The expired entries are found, copied and erased, and each of them leaves `active_timers_`. -/
def getExpired (lp : Loop) (expired : List (Ptr × Timer)) : List Op :=
  [.access (.timers lp), .access (.timers lp), .access (.timers lp)] ++
    expired.map (fun _ => .access (.activeTimers lp)) ++ assertSizes lp

/-- One pass of the loop of `reset`. -/
def resetOne (lp : Loop) (q : TimerQueue) (entry : Ptr × Timer) : List Op :=
  if entry.2.repeat_ then
    .access (.cancelingTimers lp) ::
      if q.cancelingTimers.find? (ActiveTimer.of entry.1 entry.2).key = none then insert lp else []
  else []

def reset (lp : Loop) (q : TimerQueue) (expired : List (Ptr × Timer)) : List Op :=
  expired.flatMap (resetOne lp q) ++ .access (.timers lp) ::
    if q.timers.first?.isSome then [.access (.timers lp)] else []

/-- `TimerQueue::handle_read` -/
def timerHandleRead (lp : Loop) (q : TimerQueue) (expired : List (Ptr × Timer)) : List Op :=
  getExpired lp expired ++ .access (.cancelingTimers lp) ::
    expired.map (fun _ => .call .timerCallback) ++ reset lp q expired

/-! ### `TcpConnection` -/

def enableReading (c : TcpConnection) : List Op :=
  update l (.conn c.this) { c.handler with events := c.handler.events.union .readEvent }

def enableWriting (c : TcpConnection) : List Op :=
  update l (.conn c.this) { c.handler with events := c.handler.events.union .writeEvent }

def disableWriting (c : TcpConnection) : List Op :=
  update l (.conn c.this) { c.handler with events := c.handler.events.diff .writeEvent }

def disableAll (c : TcpConnection) : List Op :=
  update l (.conn c.this) { c.handler with events := .none }

def queueWriteCb (c : TcpConnection) : List Op :=
  if c.writeCb then [.queueInLoop (l.lp_ c.this) (.writeCb c.this)] else []

/-- `send` tests `isInLoopThread` itself, with the branches of `runInLoop`. -/
def send (c : TcpConnection) (msg : Bytes) : List Op :=
  if c.state = .connected then [.runInLoop (l.lp_ c.this) (.sendInLoop c.this msg)] else []

def shutdown (c : TcpConnection) : List Op :=
  if c.state = .connected then [.runInLoop (l.lp_ c.this) (.shutdownInLoop c.this)] else []

def forceClose (c : TcpConnection) : List Op :=
  if c.state = .connected then [.runInLoop (l.lp_ c.this) (.handleClose c.this)] else []

def connectEstablished (c : TcpConnection) : List Op :=
  if c.state = .connecting then enableReading l c ++ [.call (.connCb c.this)] else [.exit]

def connectDestroyed (c : TcpConnection) : List Op :=
  disableAll l c ++ .call (.connCb c.this) :: removeHandler l (.conn c.this)

/-- `closeCb_` is `TcpServer::handleRemoveConnection`. -/
def handleClose (c : TcpConnection) : List Op :=
  if c.state = .connected then disableAll l c ++ [.call (.handleRemoveConnection c.this)]
  else [.exit]

def handleRead (c : TcpConnection) (result : Option Bytes) : List Op :=
  .access (.inputBuffer c.this) ::
    match result with
    | none => []
    | some [] => handleClose l c
    | some _ => [.call (.messageCb c.this)]

/-- `sock_->shutdownWrite()` is no access. -/
def shutdownInLoop : List Op := []

/-- `peek` and `readable_bytes` before `::write`, `retrieve` and `readable_bytes` behind it. -/
def handleWrite (c : TcpConnection) (result : Option Nat) : List Op :=
  if c.isWriting then
    [.access (.outputBuffer c.this), .access (.outputBuffer c.this)] ++
      match result with
      | none | some 0 => []
      | some n =>
        [.access (.outputBuffer c.this), .access (.outputBuffer c.this)] ++
          match c.outputBuffer.retrieve n with
          | none => [.exit]
          | some outputBuffer =>
            if outputBuffer.readableBytes = 0 then
              disableWriting l c ++ queueWriteCb l c ++
                if c.state = .disconnecting then shutdownInLoop else []
            else []
  else []

def sendInLoop (c : TcpConnection) (msg : Bytes) (result : Option Nat) : List Op :=
  let direct := !c.isWriting && c.outputBuffer.readableBytes == 0
  let n := if direct then result.getD 0 else 0
  (if c.isWriting then [] else [.access (.outputBuffer c.this)]) ++
    (if direct ∧ result = some msg.length then queueWriteCb l c else []) ++
    if n < msg.length then
      .access (.outputBuffer c.this) :: if c.isWriting then [] else enableWriting l c
    else []

/-- `handleError` is empty. -/
def callback (c : TcpConnection) (read : Option Bytes) (write : Option Nat) :
    EventCallback → List Op
  | .closeCb => handleClose l c
  | .errorCb => []
  | .readCb => handleRead l c read
  | .writeCb => handleWrite l c write

/-! ### `TcpServer` -/

def start (listening : Bool) : List Op := if listening then [] else [.runInLoop .base .listen]

def listen (h : Handler) : List Op :=
  update l .acceptor { h with events := h.events.union .readEvent }

/-- Without worker loops `getNextLoop` ends the process. -/
def handleNewConnection (conn : Nat) : List Op :=
  if l.threadNum = 0 then [.exit] else [.runInLoop (l.lp_ conn) (.connectEstablished conn)]

/-- `Acceptor::handleRead`: `accept` may fail. -/
def acceptorHandleRead : Option Nat → List Op
  | none => []
  | some conn => handleNewConnection l conn

def handleRemoveConnection (conn : Nat) : List Op :=
  [.runInLoop .base (.handleRemoveConnectionInLoop conn)]

/-- `erased` is the assertion that `erase` has removed one element. -/
def handleRemoveConnectionInLoop (conn : Nat) (erased : Bool) : List Op :=
  if erased then [.queueInLoop (l.lp_ conn) (.connectDestroyed conn)] else [.exit]

/-! ### The application -/

/-- A callback of the application other than `messageCb_` makes some public calls; `onTimer` calls
`shutdown` for the entries that it drops. -/
def applicationCb (calls : List PublicCall) : List Op := calls.map fun call => .call (.public_ call)

/-- `messageCb_` uses the buffer it is given (`none`) and makes public calls. -/
def messageCb (conn : Nat) (steps : List (Option PublicCall)) : List Op :=
  steps.map fun
    | none => .access (.inputBuffer conn)
    | some call => .call (.public_ call)

/-- The courses of the calls. -/
inductive Course : ServerFunction → List Op → Prop
  | loop (lp : Loop) (stopLoop : Bool) : Course (.loop lp) (loop stopLoop lp)
  | handleEvents (id : HandlerId) (revents : EventMask) :
    Course (.handleEvents id) (handleEvents id revents)
  | callback (c : TcpConnection) (read : Option Bytes) (write : Option Nat) (cb : EventCallback) :
    Course (.callback c.this cb) (callback l c read write cb)
  | timerHandleRead (lp : Loop) (q : TimerQueue) (expired : List (Ptr × Timer)) :
    Course (.timerHandleRead lp) (timerHandleRead lp q expired)
  | addTimerInLoop (lp : Loop) : Course (.addTimerInLoop lp) (addTimerInLoop lp)
  | cancelInLoop (lp : Loop) (q : TimerQueue) (timer : ActiveTimer) :
    Course (.cancelInLoop lp) (cancelInLoop lp q timer)
  | acceptorHandleRead (accepted : Option Nat) :
    Course .acceptorHandleRead (acceptorHandleRead l accepted)
  | listen (h : Handler) : Course .listen (listen l h)
  | handleRemoveConnection (conn : Nat) :
    Course (.handleRemoveConnection conn) (handleRemoveConnection conn)
  | handleRemoveConnectionInLoop (conn : Nat) (erased : Bool) :
    Course (.handleRemoveConnectionInLoop conn) (handleRemoveConnectionInLoop l conn erased)
  | connectEstablished (c : TcpConnection) :
    Course (.connectEstablished c.this) (connectEstablished l c)
  | connectDestroyed (c : TcpConnection) :
    Course (.connectDestroyed c.this) (connectDestroyed l c)
  | handleClose (c : TcpConnection) : Course (.handleClose c.this) (handleClose l c)
  | sendInLoop (c : TcpConnection) (msg : Bytes) (result : Option Nat) :
    Course (.sendInLoop c.this msg) (sendInLoop l c msg result)
  | shutdownInLoop (conn : Nat) : Course (.shutdownInLoop conn) shutdownInLoop
  | connCb (conn : Nat) (calls : List PublicCall) : Course (.connCb conn) (applicationCb calls)
  | messageCb (conn : Nat) (steps : List (Option PublicCall)) :
    Course (.messageCb conn) (messageCb conn steps)
  | writeCb (conn : Nat) (calls : List PublicCall) : Course (.writeCb conn) (applicationCb calls)
  | timerCallback (calls : List PublicCall) : Course .timerCallback (applicationCb calls)
  | start (listening : Bool) : Course (.public_ .start) (start listening)
  | send (c : TcpConnection) (msg : Bytes) : Course (.public_ (.send c.this msg)) (send l c msg)
  | shutdown (c : TcpConnection) : Course (.public_ (.shutdown c.this)) (shutdown l c)
  | forceClose (c : TcpConnection) : Course (.public_ (.forceClose c.this)) (forceClose l c)
  | runAt (lp : Loop) : Course (.public_ (.runAt lp)) (addTimer lp)
  | runAfter (lp : Loop) : Course (.public_ (.runAfter lp)) (addTimer lp)
  | runEvery (lp : Loop) : Course (.public_ (.runEvery lp)) (addTimer lp)
  | cancel (lp : Loop) : Course (.public_ (.cancel lp)) (cancel lp)

/-- The loop whose thread may make a call, or access data. -/
def Layout.loopOf : Unlocked → Loop
  | .updateHandler lp | .removeHandler lp | .poll lp => lp
  | .timers lp | .activeTimers lp | .cancelingTimers lp => lp
  | .inputBuffer conn | .outputBuffer conn => l.lp_ conn

/-- The loop on whose thread a function runs, if not on any thread. -/
def Layout.home : ServerFunction → Option Loop
  | .loop lp | .timerHandleRead lp | .addTimerInLoop lp | .cancelInLoop lp => some lp
  | .handleEvents id => some (l.ownerLp id)
  | .acceptorHandleRead | .listen | .handleRemoveConnectionInLoop _ => some .base
  | .callback conn _ | .connectEstablished conn | .connectDestroyed conn | .handleClose conn
  | .sendInLoop conn _ | .shutdownInLoop conn | .messageCb conn => some (l.lp_ conn)
  | .handleRemoveConnection _ | .connCb _ | .writeCb _ | .timerCallback | .public_ _ => none

end Functions

/-! ## The functions of `TcpConnection` and `TimerQueue` -/

section Shows
variable {l : Layout} {c c' : TcpConnection} {es : List ConnEffect}

/-- Calls and functions handed over. -/
def isCall : Op → Bool
  | .call _ | .runInLoop _ _ | .queueInLoop _ _ => true
  | _ => false

/-- The call behind what a connection asks of others. -/
def asks (l : Layout) (conn : Nat) : ConnEffect → List Op
  | .write _ | .shutdownWrite => []
  | .queueWriteCb => [.queueInLoop (l.lp_ conn) (.writeCb conn)]
  | .closeCb => [.call (.handleRemoveConnection conn)]
  | .connCb => [.call (.connCb conn)]
  | .messageCb => [.call (.messageCb conn)]

/-- `ops` makes the calls that a function of `c` asks for, and what it does not access stays. -/
structure Shows (l : Layout) (c c' : TcpConnection) (es : List ConnEffect) (ops : List Op) :
    Prop where
  calls : ops.filter isCall = es.flatMap (asks l c.this)
  input : .access (.inputBuffer c.this) ∉ ops → c'.inputBuffer = c.inputBuffer
  output : .access (.outputBuffer c.this) ∉ ops → c'.outputBuffer = c.outputBuffer
  watched : .access (.updateHandler (l.lp_ c.this)) ∉ ops → c'.watched = c.watched

@[simp] theorem filter_update (id : HandlerId) (h : Handler) :
    (update l id h).filter isCall = [] := by
  unfold update
  split <;> rfl

theorem mem_update (conn : Nat) (h : Handler) :
    .access (.updateHandler (l.lp_ conn)) ∈ update l (.conn conn) h := List.mem_cons_self

theorem queueWriteCb_calls (c : TcpConnection) :
    (queueWriteCb l c).filter isCall = c.queueWriteCb.flatMap (asks l c.this) := by
  rw [queueWriteCb, TcpConnection.queueWriteCb]
  split <;> rfl

theorem handleClose_shows (h : c.handleClose = some (c', es)) :
    Shows l c c' es (handleClose l c) := by
  simp only [TcpConnection.handleClose, Option.bind_eq_bind, Option.bind_eq_some_iff,
    Option.guard_eq_some'] at h
  obtain ⟨-, hstate, c₁, hdis, heq⟩ := h
  cases heq
  obtain ⟨-, -, hin, hout⟩ := TcpConnection.update_frame hdis
  rw [handleClose, if_pos hstate]
  exact {
    calls := by
      rw [List.filter_append, disableAll, filter_update]
      rfl
    input _ := hin
    output _ := hout
    watched hno := absurd (List.mem_append_left _ (mem_update ..)) hno }

theorem handleRead_shows {result : Option Bytes} (h : c.handleRead result = some (c', es)) :
    Shows l c c' es (handleRead l c result) := by
  obtain ⟨inputBuffer, -, h⟩ := Option.bind_eq_some_iff.mp h
  match result with
  | none | some (_ :: _) =>
    cases h
    exact ⟨rfl, fun hno => absurd List.mem_cons_self hno, fun _ => rfl, fun _ => rfl⟩
  | some [] =>
    have hclose : Shows l { c with inputBuffer := inputBuffer } c' es (handleClose l c) :=
      handleClose_shows h
    exact {
      calls := hclose.calls
      input hno := absurd List.mem_cons_self hno
      output hno := hclose.output fun hmem => hno (List.mem_cons_of_mem _ hmem)
      watched hno := hclose.watched fun hmem => hno (List.mem_cons_of_mem _ hmem) }

theorem shutdownInLoop_asks (c : TcpConnection) (conn : Nat) :
    c.shutdownInLoop.flatMap (asks l conn) = [] := by
  rw [TcpConnection.shutdownInLoop]
  split <;> rfl

theorem shutdownInLoop_shows (c : TcpConnection) :
    Shows l c c c.shutdownInLoop shutdownInLoop :=
  ⟨(shutdownInLoop_asks c c.this).symm, fun _ => rfl, fun _ => rfl, fun _ => rfl⟩

theorem handleWrite_shows {result : Option Nat} (h : c.handleWrite result = some (c', es)) :
    Shows l c c' es (handleWrite l c result) := by
  cases hwriting : c.isWriting with
  | false =>
    obtain ⟨rfl, rfl⟩ := TcpConnection.handleWrite_idle h hwriting
    rw [handleWrite.eq_def, hwriting]
    exact ⟨rfl, fun _ => rfl, fun _ => rfl, fun _ => rfl⟩
  | true =>
    rw [TcpConnection.handleWrite.eq_def, if_pos hwriting] at h
    rw [handleWrite.eq_def, if_pos hwriting]
    match result with
    | none | some 0 =>
      cases h
      exact ⟨rfl, fun _ => rfl, fun _ => rfl, fun _ => rfl⟩
    | some (n + 1) =>
      obtain ⟨outputBuffer, hret, h⟩ := Option.bind_eq_some_iff.mp h
      simp only [hret]
      simp only at h
      split at h
      · rename_i hempty
        obtain ⟨c₁, hdis, heq⟩ := Option.bind_eq_some_iff.mp h
        cases heq
        obtain ⟨hthis, hcb, hin, -⟩ := TcpConnection.update_frame hdis
        have hqueue : c'.queueWriteCb = c.queueWriteCb := by
          rw [TcpConnection.queueWriteCb, hcb]
          rfl
        have hhalf : (if c'.state = .disconnecting then c'.shutdownInLoop else []).flatMap
            (asks l c.this) = [] := by
          split
          · exact shutdownInLoop_asks c' c.this
          · rfl
        rw [if_pos hempty, shutdownInLoop, ite_self, List.append_nil]
        exact {
          calls := by
            simp [disableWriting, queueWriteCb_calls, hqueue, hhalf, isCall, asks]
          input _ := hin
          output hno := absurd List.mem_cons_self hno
          watched hno := by
            refine absurd ?_ hno
            apply List.mem_append_right
            apply List.mem_append_right
            exact List.mem_append_left _ (mem_update ..) }
      · rename_i hempty
        cases h
        rw [if_neg hempty]
        exact ⟨rfl, fun _ => rfl, fun hno => absurd List.mem_cons_self hno, fun _ => rfl⟩

theorem connectEstablished_shows (h : c.connectEstablished = some (c', es)) :
    Shows l c c' es (connectEstablished l c) := by
  simp only [TcpConnection.connectEstablished, Option.bind_eq_bind, Option.bind_eq_some_iff,
    Option.guard_eq_some'] at h
  obtain ⟨-, hstate, c₁, hen, heq⟩ := h
  cases heq
  obtain ⟨-, -, hin, hout⟩ := TcpConnection.update_frame hen
  rw [connectEstablished, if_pos hstate]
  exact {
    calls := by
      rw [List.filter_append, enableReading, filter_update]
      rfl
    input _ := hin
    output _ := hout
    watched hno := absurd (List.mem_append_left _ (mem_update ..)) hno }

theorem connectDestroyed_shows (h : c.connectDestroyed = some (c', es)) :
    Shows l c c' es (connectDestroyed l c) := by
  simp only [TcpConnection.connectDestroyed, Option.bind_eq_bind, Option.bind_eq_some_iff] at h
  obtain ⟨c₁, hdis, ⟨handler, watched⟩, -, heq⟩ := h
  cases heq
  obtain ⟨-, -, hin, hout⟩ := TcpConnection.update_frame hdis
  exact {
    calls := by
      rw [connectDestroyed, List.filter_append, disableAll, filter_update]
      rfl
    input _ := hin
    output _ := hout
    watched hno := absurd (List.mem_append_left _ (mem_update ..)) hno }

/-- The write-complete callback is queued after a complete direct write. -/
theorem writeDirect_calls (c : TcpConnection) (msg : Bytes) (result : Option Nat) :
    (if result = some msg.length then queueWriteCb l c else []).filter isCall =
      (c.writeDirect msg result).flatMap (asks l c.this) := by
  cases result with
  | none => rfl
  | some n =>
    rw [TcpConnection.writeDirect]
    simp only [Option.some.injEq]
    split
    · exact queueWriteCb_calls c
    · rfl

theorem sendInLoop_shows {msg : Bytes} {result : Option Nat}
    (h : c.sendInLoop msg result = some (c', es)) :
    Shows l c c' es (sendInLoop l c msg result) := by
  have hin := (TcpConnection.sendInLoop_writes h).input
  have hes := TcpConnection.sendInLoop_effects h
  unfold TcpConnection.sendInLoop at h
  unfold sendInLoop
  generalize (!c.isWriting && c.outputBuffer.readableBytes == 0) = direct at h hes ⊢
  dsimp only at h ⊢
  generalize (if direct then result.getD 0 else 0) = n at h ⊢
  have hfront : ((if c.isWriting then [] else [.access (.outputBuffer c.this)]) :
      List Op).filter isCall = [] := by
    split <;> rfl
  have hback : (if c.isWriting then [] else enableWriting l c).filter isCall = [] := by
    split
    · rfl
    · exact filter_update ..
  have hcalls : (if direct ∧ result = some msg.length then queueWriteCb l c else []).filter isCall =
      es.flatMap (asks l c.this) := by
    cases direct with
    | false =>
      obtain rfl : es = [] := hes
      simp
    | true =>
      obtain rfl : es = c.writeDirect msg result := hes
      simp only [true_and]
      exact writeDirect_calls c msg result
  split at h
  · rename_i hlt
    obtain ⟨c₁, hqueue, heq⟩ := Option.bind_eq_some_iff.mp h
    cases heq
    obtain ⟨outputBuffer, -, hqueue⟩ := Option.bind_eq_some_iff.mp hqueue
    rw [if_pos hlt]
    refine ⟨?_, fun _ => hin, fun hno => ?_, fun hno => ?_⟩
    · rw [List.filter_append, List.filter_append, hfront, hcalls,
        List.filter_cons_of_neg Bool.false_ne_true, hback, List.nil_append, List.append_nil]
    · exact absurd (List.mem_append_right _ List.mem_cons_self) hno
    · simp only at hqueue
      split at hqueue
      · cases hqueue
        rfl
      · rename_i hwriting
        have hidle : c.isWriting ≠ true := hwriting
        refine absurd (List.mem_append_right _ (List.mem_cons_of_mem _ ?_)) hno
        rw [if_neg hidle]
        exact mem_update ..
  · rename_i hle
    cases h
    rw [if_neg hle]
    refine ⟨?_, fun _ => rfl, fun _ => rfl, fun _ => rfl⟩
    rw [List.filter_append, List.filter_append, hfront, hcalls, List.filter_nil,
      List.nil_append, List.append_nil]

/-- A callback of the handler. -/
theorem callback_shows {read : Option Bytes} {write : Option Nat} {cb : EventCallback}
    (h : c.callback read write cb = some (c', es)) :
    Shows l c c' es (callback l c read write cb) := by
  cases cb with
  | closeCb => exact handleClose_shows h
  | errorCb =>
    cases h
    exact ⟨rfl, fun _ => rfl, fun _ => rfl, fun _ => rfl⟩
  | readCb => exact handleRead_shows h
  | writeCb => exact handleWrite_shows h

/-- The loop's thread runs a function of `c`, which becomes `c'` and asks for `es`. -/
inductive Runs (c c' : TcpConnection) (es : List ConnEffect) : ServerFunction → Prop
  | callback {read : Option Bytes} {write : Option Nat} {cb : EventCallback}
    (h : c.callback read write cb = some (c', es)) : Runs c c' es (.callback c.this cb)
  | connectEstablished (h : c.connectEstablished = some (c', es)) :
    Runs c c' es (.connectEstablished c.this)
  | connectDestroyed (h : c.connectDestroyed = some (c', es)) :
    Runs c c' es (.connectDestroyed c.this)
  | handleClose (h : c.handleClose = some (c', es)) : Runs c c' es (.handleClose c.this)
  | sendInLoop {msg : Bytes} {result : Option Nat} (h : c.sendInLoop msg result = some (c', es)) :
    Runs c c' es (.sendInLoop c.this msg)
  | shutdownInLoop (hconn : c' = c) (h : es = c.shutdownInLoop) :
    Runs c c' es (.shutdownInLoop c.this)

/-- Whatever a function of the connection does is one of its courses. -/
theorem Runs.course {f : ServerFunction} (h : Runs c c' es f) :
    ∃ ops, Course l f ops ∧ Shows l c c' es ops := by
  cases h with
  | callback h => exact ⟨_, .callback c _ _ _, callback_shows h⟩
  | connectEstablished h => exact ⟨_, .connectEstablished c, connectEstablished_shows h⟩
  | connectDestroyed h => exact ⟨_, .connectDestroyed c, connectDestroyed_shows h⟩
  | handleClose h => exact ⟨_, .handleClose c, handleClose_shows h⟩
  | sendInLoop h => exact ⟨_, .sendInLoop c _ _, sendInLoop_shows h⟩
  | shutdownInLoop hconn h =>
    subst hconn h
    exact ⟨_, .shutdownInLoop _, shutdownInLoop_shows _⟩

/-! ### The timers -/

section Timers
variable {lp : Loop} {q q' : TimerQueue} {ops : List Op}

/-- The sets of timers that `ops` does not access stay. -/
structure ShowsTimers (lp : Loop) (q q' : TimerQueue) (ops : List Op) : Prop where
  timers : .access (.timers lp) ∉ ops → q'.timers = q.timers
  activeTimers : .access (.activeTimers lp) ∉ ops → q'.activeTimers = q.activeTimers
  cancelingTimers : .access (.cancelingTimers lp) ∉ ops → q'.cancelingTimers = q.cancelingTimers

theorem insert_shows {timer : Ptr} {earliestChanged : Bool}
    (h : q.insert timer = some (q', earliestChanged)) : ShowsTimers lp q q' (insert lp) := by
  simp only [TimerQueue.insert, Option.bind_eq_bind, Option.bind_eq_some_iff] at h
  obtain ⟨t, -, -, -, -, -, -, -, heq⟩ := h
  cases heq
  exact {
    timers hno := absurd List.mem_cons_self hno
    activeTimers hno := absurd (by simp [insert]) hno
    cancelingTimers _ := rfl }

theorem addTimerInLoop_shows {timer : Ptr} {clock : Timestamp} {settime : Option Timespec}
    (h : q.addTimerInLoop timer clock = some (q', settime)) :
    ShowsTimers lp q q' (addTimerInLoop lp) := by
  obtain ⟨⟨q₁, earliestChanged⟩, hins, h⟩ := Option.bind_eq_some_iff.mp h
  simp only at h
  split at h
  · obtain ⟨t, -, heq⟩ := Option.bind_eq_some_iff.mp h
    cases heq
    exact insert_shows hins
  · cases h
    exact insert_shows hins

theorem cancelInLoop_shows {timer : ActiveTimer} (h : q.cancelInLoop timer = some q') :
    ShowsTimers lp q q' (cancelInLoop lp q timer) := by
  have htimers : .access (.timers lp) ∈ cancelInLoop lp q timer := by
    simp [cancelInLoop, assertSizes]
  have hactive : .access (.activeTimers lp) ∈ cancelInLoop lp q timer := by
    simp [cancelInLoop, assertSizes]
  refine ⟨absurd htimers, absurd hactive, fun hno => ?_⟩
  obtain ⟨-, -, h⟩ := Option.bind_eq_some_iff.mp h
  cases hfind : q.activeTimers.find? timer.key with
  | none =>
    rw [hfind] at h
    cases hcalling : q.callingExpiredTimers with
    | false =>
      simp only [hcalling, Bool.false_eq_true, if_false, pure_bind] at h
      obtain ⟨-, -, heq⟩ := Option.bind_eq_some_iff.mp h
      cases heq
      rfl
    | true => exact absurd (by simp [cancelInLoop, hfind, hcalling]) hno
  | some it =>
    simp only [hfind, Option.bind_eq_bind, Option.bind_eq_some_iff] at h
    obtain ⟨t, -, -, -, heap, -, q₁, hq, -, -, heq⟩ := h
    cases hq
    cases heq
    rfl

theorem getExpired_shows {now : Timestamp} {expired : List Entry} {timers : List (Ptr × Timer)}
    (h : q.getExpired now = some (q', expired)) :
    ShowsTimers lp q q' (getExpired lp timers) := by
  have hactive : .access (.activeTimers lp) ∈ getExpired lp timers := by
    simp [getExpired, assertSizes]
  simp only [TimerQueue.getExpired, Option.bind_eq_bind, Option.bind_eq_some_iff] at h
  obtain ⟨-, -, activeTimers, -, -, -, heq⟩ := h
  cases heq
  exact ⟨absurd List.mem_cons_self, absurd hactive, fun _ => rfl⟩

theorem resetOne_shows {now : Timestamp} {timer : Ptr} {t : Timer}
    (ht : q.heap.deref timer = some t) (h : q.resetOne now timer = some q') :
    ShowsTimers lp q q' (resetOne lp q (timer, t)) := by
  rw [TimerQueue.resetOne, ht] at h
  simp only [Option.bind_eq_bind, Option.bind_some] at h
  split at h
  · rename_i hagain
    obtain ⟨heap, -, h⟩ := Option.bind_eq_some_iff.mp h
    obtain ⟨⟨q₁, earliestChanged⟩, hins, heq⟩ := Option.bind_eq_some_iff.mp h
    cases heq
    have hshows : ShowsTimers lp { q with heap := heap } q₁ (insert lp) := insert_shows hins
    rw [resetOne, if_pos hagain.1, if_pos hagain.2]
    exact {
      timers hno := hshows.timers fun hmem => hno (List.mem_cons_of_mem _ hmem)
      activeTimers hno := hshows.activeTimers fun hmem => hno (List.mem_cons_of_mem _ hmem)
      cancelingTimers hno := absurd List.mem_cons_self hno }
  · obtain ⟨heap, -, heq⟩ := Option.bind_eq_some_iff.mp h
    cases heq
    exact ⟨fun _ => rfl, fun _ => rfl, fun _ => rfl⟩

end Timers

/-- What a step of `onMessage` asks of its connection. -/
def request (conn : Nat) : Effect → Option PublicCall
  | .send msg => some (.send conn msg)
  | .forceClose => some (.forceClose conn)
  | .log _ => none

/-- `n` steps of `webServer::onMessage`: each works on the buffer, and then asks. -/
def onMessage (conn : Nat) (env : Env) : Nat → OnMessage → List (Option PublicCall)
  | 0, _ => []
  | n + 1, s =>
    none :: ((OnMessage.step env s).2.filterMap (request conn)).map some ++
      onMessage conn env n (OnMessage.step env s).1

theorem messageCb_append (conn : Nat) (steps steps' : List (Option PublicCall)) :
    messageCb conn (steps ++ steps') = messageCb conn steps ++ messageCb conn steps' :=
  List.map_append

theorem messageCb_calls (conn : Nat) (calls : List PublicCall) :
    (messageCb conn (calls.map some)).filter isCall =
      calls.map fun call => .call (.public_ call) := by
  induction calls with
  | nil => rfl
  | cons call calls ih => exact congrArg (_ :: ·) ih

/-- `onMessage` is one of the callbacks of `messageCb`. -/
theorem onMessage_course (conn : Nat) (env : Env) (n : Nat) (s : OnMessage) :
    ∃ ops, Course l (.messageCb conn) ops ∧ ops.filter isCall =
      (((OnMessage.machine env).run n s).2.filterMap (request conn)).map
        fun call => .call (.public_ call) := by
  refine ⟨_, .messageCb conn (onMessage conn env n s), ?_⟩
  induction n generalizing s with
  | zero => rfl
  | succ n ih =>
    have hbuffer (steps : List (Option PublicCall)) :
        (messageCb conn (none :: steps)).filter isCall = (messageCb conn steps).filter isCall :=
      rfl
    rw [onMessage, List.cons_append, hbuffer, messageCb_append, List.filter_append,
      messageCb_calls, ih, Machine.run, List.filterMap_append, List.map_append]

end Shows

/-! ## All threads -/

section System
variable {T : Type*} (tid : Loop → T) (l : Layout)

/-- A thread runs the loop that it has constructed, and any thread makes public calls. -/
inductive Entry : T → ServerFunction → Prop
  | loop (lp : Loop) : Entry (tid lp) (.loop lp)
  | public_ (t : T) (call : PublicCall) : Entry t (.public_ call)

/-- All threads. A loop starts with the handlers of its constructor and of its timer queue. -/
def serverLoops : LoopSystem T Loop ServerFunction Unlocked where
  tid := tid
  loopOf := l.loopOf
  Course := Course l
  Entry := Entry tid
  handlers lp := [.handleEvents (.wakeup lp), .handleEvents (.timerfd lp)]

end System
end Threads
end Httpancake
