import Httpancake.Lib.Program
import Httpancake.Network.TcpConnection

/-! # One connection and the threads that use it

The loop thread of a connection runs the callbacks of its handler and the functors queued on its
loop, and calls `send`, `shutdown` and `forceClose` itself. Other threads call these functions too:
they test `state_`, change it in `shutdown`, and queue a functor, in separate steps. After
`closeCb_` the base loop queues `connectDestroyed`.

The run starts after `connectEstablished`. -/

namespace Httpancake

/-- A functor queued on the loop; `sender` is the thread that called `send`. -/
inductive InLoopFunction where
  | sendInLoop (sender : Nat) (msg : Bytes)
  | shutdownInLoop
  | handleClose
  | writeComplete
  | connectDestroyed
deriving DecidableEq, Repr

inductive Api where
  | send (msg : Bytes)
  | shutdown
  | forceClose
deriving DecidableEq, Repr

/-- What a thread still has to do in a call that found `state_` to be `CONNECTED`. -/
inductive Call where
  | queueSend (msg : Bytes)
  | setDisconnecting
  | queueShutdown
  | queueClose
deriving DecidableEq, Repr

def Api.enter : Api → Call
  | .send msg => .queueSend msg
  | .shutdown => .setDisconnecting
  | .forceClose => .queueClose

structure ConnSystem where
  conn : TcpConnection
  pendingFuncs : List InLoopFunction
  /-- The functors that `doPendingFuncs_` has swapped out and not run yet. -/
  funcs : List InLoopFunction
  /-- `revents_` while the handler waits in `activeQueue_`. -/
  active : Option EventMask
  /-- The callbacks that `handleEvents` still has to make. -/
  callbacks : List EventCallback
  /-- The calls of the other threads. -/
  calls : Nat → Option Call
  /-- The calls of `closeCb_` that the base loop has not answered yet. -/
  removals : Nat
  /-- Everything the connection asked of others so far. -/
  log : List ConnEffect
  /-- The messages that `send` accepted, with the thread: `none` is the loop thread. -/
  sent : List (Option Nat × Bytes)
  /-- The messages whose `sendInLoop` has run. -/
  ran : List (Option Nat × Bytes)
  /-- A call of `shutdown` has set the state. -/
  shutdownTaken : Bool
  /-- `connectDestroyed` has run. -/
  destroyed : Bool

inductive ConnAction where
  /-- Another thread enters a function and tests `state_`. -/
  | call (thread : Nat) (api : Api)
  /-- It does its next step there. -/
  | advance (thread : Nat)
  /-- A call on the loop thread. -/
  | loopCall (api : Api) (write : Option Nat)
  | poll (revents : EventMask)
  | dispatch
  | callback (read : Option Bytes) (write : Option Nat)
  | swap
  | runFunctor (write : Option Nat)
  /-- The base loop queues `connectDestroyed`. -/
  | remove

namespace ConnSystem

/-- After `connectEstablished`. -/
def established (this : Nat) (writeCb : Bool) : TcpConnection :=
  { TcpConnection.make this writeCb with
    state := .connected
    handler := ⟨.readEvent, .using_⟩
    watched := ⟨some this, some .readEvent⟩ }

theorem connectEstablished_make (this : Nat) (writeCb : Bool) :
    (TcpConnection.make this writeCb).connectEstablished =
      some (established this writeCb, [.connCb]) := rfl

def init (this : Nat) (writeCb : Bool) : ConnSystem where
  conn := established this writeCb
  pendingFuncs := []
  funcs := []
  active := none
  callbacks := []
  calls := fun _ => none
  removals := 0
  log := []
  sent := []
  ran := []
  shutdownTaken := false
  destroyed := false

/-- A functor queued by the connection itself. -/
def queued : ConnEffect → Option InLoopFunction
  | .queueWriteCb => some .writeComplete
  | _ => none

/-- The state after a function of the connection. -/
def after (s : ConnSystem) (c : TcpConnection) (effects : List ConnEffect) : ConnSystem :=
  { s with
    conn := c
    pendingFuncs := s.pendingFuncs ++ effects.filterMap queued
    removals := s.removals + effects.count .closeCb
    log := s.log ++ effects }

def setCall (s : ConnSystem) (thread : Nat) (call : Option Call) : ConnSystem :=
  { s with calls := Function.update s.calls thread call }

def queueInLoop (s : ConnSystem) (f : InLoopFunction) : ConnSystem :=
  { s with pendingFuncs := s.pendingFuncs ++ [f] }

/-- The message that a call sends. -/
def messageOf (sender : Option Nat) : Api → List (Option Nat × Bytes)
  | .send msg => [(sender, msg)]
  | _ => []

/-- The thread tests `state_`. -/
def call (s : ConnSystem) (thread : Nat) (api : Api) : ConnSystem :=
  if s.conn.state = .connected then
    { s.setCall thread (some api.enter) with sent := s.sent ++ messageOf (some thread) api }
  else s

def advance (s : ConnSystem) (thread : Nat) : Call → ConnSystem
  | .queueSend msg => (s.setCall thread none).queueInLoop (.sendInLoop thread msg)
  | .setDisconnecting =>
    { s.setCall thread (some .queueShutdown) with
      conn := { s.conn with state := .disconnecting }, shutdownTaken := true }
  | .queueShutdown => (s.setCall thread none).queueInLoop .shutdownInLoop
  | .queueClose => (s.setCall thread none).queueInLoop .handleClose

def loopCall (s : ConnSystem) (write : Option Nat) : Api → Option ConnSystem
  | .send msg => do
    let (c, effects) ← s.conn.send msg write
    if s.conn.state = .connected then
      return { s.after c effects with
        sent := s.sent ++ [(none, msg)], ran := s.ran ++ [(none, msg)] }
    else
      return s.after c effects
  | .shutdown =>
    let (c, effects) := s.conn.shutdown
    if s.conn.state = .connected then
      some { s.after c effects with shutdownTaken := true }
    else
      some (s.after c effects)
  | .forceClose => do
    let (c, effects) ← s.conn.forceClose
    return s.after c effects

def runFunctor (s : ConnSystem) (write : Option Nat) : InLoopFunction → Option ConnSystem
  | .sendInLoop sender msg => do
    let (c, effects) ← s.conn.sendInLoop msg write
    return { s.after c effects with ran := s.ran ++ [(some sender, msg)] }
  | .shutdownInLoop => some (s.after s.conn s.conn.shutdownInLoop)
  | .handleClose => do
    let (c, effects) ← s.conn.handleClose
    return s.after c effects
  | .writeComplete => some s
  | .connectDestroyed => do
    let (c, effects) ← s.conn.connectDestroyed
    return { s.after c effects with destroyed := true }

/-- The loop thread has handled its events. -/
def Handled (s : ConnSystem) : Prop := s.active = none ∧ s.callbacks = []

/-- `epoll_wait` reports what is registered, and `::write` accepts no more than it was offered. -/
def Pre (s : ConnSystem) : ConnAction → Prop
  | .call thread _ => s.calls thread = none
  | .advance thread => s.calls thread ≠ none
  | .loopCall (.send msg) write => TcpConnection.WriteOk msg.length write
  | .loopCall _ _ => True
  | .poll revents => s.Handled ∧ s.funcs = [] ∧
      ∃ interest, s.conn.watched.interest = some interest ∧ revents.Reportable interest
  | .dispatch => s.active ≠ none ∧ s.callbacks = []
  | .callback _ write => s.callbacks ≠ [] ∧
      TcpConnection.WriteOk s.conn.outputBuffer.readableBytes write
  | .swap => s.Handled ∧ s.funcs = []
  | .runFunctor write => s.Handled ∧ s.funcs ≠ [] ∧
      ∀ sender msg, s.funcs.head? = some (.sendInLoop sender msg) →
        TcpConnection.WriteOk msg.length write
  | .remove => 0 < s.removals

def exec (s : ConnSystem) : ConnAction → Option ConnSystem
  | .call thread api => some (s.call thread api)
  | .advance thread => (s.calls thread).map (s.advance thread)
  | .loopCall api write => s.loopCall write api
  | .poll revents => some { s with active := some revents }
  | .dispatch =>
    s.active.map fun revents =>
      { s with active := none, callbacks := Handler.handleEvents revents }
  | .callback read write =>
    match s.callbacks with
    | [] => none
    | cb :: callbacks => do
      let (c, effects) ← s.conn.callback read write cb
      return { s.after c effects with callbacks := callbacks }
  | .swap => some { s with funcs := s.pendingFuncs, pendingFuncs := [] }
  | .runFunctor write =>
    match s.funcs with
    | [] => none
    | f :: funcs => { s with funcs := funcs }.runFunctor write f
  | .remove => some { s.queueInLoop .connectDestroyed with removals := s.removals - 1 }

def program : Program ConnSystem ConnAction Unit where
  pre := Pre
  exec s a := (s.exec a).map (·, ())

/-- The step runs `handleClose`. -/
def EntersHandleClose (s : ConnSystem) : ConnAction → Prop
  | .callback read _ => s.callbacks.head? = some .closeCb ∨
      s.callbacks.head? = some .readCb ∧ read = some []
  | .runFunctor _ => s.funcs.head? = some .handleClose
  | .loopCall .forceClose _ => s.conn.state = .connected
  | _ => False

theorem exec_sendInLoop {s : ConnSystem} {sender : Nat} {msg : Bytes} {write : Option Nat}
    {funcs : List InLoopFunction} {c : TcpConnection} {es : List ConnEffect}
    (hfuncs : s.funcs = .sendInLoop sender msg :: funcs)
    (hsend : s.conn.sendInLoop msg write = some (c, es)) :
    program.exec s (.runFunctor write) = some ({ { s with funcs := funcs }.after c es with
      ran := s.ran ++ [(some sender, msg)] }, ()) := by
  simp [program, exec, hfuncs, runFunctor, hsend]

/-! ## A message of which a part waits -/

/-- `outputBuffer_` with what the socket has not taken. -/
def waitingConn (rest : Bytes) : TcpConnection :=
  { established 0 false with
    handler := ⟨EventMask.readEvent.union .writeEvent, .using_⟩
    watched := ⟨some 0, some (EventMask.readEvent.union .writeEvent)⟩
    outputBuffer := ⟨Bytes.overwrite Buffer.fresh.buffer kCheapPrepend rest, kCheapPrepend,
      kCheapPrepend + rest.length⟩ }

/-- After `send([1, 2])`, of which one byte was written. -/
def partlySent : ConnSystem :=
  { (init 0 false).after (waitingConn [2]) [.write [1]] with
    sent := [(none, [1, 2])], ran := [(none, [1, 2])] }

theorem exec_partlySent :
    program.exec (init 0 false) (.loopCall (.send [1, 2]) (some 1)) = some (partlySent, ()) := by
  have hsend : (established 0 false).send [1, 2] (some 1) =
      some (waitingConn [2], [.write [1]]) := by decide +kernel
  simp only [program, exec, loopCall, init, hsend]
  rfl

end ConnSystem
end Httpancake
