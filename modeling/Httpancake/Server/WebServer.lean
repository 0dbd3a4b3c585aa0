import Httpancake.Http.IdleTimeout
import Httpancake.Network.Outcomes
import Mathlib.Algebra.Group.Int.Defs

/-! # The server

`webServer` on its `TcpServer`: the base loop accepts connections, drops idle ones and removes
closed ones; each worker loop handles the events of its connections, runs `onMessage` on what they
received, and establishes and destroys them. One action is one step of one of these threads.

A connection is a number. Its record is kept when the object goes; `WebServer.Referenced` says
whether a `TcpConnectionPtr` still exists. An action answers the accesses to the tables of the
server that it makes, with the thread, and `none` where the process ends.

`boost::circular_buffer` assigns the new bucket to the oldest element, which destroys the entries in
it one by one, and only then makes it `back()`. The worker loops go on meanwhile: an entry can be
locked, and inserted again, until its own `EntryPtr` in the oldest bucket goes. -/

namespace Httpancake

open Bytes

/-- What is fixed for the life of a server. -/
structure ServerConfig where
  serverName : Bytes
  fileDir : Bytes
  threadNum : Nat
  expiredSec : Int

/-- The idle timeout is in use. -/
def ServerConfig.Expires (cfg : ServerConfig) : Prop := 0 < cfg.expiredSec

instance (cfg : ServerConfig) : Decidable cfg.Expires := inferInstanceAs (Decidable (_ < _))

/-- The position of a loop's thread in an iteration of `EventLoop::loop`. -/
inductive LoopStage where
  | poll | events | funcs
deriving DecidableEq, Repr

/-- A functor on a worker loop. The first two hold a `TcpConnectionPtr`, the last is bound to
`this`. -/
inductive WorkFunction where
  | connectEstablished (conn : Nat)
  | connectDestroyed (conn : Nat)
  | shutdownInLoop (conn : Nat)
deriving DecidableEq, Repr

def WorkFunction.conn : WorkFunction → Nat
  | connectEstablished conn | connectDestroyed conn | shutdownInLoop conn => conn

def WorkFunction.holds : WorkFunction → Bool
  | connectEstablished _ | connectDestroyed _ => true
  | shutdownInLoop _ => false

/-- A call of `onMessage` that is running. -/
structure Message where
  conn : Nat
  fs : FileSystem
  pc : Pc
  fsCalls : Nat

structure WorkLoop where
  stage : LoopStage
  pendingFuncs : List WorkFunction
  /-- The rest of the batch of `doPendingFuncs_`. -/
  funcs : List WorkFunction
  /-- The functors of the batch that have been called; the vector still holds them. -/
  called : List WorkFunction
  /-- The handlers that `poll` reported, with `revents_`. -/
  activeQueue : List (Nat × EventMask)
  /-- The callbacks that the current `handleEvents` still has to make. -/
  callbacks : List (Nat × EventCallback)
  message : Option Message

/-- What `~Entry` does next on the connection that it has locked. -/
inductive EntryStep where
  | test | setDisconnecting | queueShutdown | release
deriving DecidableEq, Repr

/-- The functors are calls of `handleRemoveConnectionInLoop`. -/
structure BaseLoop where
  stage : LoopStage
  pendingFuncs : List Nat
  funcs : List Nat
  called : List Nat
  /-- A call of `onTimer` is running. -/
  ticking : Bool
  /-- The entries of the oldest bucket that are still to be released. -/
  expired : List Nat
  entry : Option (Nat × EntryStep)

structure ServerConn where
  tcp : TcpConnection
  http : HttpTcpConnection
  connName : Bytes
  /-- Its worker loop. -/
  lp : Nat
  /-- The context holds a weak pointer to an entry. -/
  context : Bool
  /-- Everything the connection asked of others so far. -/
  log : List ConnEffect
  /-- The runs of `connectDestroyed`. -/
  destructions : Nat

structure WebServer where
  /-- `next_` of the thread pool. -/
  next : Nat
  nextConnId : Int
  /-- The number of connections that were accepted. -/
  count : Nat
  conns : Nat → ServerConn
  connections : Bytes → Option Nat
  /-- From `back()` on. -/
  connBuckets : List Bucket
  base : BaseLoop
  workers : Nat → WorkLoop

inductive ServerThread where
  | base
  | worker (w : Nat)
deriving DecidableEq, Repr

/-- The tables of the server that nothing locks. -/
inductive SharedTable where
  | connections | connBuckets
deriving DecidableEq, Repr

abbrev Access := ServerThread × SharedTable

inductive ServerAction where
  | basePoll
  | accept
  /-- The oldest set has its entries in the given order. -/
  | onTimer (order : List Nat)
  /-- The next step of a running `onTimer`. -/
  | destroyEntry
  | baseSwap
  | baseCall
  | baseEnd
  | poll (w : Nat) (events : List (Nat × EventMask))
  | dispatch (w : Nat)
  | callback (w : Nat) (read : Option Bytes) (write : Option Nat) (fs : FileSystem)
  | onMessage (w : Nat) (write : Option Nat)
  | swap (w : Nat)
  | call (w : Nat)
  | endBatch (w : Nat)
  /-- A system call fails on which the code exits: `::shutdown`, `::close`, `::getsockname`,
  `epoll_wait`, `epoll_ctl`, or a `write` or `read` on an `eventfd`. -/
  | exit (t : ServerThread)

def ServerConn.make (this : Nat) (connName : Bytes) (lp : Nat) : ServerConn where
  tcp := .make this false
  http := .fresh
  connName := connName
  lp := lp
  context := false
  log := []
  destructions := 0

namespace ServerConn

/-- The connection after one of its functions. -/
def after (c : ServerConn) (tcp : TcpConnection) (es : List ConnEffect) : ServerConn :=
  { c with tcp := tcp, log := c.log ++ es }

/-- `setState(DISCONNECTING)`. -/
def setDisconnecting (c : ServerConn) : ServerConn :=
  { c with tcp := { c.tcp with state := .disconnecting } }

/-- `onMessage` where the running call has come to. -/
def frame (c : ServerConn) (m : Message) : OnMessage where
  pc := m.pc
  conn := c.http
  inBuffer := c.tcp.inputBuffer
  fsCalls := m.fsCalls

def env (cfg : ServerConfig) (c : ServerConn) (m : Message) : Env where
  fileDir := cfg.fileDir
  connName := c.connName
  fs := m.fs

/-- The connection with what `onMessage` has changed in it. -/
def ofFrame (c : ServerConn) (frame : OnMessage) : ServerConn :=
  { c with http := frame.conn, tcp := { c.tcp with inputBuffer := frame.inBuffer } }

end ServerConn

namespace WebServer

/-! ## The base loop -/

/-- `std::to_string` and `%d`. -/
def decimal (n : Int) : Bytes := ascii (toString n)

/-- The name of the next connection. -/
def connName (cfg : ServerConfig) (s : WebServer) : Bytes :=
  cfg.serverName ++ ascii "#" ++ decimal s.nextConnId

/-- `++` on a 32-bit `int`. -/
def succ32 (n : Int) : Int := (n + 1).bmod (2 ^ 32)

def modifyWorker (s : WebServer) (w : Nat) (f : WorkLoop → WorkLoop) : WebServer :=
  { s with workers := Function.update s.workers w (f (s.workers w)) }

def queueInLoop (s : WebServer) (w : Nat) (f : WorkFunction) : WebServer :=
  s.modifyWorker w fun l => { l with pendingFuncs := l.pendingFuncs ++ [f] }

/-- `connections_[connName] = conn`, for a connection on the next worker loop. -/
def addConnection (cfg : ServerConfig) (s : WebServer) : WebServer :=
  { s with
    next := if s.next + 1 = cfg.threadNum then 0 else s.next + 1
    nextConnId := succ32 s.nextConnId
    count := s.count + 1
    conns := Function.update s.conns s.count (.make s.count (s.connName cfg) s.next)
    connections := Function.update s.connections (s.connName cfg) (some s.count) }

/-- Without worker loops `getNextLoop` ends the process. -/
def handleNewConnection (cfg : ServerConfig) (s : WebServer) : Option WebServer :=
  if cfg.threadNum = 0 then none
  else some ((s.addConnection cfg).queueInLoop s.next (.connectEstablished s.count))

def eraseConnection (s : WebServer) (connName : Bytes) : WebServer :=
  { s with connections := Function.update s.connections connName none }

/-- The base loop comes to the call for `conn`. -/
def baseCalled (s : WebServer) (conn : Nat) (funcs : List Nat) : WebServer :=
  { s with base := { s.base with funcs := funcs, called := s.base.called ++ [conn] } }

/-- `erase` removes one element if the name is a key, and anything else fails the assertion. -/
def handleRemoveConnectionInLoop (s : WebServer) (conn : Nat) : Option WebServer :=
  let c := s.conns conn
  if (s.connections c.connName).isSome then
    some ((s.eraseConnection c.connName).queueInLoop c.lp (.connectDestroyed conn))
  else none

/-- A `TcpConnectionPtr` exists: in `connections_`, in a functor of the base loop or of the worker
loop, or locked by `~Entry`. -/
def Referenced (s : WebServer) (conn : Nat) : Prop :=
  let c := s.conns conn
  let l := s.workers c.lp
  s.connections c.connName = some conn ∨
    conn ∈ s.base.called ++ s.base.funcs ++ s.base.pendingFuncs ∨
    (∃ f ∈ l.called ++ l.funcs ++ l.pendingFuncs, f.holds ∧ f.conn = conn) ∨
    ∃ e ∈ s.base.entry, e.1 = conn

instance (s : WebServer) (conn : Nat) : Decidable (s.Referenced conn) :=
  inferInstanceAs (Decidable (_ ∨ _ ∨ _ ∨ _))

/-- A connection has become `c`, and has asked for `es`: `closeCb_` is `handleRemoveConnection`,
which queues on the base loop. -/
def after (s : WebServer) (conn : Nat) (c : ServerConn) (es : List ConnEffect) : WebServer :=
  { s with
    conns := Function.update s.conns conn c
    base := { s.base with
      pendingFuncs := s.base.pendingFuncs ++ List.replicate (es.count .closeCb) conn } }

/-- `connBuckets_.push_back(Bucket())` begins. -/
def onTimer (cfg : ServerConfig) (s : WebServer) (order : List Nat) : WebServer :=
  { s with
    connBuckets := IdleTimeout.kept cfg.expiredSec.toNat s.connBuckets
    base := { s.base with ticking := true, expired := order } }

/-- All entries of the oldest bucket are released, and it is the new one. -/
def endTimer (s : WebServer) : WebServer :=
  { s with connBuckets := [] :: s.connBuckets, base := { s.base with ticking := false } }

def setEntry (s : WebServer) (entry : Option (Nat × EntryStep)) : WebServer :=
  { s with base := { s.base with entry := entry } }

/-- The next `EntryPtr` of the oldest bucket goes. If it was the last one, `~Entry` runs:
`weakConn_.lock()`, and `shutdown` of the connection if there is one. -/
def destroyEntry (s : WebServer) : WebServer :=
  match s.base.entry with
  | none =>
    match s.base.expired with
    | [] => s.endTimer
    | conn :: expired =>
      let s' := { s with base := { s.base with expired := expired } }
      if s.connBuckets.any (conn ∈ ·) then s'
      else if s.Referenced conn then s'.setEntry (some (conn, .test)) else s'
  | some (conn, .test) =>
    s.setEntry (some (conn,
      if (s.conns conn).tcp.state = .connected then .setDisconnecting else .release))
  | some (conn, .setDisconnecting) =>
    (s.setEntry (some (conn, .queueShutdown))).after conn (s.conns conn).setDisconnecting []
  | some (conn, .queueShutdown) =>
    (s.setEntry (some (conn, .release))).queueInLoop (s.conns conn).lp (.shutdownInLoop conn)
  | some (_, .release) => s.setEntry none

/-! ## The worker loops -/

/-- `connBuckets_.back().insert(entryPtr)`. A single bucket that is being destroyed must not be
inserted into. -/
def insertBack (connBuckets : List Bucket) (conn : Nat) : Option (List Bucket) :=
  match connBuckets with
  | [] => none
  | bucket :: buckets => some (bucket.insert conn :: buckets)

/-- `weakEntryPtr.lock()` succeeds. -/
def EntryAlive (s : WebServer) (conn : Nat) : Prop :=
  s.connBuckets.any (conn ∈ ·) ∨ conn ∈ s.base.expired

instance (s : WebServer) (conn : Nat) : Decidable (s.EntryAlive conn) :=
  inferInstanceAs (Decidable (_ ∨ _))

def onConnection (cfg : ServerConfig) (s : WebServer) (conn : Nat) :
    Option (WebServer × List SharedTable) :=
  let c := s.conns conn
  if c.tcp.state = .connected then
    if cfg.Expires then do
      let connBuckets ← insertBack s.connBuckets conn
      return ({ s with
          connBuckets
          conns := Function.update s.conns conn { c with context := true } }, [.connBuckets])
    else some (s, [])
  else some (s, [.connections])

/-- The head of `onMessage`, the lock and the insertion in one step; the rest are steps of their
own. -/
def enterMessage (cfg : ServerConfig) (s : WebServer) (w conn : Nat) (fs : FileSystem) :
    Option (WebServer × List SharedTable) :=
  let s' := s.modifyWorker w fun l => { l with message := some ⟨conn, fs, .parseUrl, 0⟩ }
  if cfg.Expires then
    if (s.conns conn).context then
      if s.EntryAlive conn then
        (insertBack s.connBuckets conn).map fun connBuckets =>
          ({ s' with connBuckets }, [.connBuckets])
      else some (s', [])
    else none
  else some (s', [])

/-- The next callback of `handleEvents`. -/
def callback (cfg : ServerConfig) (s : WebServer) (w : Nat) (read : Option Bytes)
    (write : Option Nat) (fs : FileSystem) : Option (WebServer × List SharedTable) :=
  match (s.workers w).callbacks with
  | [] => none
  | (conn, cb) :: callbacks => do
    let c := s.conns conn
    let (tcp, es) ← c.tcp.callback read write cb
    let s := (s.modifyWorker w fun l => { l with callbacks := callbacks }).after conn
      (c.after tcp es) es
    if .messageCb ∈ es then s.enterMessage cfg w conn fs else return (s, [])

/-- The next step of a running `onMessage`. -/
def messageStep (cfg : ServerConfig) (s : WebServer) (w : Nat) (m : Message)
    (write : Option Nat) : Option WebServer :=
  let c := s.conns m.conn
  let (frame, effects) := OnMessage.step (c.env cfg m) (c.frame m)
  match frame.pc with
  | .stopped _ => none
  | pc => do
    let c := c.ofFrame frame
    let (tcp, es) ← c.tcp.perform write effects
    let message := if pc = .returned then none else some { m with pc, fsCalls := frame.fsCalls }
    let s := s.modifyWorker w fun l => { l with message := message }
    return s.after m.conn (c.after tcp es) es

/-- A functor of the batch. `shutdownInLoop` is called on `this`, which has to exist. -/
def runFunctor (cfg : ServerConfig) (s : WebServer) :
    WorkFunction → Option (WebServer × List SharedTable)
  | .connectEstablished conn => do
    let c := s.conns conn
    let (tcp, es) ← c.tcp.connectEstablished
    (s.after conn (c.after tcp es) es).onConnection cfg conn
  | .connectDestroyed conn => do
    let c := s.conns conn
    let (tcp, es) ← c.tcp.connectDestroyed
    let c := { c.after tcp es with destructions := c.destructions + 1 }
    (s.after conn c es).onConnection cfg conn
  | .shutdownInLoop conn =>
    if s.Referenced conn then
      let c := s.conns conn
      let es := c.tcp.shutdownInLoop
      some (s.after conn (c.after c.tcp es) es, [])
    else none

/-- The next functor of the batch. -/
def call (cfg : ServerConfig) (s : WebServer) (w : Nat) :
    Option (WebServer × List SharedTable) :=
  match (s.workers w).funcs with
  | [] => none
  | f :: funcs =>
    let s := s.modifyWorker w fun l => { l with funcs := funcs, called := l.called ++ [f] }
    s.runFunctor cfg f

/-! ## All threads -/

/-- The server before its first connection; with the timeout, `connBuckets_` is full of empty
buckets. -/
def init (cfg : ServerConfig) : WebServer where
  next := 0
  nextConnId := 1
  count := 0
  conns conn := .make conn [] 0
  connections _ := none
  connBuckets := List.replicate cfg.expiredSec.toNat []
  base := ⟨.poll, [], [], [], false, [], none⟩
  workers _ := ⟨.poll, [], [], [], [], [], none⟩

/-- No callback of the base loop is running. -/
def BaseIdle (s : WebServer) : Prop := s.base.stage = .events ∧ s.base.ticking = false

instance (s : WebServer) : Decidable s.BaseIdle := inferInstanceAs (Decidable (_ ∧ _))

/-- When a thread comes to an action. `epoll_wait` reports handlers of its loop that are
registered; `::write` accepts no more than it was offered. -/
def Pre (cfg : ServerConfig) (s : WebServer) : ServerAction → Prop
  | .basePoll => s.base.stage = .poll
  | .accept => s.BaseIdle
  | .onTimer order => s.BaseIdle ∧ cfg.Expires ∧
      order.Perm (IdleTimeout.dropped cfg.expiredSec.toNat s.connBuckets)
  | .destroyEntry => s.base.stage = .events ∧ s.base.ticking
  | .baseSwap => s.BaseIdle
  | .baseCall => s.base.stage = .funcs ∧ s.base.funcs ≠ []
  | .baseEnd => s.base.stage = .funcs ∧ s.base.funcs = []
  | .poll w events => (s.workers w).stage = .poll ∧ (events.map Prod.fst).Nodup ∧
      ∀ e ∈ events, e.1 < s.count ∧ (s.conns e.1).lp = w ∧
        ∃ interest, (s.conns e.1).tcp.watched.interest = some interest ∧ e.2.Reportable interest
  | .dispatch w => (s.workers w).stage = .events ∧ (s.workers w).activeQueue ≠ [] ∧
      (s.workers w).callbacks = [] ∧ (s.workers w).message = none
  | .callback w _ write _ => (s.workers w).stage = .events ∧ (s.workers w).message = none ∧
      ∃ e ∈ (s.workers w).callbacks.head?,
        TcpConnection.WriteOk (s.conns e.1).tcp.outputBuffer.readableBytes write
  | .onMessage w write => ∃ m ∈ (s.workers w).message,
      ∀ msg, .send msg ∈ (OnMessage.step ((s.conns m.conn).env cfg m)
        ((s.conns m.conn).frame m)).2 → TcpConnection.WriteOk msg.length write
  | .swap w => (s.workers w).stage = .events ∧ (s.workers w).activeQueue = [] ∧
      (s.workers w).callbacks = [] ∧ (s.workers w).message = none
  | .call w => (s.workers w).stage = .funcs ∧ (s.workers w).funcs ≠ []
  | .endBatch w => (s.workers w).stage = .funcs ∧ (s.workers w).funcs = []
  | .exit _ => True

instance (effects : List Effect) (write : Option Nat) :
    Decidable (∀ msg, .send msg ∈ effects → TcpConnection.WriteOk msg.length write) :=
  decidable_of_iff (∀ msg ∈ effects.filterMap Effect.response?,
      TcpConnection.WriteOk msg.length write) <| by
    apply forall_congr'
    intro msg
    rw [List.mem_filterMap]
    constructor
    · exact fun h hmem => h ⟨_, hmem, rfl⟩
    · intro h ⟨e, he, hmsg⟩
      cases e <;> cases hmsg
      exact h he

instance (cfg : ServerConfig) (s : WebServer) (a : ServerAction) : Decidable (s.Pre cfg a) :=
  match a with
  | .basePoll => inferInstanceAs (Decidable (_ = _))
  | .accept | .baseSwap => inferInstanceAs (Decidable s.BaseIdle)
  | .onTimer _ => inferInstanceAs (Decidable (s.BaseIdle ∧ cfg.Expires ∧ _))
  | .destroyEntry => inferInstanceAs (Decidable (_ = _ ∧ _ = true))
  | .baseCall | .call _ => inferInstanceAs (Decidable (_ = _ ∧ _ ≠ []))
  | .baseEnd | .endBatch _ => inferInstanceAs (Decidable (_ = _ ∧ _ = []))
  | .poll w events => inferInstanceAs (Decidable (_ = _ ∧ List.Nodup _ ∧ ∀ e ∈ events,
      e.1 < s.count ∧ (s.conns e.1).lp = w ∧
        ∃ interest ∈ (s.conns e.1).tcp.watched.interest, e.2.Reportable interest))
  | .dispatch _ => inferInstanceAs (Decidable (_ = _ ∧ _ ≠ [] ∧ _ = [] ∧ _ = none))
  | .callback w _ write _ => inferInstanceAs (Decidable (_ = _ ∧ _ = none ∧
      ∃ e ∈ (s.workers w).callbacks.head?,
        TcpConnection.WriteOk (s.conns e.1).tcp.outputBuffer.readableBytes write))
  | .onMessage w write => inferInstanceAs (Decidable (∃ m ∈ (s.workers w).message,
      ∀ msg, .send msg ∈ (OnMessage.step ((s.conns m.conn).env cfg m)
        ((s.conns m.conn).frame m)).2 → TcpConnection.WriteOk msg.length write))
  | .swap _ => inferInstanceAs (Decidable (_ = _ ∧ _ = [] ∧ _ = [] ∧ _ = none))
  | .exit _ => inferInstanceAs (Decidable True)

/-- The accesses of one thread. -/
def by_ (t : ServerThread) (tables : List SharedTable) : List Access := tables.map (t, ·)

def exec (cfg : ServerConfig) (s : WebServer) :
    ServerAction → Option (WebServer × List Access)
  | .basePoll => some ({ s with base := { s.base with stage := .events } }, [])
  | .accept => (s.handleNewConnection cfg).map (·, by_ .base [.connections])
  | .onTimer order => some (s.onTimer cfg order, by_ .base [.connBuckets])
  | .destroyEntry => some (s.destroyEntry, by_ .base [.connBuckets])
  | .baseSwap =>
    some ({ s with base := { s.base with
      stage := .funcs, funcs := s.base.pendingFuncs, pendingFuncs := [] } }, [])
  | .baseCall =>
    match s.base.funcs with
    | [] => none
    | conn :: funcs =>
      ((s.baseCalled conn funcs).handleRemoveConnectionInLoop conn).map
        (·, by_ .base [.connections])
  | .baseEnd => some ({ s with base := { s.base with stage := .poll, called := [] } }, [])
  | .poll w events =>
    some (s.modifyWorker w fun l => { l with stage := .events, activeQueue := events }, [])
  | .dispatch w =>
    match (s.workers w).activeQueue with
    | [] => none
    | (conn, revents) :: activeQueue =>
      some (s.modifyWorker w fun l =>
        { l with
          activeQueue := activeQueue
          callbacks := (Handler.handleEvents revents).map (conn, ·) }, [])
  | .callback w read write fs =>
    (s.callback cfg w read write fs).map fun (s, tables) => (s, by_ (.worker w) tables)
  | .onMessage w write => (s.workers w).message.bind fun m =>
    (s.messageStep cfg w m write).map (·, [])
  | .swap w =>
    some (s.modifyWorker w fun l =>
      { l with stage := .funcs, funcs := l.pendingFuncs, pendingFuncs := [] }, [])
  | .call w => (s.call cfg w).map fun (s, tables) => (s, by_ (.worker w) tables)
  | .endBatch w => some (s.modifyWorker w fun l => { l with stage := .poll, called := [] }, [])
  | .exit _ => none

end WebServer

/-- All threads of the server. -/
def webServer (cfg : ServerConfig) : Program WebServer ServerAction (List Access) where
  pre := WebServer.Pre cfg
  exec := WebServer.exec cfg

instance (cfg : ServerConfig) (s : WebServer) (a : ServerAction) :
    Decidable ((webServer cfg).pre s a) :=
  inferInstanceAs (Decidable (s.Pre cfg a))

end Httpancake
