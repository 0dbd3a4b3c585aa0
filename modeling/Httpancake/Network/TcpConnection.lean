import Httpancake.Network.Buffer
import Httpancake.Reactor.Poller

/-! # `TcpConnection`

The functions of a connection that its loop thread runs. What they ask of others is a list of
`ConnEffect`s, in order: bytes accepted by `::write`, callbacks, a half-close. A function answers
`none` where the process exits or an assertion fails.

A result of `::write` is `none` for the error `-1` and otherwise the number of bytes accepted; a
result of `readv` is `none` or the bytes read, empty at the end of the stream.

`Sound` says that the handler and the poller agree and which bytes wait in `outputBuffer_`; every
function keeps it, and only the two that check `state_` can fail. -/

namespace Httpancake

inductive ConnState where
  | connecting | connected | disconnecting | disconnected
deriving DecidableEq, Repr

inductive ConnEffect where
  | write (data : Bytes)
  /-- `lp_->queueInLoop(std::bind(writeCb_, shared_from_this()))` -/
  | queueWriteCb
  | shutdownWrite
  | closeCb
  | connCb
  | messageCb
deriving DecidableEq, Repr

structure TcpConnection where
  /-- The identity of the connection and of its handler. -/
  this : Nat
  state : ConnState
  handler : Handler
  /-- What the poller of its loop holds for its socket. -/
  watched : Watched
  inputBuffer : Buffer
  outputBuffer : Buffer
  /-- Whether a write-complete callback is set. -/
  writeCb : Bool
deriving DecidableEq, Repr

namespace TcpConnection

/-- The constructor. -/
def make (this : Nat) (writeCb : Bool) : TcpConnection where
  this := this
  state := .connecting
  handler := .fresh
  watched := ⟨none, none⟩
  inputBuffer := .fresh
  outputBuffer := .fresh
  writeCb := writeCb

def isWriting (c : TcpConnection) : Bool := c.handler.isWriting

/-- `Handler::update` after the events were set. -/
def update (c : TcpConnection) (events : EventMask) : Option TcpConnection := do
  let (handler, watched) ←
    Handler.updateHandler c.this { c.handler with events := events } c.watched
  return { c with handler := handler, watched := watched }

def enableReading (c : TcpConnection) : Option TcpConnection :=
  c.update (c.handler.events.union .readEvent)

def enableWriting (c : TcpConnection) : Option TcpConnection :=
  c.update (c.handler.events.union .writeEvent)

def disableWriting (c : TcpConnection) : Option TcpConnection :=
  c.update (c.handler.events.diff .writeEvent)

def disableAll (c : TcpConnection) : Option TcpConnection := c.update .none

/-- A function of a connection, with what it asks of others. -/
abbrev Step := Option (TcpConnection × List ConnEffect)

def queueWriteCb (c : TcpConnection) : List ConnEffect :=
  if c.writeCb then [.queueWriteCb] else []

/-- `::write` of a whole message on the direct path. -/
def writeDirect (c : TcpConnection) (msg : Bytes) : Option Nat → List ConnEffect
  | none => []
  | some n => .write (msg.take n) :: if n = msg.length then c.queueWriteCb else []

/-- What was not written waits in `outputBuffer_`. -/
def queueOutput (c : TcpConnection) (rest : Bytes) : Option TcpConnection := do
  let outputBuffer ← c.outputBuffer.append rest
  let c := { c with outputBuffer := outputBuffer }
  if c.isWriting then return c else c.enableWriting

/-- `result` is what `::write` returns if it is called. -/
def sendInLoop (c : TcpConnection) (msg : Bytes) (result : Option Nat) : Step := do
  let direct := !c.isWriting && c.outputBuffer.readableBytes == 0
  let n := if direct then result.getD 0 else 0
  let effects := if direct then c.writeDirect msg result else []
  if n < msg.length then
    let c ← c.queueOutput (msg.drop n)
    return (c, effects)
  else
    return (c, effects)

def shutdownInLoop (c : TcpConnection) : List ConnEffect :=
  if c.isWriting then [] else [.shutdownWrite]

def handleWrite (c : TcpConnection) (result : Option Nat) : Step :=
  if c.isWriting then
    match result with
    | none | some 0 => some (c, [])
    | some n => do
      let effect := ConnEffect.write (c.outputBuffer.content.take n)
      let outputBuffer ← c.outputBuffer.retrieve n
      let c := { c with outputBuffer := outputBuffer }
      if outputBuffer.readableBytes = 0 then
        let c ← c.disableWriting
        let half := if c.state = .disconnecting then c.shutdownInLoop else []
        return (c, effect :: (c.queueWriteCb ++ half))
      else
        return (c, [effect])
  else
    some (c, [])

/-- Any other state than `CONNECTED` ends the process. -/
def handleClose (c : TcpConnection) : Step := do
  guard (c.state = .connected)
  let c ← c.disableAll
  return (c, [.closeCb])

/-- `handleError` is empty. -/
def handleRead (c : TcpConnection) (result : Option Bytes) : Step := do
  let inputBuffer ← c.inputBuffer.readFd result
  let c := { c with inputBuffer := inputBuffer }
  match result with
  | none => return (c, [])
  | some [] => c.handleClose
  | some _ => return (c, [.messageCb])

def connectEstablished (c : TcpConnection) : Step := do
  guard (c.state = .connecting)
  let c ← { c with state := .connected }.enableReading
  return (c, [.connCb])

def connectDestroyed (c : TcpConnection) : Step := do
  let c ← { c with state := .disconnected }.disableAll
  let (handler, watched) ← Handler.removeHandler c.this c.handler c.watched
  return ({ c with handler := handler, watched := watched }, [.connCb])

/-- A callback of the handler, with the result of the system call it makes. -/
def callback (c : TcpConnection) (read : Option Bytes) (write : Option Nat) : EventCallback → Step
  | .closeCb => c.handleClose
  | .errorCb => some (c, [])
  | .readCb => c.handleRead read
  | .writeCb => c.handleWrite write

/-- `forceClose` on the loop thread. -/
def forceClose (c : TcpConnection) : Step :=
  if c.state = .connected then c.handleClose else some (c, [])

/-- `send` on the loop thread. -/
def send (c : TcpConnection) (msg : Bytes) (result : Option Nat) : Step :=
  if c.state = .connected then c.sendInLoop msg result else some (c, [])

/-- `shutdown` on the loop thread. -/
def shutdown (c : TcpConnection) : TcpConnection × List ConnEffect :=
  if c.state = .connected then ({ c with state := .disconnecting }, c.shutdownInLoop) else (c, [])

/-- The bytes that reached the socket. -/
def written (effects : List ConnEffect) : Bytes :=
  effects.flatMap fun
    | .write data => data
    | _ => []

@[simp] theorem written_nil : written [] = [] := rfl

@[simp] theorem written_append (es es' : List ConnEffect) :
    written (es ++ es') = written es ++ written es' := List.flatMap_append

@[simp] theorem written_cons_write (data : Bytes) (es : List ConnEffect) :
    written (.write data :: es) = data ++ written es := rfl

@[simp] theorem written_queueWriteCb (c : TcpConnection) : written c.queueWriteCb = [] := by
  unfold queueWriteCb
  split <;> rfl

@[simp] theorem written_shutdownInLoop (c : TcpConnection) : written c.shutdownInLoop = [] := by
  unfold shutdownInLoop
  split <;> rfl

theorem written_writeDirect (c : TcpConnection) (msg : Bytes) (result : Option Nat) :
    written (c.writeDirect msg result) = msg.take (result.getD 0) := by
  cases result with
  | none => rfl
  | some n =>
    simp only [writeDirect, written_cons_write, Option.getD_some]
    split <;> simp

/-- Only the direct path writes. -/
theorem sendInLoop_effects {c c' : TcpConnection} {msg : Bytes} {result : Option Nat}
    {es : List ConnEffect} (h : c.sendInLoop msg result = some (c', es)) :
    es = if !c.isWriting && c.outputBuffer.readableBytes == 0 then c.writeDirect msg result
      else [] := by
  unfold sendInLoop at h
  generalize (!c.isWriting && c.outputBuffer.readableBytes == 0) = direct at h ⊢
  dsimp only at h
  generalize (if direct then result.getD 0 else 0) = n at h
  split at h
  · obtain ⟨c₁, -, h⟩ := Option.bind_eq_some_iff.mp h
    cases h
    rfl
  · cases h
    rfl

theorem handleClose_eq_none {c : TcpConnection} (hstate : c.state ≠ .connected) :
    c.handleClose = none := by
  rw [handleClose, guard, if_neg hstate]
  rfl

theorem handleRead_error (c : TcpConnection) : c.handleRead none = some (c, []) := by
  simp [handleRead, Buffer.readFd]

/-! ## What the functions keep -/

/-- The bytes `q` wait to be written. -/
structure Sound (c : TcpConnection) (q : Bytes) : Prop where
  agrees : c.handler.Agrees c.this c.watched
  output : c.outputBuffer.Holds q
  input : ∃ p, c.inputBuffer.Holds p

/-- The socket is watched for writing only while data is waiting. -/
def Needed (c : TcpConnection) (q : Bytes) : Prop := c.isWriting → q ≠ []

/-- While data is waiting, the socket is watched for writing. -/
def Flushing (c : TcpConnection) (q : Bytes) : Prop := q ≠ [] → c.isWriting

def isReading (c : TcpConnection) : Bool := c.handler.events.epollin

/-- `c'` differs from `c` in its buffers and in being watched for writing at most. -/
structure Keeps (c c' : TcpConnection) : Prop where
  this : c'.this = c.this
  state : c'.state = c.state
  reading : c'.isReading = c.isReading

theorem Keeps.refl (c : TcpConnection) : c.Keeps c := ⟨rfl, rfl, rfl⟩

/-- A write delivers no more than it was offered. -/
def WriteOk (offered : Nat) (result : Option Nat) : Prop := ∀ n ∈ result, n ≤ offered

instance (offered : Nat) (result : Option Nat) : Decidable (WriteOk offered result) :=
  inferInstanceAs (Decidable (∀ n ∈ result, n ≤ offered))

namespace Sound
variable {c : TcpConnection} {q : Bytes}

theorem make (this : Nat) (writeCb : Bool) : (TcpConnection.make this writeCb).Sound [] where
  agrees := .fresh this
  output := .fresh
  input := ⟨[], .fresh⟩

/-- Changing the events touches nothing else. -/
theorem update (h : c.Sound q) (events : EventMask) :
    ∃ c', c.update events = some c' ∧ c'.Sound q ∧ c'.handler.events = events ∧
      c'.handler.state ≠ .new ∧ c' = { c with handler := c'.handler, watched := c'.watched } := by
  obtain ⟨h', w', hupd, hagrees, hev, hstate⟩ := h.agrees.update events
  exact ⟨{ c with handler := h', watched := w' }, by simp [TcpConnection.update, hupd],
    ⟨hagrees, h.output, h.input⟩, hev, hstate, rfl⟩

theorem enableWriting (h : c.Sound q) :
    ∃ c', c.enableWriting = some c' ∧ c'.Sound q ∧ c.Keeps c' ∧ c'.isWriting := by
  obtain ⟨c', hupd, hc', hev, -, heq⟩ := h.update (c.handler.events.union .writeEvent)
  refine ⟨c', hupd, hc', ⟨by rw [heq], by rw [heq], ?_⟩, ?_⟩
  · simp [isReading, hev, EventMask.union, EventMask.writeEvent]
  · simp [isWriting, Handler.isWriting, hev, EventMask.union, EventMask.writeEvent]

theorem disableWriting (h : c.Sound q) :
    ∃ c', c.disableWriting = some c' ∧ c'.Sound q ∧ c.Keeps c' ∧ c'.isWriting = false := by
  obtain ⟨c', hupd, hc', hev, -, heq⟩ := h.update (c.handler.events.diff .writeEvent)
  refine ⟨c', hupd, hc', ⟨by rw [heq], by rw [heq], ?_⟩, ?_⟩
  · simp [isReading, hev, EventMask.diff, EventMask.writeEvent]
  · simp [isWriting, Handler.isWriting, hev, EventMask.diff, EventMask.writeEvent]

theorem queueOutput (h : c.Sound q) (rest : Bytes) :
    ∃ c', c.queueOutput rest = some c' ∧ c'.Sound (q ++ rest) ∧ c.Keeps c' ∧ c'.isWriting := by
  obtain ⟨b, happ, hb⟩ := h.output.append rest
  have hsound : { c with outputBuffer := b }.Sound (q ++ rest) := ⟨h.agrees, hb, h.input⟩
  cases hw : c.isWriting with
  | true =>
    refine ⟨{ c with outputBuffer := b }, ?_, hsound, ⟨rfl, rfl, rfl⟩, hw⟩
    simp only [isWriting] at hw
    simp [TcpConnection.queueOutput, happ, isWriting, hw]
  | false =>
    obtain ⟨c', hen, hc', hkeeps, hw'⟩ := hsound.enableWriting
    refine ⟨c', ?_, hc', ⟨hkeeps.this, hkeeps.state, hkeeps.reading⟩, hw'⟩
    simp only [isWriting] at hw
    simp [TcpConnection.queueOutput, happ, isWriting, hw, hen]

/-- What a message adds to the stream is what it says, however much of it is written at once. -/
theorem sendInLoop (h : c.Sound q) (msg : Bytes) (result : Option Nat) :
    ∃ c' es q', c.sendInLoop msg result = some (c', es) ∧ c'.Sound q' ∧ c.Keeps c' ∧
      written es ++ q' = q ++ msg ∧ (c.Needed q → c'.Needed q') ∧
      (c.Flushing q → c'.Flushing q') := by
  by_cases hdirect : (!c.isWriting && c.outputBuffer.readableBytes == 0) = true
  · have hq : q = [] := by
      simpa [h.output.readableBytes_eq] using (Bool.and_eq_true_iff.mp hdirect).2
    subst hq
    by_cases hall : result.getD 0 < msg.length
    · obtain ⟨c', hout, hc', hkeeps, hw⟩ := h.queueOutput (msg.drop (result.getD 0))
      refine ⟨c', c.writeDirect msg result, msg.drop (result.getD 0), ?_, hc', hkeeps, ?_,
        fun _ _ => ?_, fun _ _ => hw⟩
      · simp [TcpConnection.sendInLoop, hdirect, hall, hout]
      · rw [written_writeDirect, List.take_append_drop, List.nil_append]
      · simpa using hall
    · refine ⟨c, c.writeDirect msg result, [], ?_, h, .refl c, ?_, id, id⟩
      · simp [TcpConnection.sendInLoop, hdirect, hall]
      · rw [written_writeDirect, List.take_of_length_le (Nat.le_of_not_lt hall)]
        simp
  · by_cases hmsg : 0 < msg.length
    · obtain ⟨c', hout, hc', hkeeps, hw⟩ := h.queueOutput msg
      refine ⟨c', [], q ++ msg, ?_, hc', hkeeps, rfl, fun _ _ => ?_, fun _ _ => hw⟩
      · simp [TcpConnection.sendInLoop, hdirect, hmsg, hout]
      · simp [List.ne_nil_of_length_pos hmsg]
    · have hnil : msg = [] := by simpa using hmsg
      refine ⟨c, [], q, ?_, h, .refl c, by simp [hnil], id, id⟩
      simp [TcpConnection.sendInLoop, hdirect, hmsg]

/-- Nothing waits after a message exactly when nothing waited before it and `::write` took all of
it at once. -/
theorem sendInLoop_drained_iff {c' : TcpConnection} {es : List ConnEffect} {q' msg : Bytes}
    {result : Option Nat} (h : c.Sound q) (hneeded : c.Needed q) (hmsg : msg ≠ [])
    (hres : WriteOk msg.length result) (hsend : c.sendInLoop msg result = some (c', es))
    (hc' : c'.Sound q') : q' = [] ↔ q = [] ∧ result = some msg.length := by
  obtain ⟨c₁, es₁, q₁, hsend₁, hc₁, -, hstream, -⟩ := h.sendInLoop msg result
  rw [hsend, Option.some.injEq, Prod.mk.injEq] at hsend₁
  obtain ⟨rfl, rfl⟩ := hsend₁
  obtain rfl : q₁ = q' := hc₁.output.content_eq.symm.trans hc'.output.content_eq
  have hes := sendInLoop_effects hsend
  cases q with
  | nil =>
    have hw : c.isWriting = false := by simpa [Needed] using hneeded
    have hdirect : es = c.writeDirect msg result := by
      simpa [hw, h.output.readableBytes_eq] using hes
    rw [hdirect, written_writeDirect, List.nil_append] at hstream
    cases result with
    | none =>
      obtain rfl : q₁ = msg := by simpa using hstream
      simp [hmsg]
    | some n =>
      have hle : n ≤ msg.length := hres n rfl
      have hlen := congrArg List.length hstream
      simp only [List.length_append, List.length_take, Option.getD_some] at hlen
      rw [← List.length_eq_zero_iff, Option.some.injEq, and_iff_right rfl]
      omega
  | cons x q =>
    have hnone : es = [] := by simpa [h.output.readableBytes_eq] using hes
    rw [hnone, written_nil, List.nil_append] at hstream
    simp [hstream]

/-- `handleWrite` moves bytes from the buffer to the socket. -/
theorem handleWrite (h : c.Sound q) {result : Option Nat} (hres : WriteOk q.length result) :
    ∃ c' es q', c.handleWrite result = some (c', es) ∧ c'.Sound q' ∧ c.Keeps c' ∧
      written es ++ q' = q ∧ (c.Needed q → c'.Needed q') ∧
      (c.Flushing q → c'.Flushing q') := by
  cases hw : c.isWriting with
  | false => exact ⟨c, [], q, by simp [TcpConnection.handleWrite, hw], h, .refl c, rfl, id, id⟩
  | true =>
    match result, hres with
    | none, _ | some 0, _ =>
      exact ⟨c, [], q, by simp [TcpConnection.handleWrite], h, .refl c, rfl, id, id⟩
    | some (n + 1), hres =>
      have hle : n + 1 ≤ q.length := hres _ rfl
      obtain ⟨b, hret, hb⟩ := h.output.retrieve hle
      have hsound : { c with outputBuffer := b }.Sound (q.drop (n + 1)) :=
        ⟨h.agrees, hb, h.input⟩
      by_cases hdone : b.readableBytes = 0
      · have hnil : q.drop (n + 1) = [] := by
          rwa [hb.readableBytes_eq, List.length_eq_zero_iff] at hdone
        obtain ⟨c', hdis, hc', hkeeps, hw'⟩ := hsound.disableWriting
        have hexec : c.handleWrite (some (n + 1)) =
            some (c', .write (q.take (n + 1)) :: (c'.queueWriteCb ++
              if c'.state = .disconnecting then c'.shutdownInLoop else [])) := by
          simp [TcpConnection.handleWrite, hw, hret, hdone, hdis, h.output.content_eq]
        have hhalf :
            written (if c'.state = .disconnecting then c'.shutdownInLoop else []) = [] := by
          split
          · exact written_shutdownInLoop c'
          · rfl
        refine ⟨c', _, _, hexec, hc', ⟨hkeeps.this, hkeeps.state, hkeeps.reading⟩, ?_, ?_, ?_⟩
        · simp [hhalf]
        · simp [Needed, hw']
        · simp [Flushing, hnil]
      · have hexec : c.handleWrite (some (n + 1)) =
            some ({ c with outputBuffer := b }, [.write (q.take (n + 1))]) := by
          simp [TcpConnection.handleWrite, hw, hret, hdone, h.output.content_eq]
        refine ⟨_, _, _, hexec, hsound, ⟨rfl, rfl, rfl⟩, by simp, fun _ _ => ?_, fun _ _ => hw⟩
        rwa [hb.readableBytes_eq, List.length_eq_zero_iff] at hdone

theorem handleClose (h : c.Sound q) (hstate : c.state = .connected) :
    ∃ c', c.handleClose = some (c', [.closeCb]) ∧ c'.Sound q ∧ c'.handler.events = .none ∧
      c'.this = c.this ∧ c'.state = .connected := by
  obtain ⟨c', hupd, hc', hev, -, heq⟩ := h.update .none
  refine ⟨c', by simp [TcpConnection.handleClose, disableAll, hstate, hupd], hc', hev, by rw [heq],
    ?_⟩
  rw [heq]
  exact hstate

/-- Bytes that arrive go to the input buffer. -/
theorem handleRead_data (h : c.Sound q) {data : Bytes} (hdata : data ≠ []) :
    ∃ b, c.handleRead (some data) = some ({ c with inputBuffer := b }, [.messageCb]) ∧
      c.inputBuffer.readFd (some data) = some b ∧ { c with inputBuffer := b }.Sound q := by
  obtain ⟨p, hp⟩ := h.input
  obtain ⟨b, hread, hb⟩ := hp.readFd data
  refine ⟨b, ?_, hread, ⟨h.agrees, h.output, ⟨_, hb⟩⟩⟩
  cases data with
  | nil => exact absurd rfl hdata
  | cons x xs => simp [TcpConnection.handleRead, hread]

/-- At the end of the stream `handleRead` closes the connection. -/
theorem handleRead_eof (h : c.Sound q) :
    ∃ b, c.handleRead (some []) = { c with inputBuffer := b }.handleClose ∧
      { c with inputBuffer := b }.Sound q := by
  obtain ⟨p, hp⟩ := h.input
  obtain ⟨b, hread, hb⟩ := hp.readFd []
  exact ⟨b, by simp [TcpConnection.handleRead, hread], ⟨h.agrees, h.output, ⟨_, hb⟩⟩⟩

theorem connectEstablished (h : c.Sound q) (hstate : c.state = .connecting) :
    ∃ c', c.connectEstablished = some (c', [.connCb]) ∧ c'.Sound q ∧ c'.state = .connected ∧
      c'.this = c.this ∧ c'.handler.events = c.handler.events.union .readEvent := by
  have hsound : { c with state := .connected }.Sound q := ⟨h.agrees, h.output, h.input⟩
  obtain ⟨c', hupd, hc', hev, -, heq⟩ := hsound.update (c.handler.events.union .readEvent)
  refine ⟨c', ?_, hc', by rw [heq], by rw [heq], hev⟩
  simp [TcpConnection.connectEstablished, enableReading, hstate, hupd]

/-- `connectDestroyed` takes the handler out of the poller. -/
theorem connectDestroyed (h : c.Sound q) :
    ∃ c', c.connectDestroyed = some (c', [.connCb]) ∧ c'.Sound q ∧ c'.state = .disconnected ∧
      c'.this = c.this ∧ c'.handler.events = .none := by
  have hsound : { c with state := .disconnected }.Sound q := ⟨h.agrees, h.output, h.input⟩
  obtain ⟨c', hupd, hc', hev, hnew, heq⟩ := hsound.update .none
  obtain ⟨h', w', hrem, hagrees, hev'⟩ := hc'.agrees.remove hnew hev
  refine ⟨{ c' with handler := h', watched := w' }, ?_, ⟨hagrees, hc'.output, hc'.input⟩,
    by rw [heq], by rw [heq], hev'⟩
  simp [TcpConnection.connectDestroyed, disableAll, hupd, hrem]

end Sound
end TcpConnection
end Httpancake
