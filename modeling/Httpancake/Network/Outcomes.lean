import Httpancake.Http.Closings
import Httpancake.Network.TcpConnection
import Mathlib.Data.Option.Basic
import Mathlib.Tactic.SplitIfs

/-! # What a function of a connection has done

For every function of a connection that has succeeded, what it has changed and what it has asked of
others. Only `handleClose` closes, only from `CONNECTED`, and it stops all watching of the socket;
only `connectEstablished` starts to watch it for reading. -/

namespace Httpancake

namespace Handler

variable {this : Nat} {h h' : Handler} {w w' : Watched}

theorem updateHandler_spec (hupd : updateHandler this h w = some (h', w')) :
    h'.events = h.events ∧ (h'.state = .using_ ∨ h'.state = .deleted ∧ w'.interest = none) := by
  rw [updateHandler] at hupd
  cases hstate : h.state with
  | new | deleted =>
    simp only [hstate, Option.bind_eq_bind, Option.bind_eq_some_iff] at hupd
    obtain ⟨-, -, -, -, heq⟩ := hupd
    cases heq
    exact ⟨rfl, .inl rfl⟩
  | using_ =>
    simp only [hstate, Option.bind_eq_bind, Option.bind_eq_some_iff] at hupd
    obtain ⟨-, -, -, -, heq⟩ := hupd
    split at heq
    · cases heq
      exact ⟨rfl, .inr ⟨rfl, rfl⟩⟩
    · cases heq
      exact ⟨rfl, .inl hstate⟩

theorem removeHandler_spec (hrem : removeHandler this h w = some (h', w'))
    (hstate : h.state = .using_ ∨ h.state = .deleted ∧ w.interest = none) :
    h'.events = .none ∧ w'.interest = none := by
  simp only [removeHandler, Option.bind_eq_bind, Option.bind_eq_some_iff, Option.guard_eq_some']
    at hrem
  obtain ⟨-, -, -, hevents, hrem⟩ := hrem
  rcases hstate with hstate | ⟨hstate, hinterest⟩
  · rw [if_pos hstate] at hrem
    obtain ⟨-, -, heq⟩ := Option.bind_eq_some_iff.mp hrem
    cases heq
    exact ⟨hevents, rfl⟩
  · have hne : h.state ≠ .using_ := by simp [hstate]
    rw [if_neg hne] at hrem
    cases hrem
    exact ⟨hevents, hinterest⟩

end Handler

namespace TcpConnection

variable {c c' : TcpConnection} {es : List ConnEffect}

theorem update_spec {events : EventMask} (h : c.update events = some c') :
    c'.handler.events = events ∧ c' = { c with handler := c'.handler, watched := c'.watched } ∧
      (c'.handler.state = .using_ ∨
        c'.handler.state = .deleted ∧ c'.watched.interest = none) := by
  obtain ⟨⟨handler, watched⟩, hupd, heq⟩ := Option.bind_eq_some_iff.mp h
  cases heq
  obtain ⟨hevents, hstate⟩ := Handler.updateHandler_spec hupd
  exact ⟨hevents, rfl, hstate⟩

/-- An update touches nothing but the handler and the poller. -/
theorem update_frame {events : EventMask} (h : c.update events = some c') :
    c'.this = c.this ∧ c'.writeCb = c.writeCb ∧ c'.inputBuffer = c.inputBuffer ∧
      c'.outputBuffer = c.outputBuffer := by
  obtain ⟨-, heq, -⟩ := update_spec h
  rw [heq]
  exact ⟨rfl, rfl, rfl, rfl⟩

/-- A function that leaves its state, its input and the watching for reading alone, and closes
nothing. -/
structure Writes (c c' : TcpConnection) (es : List ConnEffect) : Prop where
  state : c'.state = c.state
  input : c'.inputBuffer = c.inputBuffer
  reading : c'.isReading = c.isReading
  quiet : .closeCb ∉ es ∧ .messageCb ∉ es ∧ .connCb ∉ es

theorem Writes.refl (c : TcpConnection) : c.Writes c [] := ⟨rfl, rfl, rfl, by simp⟩

theorem update_writes {events : EventMask} (h : c.update events = some c')
    (hevents : events.epollin = c.handler.events.epollin) : c.Writes c' [] := by
  obtain ⟨hev, heq, -⟩ := update_spec h
  refine ⟨by rw [heq], by rw [heq], ?_, (Writes.refl c).quiet⟩
  rw [isReading, hev]
  exact hevents

theorem mem_queueWriteCb {e : ConnEffect} (he : e ∈ c.queueWriteCb) : e = .queueWriteCb := by
  unfold queueWriteCb at he
  split at he
  · exact List.mem_singleton.mp he
  · cases he

theorem queueWriteCb_quiet (c : TcpConnection) :
    .closeCb ∉ c.queueWriteCb ∧ .messageCb ∉ c.queueWriteCb ∧ .connCb ∉ c.queueWriteCb := by
  refine ⟨?_, ?_, ?_⟩ <;> intro hmem <;> cases mem_queueWriteCb hmem

theorem queueOutput_writes {rest : Bytes} (h : c.queueOutput rest = some c') :
    c.Writes c' [] := by
  obtain ⟨outputBuffer, -, h⟩ := Option.bind_eq_some_iff.mp h
  simp only at h
  split at h
  · cases h
    exact ⟨rfl, rfl, rfl, (Writes.refl c).quiet⟩
  · have hw := update_writes h (by simp [EventMask.union, EventMask.writeEvent])
    exact ⟨hw.state, hw.input, hw.reading, hw.quiet⟩

/-- `sendInLoop` only writes and queues the write-complete callback. -/
theorem mem_sendInLoop {msg : Bytes} {result : Option Nat}
    (h : c.sendInLoop msg result = some (c', es)) {e : ConnEffect} (he : e ∈ es) :
    e = .queueWriteCb ∨ ∃ data, e = .write data := by
  rw [sendInLoop_effects h] at he
  split at he
  · cases result with
    | none => cases he
    | some n =>
      rcases List.mem_cons.mp he with rfl | he
      · exact .inr ⟨_, rfl⟩
      · split at he
        · exact .inl (mem_queueWriteCb he)
        · cases he
  · cases he

theorem sendInLoop_writes {msg : Bytes} {result : Option Nat}
    (h : c.sendInLoop msg result = some (c', es)) : c.Writes c' es := by
  have hquiet : .closeCb ∉ es ∧ .messageCb ∉ es ∧ .connCb ∉ es := by
    refine ⟨?_, ?_, ?_⟩ <;> intro hmem <;>
      obtain heq | ⟨data, heq⟩ := mem_sendInLoop h hmem <;> cases heq
  unfold sendInLoop at h
  generalize (!c.isWriting && c.outputBuffer.readableBytes == 0) = direct at h
  dsimp only at h
  generalize (if direct then result.getD 0 else 0) = n at h
  split at h
  · obtain ⟨c₁, hout, heq⟩ := Option.bind_eq_some_iff.mp h
    cases heq
    have hw := queueOutput_writes hout
    exact ⟨hw.state, hw.input, hw.reading, hquiet⟩
  · cases h
    exact ⟨rfl, rfl, rfl, hquiet⟩

theorem send_writes {msg : Bytes} {result : Option Nat}
    (h : c.send msg result = some (c', es)) : c.Writes c' es := by
  rw [send] at h
  split at h
  · exact sendInLoop_writes h
  · cases h
    exact .refl c

theorem shutdownInLoop_quiet (c : TcpConnection) :
    .closeCb ∉ c.shutdownInLoop ∧ .messageCb ∉ c.shutdownInLoop ∧ .connCb ∉ c.shutdownInLoop := by
  unfold shutdownInLoop
  split <;> simp

theorem handleWrite_writes {result : Option Nat} (h : c.handleWrite result = some (c', es)) :
    c.Writes c' es := by
  unfold handleWrite at h
  split at h
  · split at h
    · cases h
      exact .refl c
    · cases h
      exact .refl c
    · obtain ⟨outputBuffer, -, h⟩ := Option.bind_eq_some_iff.mp h
      simp only at h
      split at h
      · obtain ⟨c₁, hdis, heq⟩ := Option.bind_eq_some_iff.mp h
        cases heq
        have hw := update_writes hdis (by simp [EventMask.diff, EventMask.writeEvent])
        refine ⟨hw.state, hw.input, hw.reading, ?_⟩
        have hqueue := c'.queueWriteCb_quiet
        have hhalf := c'.shutdownInLoop_quiet
        split <;> simp [hqueue, hhalf]
      · cases h
        exact ⟨rfl, rfl, rfl, by simp⟩
  · cases h
    exact .refl c

/-- Without watching for writing, `handleWrite` does nothing. -/
theorem handleWrite_idle {result : Option Nat} (h : c.handleWrite result = some (c', es))
    (hidle : c.isWriting = false) : c' = c ∧ es = [] := by
  unfold handleWrite at h
  rw [if_neg (by simp [hidle])] at h
  cases h
  exact ⟨rfl, rfl⟩

/-- A function that closes. -/
structure Closes (c c' : TcpConnection) (es : List ConnEffect) : Prop where
  connected : c.state = .connected
  state : c'.state = .connected
  input : c'.inputBuffer = c.inputBuffer
  events : c'.handler.events = .none
  effects : es = [.closeCb]

theorem handleClose_closes (h : c.handleClose = some (c', es)) : c.Closes c' es := by
  simp only [handleClose, Option.bind_eq_bind, Option.bind_eq_some_iff, Option.guard_eq_some'] at h
  obtain ⟨-, hstate, c₁, hdis, heq⟩ := h
  cases heq
  obtain ⟨hevents, heq, -⟩ := update_spec hdis
  exact ⟨hstate, by rw [heq]; exact hstate, by rw [heq], hevents, rfl⟩

theorem connectEstablished_spec (h : c.connectEstablished = some (c', es)) :
    c.state = .connecting ∧ c'.state = .connected ∧ c'.inputBuffer = c.inputBuffer ∧
      es = [.connCb] := by
  simp only [connectEstablished, Option.bind_eq_bind, Option.bind_eq_some_iff,
    Option.guard_eq_some'] at h
  obtain ⟨-, hstate, c₁, hen, heq⟩ := h
  cases heq
  obtain ⟨-, heq, -⟩ := update_spec hen
  exact ⟨hstate, by rw [heq], by rw [heq], rfl⟩

theorem connectDestroyed_spec (h : c.connectDestroyed = some (c', es)) :
    c'.state = .disconnected ∧ c'.inputBuffer = c.inputBuffer ∧ c'.handler.events = .none ∧
      c'.watched.interest = none ∧ es = [.connCb] := by
  simp only [connectDestroyed, Option.bind_eq_bind, Option.bind_eq_some_iff] at h
  obtain ⟨c₁, hdis, ⟨handler, watched⟩, hrem, heq⟩ := h
  cases heq
  obtain ⟨-, heq, hstate⟩ := update_spec hdis
  obtain ⟨hevents, hinterest⟩ := Handler.removeHandler_spec hrem hstate
  exact ⟨by simp only; rw [heq], by simp only; rw [heq], hevents, hinterest, rfl⟩

/-! ## What a call of `onMessage` asks for -/

/-- What `onMessage` asks of its connection; `write` is what `::write` returns if it is called. -/
def perform (c : TcpConnection) (write : Option Nat) :
    List Effect → Step
  | [] => some (c, [])
  | .send msg :: effects => do
    let (c, es) ← c.send msg write
    let (c, es') ← c.perform write effects
    return (c, es ++ es')
  | .forceClose :: effects => do
    let (c, es) ← c.forceClose
    let (c, es') ← c.perform write effects
    return (c, es ++ es')
  | .log _ :: effects => c.perform write effects

/-- In any other state than `CONNECTED` nothing is done. -/
theorem perform_of_not_connected (hstate : c.state ≠ .connected) (write : Option Nat)
    (effects : List Effect) : c.perform write effects = some (c, []) := by
  induction effects with
  | nil => rfl
  | cons e effects ih =>
    cases e with
    | send msg => simp [perform, send, hstate, ih]
    | forceClose => simp [perform, forceClose, hstate, ih]
    | log text => exact ih

/-- `forceClose` closes in the state `CONNECTED` only. -/
theorem forceClose_spec (h : c.forceClose = some (c', es)) :
    c.state = .connected ∧ c.Closes c' es ∨ c.state ≠ .connected ∧ c' = c ∧ es = [] := by
  rw [forceClose] at h
  split at h
  · next hstate => exact .inl ⟨hstate, handleClose_closes h⟩
  · next hstate =>
    cases h
    exact .inr ⟨hstate, rfl, rfl⟩

structure Performs (effects : List Effect) (c c' : TcpConnection) (es : List ConnEffect) :
    Prop where
  state : c'.state = c.state
  input : c'.inputBuffer = c.inputBuffer
  quiet : .messageCb ∉ es ∧ .connCb ∉ es
  closes : es.count .closeCb = if c.state = .connected then closes effects else 0
  reading : c'.isReading = true ↔ c.isReading = true ∧ es.count .closeCb = 0

theorem Performs.append {effects effects' : List Effect} {c c₁ c' : TcpConnection}
    {es es' : List ConnEffect} (h : Performs effects c c₁ es) (h' : Performs effects' c₁ c' es') :
    Performs (effects ++ effects') c c' (es ++ es') where
  state := h'.state.trans h.state
  input := h'.input.trans h.input
  quiet := by simp [h.quiet, h'.quiet]
  closes := by
    rw [List.count_append, h.closes, h'.closes, h.state, closes_append]
    split <;> rfl
  reading := by
    rw [h'.reading, h.reading, List.count_append, Nat.add_eq_zero_iff, and_assoc]

theorem Writes.performs {msg : Bytes} (h : c.Writes c' es) : Performs [.send msg] c c' es where
  state := h.state
  input := h.input
  quiet := h.quiet.2
  closes := by
    rw [List.count_eq_zero.mpr h.quiet.1]
    split <;> simp
  reading := by
    rw [h.reading, List.count_eq_zero.mpr h.quiet.1, and_iff_left rfl]

theorem forceClose_performs (h : c.forceClose = some (c', es)) :
    Performs [.forceClose] c c' es := by
  rcases forceClose_spec h with ⟨hstate, hclose⟩ | ⟨hstate, rfl, rfl⟩
  · refine ⟨hclose.state.trans hstate.symm, hclose.input, ?_, ?_, ?_⟩
    · simp [hclose.effects]
    · simp [hclose.effects, hstate]
    · simp [hclose.effects, isReading, hclose.events, EventMask.none]
  · refine ⟨rfl, rfl, (Writes.refl c').quiet.2, ?_, ?_⟩
    · simp [hstate]
    · simp

theorem log_performs (c : TcpConnection) (text : List Bytes) : Performs [.log text] c c [] where
  state := rfl
  input := rfl
  quiet := (Writes.refl c).quiet.2
  closes := by split <;> simp
  reading := by simp

theorem nil_performs (c : TcpConnection) : Performs [] c c [] where
  state := rfl
  input := rfl
  quiet := (Writes.refl c).quiet.2
  closes := by split <;> simp
  reading := by simp

theorem perform_spec {effects : List Effect} {write : Option Nat}
    (h : c.perform write effects = some (c', es)) : Performs effects c c' es := by
  induction effects generalizing c es with
  | nil =>
    cases h
    exact nil_performs _
  | cons e effects ih =>
    cases e with
    | send msg =>
      simp only [perform, Option.bind_eq_bind, Option.bind_eq_some_iff] at h
      obtain ⟨⟨c₁, es₁⟩, hsend, ⟨c₂, es₂⟩, hrest, heq⟩ := h
      cases heq
      exact (send_writes hsend).performs.append (ih hrest)
    | forceClose =>
      simp only [perform, Option.bind_eq_bind, Option.bind_eq_some_iff] at h
      obtain ⟨⟨c₁, es₁⟩, hclose, ⟨c₂, es₂⟩, hrest, heq⟩ := h
      cases heq
      exact (forceClose_performs hclose).append (ih hrest)
    | log text => exact (log_performs c text).append (ih h)

/-- The end of an iteration that does not keep an open connection alive. -/
theorem perform_finishEffects {env : Env} {conn : HttpTcpConnection} {write : Option Nat}
    (h : c.perform write (OnMessage.finishEffects env conn) = some (c', es))
    (hkeep : conn.keepAlive = false) (hstate : c.state = .connected) : c.Closes c' es := by
  have hclose : c.perform write [.forceClose] = some (c', es) := by
    rw [← h, OnMessage.finishEffects, hkeep, OnMessage.outcomeLog]
    split_ifs <;> first | contradiction | rfl
  simp only [perform, Option.bind_eq_bind, Option.bind_eq_some_iff] at hclose
  obtain ⟨⟨c₁, es₁⟩, hforce, ⟨c₂, es₂⟩, hnil, heq⟩ := hclose
  cases hnil
  cases heq
  rw [List.append_nil]
  exact ((forceClose_spec hforce).resolve_right fun hne => hne.1 hstate).2

/-! ## What a callback asks for -/

theorem handleRead_spec {read : Option Bytes} (h : c.handleRead read = some (c', es)) :
    ∃ b, c.inputBuffer.readFd read = some b ∧
      match read with
      | none => c' = { c with inputBuffer := b } ∧ es = []
      | some [] => { c with inputBuffer := b }.Closes c' es
      | some (_ :: _) => c' = { c with inputBuffer := b } ∧ es = [.messageCb] := by
  obtain ⟨b, hread, h⟩ := Option.bind_eq_some_iff.mp h
  refine ⟨b, hread, ?_⟩
  match read with
  | none =>
    cases h
    exact ⟨rfl, rfl⟩
  | some [] => exact handleClose_closes h
  | some (x :: data) =>
    cases h
    exact ⟨rfl, rfl⟩

/-- What a callback of the handler comes to. -/
inductive CallbackOutcome (c c' : TcpConnection) (es : List ConnEffect) :
    EventCallback → Option Bytes → Prop
  | close {read : Option Bytes} (hcloses : c.Closes c' es) : CallbackOutcome c c' es .closeCb read
  | endOfStream {b : Buffer} (hread : c.inputBuffer.readFd (some []) = some b)
    (hcloses : { c with inputBuffer := b }.Closes c' es) :
    CallbackOutcome c c' es .readCb (some [])
  | message {x : UInt8} {data : Bytes} {b : Buffer}
    (hread : c.inputBuffer.readFd (some (x :: data)) = some b)
    (hconn : c' = { c with inputBuffer := b }) (hes : es = [.messageCb]) :
    CallbackOutcome c c' es .readCb (some (x :: data))
  /-- `handleWrite`, `handleError` or a failed `readv`. -/
  | quiet {cb : EventCallback} {read : Option Bytes} (hwrites : c.Writes c' es)
    (hidle : c.isWriting = false → c' = c ∧ es = []) : CallbackOutcome c c' es cb read

theorem callback_outcome {cb : EventCallback} {read : Option Bytes} {write : Option Nat}
    (h : c.callback read write cb = some (c', es)) : CallbackOutcome c c' es cb read := by
  cases cb with
  | closeCb => exact .close (handleClose_closes h)
  | errorCb =>
    cases h
    exact .quiet (.refl c) fun _ => ⟨rfl, rfl⟩
  | writeCb => exact .quiet (handleWrite_writes h) (handleWrite_idle h)
  | readCb =>
    obtain ⟨b, hread, hspec⟩ := handleRead_spec h
    match read with
    | none =>
      cases hread
      obtain ⟨rfl, rfl⟩ := hspec
      exact .quiet (.refl c) fun _ => ⟨rfl, rfl⟩
    | some [] => exact .endOfStream hread hspec
    | some (x :: data) => exact .message hread hspec.1 hspec.2

/-- Only `handleRead` with data calls `messageCb_`. -/
theorem callback_messageCb {cb : EventCallback} {read : Option Bytes} {write : Option Nat}
    (h : c.callback read write cb = some (c', es)) (hmem : .messageCb ∈ es) :
    cb = .readCb ∧ ∃ x data b, read = some (x :: data) ∧
      c.inputBuffer.readFd (some (x :: data)) = some b ∧ c' = { c with inputBuffer := b } ∧
      es = [.messageCb] := by
  cases callback_outcome h with
  | close hcloses | endOfStream hread hcloses =>
    rw [hcloses.effects] at hmem
    simp at hmem
  | message hread hconn hes => exact ⟨rfl, _, _, _, rfl, hread, hconn, hes⟩
  | quiet hwrites hidle => exact absurd hmem hwrites.quiet.2.1

/-- Only an open connection is closed. -/
theorem callback_closeCb {cb : EventCallback} {read : Option Bytes} {write : Option Nat}
    (h : c.callback read write cb = some (c', es)) (hmem : .closeCb ∈ es) :
    c.state = .connected := by
  cases callback_outcome h with
  | close hcloses | endOfStream hread hcloses => exact hcloses.connected
  | message hread hconn hes =>
    rw [hes] at hmem
    simp at hmem
  | quiet hwrites hidle => exact absurd hmem hwrites.quiet.1

end TcpConnection
end Httpancake
