import Httpancake.Http.Faults
import Httpancake.Http.WellFormed
import Httpancake.Network.OutputStream

/-! # A response and the close behind it

At the end of an iteration for a `GET` request that is not kept alive, `onMessage` has passed the
response to `send` and calls `forceClose`. `send` writes once and keeps the rest; `forceClose`
closes at once, whatever is still waiting. -/

namespace Httpancake

open Bytes OnMessage TcpConnection ConnSystem

/-- What an effect of `onMessage` does to the connection; `write` is the result of `::write`. -/
def connActions (write : Option Nat) : Effect → List ConnAction
  | .send msg => [.loopCall (.send msg) write]
  | .forceClose => [.loopCall .forceClose none]
  | .log _ => []

theorem responseToGet_ne_nil {file : FileOutcome} {c c' : HttpTcpConnection} {msg : Bytes}
    (h : responseToGet file c = some (c', msg)) : msg ≠ [] := by
  unfold responseToGet at h
  split at h
  · cases h
    cases hv : c.httpVersion <;> simp [notFoundResponse, versionName, hv, ascii]
  · obtain ⟨content, -, h⟩ := Option.bind_eq_some_iff.mp h
    cases h
    simp [successResponse, ascii]

theorem connActions_finishEffects {env : Env} {c : HttpTcpConnection} {write : Option Nat}
    (h : c.keepAlive = false) :
    (finishEffects env c).flatMap (connActions write) = [.loopCall .forceClose none] := by
  have hlog : (outcomeLog env c).flatMap (connActions write) = [] := by
    unfold outcomeLog
    split_ifs <;> rfl
  simp [finishEffects, List.flatMap_append, hlog, h, connActions]

/-- The last two steps of the iteration, and the actions they take on the connection. -/
theorem steps_respond {env : Env} {m : OnMessage} {c' : HttpTcpConnection} {msg : Bytes}
    (hpc : m.pc = .responsing) (hstate : m.conn.processState = .responsing)
    (hget : m.conn.requestType = .getMethod) (hclose : m.conn.keepAlive = false)
    (hresp : responseToGet (env.fs m.fsCalls m.conn.filePath) m.conn = some (c', msg))
    (write : Option Nat) :
    ∃ es, Steps env m es (OnMessage.after m.inBuffer (m.fsCalls + 1)) ∧
      es.flatMap (connActions write) =
        [.loopCall (.send msg) write, .loopCall .forceClose none] := by
  have hstep : step env m = (⟨.finish, c', m.inBuffer, m.fsCalls + 1⟩, [.send msg]) := by
    simp [step, hpc, responsing, hstate, hget, hresp]
  refine ⟨.send msg :: finishEffects env c', .cons hstep (steps_finish c' _ _), ?_⟩
  have hkeep := (responseToGet_keepAlive hresp).trans hclose
  simp [connActions_finishEffects hkeep, connActions]

namespace ConnSystem

variable {s : ConnSystem} {q msg : Bytes} {write : Option Nat}

/-- `send` and then `forceClose` on the loop thread. -/
theorem Inv.sendAndClose (h : s.Inv q) (hstate : s.conn.state = .connected) (hmsg : msg ≠ [])
    (hwrite : WriteOk msg.length write) :
    ∃ s₁ s₂, s.exec (.loopCall (.send msg) write) = some s₁ ∧
      s₁.exec (.loopCall .forceClose none) = some s₂ ∧ s₂.log = s₁.log ++ [.closeCb] ∧
      written s₁.log ++ s₁.conn.outputBuffer.content = written s.log ++ q ++ msg ∧
      (s₁.conn.outputBuffer.content = [] ↔ q = [] ∧ write = some msg.length) := by
  obtain ⟨c, es, q', hsend, hc, hkeeps, hstream, -⟩ := h.sound.sendInLoop msg write
  obtain ⟨c', hclose, -⟩ := hc.handleClose (hkeeps.state.trans hstate)
  have hsent : s.exec (.loopCall (.send msg) write) = some { s.after c es with
      sent := s.sent ++ [(none, msg)]
      ran := s.ran ++ [(none, msg)] } := by
    simp [exec, ConnSystem.loopCall, TcpConnection.send, hstate, hsend]
  have hforce : { s.after c es with
      sent := s.sent ++ [(none, msg)]
      ran := s.ran ++ [(none, msg)] }.exec (.loopCall .forceClose none) =
        some ({ s.after c es with
          sent := s.sent ++ [(none, msg)]
          ran := s.ran ++ [(none, msg)] }.after c' [.closeCb]) := by
    have hstate' : (s.after c es).conn.state = .connected := hkeeps.state.trans hstate
    have hclose' : (s.after c es).conn.handleClose = some (c', [.closeCb]) := hclose
    simp [exec, ConnSystem.loopCall, TcpConnection.forceClose, hstate', hclose']
  refine ⟨_, _, hsent, hforce, rfl, ?_, ?_⟩
  · simp [ConnSystem.after, hc.output.content_eq, hstream]
  · have hdrained := h.sound.sendInLoop_drained_iff h.needed hmsg hwrite hsend hc
    simpa [ConnSystem.after, hc.output.content_eq] using hdrained

end ConnSystem

/-- **A response before a close.** Whatever state of `onMessage` answers a `GET` request that is not
kept alive, and whatever the state of the connection: `handleClose` runs with the whole response
written exactly when nothing was waiting before and the one call of `::write` takes all of it. -/
theorem response_complete_iff {env : Env} {m : OnMessage} {c' : HttpTcpConnection} {msg : Bytes}
    {this : Nat} {writeCb : Bool} {s : ConnSystem} {write : Option Nat}
    (hpc : m.pc = .responsing) (hproc : m.conn.processState = .responsing)
    (hget : m.conn.requestType = .getMethod) (hclose : m.conn.keepAlive = false)
    (hresp : responseToGet (env.fs m.fsCalls m.conn.filePath) m.conn = some (c', msg))
    (hs : program.Reachable (.init this writeCb) s) (hstate : s.conn.state = .connected)
    (hwrite : WriteOk msg.length write) :
    ∃ es s₁ s₂, Steps env m es (OnMessage.after m.inBuffer (m.fsCalls + 1)) ∧
      es.flatMap (connActions write) =
        [.loopCall (.send msg) write, .loopCall .forceClose none] ∧
      s.exec (.loopCall (.send msg) write) = some s₁ ∧
      s₁.exec (.loopCall .forceClose none) = some s₂ ∧ s₂.log = s₁.log ++ [.closeCb] ∧
      (s₁.conn.outputBuffer.content = [] ∧
          written s₁.log = written s.log ++ s.conn.outputBuffer.content ++ msg ↔
        s.conn.outputBuffer.content = [] ∧ write = some msg.length) := by
  obtain ⟨q, hinv⟩ := hs.invariant preserves ⟨[], Inv.init this writeCb⟩
  obtain ⟨es, hsteps, hactions⟩ := steps_respond hpc hproc hget hclose hresp write
  obtain ⟨s₁, s₂, hsend, hforce, hlog, hstream, hdrained⟩ :=
    hinv.sendAndClose hstate (responseToGet_ne_nil hresp) hwrite
  refine ⟨es, s₁, s₂, hsteps, hactions, hsend, hforce, hlog, ?_⟩
  rw [hinv.sound.output.content_eq, ← hdrained, and_iff_left_iff_imp, ← hstream]
  intro hnil
  rw [hnil, List.append_nil]

/-- The request is answered, and the kernel takes all of the answer. -/
theorem response_complete_iff_whole :
    let c : HttpTcpConnection :=
      ⟨.responsing, .getMethod, ascii "text/plain", .http1_1, ascii "/srv/x.c", false⟩
    let m : OnMessage := ⟨.responsing, c, .fresh, 0⟩
    let msg := notFoundResponse c
    ∃ es s₁ s₂, Steps ⟨ascii "/srv", ascii "c", noFiles⟩ m es (OnMessage.after m.inBuffer 1) ∧
      es.flatMap (connActions (some msg.length)) =
        [.loopCall (.send msg) (some msg.length), .loopCall .forceClose none] ∧
      (ConnSystem.init 0 false).exec (.loopCall (.send msg) (some msg.length)) = some s₁ ∧
      s₁.exec (.loopCall .forceClose none) = some s₂ ∧ s₂.log = s₁.log ++ [.closeCb] ∧
      (s₁.conn.outputBuffer.content = [] ∧
          written s₁.log = [] ++ (ConnSystem.init 0 false).conn.outputBuffer.content ++ msg ↔
        (ConnSystem.init 0 false).conn.outputBuffer.content = [] ∧
          some msg.length = some msg.length) := by
  intro c m msg
  have hresp : responseToGet (noFiles 0 c.filePath) c =
      some ({ c with processState := .processFailed }, msg) := by rfl
  refine response_complete_iff rfl rfl rfl rfl hresp .start rfl fun n h => ?_
  cases h
  exact Nat.le_refl _

/-- The kernel takes one byte of the answer to a request that asks for the connection to be
closed. -/
theorem response_incomplete :
    ∃ es b k msg s₁ s₂,
      Steps ⟨ascii "/srv", ascii "c", noFiles⟩
        (start .fresh (arrived (ascii "GET /x.c HTTP/1.1\r\nConnection: close\r\n\r\n")) 0) es
        (OnMessage.after b k) ∧
      es.flatMap (connActions (some 1)) =
        [.loopCall (.send msg) (some 1), .loopCall .forceClose none] ∧
      (ConnSystem.init 0 false).exec (.loopCall (.send msg) (some 1)) = some s₁ ∧
      s₁.exec (.loopCall .forceClose none) = some s₂ ∧ s₂.log = s₁.log ++ [.closeCb] ∧
      s₁.conn.outputBuffer.content ≠ [] := by
  have hdoes := does_served ⟨ascii "/srv", ascii "c", noFiles⟩ 0
    (arrived_holds (ascii "GET /x.c HTTP/1.1\r\nConnection: close\r\n\r\n"))
  have hok : (served ⟨ascii "/srv", ascii "c", noFiles⟩ 0
      (ascii "GET /x.c HTTP/1.1\r\nConnection: close\r\n\r\n")).2 = .ok 1 := by rfl
  rw [Does, hok] at hdoes
  obtain ⟨b, -, hsteps⟩ := hdoes
  have hmsg : notFoundResponse { HttpTcpConnection.fresh with httpVersion := .http1_1 } ≠ [] := by
    decide
  have hwrite : WriteOk (notFoundResponse
      { HttpTcpConnection.fresh with httpVersion := .http1_1 }).length (some 1) := by
    intro n h
    cases h
    decide
  obtain ⟨s₁, s₂, hsend, hforce, hlog, -, hdrained⟩ :=
    (Inv.init 0 false).sendAndClose rfl hmsg hwrite
  refine ⟨_, b, 1, _, s₁, s₂, hsteps, by rfl, hsend, hforce, hlog, ?_⟩
  intro hnil
  cases (hdrained.mp hnil).2

end Httpancake
