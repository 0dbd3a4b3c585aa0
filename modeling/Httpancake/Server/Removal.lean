import Httpancake.Server.ConnView

/-! # When each connection is removed once

`closeCb_`, `handleRemoveConnectionInLoop` and `connectDestroyed` follow one another, so that the
calls of the first are those of the third and what is queued in between (`ConnView.Ledger`). Closing
leaves `state_` as it is, and nothing else keeps a connection from closing twice: what does is
that every callback asks for one close at most, and for none once the socket is no longer watched
for reading. -/

namespace Httpancake

open TcpConnection

/-- A callback of an open connection asks for at most `bound` closes. -/
def ServerConn.ClosesAtMost (cfg : ServerConfig) (c : ServerConn) (fs : FileSystem) (bound : Nat)
    (read : Option Bytes) : EventCallback → Prop
  | .closeCb => 1 ≤ bound
  | .readCb =>
    match read with
    | none => True
    | some [] => 1 ≤ bound
    | some data =>
      Httpancake.ClosesAtMost ⟨cfg.fileDir, c.connName, fs⟩ bound
        (c.tcp.inputBuffer.content ++ data)
  | .errorCb | .writeCb => True

instance (cfg : ServerConfig) (c : ServerConn) (fs : FileSystem) (bound : Nat)
    (read : Option Bytes) (cb : EventCallback) : Decidable (c.ClosesAtMost cfg fs bound read cb) :=
  match cb, read with
  | .closeCb, _ | .readCb, some [] => inferInstanceAs (Decidable (1 ≤ bound))
  | .readCb, none | .errorCb, _ | .writeCb, _ => inferInstanceAs (Decidable True)
  | .readCb, some (_ :: _) => inferInstanceAs (Decidable (_ ≤ bound ∧ (_ ∨ ¬ _)))

/-- A running `onMessage` closes at most `bound` times more. -/
def ServerConn.ClosesLater (cfg : ServerConfig) (c : ServerConn) (m : Message) (bound : Nat) :
    Prop :=
  ∀ n, closes ((OnMessage.machine (c.env cfg m)).run n (c.frame m)).2 ≤ bound

/-- What holds while `onMessage` is running. -/
structure ServerConn.Running (cfg : ServerConfig) (c : ServerConn) (m : Message) : Prop where
  not_returned : m.pc ≠ .returned
  sound : (c.frame m).Sound
  later : c.tcp.state = .connected → c.ClosesLater cfg m (if c.tcp.isReading then 1 else 0)

/-- What holds while it is not. -/
structure ServerConn.Idle (c : ServerConn) : Prop where
  http : c.http = .fresh
  input : ∃ q, c.tcp.inputBuffer.Holds q

namespace ServerConn
variable {cfg : ServerConfig} {c : ServerConn} {m : Message} {write : Option Nat}
  {frame : OnMessage} {effects : List Effect} {tcp : TcpConnection} {es : List ConnEffect}

/-- What a step of `onMessage` closes. -/
theorem count_perform (hperform : (c.ofFrame frame).tcp.perform write effects = some (tcp, es)) :
    es.count .closeCb = if c.tcp.state = .connected then closes effects else 0 :=
  (perform_spec hperform).closes

/-- A step of `onMessage` uses up what it closes. -/
theorem Running.step (h : c.Running cfg m)
    (hstep : OnMessage.step (c.env cfg m) (c.frame m) = (frame, effects))
    (hperform : (c.ofFrame frame).tcp.perform write effects = some (tcp, es)) :
    tcp.state = c.tcp.state ∧
      (tcp.isReading = true ↔ c.tcp.isReading = true ∧ es.count .closeCb = 0) ∧
      es.count .closeCb ≤ (if c.tcp.isReading then 1 else 0) ∧
      (frame.pc = .returned → ((c.ofFrame frame).after tcp es).Idle) ∧
      (frame.pc ≠ .returned → ((c.ofFrame frame).after tcp es).Running cfg
        { m with pc := frame.pc, fsCalls := frame.fsCalls }) := by
  have hperf : Performs effects (c.ofFrame frame).tcp tcp es := perform_spec hperform
  have hstate : tcp.state = c.tcp.state := hperf.state
  have hreading : tcp.isReading = true ↔ c.tcp.isReading = true ∧ es.count .closeCb = 0 :=
    hperf.reading
  have hsound : frame.Sound := by
    have hnext : (OnMessage.step (c.env cfg m) (c.frame m)).1.Sound :=
      (OnMessage.step_sound h.sound).1
    rwa [hstep] at hnext
  have hlater (hconn : c.tcp.state = .connected) (n : Nat) : es.count .closeCb +
      closes ((OnMessage.machine (c.env cfg m)).run n frame).2 ≤
        if c.tcp.isReading then 1 else 0 := by
    have hrest := h.later hconn (n + 1)
    rw [Machine.run] at hrest
    simp only [hstep, closes_append] at hrest
    rw [count_perform hperform, if_pos hconn]
    exact hrest
  have hframe : ((c.ofFrame frame).after tcp es).frame
      { m with pc := frame.pc, fsCalls := frame.fsCalls } = frame := by
    rw [ServerConn.frame]
    exact congrArg (OnMessage.mk frame.pc frame.conn · frame.fsCalls) hperf.input
  refine ⟨hstate, hreading, ?_, fun hpc => ⟨?_, ?_⟩, fun hpc => ⟨?_, ?_, fun hconn n => ?_⟩⟩
  · rcases eq_or_ne c.tcp.state .connected with hconn | hconn
    · exact (Nat.le_add_right _ _).trans (hlater hconn 0)
    · rw [count_perform hperform, if_neg hconn]
      exact Nat.zero_le _
  · -- only the end of an iteration returns, and it clears the parse state
    have hfinish : (c.frame m).pc = .finish := by
      by_contra hne
      have hstay : (OnMessage.step (c.env cfg m) (c.frame m)).1.pc ≠ .returned :=
        (OnMessage.step_pc_of_ne_finish hne h.not_returned).2
      rw [hstep] at hstay
      exact hstay hpc
    have hclear : (OnMessage.step (c.env cfg m) (c.frame m)).1.conn = .fresh := by
      simp only [OnMessage.step, hfinish]
      rfl
    rwa [hstep] at hclear
  · obtain ⟨q, hq⟩ := hsound.holds
    refine ⟨q, ?_⟩
    change tcp.inputBuffer.Holds q
    rw [hperf.input]
    exact hq
  · exact hpc
  · rw [hframe]
    exact hsound
  · rw [hframe]
    have hrest := hlater (hstate.symm.trans hconn) n
    change closes ((OnMessage.machine (c.env cfg m)).run n frame).2 ≤ if tcp.isReading then 1 else 0
    rcases Nat.eq_zero_or_pos (es.count .closeCb) with hzero | hpos
    · simp only [hreading, hzero, and_true]
      rwa [hzero, Nat.zero_add] at hrest
    · rw [if_neg fun hopen => hpos.ne' (hreading.mp hopen).2]
      split_ifs at hrest <;> omega

end ServerConn

namespace WebServer

/-- No connection takes the name of another, and an open connection is asked to close at most once
by a callback, and not at all after it has closed. -/
def ClosesOnce (cfg : ServerConfig) (s : WebServer) : ServerAction → Prop
  | .accept => s.connections (s.connName cfg) = none
  | .callback w read _ fs => ∀ e ∈ (s.workers w).callbacks.head?,
      (s.conns e.1).tcp.state = .connected →
      (s.conns e.1).ClosesAtMost cfg fs (if (s.conns e.1).tcp.isReading then 1 else 0) read e.2
  | _ => True

instance (cfg : ServerConfig) (s : WebServer) (a : ServerAction) :
    Decidable (s.ClosesOnce cfg a) :=
  match a with
  | .accept => inferInstanceAs (Decidable (_ = none))
  | .callback w read _ fs => inferInstanceAs (Decidable (∀ e ∈ (s.workers w).callbacks.head?,
      (s.conns e.1).tcp.state = .connected →
        (s.conns e.1).ClosesAtMost cfg fs (if (s.conns e.1).tcp.isReading then 1 else 0) read e.2))
  | .basePoll | .onTimer _ | .destroyEntry | .baseSwap | .baseCall | .baseEnd | .poll _ _
  | .dispatch _ | .onMessage _ _ | .swap _ | .call _ | .endBatch _ | .exit _ =>
    inferInstanceAs (Decidable True)

end WebServer

namespace ConnView

/-- The calls of `closeCb_`. -/
def closings (v : ConnView) : Nat := v.conn.log.count .closeCb

/-- The queued calls of `connectDestroyed`. -/
def destroying (v : ConnView) : Nat :=
  (v.work.funcs ++ v.work.pendingFuncs).count (.connectDestroyed v.this)

/-- The parse state between the calls of `onMessage` and during a call. -/
structure Serving (cfg : ServerConfig) (v : ConnView) : Prop where
  idle : v.work.message = none → v.conn.Idle
  running : ∀ m ∈ v.work.message, v.conn.Running cfg m ∧ v.work.stage = .events

/-- The calls of `closeCb_` are those of `connectDestroyed` and what is on the way. -/
structure Ledger (cfg : ServerConfig) (v : ConnView) : Prop where
  closings_eq : v.closings = v.removals + v.destroying + v.conn.destructions
  closings_le : v.closings ≤ 1
  not_closed : v.conn.tcp.isReading ∨ v.conn.tcp.state = .connecting → v.closings = 0
  registered : v.closings = v.removals → v.registered = some v.this
  serving : v.Serving cfg

variable {cfg : ServerConfig} {v v' : ConnView}

theorem ledger_fresh (this : Nat) (connName : Bytes) (lp : Nat) (stage : LoopStage) :
    (WebServer.freshView this connName lp stage).Ledger cfg where
  closings_eq := rfl
  closings_le := Nat.zero_le _
  not_closed _ := rfl
  registered _ := rfl
  serving := ⟨fun _ => ⟨rfl, [], .fresh⟩, nofun⟩

/-! ### What is closed is being removed -/

/-- Only `connectDestroyed` counts among the functors. -/
theorem destroying_queueInLoop {f : WorkFunction} :
    (v.queueInLoop f).destroying =
      v.destroying + if f = .connectDestroyed v.this then 1 else 0 := by
  change (v.work.funcs ++ (v.work.pendingFuncs ++ [f])).count (.connectDestroyed v.this) = _
  rw [← List.append_assoc, List.count_append, List.count_singleton]
  simp [destroying]

theorem destroying_called {f : WorkFunction} {funcs : List WorkFunction}
    (hfuncs : v.work.funcs = f :: funcs) :
    v.destroying = (v.called f funcs).destroying +
      if f = .connectDestroyed v.this then 1 else 0 := by
  change _ = (funcs ++ v.work.pendingFuncs).count (WorkFunction.connectDestroyed v.this) + _
  rw [destroying, hfuncs, List.cons_append, List.count_cons]
  simp

theorem destroying_swap (hfuncs : v.work.funcs = []) :
    (v.setWork { v.work with
      stage := .funcs, funcs := v.work.pendingFuncs, pendingFuncs := [] }).destroying =
      v.destroying := by
  change (v.work.pendingFuncs ++ []).count (WorkFunction.connectDestroyed v.this) = v.destroying
  rw [destroying, hfuncs, List.append_nil, List.nil_append]

theorem closings_append {es : List ConnEffect} (hlog : v'.conn.log = v.conn.log ++ es) :
    v'.closings = v.closings + es.count .closeCb := by
  rw [closings, hlog, List.count_append]
  rfl

/-- What is added to the closes is added to the removals. -/
theorem closings_after {es : List ConnEffect}
    (heq : v.closings = v.removals + v.destroying + v.conn.destructions)
    (hlog : v'.conn.log = v.conn.log ++ es)
    (hremovals : v'.removals = v.removals + es.count .closeCb)
    (hdestroying : v'.destroying + v'.conn.destructions = v.destroying + v.conn.destructions) :
    v'.closings = v'.removals + v'.destroying + v'.conn.destructions := by
  have hclosings := closings_append hlog
  omega

/-- `handleRemoveConnectionInLoop` turns a removal into a `connectDestroyed`. -/
theorem closings_remove (heq : v.closings = v.removals + v.destroying + v.conn.destructions)
    (hremovals : 0 < v.removals) :
    v.closings = v.removals - 1 + (v.queueInLoop (.connectDestroyed v.this)).destroying +
      v.conn.destructions := by
  rw [destroying_queueInLoop, if_pos rfl]
  omega

/-- **Every close is on its way**: it waits as a removal or as a `connectDestroyed`, or is done. -/
theorem closings_eq_step {e : ConnEvent}
    (heq : v.closings = v.removals + v.destroying + v.conn.destructions)
    (hstep : ConnStep cfg v e v') :
    v'.closings = v'.removals + v'.destroying + v'.conn.destructions := by
  cases hstep with
  | idle | rename | erase | lock | test | setDisconnecting | release | baseEnd | poll | dispatch
  | endBatch => exact heq
  | queueShutdown =>
    refine closings_after heq (List.append_nil _).symm rfl ?_
    exact congrArg (· + v.conn.destructions) (destroying_queueInLoop (v := v.setEntry _))
  | remove hremovals => exact closings_remove heq hremovals
  | callback | enterMessage | message => exact closings_after heq rfl rfl rfl
  | swap hstage hfuncs =>
    refine closings_after heq (List.append_nil _).symm rfl ?_
    rw [destroying_swap hfuncs]
    rfl
  | established context hfuncs | shutdownInLoop hfuncs =>
    refine closings_after heq rfl rfl ?_
    rw [destroying_called hfuncs]
    rfl
  | destroyed context hfuncs =>
    refine closings_after heq rfl rfl ?_
    rw [destroying_called hfuncs, if_pos rfl, Nat.add_assoc, Nat.add_comm 1]
    rfl

namespace Serving

/-- A step that leaves the connection to itself. -/
theorem of_conn (h : v.Serving cfg) (hconn : v'.conn = v.conn)
    (hmessage : v'.work.message = v.work.message)
    (hstage : v.work.stage = .events → v.work.message ≠ none → v'.work.stage = .events) :
    v'.Serving cfg where
  idle hnone := by
    rw [hconn]
    exact h.idle (hmessage ▸ hnone)
  running m hm := by
    rw [hmessage] at hm
    obtain ⟨hrun, hevents⟩ := h.running m hm
    rw [hconn]
    exact ⟨hrun, hstage hevents (Option.ne_none_iff_exists'.mpr ⟨m, hm⟩)⟩

/-- No call of `onMessage` is running outside the events. -/
theorem idle_of_stage (h : v.Serving cfg) (hstage : v.work.stage ≠ .events) :
    v.work.message = none := by
  rw [Option.eq_none_iff_forall_not_mem]
  intro m hm
  exact hstage (h.running m hm).2

/-- A function that runs while no call is running, and leaves the parse state and the input
alone. -/
theorem of_idle (h : v.Serving cfg) (hnone : v.work.message = none)
    (hmessage : v'.work.message = v.work.message) (hhttp : v'.conn.http = v.conn.http)
    (hinput : v.conn.Idle → ∃ q, v'.conn.tcp.inputBuffer.Holds q) : v'.Serving cfg := by
  have hidle := h.idle hnone
  refine ⟨fun _ => ⟨hhttp.trans hidle.http, hinput hidle⟩, fun m hm => ?_⟩
  rw [hmessage, hnone] at hm
  cases hm

end Serving

namespace Ledger

theorem destructions_le (h : v.Ledger cfg) : v.conn.destructions ≤ 1 := by
  have heq := h.closings_eq
  have hle := h.closings_le
  omega

/-- A queued removal finds the connection in `connections_`. -/
theorem registered_of_removal (h : v.Ledger cfg) (hremovals : 0 < v.removals) :
    v.registered = some v.this ∧ v.closings = 1 ∧ v.removals = 1 ∧ v.destroying = 0 ∧
      v.conn.destructions = 0 := by
  have heq := h.closings_eq
  have hle := h.closings_le
  exact ⟨h.registered (by omega), by omega, by omega, by omega, by omega⟩

/-- A step in which the connection asks for `es`. -/
theorem of_after (h : v.Ledger cfg) (es : List ConnEffect) (hthis : v'.this = v.this)
    (hregistered : v'.registered = v.registered) (hlog : v'.conn.log = v.conn.log ++ es)
    (hremovals : v'.removals = v.removals + es.count .closeCb)
    (hdestroying : v'.destroying + v'.conn.destructions = v.destroying + v.conn.destructions)
    (hle : v.closings + es.count .closeCb ≤ 1)
    (hopen : v'.conn.tcp.isReading ∨ v'.conn.tcp.state = .connecting →
      v.closings + es.count .closeCb = 0)
    (hserving : v'.Serving cfg) : v'.Ledger cfg := by
  have hclosings := closings_append hlog
  have heq := closings_after h.closings_eq hlog hremovals hdestroying
  refine ⟨heq, hclosings.trans_le hle, fun hr => hclosings.trans (hopen hr), fun hr => ?_, hserving⟩
  rw [hregistered, hthis]
  exact h.registered (by omega)

/-- A step in which it asks for nothing and stays as it is. -/
theorem of_conn (h : v.Ledger cfg) (hthis : v'.this = v.this)
    (hregistered : v'.registered = v.registered) (hconn : v'.conn = v.conn)
    (hremovals : v'.removals = v.removals) (hdestroying : v'.destroying = v.destroying)
    (hserving : v'.Serving cfg) : v'.Ledger cfg := by
  refine h.of_after [] hthis hregistered ?_ hremovals ?_ h.closings_le ?_ hserving
  · rw [hconn, List.append_nil]
  · rw [hdestroying, hconn]
  · rw [hconn]
    exact h.not_closed

/-- A function that closes nothing. -/
theorem of_quiet (h : v.Ledger cfg) {tcp : TcpConnection} {es : List ConnEffect}
    (hstate : tcp.state = v.conn.tcp.state) (hreading : tcp.isReading = v.conn.tcp.isReading)
    (hquiet : .closeCb ∉ es) (hserving : (v.after (v.conn.after tcp es) es).Serving cfg) :
    (v.after (v.conn.after tcp es) es).Ledger cfg := by
  have hcount : es.count .closeCb = 0 := List.count_eq_zero.mpr hquiet
  refine h.of_after es rfl rfl rfl rfl rfl ?_ ?_ hserving
  · rw [hcount]
    exact h.closings_le
  · rw [hcount]
    change tcp.isReading = true ∨ tcp.state = .connecting → _
    rw [hreading, hstate]
    exact h.not_closed

/-- The first close, of a connection that is watched for reading. -/
theorem of_closes (h : v.Ledger cfg) {c tcp : TcpConnection} {es : List ConnEffect}
    (hreading : v.conn.tcp.isReading = true) (hcloses : c.Closes tcp es)
    (hserving : (v.after (v.conn.after tcp es) es).Serving cfg) :
    (v.after (v.conn.after tcp es) es).Ledger cfg := by
  have hzero : v.closings = 0 := h.not_closed (.inl hreading)
  have hcount : es.count .closeCb = 1 := by rw [hcloses.effects, List.count_singleton_self]
  refine h.of_after es rfl rfl rfl rfl rfl ?_ ?_ hserving
  · rw [hzero, hcount]
  · change tcp.isReading = true ∨ tcp.state = .connecting → _
    rw [isReading, hcloses.events, hcloses.state]
    simp [EventMask.none]

/-- `connectDestroyed` is queued for the first and last time. -/
theorem remove (h : v.Ledger cfg) (hremovals : 0 < v.removals) :
    { v.queueInLoop (.connectDestroyed v.this) with
      registered := none
      removals := v.removals - 1
      removed := v.removed + 1 : ConnView }.Ledger cfg := by
  obtain ⟨-, hclosings, hone, -⟩ := h.registered_of_removal hremovals
  refine ⟨closings_remove h.closings_eq hremovals, h.closings_le, h.not_closed, fun heq => ?_,
    h.serving.of_conn rfl rfl fun he _ => he⟩
  have hcontra : v.closings = v.removals - 1 := heq
  omega

/-- `setState(DISCONNECTING)` cannot make a call close more often. -/
theorem setDisconnecting (h : v.Ledger cfg) (entry : Option EntryStep) :
    { v.setEntry entry with conn := v.conn.setDisconnecting }.Ledger cfg := by
  refine h.of_after [] rfl rfl (List.append_nil _).symm rfl rfl h.closings_le ?_ ⟨?_, ?_⟩
  · intro hr
    exact h.not_closed (.inl (hr.resolve_right nofun))
  · intro hnone
    have hidle := h.serving.idle hnone
    exact ⟨hidle.http, hidle.input⟩
  · intro m hm
    obtain ⟨hrun, hstage⟩ := h.serving.running m hm
    exact ⟨⟨hrun.not_returned, hrun.sound, nofun⟩, hstage⟩

/-- A callback of the handler, before any `onMessage`. -/
theorem callback (h : v.Ledger cfg) {cb : EventCallback} {read : Option Bytes} {fs : FileSystem}
    (hnone : v.work.message = none)
    (hcond : v.conn.tcp.state = .connected →
      v.conn.ClosesAtMost cfg fs (if v.conn.tcp.isReading then 1 else 0) read cb)
    (hcall : v.conn.tcp.callback read write cb = some (tcp, es)) :
    (v.after (v.conn.after tcp es) es).Ledger cfg := by
  have hserving (hinput : v.conn.Idle → ∃ q, tcp.inputBuffer.Holds q) :
      (v.after (v.conn.after tcp es) es).Serving cfg := h.serving.of_idle hnone rfl rfl hinput
  have hreading (hbound : 1 ≤ if v.conn.tcp.isReading then 1 else 0) :
      v.conn.tcp.isReading = true := by
    by_contra hnot
    rw [if_neg hnot] at hbound
    cases hbound
  have hholds {data : Bytes} {b : Buffer}
      (hread : v.conn.tcp.inputBuffer.readFd (some data) = some b) (hidle : v.conn.Idle) :
      ∃ q, b.Holds q := by
    obtain ⟨q, hq⟩ := hidle.input
    obtain ⟨b', hread', hb⟩ := hq.readFd data
    rw [hread] at hread'
    cases hread'
    exact ⟨_, hb⟩
  cases callback_outcome hcall with
  | close hcloses =>
    apply h.of_closes (hreading (hcond hcloses.connected)) hcloses
    exact hserving fun hidle => hcloses.input ▸ hidle.input
  | endOfStream hread hcloses =>
    apply h.of_closes (hreading (hcond hcloses.connected)) hcloses
    exact hserving fun hidle => hcloses.input ▸ hholds hread hidle
  | message hread hconn hes =>
    subst hconn hes
    exact h.of_quiet rfl rfl (by simp) (hserving (hholds hread))
  | quiet hwrites hidle =>
    apply h.of_quiet hwrites.state hwrites.reading hwrites.quiet.1
    exact hserving fun hidle => hwrites.input ▸ hidle.input

/-- `onMessage` begins on the bytes that were waiting and those that have arrived. -/
theorem enterMessage (h : v.Ledger cfg) {cb : EventCallback} {read : Option Bytes}
    {fs : FileSystem} (hstage : v.work.stage = .events) (hnone : v.work.message = none)
    (hcond : v.conn.tcp.state = .connected →
      v.conn.ClosesAtMost cfg fs (if v.conn.tcp.isReading then 1 else 0) read cb)
    (hcall : v.conn.tcp.callback read write cb = some (tcp, es)) (hmem : .messageCb ∈ es) :
    ((v.after (v.conn.after tcp es) es).setWork
      { v.work with message := some ⟨v.this, fs, .parseUrl, 0⟩ }).Ledger cfg := by
  have hafter := h.callback hnone hcond hcall
  obtain ⟨rfl, x, data, b, rfl, hread, rfl, rfl⟩ := callback_messageCb hcall hmem
  have hidle := h.serving.idle hnone
  obtain ⟨q, hq⟩ := hidle.input
  obtain ⟨b', hread', hb⟩ := hq.readFd (x :: data)
  rw [hread] at hread'
  cases hread'
  refine hafter.of_conn rfl rfl rfl rfl rfl ⟨fun hm => absurd hm (Option.some_ne_none _), ?_⟩
  intro m hm
  cases hm
  have hframe : (v.conn.after { v.conn.tcp with inputBuffer := b } [.messageCb]).frame
      ⟨v.this, fs, .parseUrl, 0⟩ = .start .fresh b 0 := by
    rw [ServerConn.frame, OnMessage.start, ← hidle.http]
    rfl
  refine ⟨⟨by simp, ?_, fun hstate n => ?_⟩, hstage⟩
  · change OnMessage.Sound (ServerConn.frame (v.conn.after _ _) _)
    rw [hframe]
    exact ⟨⟨_, hb⟩, fun _ => rfl⟩
  · change closes ((OnMessage.machine _).run n (ServerConn.frame (v.conn.after _ _) _)).2 ≤ _
    rw [hframe]
    have hbound : Httpancake.ClosesAtMost ⟨cfg.fileDir, v.conn.connName, fs⟩
        (if v.conn.tcp.isReading then 1 else 0) (v.conn.tcp.inputBuffer.content ++ x :: data) :=
      hcond hstate
    rw [hq.content_eq] at hbound
    exact OnMessage.closes_run_le hb (by simp) hbound 0 n

/-- A step of `onMessage` that has performed `effects`. -/
theorem message (h : v.Ledger cfg) {m : Message} {write : Option Nat}
    (hm : v.work.message = some m)
    (hstep : OnMessage.step (v.conn.env cfg m) (v.conn.frame m) = (frame, effects))
    (hperform : (v.conn.ofFrame frame).tcp.perform write effects = some (tcp, es)) :
    ((v.after ((v.conn.ofFrame frame).after tcp es) es).setWork
      { v.work with
        message :=
          if frame.pc = .returned then none
          else some { m with pc := frame.pc, fsCalls := frame.fsCalls } }).Ledger cfg := by
  obtain ⟨hrun, hstage⟩ := h.serving.running m hm
  obtain ⟨hstate, hreading, hcount, hreturned, hnext⟩ := hrun.step hstep hperform
  refine h.of_after es rfl rfl rfl rfl rfl ?_ ?_ ⟨fun hnone => ?_, fun m' hm' => ?_⟩
  · have hle := h.closings_le
    split_ifs at hcount with hopen
    · rw [h.not_closed (.inl hopen), Nat.zero_add]
      exact hcount
    · omega
  · change tcp.isReading = true ∨ tcp.state = .connecting → _
    rw [hreading, hstate]
    intro hopen
    rcases hopen with ⟨hopen, hzero⟩ | hconn
    · rw [h.not_closed (.inl hopen), hzero]
    · rw [h.not_closed (.inr hconn), ServerConn.count_perform hperform, hconn]
      rfl
  · simp only [ConnView.setWork] at hnone
    split_ifs at hnone with hpc
    exact hreturned hpc
  · simp only [ConnView.setWork] at hm'
    split_ifs at hm' with hpc
    · cases hm'
    · cases hm'
      exact ⟨hnext hpc, hstage⟩

/-- A functor of the batch that has asked for `es`, while no `onMessage` is running. -/
theorem called (h : v.Ledger cfg) {f : WorkFunction} {funcs : List WorkFunction} {c : ServerConn}
    (hfuncs : v.work.funcs = f :: funcs) (hstage : v.work.stage = .funcs)
    (hlog : c.log = v.conn.log ++ es) (hhttp : c.http = v.conn.http)
    (hinput : c.tcp.inputBuffer = v.conn.tcp.inputBuffer) (hquiet : .closeCb ∉ es)
    (hdestructions : c.destructions =
      v.conn.destructions + if f = .connectDestroyed v.this then 1 else 0)
    (hopen : c.tcp.isReading ∨ c.tcp.state = .connecting → v.closings = 0) :
    ((v.called f funcs).after c es).Ledger cfg := by
  have hcount : es.count .closeCb = 0 := List.count_eq_zero.mpr hquiet
  have hnone := h.serving.idle_of_stage (by rw [hstage]; nofun)
  refine h.of_after es rfl rfl hlog rfl ?_ ?_ ?_ (h.serving.of_idle hnone rfl hhttp fun hidle => ?_)
  · have hqueue := destroying_called hfuncs
    change (v.called f funcs).destroying + c.destructions = v.destroying + v.conn.destructions
    omega
  · rw [hcount]
    exact h.closings_le
  · rw [hcount]
    exact hopen
  · rw [show ((v.called f funcs).after c es).conn.tcp.inputBuffer = _ from hinput]
    exact hidle.input

end Ledger

/-- What a callback may close, and which renaming is harmless. -/
def Admits (cfg : ServerConfig) (v : ConnView) : ConnEvent → Prop
  | .rename | .erase => v.registered ≠ some v.this
  | .callback cb read fs => v.conn.tcp.state = .connected →
      v.conn.ClosesAtMost cfg fs (if v.conn.tcp.isReading then 1 else 0) read cb
  | _ => True

/-- **The step lemma.** -/
theorem Ledger.step {e : ConnEvent} (h : v.Ledger cfg) (hadmits : v.Admits cfg e)
    (hstep : ConnStep cfg v e v') : v'.Ledger cfg := by
  have hsame : v.work.stage = .events → v.work.message ≠ none → v.work.stage = .events :=
    fun he _ => he
  cases hstep with
  | idle => exact h
  | rename | erase =>
    refine ⟨h.closings_eq, h.closings_le, h.not_closed, ?_, h.serving.of_conn rfl rfl hsame⟩
    exact fun heq => absurd (h.registered heq) hadmits
  | lock | test | release => exact h.of_conn rfl rfl rfl rfl rfl (h.serving.of_conn rfl rfl hsame)
  | setDisconnecting => exact h.setDisconnecting _
  | queueShutdown =>
    exact h.of_conn rfl rfl rfl rfl (destroying_queueInLoop (v := v.setEntry _))
      (h.serving.of_conn rfl rfl hsame)
  | remove hremovals => exact h.remove hremovals
  | baseEnd => exact h.of_conn rfl rfl rfl rfl rfl (h.serving.of_conn rfl rfl hsame)
  | poll active hstage =>
    exact h.of_conn rfl rfl rfl rfl rfl (h.serving.of_conn rfl rfl fun _ _ => rfl)
  | dispatch active hstage =>
    exact h.of_conn rfl rfl rfl rfl rfl (h.serving.of_conn rfl rfl hsame)
  | callback hstage hnone hcall hmem => exact h.callback hnone hadmits hcall
  | enterMessage hstage hnone hcall hmem => exact h.enterMessage hstage hnone hadmits hcall hmem
  | message hm hstep hpc hperform => exact h.message hm hstep hperform
  | swap hstage hfuncs hactive hnone =>
    exact h.of_conn rfl rfl rfl rfl (destroying_swap hfuncs)
      (h.serving.of_conn rfl rfl fun _ hne => absurd hnone hne)
  | established context hfuncs hstage hcall =>
    obtain ⟨hconnecting, hstate, hinput, rfl⟩ := connectEstablished_spec hcall
    have hopen := h.not_closed (.inr hconnecting)
    exact h.called hfuncs hstage rfl rfl hinput (by simp) rfl fun _ => hopen
  | destroyed context hfuncs hstage hcall =>
    obtain ⟨hstate, hinput, hevents, -, rfl⟩ := connectDestroyed_spec hcall
    refine h.called hfuncs hstage rfl rfl hinput (by simp) (by simp) fun hopen => ?_
    simp [ServerConn.after, isReading, hevents, EventMask.none, hstate] at hopen
  | shutdownInLoop hfuncs hstage =>
    exact h.called hfuncs hstage rfl rfl rfl (shutdownInLoop_quiet _).1 rfl h.not_closed
  | endBatch hfuncs hstage =>
    refine h.of_conn rfl rfl rfl rfl rfl (h.serving.of_conn rfl rfl fun he _ => ?_)
    rw [hstage] at he
    cases he

end ConnView

namespace WebServer
variable {cfg : ServerConfig} {s : WebServer}

/-- Who has a queued removal still has its name. -/
theorem registered_of_mem (hledger : ∀ i < s.count, (s.view i).Ledger cfg) (h : s.Placed)
    {conn : Nat} (hconn : conn ∈ s.base.funcs ++ s.base.pendingFuncs) :
    s.connections (s.conns conn).connName = some conn := by
  have hlt : conn < s.count := h.removal conn (by
    rw [List.append_assoc]
    exact List.mem_append_right _ hconn)
  have hremovals : 0 < (s.view conn).removals := by
    change 0 < s.base.funcs.count conn + s.base.pendingFuncs.count conn
    rw [← List.count_append]
    exact List.count_pos_iff.mpr hconn
  exact ((hledger conn hlt).registered_of_removal hremovals).1

theorem admits_of_closesOnce {a : ServerAction} (hledger : ∀ i < s.count, (s.view i).Ledger cfg)
    (h : s.Placed) (hok : s.ClosesOnce cfg a) (id : Nat) :
    (s.view id).Admits cfg (s.event cfg id a) := by
  have hcause := s.event_causes cfg id a
  cases hevent : s.event cfg id a with
  | rename =>
    rw [hevent] at hcause
    obtain ⟨rfl, hname⟩ := hcause
    change s.connections (s.conns id).connName ≠ some id
    have hfree : s.connections (s.connName cfg) = none := hok
    rw [← hname, hfree]
    nofun
  | erase =>
    rw [hevent] at hcause
    obtain ⟨rfl, c, hhead, hne, hname⟩ := hcause
    change s.connections (s.conns id).connName ≠ some id
    rw [← hname, registered_of_mem hledger h (List.mem_append_left _ (List.mem_of_mem_head? hhead))]
    exact fun heq => hne (Option.some.inj heq)
  | callback cb read fs =>
    rw [hevent] at hcause
    obtain ⟨w, write, rfl, hhead⟩ := hcause
    exact hok (id, cb) hhead
  | idle | entry | remove | baseEnd | poll | dispatch | message | swap | call | endBatch => trivial

/-- What the removals of a connection must be. -/
structure RemovesOnce (s : WebServer) : Prop where
  closeCb : ∀ conn < s.count, (s.conns conn).log.count .closeCb ≤ 1
  connectDestroyed : ∀ conn < s.count, (s.conns conn).destructions ≤ 1
  erase : ∀ conn ∈ s.base.funcs, s.connections (s.conns conn).connName = some conn ∧
    (s.handleRemoveConnectionInLoop conn).isSome

/-- **Each connection is removed once**, in every run in which no connection takes the name of
another and an open connection is asked to close once at most. -/
theorem removed_once (cfg : ServerConfig)
    (h : ((webServer cfg).restrict (ClosesOnce cfg)).Reachable (.init cfg) s) :
    s.RemovesOnce := by
  obtain ⟨hplaced, hledger⟩ : s.Placed ∧ ∀ i < s.count, (s.view i).Ledger cfg := by
    refine views_of_reachable h ConnView.ledger_fresh ?_
    intro s a id v' hplaced hledger hok hstep hid
    exact (hledger id hid).step (admits_of_closesOnce hledger hplaced hok id) hstep
  refine ⟨fun conn hconn => (hledger conn hconn).closings_le,
    fun conn hconn => (hledger conn hconn).destructions_le, fun conn hconn => ?_⟩
  have hname := registered_of_mem hledger hplaced (List.mem_append_left _ hconn)
  refine ⟨hname, ?_⟩
  rw [handleRemoveConnectionInLoop]
  simp [hname]

/-- One worker loop and no idle timeout. -/
def exampleConfig : ServerConfig where
  serverName := ascii "httpancake"
  fileDir := ascii "/srv"
  threadNum := 1
  expiredSec := 0

/-- The base loop accepts a connection, the worker loop establishes it, and its socket becomes
readable. -/
def opened : List ServerAction :=
  [.basePoll, .accept, .poll 0 [], .swap 0, .call 0, .endBatch 0,
    .poll 0 [(0, ⟨true, false, false, false, false⟩)], .dispatch 0]

/-- The bytes arrive, and `onMessage` makes `n` steps. -/
def received (data : Bytes) (n : Nat) : List ServerAction :=
  .callback 0 (some data) none noFiles :: List.replicate n (.onMessage 0 none)

/-- A rejected request line closes the connection, which is then destroyed. -/
theorem removed_once_rejected :
    ∃ s : WebServer, s.RemovesOnce ∧ (s.conns 0).destructions = 1 := by
  have hrun : ∃ s, ((webServer exampleConfig).restrict (ClosesOnce exampleConfig)).Reachable
      (.init exampleConfig) s ∧ (s.conns 0).destructions = 1 :=
    Program.Reachable.of_admissible
      (opened ++ received (ascii "\n") 5 ++ [.baseSwap, .baseCall, .swap 0, .call 0])
      (by decide +kernel) (by decide +kernel)
  obtain ⟨s, hreach, hs⟩ := hrun
  exact ⟨s, removed_once exampleConfig hreach, hs⟩

/-- Two rejected request lines in one segment close it twice, and the second removal finds
nothing to erase. -/
theorem removed_twice :
    ∃ s : WebServer, (webServer exampleConfig).Reachable (.init exampleConfig) s ∧
      (s.conns 0).log.count .closeCb = 2 ∧ s.base.stage = .funcs ∧ s.base.funcs = [0] ∧
      s.handleRemoveConnectionInLoop 0 = none :=
  Program.Reachable.of_admissible (opened ++ received (ascii "\n\n") 10 ++ [.baseSwap, .baseCall])
    (by decide +kernel) (by decide +kernel)

end WebServer
end Httpancake
