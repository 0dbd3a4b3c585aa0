import Httpancake.Server.Callbacks
import Httpancake.Server.LogStatements
import Httpancake.Server.Ownership

/-! # What leaves the server running

A failed assertion, `exit`, an exception that nobody catches or a call on an object that is gone
ends the server for all connections. In the states that the server reaches (`WebServer.Ready`),
peers that close once and send lines of the right shapes, and log statements that are not too long,
do none of this (`WebServer.survives`). -/

namespace Httpancake

open Bytes TcpConnection

/-! ## The functions of a connection -/

namespace TcpConnection

variable {c : TcpConnection} {q : Bytes}

/-- The callback comes to `handleClose`. -/
def HangsUp (read : Option Bytes) : EventCallback → Prop
  | .closeCb => True
  | .readCb => read = some []
  | .errorCb | .writeCb => False

instance (read : Option Bytes) (cb : EventCallback) : Decidable (HangsUp read cb) :=
  match cb with
  | .closeCb => isTrue trivial
  | .readCb => inferInstanceAs (Decidable (read = some []))
  | .errorCb | .writeCb => isFalse id

theorem Sound.handleClose_isSome_iff (h : c.Sound q) :
    c.handleClose.isSome ↔ c.state = .connected := by
  constructor
  · intro hsome
    by_contra hstate
    rw [handleClose_eq_none hstate] at hsome
    cases hsome
  · intro hstate
    obtain ⟨c', hclose, -⟩ := h.handleClose hstate
    rw [hclose]
    rfl

/-- A callback fails at `handleClose` only. -/
theorem Sound.callback_isSome_iff (h : c.Sound q) {read : Option Bytes} {write : Option Nat}
    {cb : EventCallback} (hwrite : WriteOk c.outputBuffer.readableBytes write) :
    (c.callback read write cb).isSome ↔ (HangsUp read cb → c.state = .connected) := by
  cases cb with
  | closeCb => exact h.handleClose_isSome_iff.trans (forall_const True).symm
  | errorCb => exact iff_of_true rfl False.elim
  | writeCb =>
    rw [h.output.readableBytes_eq] at hwrite
    obtain ⟨c', es, q', hw, -⟩ := h.handleWrite hwrite
    refine iff_of_true ?_ False.elim
    rw [callback, hw]
    rfl
  | readCb =>
    cases read with
    | none =>
      refine iff_of_true ?_ fun heof => ?_
      · rw [callback, handleRead_error]
        rfl
      · cases heof
    | some data =>
      cases data with
      | nil =>
        obtain ⟨b, heof, hb⟩ := h.handleRead_eof
        rw [callback, heof, hb.handleClose_isSome_iff]
        exact ⟨fun hstate _ => hstate, fun hstate => hstate rfl⟩
      | cons x data =>
        obtain ⟨b, hread, -⟩ := h.handleRead_data (List.cons_ne_nil x data)
        refine iff_of_true ?_ fun heof => ?_
        · rw [callback, hread]
          rfl
        · cases heof

/-- What `onMessage` asks of its connection is always done. -/
theorem Sound.perform_isSome (h : c.Sound q) (write : Option Nat) (effects : List Effect) :
    (c.perform write effects).isSome := by
  induction effects generalizing c q with
  | nil => rfl
  | cons e effects ih =>
    by_cases hstate : c.state = .connected
    · cases e with
      | send msg =>
        obtain ⟨c', es, q', hsend, hc', -⟩ := h.sendInLoop msg write
        obtain ⟨r, hr⟩ := Option.isSome_iff_exists.mp (ih hc')
        simp [perform, send, hstate, hsend, hr]
      | forceClose =>
        obtain ⟨c', hclose, hc', -⟩ := h.handleClose hstate
        obtain ⟨r, hr⟩ := Option.isSome_iff_exists.mp (ih hc')
        simp [perform, forceClose, hstate, hclose, hr]
      | log text => exact ih h
    · rw [perform_of_not_connected hstate]
      rfl

end TcpConnection

/-! ## The start of a connection -/

namespace ConnView

variable {cfg : ServerConfig} {v v' : ConnView}

/-- How often a functor is queued. -/
def queued (v : ConnView) (f : WorkFunction) : Nat := (v.work.funcs ++ v.work.pendingFuncs).count f

theorem queued_queueInLoop {f g : WorkFunction} (hne : g ≠ f) :
    (v.queueInLoop g).queued f = v.queued f := by
  change (v.work.funcs ++ (v.work.pendingFuncs ++ [g])).count f = _
  rw [← List.append_assoc, List.count_append, List.count_singleton, beq_false_of_ne hne]
  rfl

theorem queued_called {f g : WorkFunction} {funcs : List WorkFunction}
    (hfuncs : v.work.funcs = g :: funcs) :
    v.queued f = (v.called g funcs).queued f + if g = f then 1 else 0 := by
  change _ = (funcs ++ v.work.pendingFuncs).count f + _
  rw [queued, hfuncs, List.cons_append, List.count_cons]
  simp

theorem queued_swap (hfuncs : v.work.funcs = []) (f : WorkFunction) :
    (v.setWork { v.work with
      stage := .funcs, funcs := v.work.pendingFuncs, pendingFuncs := [] }).queued f =
      v.queued f := by
  change (v.work.pendingFuncs ++ []).count f = v.queued f
  rw [queued, hfuncs, List.append_nil, List.nil_append]

/-- `connectEstablished` waits in the queue of the loop as long as the connection is new. -/
def Establishes (v : ConnView) : Prop :=
  v.queued (.connectEstablished v.this) = if v.conn.tcp.state = .connecting then 1 else 0

theorem establishes_fresh (this : Nat) (connName : Bytes) (lp : Nat) (stage : LoopStage) :
    (WebServer.freshView this connName lp stage).Establishes := by
  simp [Establishes, queued, WebServer.freshView, ServerConn.make, TcpConnection.make]

theorem Establishes.of_eq (h : v.Establishes)
    (hqueued : v'.queued (.connectEstablished v'.this) = v.queued (.connectEstablished v.this))
    (hstate : v'.conn.tcp.state = .connecting ↔ v.conn.tcp.state = .connecting) :
    v'.Establishes := by
  rw [Establishes, hqueued, h]
  exact if_congr hstate.symm rfl rfl

/-- Only a functor opens a connection. -/
theorem connecting_step {e : ConnEvent} (hreports : v.Reports) (hwithin : v.Within e)
    (hstep : ConnStep cfg v e v') (hne : e ≠ .call) :
    v'.conn.tcp.state = .connecting ↔ v.conn.tcp.state = .connecting := by
  cases hstep with
  | idle | rename | erase | lock | test | queueShutdown | release | remove | baseEnd | poll
  | dispatch | swap | endBatch => exact Iff.rfl
  | setDisconnecting hentry =>
    exact iff_of_false ConnState.noConfusion (hreports.entry hentry)
  | callback hstage hnone hcall | enterMessage hstage hnone hcall =>
    have halive : v.conn.Alive := hwithin
    apply iff_of_false _ halive.established
    cases callback_outcome hcall with
    | close hcloses | endOfStream hread hcloses =>
      exact hcloses.state.trans_ne ConnState.noConfusion
    | message hread hconn hes =>
      subst hconn
      exact halive.established
    | quiet hwrites hidle => exact hwrites.state.trans_ne halive.established
  | message hm hstep hpc hperform => exact Eq.congr_left (perform_spec hperform).state
  | established | destroyed | shutdownInLoop => exact absurd rfl hne

/-- What is destroyed has closed, and so it has been established. -/
theorem Reports.not_connecting (h : v.Reports) {funcs : List WorkFunction}
    (hfuncs : v.work.funcs = .connectDestroyed v.this :: funcs) :
    v.conn.tcp.state ≠ .connecting := by
  intro hconnecting
  have hzero := (h.connecting hconnecting).2
  have hqueue := destroying_called hfuncs
  rw [if_pos rfl] at hqueue
  have heq := h.closings_eq
  omega

/-- **The step lemma.** -/
theorem Establishes.step {e : ConnEvent} (h : v.Establishes) (hreports : v.Reports)
    (hwithin : v.Within e) (hstep : ConnStep cfg v e v') : v'.Establishes := by
  have hconnecting := connecting_step hreports hwithin hstep
  cases hstep with
  | idle => exact h
  | rename | erase | lock | test | release | baseEnd | poll | dispatch | endBatch
  | setDisconnecting | callback | enterMessage | message =>
    exact h.of_eq rfl (hconnecting ConnEvent.noConfusion)
  | queueShutdown =>
    exact h.of_eq (queued_queueInLoop (v := v.setEntry _) WorkFunction.noConfusion) Iff.rfl
  | remove => exact h.of_eq (queued_queueInLoop (v := v) WorkFunction.noConfusion) Iff.rfl
  | swap hstage hfuncs => exact h.of_eq (queued_swap hfuncs _) Iff.rfl
  | established context hfuncs hstage hcall =>
    obtain ⟨hnew, hconnected, -⟩ := connectEstablished_spec hcall
    have hcount := queued_called (f := .connectEstablished v.this) hfuncs
    rw [if_pos rfl, h, if_pos hnew] at hcount
    have hnot : _ ≠ ConnState.connecting := hconnected.trans_ne ConnState.noConfusion
    refine Eq.trans ?_ (if_neg hnot).symm
    change (v.called _ _).queued (.connectEstablished v.this) = 0
    omega
  | destroyed context hfuncs hstage hcall =>
    obtain ⟨hstate, -⟩ := connectDestroyed_spec hcall
    have hcount := queued_called (f := .connectEstablished v.this) hfuncs
    rw [if_neg WorkFunction.noConfusion] at hcount
    refine h.of_eq hcount.symm ?_
    exact iff_of_false (hstate.trans_ne ConnState.noConfusion) (hreports.not_connecting hfuncs)
  | shutdownInLoop hfuncs hstage =>
    have hcount := queued_called (f := .connectEstablished v.this) hfuncs
    rw [if_neg WorkFunction.noConfusion] at hcount
    exact h.of_eq hcount.symm Iff.rfl

/-- A functor that opens the connection is the only one that finds it new. -/
theorem not_connecting_of_call (hreports : v.Reports) (hstep : ConnStep cfg v .call v')
    (hup : v'.conn.tcp.state = .connected → v.conn.tcp.state = .connected)
    (hstate : v'.conn.tcp.state ≠ .connecting) : v.conn.tcp.state ≠ .connecting := by
  cases hstep with
  | established context hfuncs hstage hcall =>
    obtain ⟨-, hconnected, -⟩ := connectEstablished_spec hcall
    exact (hup hconnected).trans_ne ConnState.noConfusion
  | destroyed context hfuncs => exact hreports.not_connecting hfuncs
  | shutdownInLoop => exact hstate

theorem context_step {e : ConnEvent} (hstep : ConnStep cfg v e v') (hne : e ≠ .call) :
    v'.conn.context = v.conn.context := by
  cases hstep with
  | established | destroyed | shutdownInLoop => exact absurd rfl hne
  | _ => rfl

end ConnView

/-! ## What every step finds -/

namespace WebServer

variable {cfg : ServerConfig} {s s' : WebServer} {w : Nat}

/-- With the idle timeout, `onConnection` has set the context of every connection that is up. -/
def Contexts (s : WebServer) : Prop :=
  ∀ conn < s.count, (s.conns conn).tcp.state ≠ .connecting → (s.conns conn).context

theorem after_conns_of_ne {s : WebServer} {conn id : Nat} (hne : id ≠ conn) (c : ServerConn)
    (es : List ConnEffect) : (s.after conn c es).conns id = s.conns id :=
  Function.update_of_ne hne _ _

/-- `onConnection` sets the context of a connection that is up, and no other. -/
theorem onConnection_context (hexp : cfg.Expires) {conn : Nat} {tables : List SharedTable}
    (h : s.onConnection cfg conn = some (s', tables)) (id : Nat) :
    (s'.conns id).tcp = (s.conns id).tcp ∧ ((s'.conns id).context = true ∨
      (s'.conns id).context = (s.conns id).context ∧
        ((s.conns conn).tcp.state = .connected → id ≠ conn)) := by
  rw [onConnection] at h
  by_cases hstate : (s.conns conn).tcp.state = .connected
  · simp only [hstate, hexp, if_true, Option.bind_eq_bind, Option.bind_eq_some_iff] at h
    obtain ⟨connBuckets, -, heq⟩ := h
    cases heq
    simp only [Function.update_apply]
    split_ifs with hid
    · exact ⟨congrArg (fun i => (s.conns i).tcp) hid.symm, .inl rfl⟩
    · exact ⟨rfl, .inr ⟨rfl, fun _ => hid⟩⟩
  · rw [if_neg hstate] at h
    cases h
    exact ⟨rfl, .inr ⟨rfl, fun hup => absurd hup hstate⟩⟩

/-- What a functor does to the contexts. -/
theorem call_context {tables : List SharedTable} (hexp : cfg.Expires)
    (h : s.call cfg w = some (s', tables)) (id : Nat) :
    (s'.conns id).context = true ∨ (s'.conns id).context = (s.conns id).context ∧
      ((s'.conns id).tcp.state = .connected → (s.conns id).tcp.state = .connected) := by
  rw [call] at h
  split at h
  · cases h
  · next f funcs hfuncs =>
    cases f with
    | shutdownInLoop conn =>
      simp only [runFunctor] at h
      split_ifs at h
      cases h
      right
      rcases eq_or_ne id conn with rfl | hne
      · rw [after_conns]
        exact ⟨rfl, fun hup => hup⟩
      · rw [after_conns_of_ne hne]
        exact ⟨rfl, fun hup => hup⟩
    | connectEstablished conn =>
      simp only [runFunctor, Option.bind_eq_bind, Option.bind_eq_some_iff] at h
      obtain ⟨r, hcall, h⟩ := h
      obtain ⟨-, hup, -⟩ := connectEstablished_spec hcall
      obtain ⟨htcp, hcontext | ⟨hcontext, hne⟩⟩ := onConnection_context hexp h id
      · exact .inl hcontext
      · have hne : id ≠ conn := hne (by rw [after_conns]; exact hup)
        right
        rw [htcp, hcontext, after_conns_of_ne hne]
        exact ⟨rfl, fun hup => hup⟩
    | connectDestroyed conn =>
      simp only [runFunctor, Option.bind_eq_bind, Option.bind_eq_some_iff] at h
      obtain ⟨r, hcall, h⟩ := h
      obtain ⟨hdown, -⟩ := connectDestroyed_spec hcall
      obtain ⟨htcp, hcontext | ⟨hcontext, -⟩⟩ := onConnection_context hexp h id
      · exact .inl hcontext
      · right
        rw [htcp, hcontext]
        rcases eq_or_ne id conn with rfl | hne
        · rw [after_conns]
          exact ⟨rfl, fun hup => absurd (hdown.symm.trans hup) ConnState.noConfusion⟩
        · rw [after_conns_of_ne hne]
          exact ⟨rfl, fun hup => hup⟩

theorem event_call {conn : Nat} {a : ServerAction} (h : s.event cfg conn a = .call) :
    ∃ w, a = .call w := by
  cases a with
  | call w => exact ⟨w, rfl⟩
  | basePoll | onTimer | baseSwap | baseEnd | exit => cases h
  | accept | poll | dispatch | onMessage | swap | endBatch =>
    rw [event] at h
    split_ifs at h
  | destroyEntry | baseCall | callback =>
    rw [event] at h
    split at h
    · split_ifs at h
    · first
      | cases h
      | split_ifs at h

/-- What holds of the connections in every state that the server reaches. -/
structure Ready (cfg : ServerConfig) (s : WebServer) : Prop where
  dispatching : s.Dispatching
  reports : ∀ conn < s.count, (s.view conn).Reports
  establishes : ∀ conn < s.count, (s.view conn).Establishes
  converses : ∀ conn < s.count, ∃ heard, (s.view conn).Converses cfg heard
  contexts : cfg.Expires → s.Contexts

theorem Ready.contexts_step (h : s.Ready cfg) (hexp : cfg.Expires) {a : ServerAction}
    {accesses : List Access} (hpre : s.Pre cfg a) (hexec : s.exec cfg a = some (s', accesses)) :
    s'.Contexts := by
  have hsteps := exec_steps h.dispatching.placed hpre hexec
  intro conn hconn hstate
  have hold (hlt : conn < s.count) : (s'.conns conn).context = true := by
    have hstep := hsteps.view conn hlt
    by_cases hcall : s.event cfg conn a = .call
    · obtain ⟨w, rfl⟩ := event_call hcall
      obtain ⟨r, hr, heq⟩ := Option.map_eq_some_iff.mp hexec
      cases heq
      rcases call_context hexp hr conn with hset | ⟨hsame, hup⟩
      · exact hset
      rw [hsame]
      exact h.contexts hexp conn hlt
        (ConnView.not_connecting_of_call (h.reports conn hlt) (hcall ▸ hstep) hup hstate)
    · have hconnecting := ConnView.connecting_step (h.reports conn hlt)
        (h.dispatching.within a conn) hstep hcall
      have hsame : (s'.conns conn).context = (s.conns conn).context :=
        ConnView.context_step hstep hcall
      rw [hsame]
      exact h.contexts hexp conn hlt fun hnew => hstate (hconnecting.mpr hnew)
  rcases hsteps.count with hcount | ⟨hcount, lp, stage, hnew⟩
  · exact hold (hcount ▸ hconn)
  · rcases Nat.lt_succ_iff_lt_or_eq.mp (hcount ▸ hconn) with hlt | rfl
    · exact hold hlt
    · have hconn := congrArg (fun v : ConnView => v.conn.tcp.state) hnew
      exact absurd hconn hstate

theorem Ready.step {a : ServerAction} {accesses : List Access} (h : s.Ready cfg)
    (hpre : s.Pre cfg a) (hexec : s.exec cfg a = some (s', accesses)) : s'.Ready cfg := by
  have hsteps := exec_steps h.dispatching.placed hpre hexec
  have hwithin (conn : Nat) : (s.view conn).Within (s.event cfg conn a) :=
    h.dispatching.within a conn
  refine ⟨h.dispatching.step hpre hexec, ?_, ?_, ?_, fun hexp => h.contexts_step hexp hpre hexec⟩
  · apply hsteps.forall_view ConnView.reports_fresh
    intro conn hconn hstep
    exact (h.reports conn hconn).step (h.dispatching.watches conn hconn) (hwithin conn) hstep
  · apply hsteps.forall_view ConnView.establishes_fresh
    intro conn hconn hstep
    exact (h.establishes conn hconn).step (h.reports conn hconn) (hwithin conn) hstep
  · refine hsteps.forall_view (I := fun v => ∃ heard, v.Converses cfg heard)
      (fun this connName lp stage => ⟨[], ConnView.converses_fresh this connName lp stage⟩) ?_
    intro conn hconn hstep
    obtain ⟨heard, hconverses⟩ := h.converses conn hconn
    exact ⟨_, hconverses.step (hwithin conn) hstep⟩

theorem ready_init (cfg : ServerConfig) : (WebServer.init cfg).Ready cfg :=
  ⟨.init cfg, nofun, nofun, nofun, fun _ => nofun⟩

theorem preserves_ready : (webServer cfg).Preserves (Ready cfg) :=
  fun _ _ _ _ h hpre hexec => h.step hpre hexec

theorem Ready.sound (h : s.Ready cfg) {conn : Nat} (hconn : conn < s.count) :
    ∃ q, (s.conns conn).tcp.Sound q := by
  obtain ⟨heard, hconverses⟩ := h.converses conn hconn
  obtain ⟨q, said, promised, hsound, -⟩ := hconverses.stream
  exact ⟨q, hsound⟩

/-! ## One step -/

/-- `weakEntryPtr.lock()` does not fail, and the newest bucket is whole. -/
theorem enterMessage_isSome {conn : Nat} {fs : FileSystem}
    (hcontext : cfg.Expires → (s.conns conn).context = true)
    (hback : cfg.Expires → s.connBuckets ≠ []) : (s.enterMessage cfg w conn fs).isSome := by
  rw [enterMessage]
  by_cases hexp : cfg.Expires
  · obtain ⟨bucket, buckets, hbuckets⟩ := List.exists_cons_of_ne_nil (hback hexp)
    simp only [if_pos hexp, if_pos (hcontext hexp), hbuckets, insertBack]
    split_ifs <;> rfl
  · simp only [if_neg hexp]
    rfl

theorem onConnection_isSome {conn : Nat} (hback : cfg.Expires → s.connBuckets ≠ []) :
    (s.onConnection cfg conn).isSome := by
  rw [onConnection]
  split_ifs with hstate hexp
  · obtain ⟨bucket, buckets, hbuckets⟩ := List.exists_cons_of_ne_nil (hback hexp)
    simp [hbuckets, insertBack]
  all_goals rfl

/-- A callback does not fail for a connection that is up when it hangs up. -/
theorem Ready.callback_isSome (h : s.Ready cfg) {read : Option Bytes} {write : Option Nat}
    {fs : FileSystem} (hpre : s.Pre cfg (.callback w read write fs))
    (hback : cfg.Expires → s.connBuckets ≠ [])
    (hup : ∀ e ∈ (s.workers w).callbacks.head?,
      HangsUp read e.2 → (s.conns e.1).tcp.state = .connected) :
    (s.callback cfg w read write fs).isSome := by
  obtain ⟨hstage, hnone, ⟨conn, cb⟩, hhead, hwrite⟩ := hpre
  obtain ⟨callbacks, hcallbacks⟩ : ∃ callbacks, (s.workers w).callbacks = (conn, cb) :: callbacks :=
    List.head?_eq_some_iff.mp hhead
  have hmem : conn ∈ (s.workers w).dispatched := by
    simp [WorkLoop.dispatched, hcallbacks]
  have hconn := (h.dispatching.placed.dispatched hmem).1
  have halive := h.dispatching.alive w conn hmem
  obtain ⟨q, hsound⟩ := h.sound hconn
  obtain ⟨r, hcall⟩ := Option.isSome_iff_exists.mp
    ((hsound.callback_isSome_iff hwrite).mpr (hup (conn, cb) hhead))
  rw [WebServer.callback, hcallbacks]
  simp only [Option.bind_eq_bind, hcall, Option.bind_some]
  split_ifs
  · refine enterMessage_isSome (fun hexp => ?_) hback
    rw [after_conns]
    exact h.contexts hexp conn hconn halive.established
  · rfl

theorem Ready.owns_message (h : s.Ready cfg) {m : Message} (hm : m ∈ (s.workers w).message) :
    s.Owns w m.conn := (h.dispatching.placed.work w).message m hm

/-- The buffer of a running call is sound. -/
theorem Ready.frame_sound (h : s.Ready cfg) {m : Message} (hm : m ∈ (s.workers w).message) :
    ((s.conns m.conn).frame m).Sound := by
  have howns := h.owns_message hm
  have hmessage : (s.view m.conn).work.message = some m := by
    change (s.workers (s.conns m.conn).lp).message.filter (·.conn = m.conn) = some m
    rw [howns.2, Option.mem_def.mp hm]
    simp
  obtain ⟨heard, hconverses⟩ := h.converses m.conn howns.1
  obtain ⟨q, said, promised, -, -, hp, -⟩ := hconverses.stream
  exact hp.frame_sound hmessage

theorem Ready.messageStep_isSome_iff (h : s.Ready cfg) {m : Message}
    (hm : m ∈ (s.workers w).message) (write : Option Nat) : (s.messageStep cfg w m write).isSome ↔
      ∀ f, (OnMessage.step ((s.conns m.conn).env cfg m) ((s.conns m.conn).frame m)).1.pc ≠
        .stopped f := by
  have hnext := (@OnMessage.step_sound ((s.conns m.conn).env cfg m) _ (h.frame_sound hm)).1
  obtain ⟨q, hsound⟩ := h.sound (h.owns_message hm).1
  rw [messageStep]
  generalize OnMessage.step ((s.conns m.conn).env cfg m) ((s.conns m.conn).frame m) = r at hnext ⊢
  obtain ⟨frame, effects⟩ := r
  have hperform : (((s.conns m.conn).ofFrame frame).tcp.perform write effects).isSome :=
    Sound.perform_isSome (hsound.ofInput hnext.holds) write effects
  obtain ⟨r, hr⟩ := Option.isSome_iff_exists.mp hperform
  cases hpc : frame.pc with
  | stopped f => simp [hpc]
  | parseUrl | parseHeaders | headerLoop m | parseBody | bodyLoop l | responsing | finish
  | returned => simp [hpc, hr]

/-- A functor that has been taken from the queue is still held by the batch. -/
theorem referenced_called {conn : Nat} {f : WorkFunction} {funcs : List WorkFunction}
    (hfuncs : (s.workers w).funcs = f :: funcs) (href : s.Referenced conn) :
    (s.modifyWorker w fun l => { l with funcs, called := l.called ++ [f] }).Referenced conn := by
  refine href.imp_right (Or.imp_right (Or.imp_left ?_))
  rintro ⟨g, hg, hholds⟩
  refine ⟨g, ?_, hholds⟩
  simp only [modifyWorker]
  rcases eq_or_ne (s.conns conn).lp w with rfl | hne
  · rw [Function.update_self]
    rw [hfuncs] at hg
    simpa [or_assoc] using hg
  · rw [Function.update_of_ne hne]
    exact hg

theorem Ready.call_isSome (h : s.Ready cfg) (hfuncs : (s.workers w).funcs ≠ [])
    (hback : cfg.Expires → s.connBuckets ≠ [])
    (href : ∀ conn, .shutdownInLoop conn ∈ (s.workers w).funcs → s.Referenced conn) :
    (s.call cfg w).isSome := by
  obtain ⟨f, funcs, hqueue⟩ := List.exists_cons_of_ne_nil hfuncs
  have howns : s.Owns w f.conn := by
    apply (h.dispatching.placed.work w).functor f
    rw [hqueue]
    simp
  have hmem : f ∈ (s.view f.conn).work.funcs := by
    change f ∈ (s.workers (s.conns f.conn).lp).funcs.filter (·.conn = f.conn)
    rw [howns.2, hqueue]
    simp
  obtain ⟨q, hsound⟩ := h.sound howns.1
  rw [call, hqueue]
  cases f with
  | shutdownInLoop conn =>
    have href := href conn (by rw [hqueue]; exact List.mem_cons_self)
    simp only [runFunctor, if_pos (referenced_called hqueue href)]
    rfl
  | connectDestroyed conn =>
    change (s.conns conn).tcp.Sound q at hsound
    obtain ⟨c', hcall, -⟩ := hsound.connectDestroyed
    simp only [runFunctor, modifyWorker, hcall, Option.bind_eq_bind, Option.bind_some]
    exact onConnection_isSome hback
  | connectEstablished conn =>
    -- it is still queued, so the connection is new
    have hnew : (s.conns conn).tcp.state = .connecting := by
      by_contra hne
      have hcount : (s.view conn).queued (.connectEstablished conn) = 0 :=
        (h.establishes conn howns.1).trans (if_neg hne)
      have hpos : 0 < (s.view conn).queued (.connectEstablished conn) :=
        List.count_pos_iff.mpr (List.mem_append_left _ hmem)
      omega
    change (s.conns conn).tcp.Sound q at hsound
    obtain ⟨c', hcall, -⟩ := hsound.connectEstablished hnew
    simp only [runFunctor, modifyWorker, hcall, Option.bind_eq_bind, Option.bind_some]
    exact onConnection_isSome hback

end WebServer

/-! ## Peers that leave the server running -/

/-- The file is read within its mapping, if at all. -/
def FileOutcome.Readable (file : FileOutcome) : Prop :=
  ∀ stSize, file.lstat = .found stSize →
    (readMapping (if file.opened then file.mapped else none) stSize).isSome

/-- Every line has a shape that the parser knows, and the files can be read. -/
structure Chunk.Proper (cfg : ServerConfig) (chunk : Chunk) : Prop where
  lines : LinesOk cfg.fileDir false (lines chunk.data).1
  files : ∀ k path, (chunk.fs k path).Readable

theorem FileOutcome.Readable.responseToGet {file : FileOutcome} (h : file.Readable)
    (c : HttpTcpConnection) : Httpancake.responseToGet file c ≠ none := by
  intro hnone
  rw [Httpancake.responseToGet] at hnone
  split at hnone
  · cases hnone
  · cases hlstat : file.lstat with
    | found stSize =>
      obtain ⟨msg, hmsg⟩ := Option.isSome_iff_exists.mp (h stSize hlstat)
      simp [hlstat, hmsg] at hnone
    | noent | failed => simp [hlstat, readMapping] at hnone

theorem answer_ok {env : Env} (h : ∀ k path, (env.fs k path).Readable) {k : Nat}
    {c : HttpTcpConnection} {f : Fault} : (answer env k c).2 ≠ .error f := by
  intro herror
  rw [answer] at herror
  split at herror
  · split at herror
    · next hnone => exact absurd hnone ((h k c.filePath).responseToGet c)
    · cases herror
  · cases herror

/-- A call on a proper chunk is never stopped. -/
theorem Chunk.Proper.run_not_stopped {cfg : ServerConfig} {chunk : Chunk} (h : chunk.Proper cfg)
    {connName : Bytes} {b : Buffer} (hb : b.Holds chunk.data) (n : Nat) (f : Fault) :
    ((OnMessage.machine ⟨cfg.fileDir, connName, chunk.fs⟩).run n
      (OnMessage.start .fresh b 0)).1.pc ≠ .stopped f := by
  intro hstop
  have herror := ((OnMessage.does_served ⟨cfg.fileDir, connName, chunk.fs⟩ 0 hb).stops_iff
    (not_mem_lines_rest _)).mp ⟨n, hstop⟩
  rw [served] at herror
  split at herror
  · cases herror
  · obtain ⟨k, c, hanswer⟩ := serve_error_of_linesOk _ .request h.lines herror
    exact answer_ok h.files hanswer

namespace ConnView

variable {cfg : ServerConfig} {v v' : ConnView}

/-- The running call of `onMessage` is never stopped. -/
def NeverStops (cfg : ServerConfig) (v : ConnView) : Prop :=
  ∀ m ∈ v.work.message, ∀ n f,
    ((OnMessage.machine (v.conn.env cfg m)).run n (v.conn.frame m)).1.pc ≠ .stopped f

theorem neverStops_fresh (this : Nat) (connName : Bytes) (lp : Nat) (stage : LoopStage) :
    (WebServer.freshView this connName lp stage).NeverStops cfg := nofun

theorem NeverStops.of_eq (h : v.NeverStops cfg) (hmessage : v'.work.message = v.work.message)
    (hname : v'.conn.connName = v.conn.connName) (hhttp : v'.conn.http = v.conn.http)
    (hinput : v'.conn.tcp.inputBuffer = v.conn.tcp.inputBuffer) : v'.NeverStops cfg := by
  intro m hm n f
  have henv : v'.conn.env cfg m = v.conn.env cfg m := by
    rw [ServerConn.env, hname]
    rfl
  have hframe : v'.conn.frame m = v.conn.frame m := by
    rw [ServerConn.frame, hhttp, hinput]
    rfl
  rw [henv, hframe]
  exact h m (hmessage ▸ hm) n f

/-- No call is running. -/
theorem NeverStops.of_none (hnone : v.work.message = none) : v.NeverStops cfg := by
  intro m hm
  rw [hnone] at hm
  cases hm

/-- **The step lemma.** -/
theorem NeverStops.step {e : ConnEvent} (h : v.NeverStops cfg) {heard : List Chunk}
    (hconverses : v.Converses cfg heard) (hproper : ∀ chunk ∈ e.heard, chunk.Proper cfg)
    (hstep : ConnStep cfg v e v') : v'.NeverStops cfg := by
  cases hstep with
  | idle => exact h
  | rename | erase | lock | test | setDisconnecting | queueShutdown | release | remove | baseEnd
  | poll | dispatch | endBatch | swap | shutdownInLoop => exact h.of_eq rfl rfl rfl rfl
  | established context hfuncs hstage hcall =>
    exact h.of_eq rfl rfl rfl (connectEstablished_spec hcall).2.2.1
  | destroyed context hfuncs hstage hcall =>
    exact h.of_eq rfl rfl rfl (connectDestroyed_spec hcall).2.1
  | callback hstage hnone => exact .of_none hnone
  | enterMessage hstage hnone hcall hmem =>
    obtain ⟨rfl, x, data, b, rfl, hread, rfl, rfl⟩ := callback_messageCb hcall hmem
    obtain ⟨q, said, promised, -, -, hp, -⟩ := hconverses.stream
    obtain ⟨-, hhttp, hinput⟩ := hp.idle_inv hnone
    obtain ⟨b', hread', hb⟩ := hinput.readFd (x :: data)
    cases hread.symm.trans hread'
    intro m hm n f
    cases hm
    have hframe (fs : FileSystem) :
        (v.conn.after { v.conn.tcp with inputBuffer := b } [.messageCb]).frame
          ⟨v.this, fs, .parseUrl, 0⟩ = .start .fresh b 0 := by
      rw [ServerConn.frame, OnMessage.start, ← hhttp]
      rfl
    change ((OnMessage.machine _).run n (ServerConn.frame (v.conn.after _ _) _)).1.pc ≠ _
    rw [hframe]
    exact (hproper _ List.mem_cons_self).run_not_stopped hb n f
  | @message m frame effects write tcp es hm hstep hpc hperform =>
    have hinput : tcp.inputBuffer = frame.inBuffer := (perform_spec hperform).input
    intro m' hm' n f
    change m' ∈ (if frame.pc = .returned then none else some _) at hm'
    split at hm'
    · cases hm'
    · cases hm'
      have hframe : ((v.conn.ofFrame frame).after tcp es).frame
          { m with pc := frame.pc, fsCalls := frame.fsCalls } = frame := by
        rw [ServerConn.frame]
        exact congrArg (OnMessage.mk frame.pc frame.conn · frame.fsCalls) hinput
      change ((OnMessage.machine _).run n (ServerConn.frame (ServerConn.after _ _ _) _)).1.pc ≠ _
      rw [hframe]
      -- what the rest of the call does, it has been about to do before
      have hlater := h m hm (n + 1) f
      rw [Machine.run] at hlater
      simp only [hstep] at hlater
      exact hlater

/-- Up, unless it is new or destroyed. -/
def Up (v : ConnView) : Prop := v.conn.Alive → v.conn.tcp.state = .connected

theorem up_fresh (this : Nat) (connName : Bytes) (lp : Nat) (stage : LoopStage) :
    (WebServer.freshView this connName lp stage).Up := fun halive => absurd rfl halive.established

/-- Only `~Entry` begins to shut a connection down. -/
theorem Up.step {e : ConnEvent} (h : v.Up) (hentry : e ≠ .entry) (hwithin : v.Within e)
    (hstep : ConnStep cfg v e v') : v'.Up := by
  intro halive
  cases hstep with
  | idle | rename | erase | remove | baseEnd | poll | dispatch | swap | endBatch
  | shutdownInLoop => exact h ⟨halive.established, halive.not_destroyed⟩
  | lock | test | setDisconnecting | queueShutdown | release => exact absurd rfl hentry
  | callback hstage hnone hcall | enterMessage hstage hnone hcall =>
    have hup := h hwithin
    cases callback_outcome hcall with
    | close hcloses | endOfStream hread hcloses => exact hcloses.state
    | message hread hconn hes =>
      subst hconn
      exact hup
    | quiet hwrites hidle => exact hwrites.state.trans hup
  | message hm hstep hpc hperform =>
    have hsame := (perform_spec hperform).state
    refine hsame.trans (h ⟨fun hnew => halive.established (hsame.trans hnew), ?_⟩)
    exact halive.not_destroyed
  | established context hfuncs hstage hcall => exact (connectEstablished_spec hcall).2.1
  | destroyed => exact absurd halive.not_destroyed (Nat.succ_ne_zero _)

end ConnView

namespace WebServer

variable {cfg : ServerConfig} {s s' : WebServer}

/-- What a peer sends is proper, nothing closes a connection that is being shut down (without the
idle timeout there is none), nothing is inserted into a bucket that is being destroyed, and no
system call fails on which the code exits. -/
def WellBehaved (cfg : ServerConfig) (s : WebServer) : ServerAction → Prop
  | .callback w read _ fs => (cfg.Expires → s.connBuckets ≠ []) ∧
      ∀ e ∈ (s.workers w).callbacks.head?,
        (∀ chunk ∈ (ConnEvent.callback e.2 read fs).heard, chunk.Proper cfg) ∧
          (cfg.Expires → HangsUp read e.2 → (s.conns e.1).tcp.state = .connected)
  | .call _ => cfg.Expires → s.connBuckets ≠ []
  | .exit _ => False
  | _ => True

/-- The statements of a step leave the time and the place enough of their streams. -/
def LogsShort (cfg : ServerConfig) (s : WebServer) (a : ServerAction) : Prop :=
  ∀ items ∈ s.logged cfg a, (items.flatMap Insertion.text).length ≤ 3000

instance (cfg : ServerConfig) (s : WebServer) (a : ServerAction) : Decidable (s.LogsShort cfg a) :=
  inferInstanceAs (Decidable (∀ items ∈ s.logged cfg a, _ ≤ 3000))

/-- Without the idle timeout no connection is shut down. -/
structure Timeless (s : WebServer) : Prop where
  ticking : s.base.ticking = false
  up : ∀ conn < s.count, (s.view conn).Up

theorem Timeless.step {a : ServerAction} {accesses : List Access} (h : s.Timeless)
    (hexp : ¬ cfg.Expires) (hd : s.Dispatching) (hpre : s.Pre cfg a)
    (hexec : s.exec cfg a = some (s', accesses)) : s'.Timeless := by
  have htimer (order : List Nat) : a ≠ .onTimer order := by
    rintro rfl
    exact hexp hpre.2.1
  have hentry : a ≠ .destroyEntry := by
    rintro rfl
    cases h.ticking.symm.trans hpre.2
  refine ⟨((exec_leaves hexec).2 htimer hentry).1.trans h.ticking, ?_⟩
  apply (exec_steps hd.placed hpre hexec).forall_view ConnView.up_fresh
  intro conn hconn hstep
  apply (h.up conn hconn).step _ (hd.within a conn) hstep
  intro hevent
  have hcause := s.event_causes cfg conn a
  rw [hevent] at hcause
  exact hentry hcause

/-- What holds while nobody misbehaves. -/
structure Steady (cfg : ServerConfig) (s : WebServer) : Prop extends s.Ready cfg where
  ledger : ∀ conn < s.count, (s.view conn).Ledger cfg
  owned : ∀ conn < s.count, (s.view conn).Owned
  neverStops : ∀ conn < s.count, (s.view conn).NeverStops cfg
  timeless : ¬ cfg.Expires → s.Timeless

/-- The steps of the environment that this is about. -/
def Behaves (cfg : ServerConfig) (s : WebServer) (a : ServerAction) : Prop :=
  (s.ClosesOnce cfg a ∧ s.InTime cfg a ∧ s.LogsShort cfg a) ∧ s.WellBehaved cfg a

/-- **One step** succeeds. -/
theorem Steady.exec_isSome (h : s.Steady cfg) (hthreads : 0 < cfg.threadNum) {a : ServerAction}
    (hpre : s.Pre cfg a) (hbehaves : s.Behaves cfg a) : (s.exec cfg a).isSome := by
  have hplaced := h.dispatching.placed
  have hwell := hbehaves.2
  cases a with
  | basePoll | onTimer | destroyEntry | baseSwap | baseEnd | poll | swap | endBatch => rfl
  | exit => exact hwell.elim
  | accept =>
    rw [exec, Option.isSome_map, handleNewConnection, if_neg hthreads.ne']
    rfl
  | baseCall =>
    obtain ⟨conn, funcs, hqueue⟩ := List.exists_cons_of_ne_nil hpre.2
    have hmem : conn ∈ s.base.funcs ++ s.base.pendingFuncs := by
      rw [hqueue]
      exact List.mem_append_left _ List.mem_cons_self
    have hname : (s.connections (s.conns conn).connName).isSome := by
      rw [registered_of_mem h.ledger hplaced hmem]
      rfl
    rw [exec, hqueue]
    simp only [Option.isSome_map]
    rw [handleRemoveConnectionInLoop]
    exact congrArg Option.isSome (if_pos hname)
  | dispatch w =>
    obtain ⟨e, activeQueue, hqueue⟩ := List.exists_cons_of_ne_nil hpre.2.1
    rw [exec, hqueue]
    rfl
  | callback w read write fs =>
    rw [exec, Option.isSome_map]
    refine h.callback_isSome hpre hwell.1 fun e hhead hhangs => ?_
    by_cases hexp : cfg.Expires
    · exact (hwell.2 e hhead).2 hexp hhangs
    · have hmem : e.1 ∈ (s.workers w).dispatched := by
        apply List.mem_append_left
        apply List.mem_append_right
        exact List.mem_map_of_mem (List.mem_of_mem_head? hhead)
      exact (h.timeless hexp).up e.1 (hplaced.dispatched hmem).1 (h.dispatching.alive w e.1 hmem)
  | onMessage w write =>
    obtain ⟨m, hm, -⟩ := hpre
    have howns := h.owns_message hm
    have hmessage : m ∈ (s.view m.conn).work.message := by
      change (s.workers (s.conns m.conn).lp).message.filter (·.conn = m.conn) = some m
      rw [howns.2, Option.mem_def.mp hm]
      simp
    rw [exec, Option.mem_def.mp hm, Option.bind_some, Option.isSome_map]
    refine (h.messageStep_isSome_iff hm write).mpr fun f hstop => ?_
    exact h.neverStops m.conn howns.1 m hmessage 1 f hstop
  | call w =>
    rw [exec, Option.isSome_map]
    refine h.call_isSome hpre.2 hwell fun conn hmem => ?_
    obtain ⟨hlt, hlp⟩ : s.Owns w conn :=
      (hplaced.work w).functor (.shutdownInLoop conn) (by simp [hmem])
    have hview : .shutdownInLoop conn ∈ (s.view conn).work.funcs := by
      change _ ∈ (s.workers (s.conns conn).lp).funcs.filter _
      rw [hlp]
      exact List.mem_filter.mpr ⟨hmem, decide_eq_true rfl⟩
    exact view_referenced.mp
      (((h.owned conn hlt).funcs hview).elim ConnView.Kept.referenced ConnView.referenced_of_batch)

theorem Steady.step {a : ServerAction} {accesses : List Access} (h : s.Steady cfg)
    (hpre : s.Pre cfg a) (hbehaves : s.Behaves cfg a)
    (hexec : s.exec cfg a = some (s', accesses)) : s'.Steady cfg := by
  have hplaced := h.dispatching.placed
  have hsteps := exec_steps hplaced hpre hexec
  refine ⟨h.toReady.step hpre hexec, ?_, ?_, ?_, fun hexp =>
    (h.timeless hexp).step hexp h.dispatching hpre hexec⟩
  · apply hsteps.forall_view ConnView.ledger_fresh
    intro conn hconn hstep
    exact (h.ledger conn hconn).step (admits_of_closesOnce h.ledger hplaced hbehaves.1.1 conn) hstep
  · apply hsteps.forall_view ConnView.owned_fresh
    intro conn hconn hstep
    exact (h.owned conn hconn).step (view_inTime h.owned hplaced hbehaves.1.2.1 hconn) hstep
  · apply hsteps.forall_view ConnView.neverStops_fresh
    intro conn hconn hstep
    obtain ⟨heard, hconverses⟩ := h.converses conn hconn
    refine (h.neverStops conn hconn).step hconverses (fun chunk hchunk => ?_) hstep
    have hcause := s.event_causes cfg conn a
    cases hevent : s.event cfg conn a with
    | callback cb read fs =>
      rw [hevent] at hcause hchunk
      obtain ⟨w, write, rfl, hhead⟩ := hcause
      exact (hbehaves.2.2 (conn, cb) hhead).1 chunk hchunk
    | _ =>
      rw [hevent] at hchunk
      cases hchunk

theorem steady_init (cfg : ServerConfig) : (WebServer.init cfg).Steady cfg :=
  ⟨ready_init cfg, nofun, nofun, nofun, fun _ => ⟨rfl, nofun⟩⟩

end WebServer

/-! ## Runs -/

/-- A part of a short log statement has room in its stream. -/
theorem Statement.roomy_of_length {st : Statement} {items : List Insertion}
    (hplace : st.time.length + st.basename.length ≤ 900) (hpart : st.items <+: items)
    (hitems : (items.flatMap Insertion.text).length ≤ 3000) : st.Roomy := by
  have hle : (st.items.flatMap Insertion.text).length ≤ 3000 := by
    obtain ⟨rest, rfl⟩ := hpart
    rw [List.flatMap_append, List.length_append] at hitems
    omega
  have hline : (decimal st.line).length < maxNumberSize := by
    rw [decimal, List.length_reverse]
    exact length_convertReversed st.line
  have hdashes : (ascii " -- ").length = 4 := rfl
  simp only [Statement.Roomy, Statement.full, Statement.insertions, Logger.formatTime, Logger.place,
    List.flatMap_append, List.length_append, List.flatMap_cons, List.flatMap_nil, Insertion.text,
    List.length_cons, List.length_nil, maxNumberSize, smallBufferSize, hdashes] at hline ⊢
  omega

/-- The statement is under way or has ended. -/
def Journal.Has (j : Journal) (st : Statement) : Prop :=
  (∃ id, st ∈ j.underway id) ∨ st ∈ j.ended

/-- Statements with room in their streams do not end the process. -/
theorem Logging.isSome_of_roomy {actions : List LoggingAction}
    (hadm : logging.Admissible .init actions)
    (hroom : ∀ before, before <+: actions → ∀ st, (journal before).Has st → st.Roomy) :
    (logging.run .init actions).isSome := by
  refine (succeeds_iff hadm).mpr (fitting_of_roomy init_follows hadm fun before hbefore => ?_)
  exact ⟨fun id st hst => hroom before hbefore st (.inl ⟨id, hst⟩),
    fun st hst => hroom before hbefore st (.inr hst)⟩

namespace WebServer

variable {cfg : ServerConfig}

/-- **The server survives** peers that close once and send lines of proper shapes only, as long as
its files can be read, names are not reused, `~Entry` is in time, nothing that the code exits on
fails, and no log statement is too long; with the idle timeout, a peer must not close either while
its connection is being shut down, and the only bucket must not be in use while it is destroyed. Nor
does the log end the process, when the statements of the run are made in any order and by any
threads. -/
theorem survives (cfg : ServerConfig) (hthreads : 0 < cfg.threadNum) {as : List ServerAction}
    (hadm : ((webServer cfg).restrict (Behaves cfg)).Admissible (.init cfg) as) :
    ((webServer cfg).run (.init cfg) as).isSome ∧
      ∀ actions, logging.Admissible .init actions →
        (∀ before, before <+: actions → ∀ st, (journal before).Has st →
          st.time.length + st.basename.length ≤ 900 ∧
            ∃ items ∈ (webServer cfg).observe (logged cfg) (.init cfg) as, st.items <+: items) →
        (logging.run .init actions).isSome := by
  have hstep (s : WebServer) (a : ServerAction) (h : s.Steady cfg)
      (hpre : ((webServer cfg).restrict (Behaves cfg)).pre s a) :
      ∃ s' accesses, s.exec cfg a = some (s', accesses) ∧ s'.Steady cfg := by
    obtain ⟨⟨s', accesses⟩, hexec⟩ :=
      Option.isSome_iff_exists.mp (h.exec_isSome hthreads hpre.1 hpre.2)
    exact ⟨s', accesses, hexec, h.step hpre.1 hpre.2 hexec⟩
  refine ⟨?_, fun actions hlog hfrom => ?_⟩
  · obtain ⟨s, answered, hrun, -⟩ := Program.run_of_safe hstep (steady_init cfg) hadm
    rw [Program.run_restrict] at hrun
    rw [hrun]
    rfl
  · refine Logging.isSome_of_roomy hlog fun before hbefore st hst => ?_
    obtain ⟨hplace, items, hitems, hpart⟩ := hfrom before hbefore st hst
    rw [← Program.observe_restrict (Behaves cfg)] at hitems
    obtain ⟨s, a, -, hpre, hmem⟩ := Program.mem_observe .start hadm hitems
    exact st.roomy_of_length hplace hpart (hpre.2.1.2.2 items hmem)

theorem noFiles_readable (k : Nat) (path : Bytes) : (noFiles k path).Readable := by
  intro stSize hsize
  cases hsize

/-- A request for a missing file. -/
theorem survives_missing :
    ((webServer exampleConfig).run (.init exampleConfig) requested).isSome := by
  have hdecided : ((webServer exampleConfig).restrict fun s a => s.ClosesOnce exampleConfig a ∧
      s.InTime exampleConfig a ∧ s.LogsShort exampleConfig a).Admissible
      (.init exampleConfig) requested := by decide +kernel
  refine (survives exampleConfig (by decide) (hdecided.restrict_and fun a ha s hpre => ?_)).1
  have hnever : ¬ exampleConfig.Expires := by decide
  cases a with
  | callback w read write fs =>
    simp only [requested, opened, received, List.mem_append, List.mem_cons, List.mem_replicate,
      reduceCtorEq, ServerAction.callback.injEq, false_or, or_false, and_false, List.not_mem_nil]
      at ha
    obtain ⟨rfl, rfl, rfl, rfl⟩ := ha
    refine ⟨fun hexp => absurd hexp hnever, fun e hhead => ?_⟩
    obtain ⟨conn, cb⟩ := e
    refine ⟨fun chunk hchunk => ?_, fun hexp => absurd hexp hnever⟩
    cases cb with
    | readCb =>
      cases List.mem_singleton.mp hchunk
      exact ⟨by decide, noFiles_readable⟩
    | closeCb | errorCb | writeCb => cases hchunk
  | call => exact fun hexp => absurd hexp hnever
  | exit =>
    simp [requested, opened, received] at ha
  | _ => trivial

end WebServer
end Httpancake
