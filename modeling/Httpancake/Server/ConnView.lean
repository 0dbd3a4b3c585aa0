import Httpancake.Server.WebServer

/-! # One connection of the server

`WebServer.view` is what the server holds for one connection: its record, its entry in
`connections_`, and the functors, events and messages that are for it. `ConnStep` lists what a step
of any thread can do to this, and `WebServer.exec_steps` says that there is nothing else;
`WebServer.preserves_views` is the induction rule that follows. -/

namespace Httpancake

structure WorkView where
  stage : LoopStage
  pendingFuncs : List WorkFunction
  funcs : List WorkFunction
  called : List WorkFunction
  /-- Its handler is in `activeQueue_`. -/
  active : Bool
  message : Option Message

structure ConnView where
  this : Nat
  conn : ServerConn
  /-- What `connections_` holds under its name. -/
  registered : Option Nat
  /-- The queued calls of `handleRemoveConnectionInLoop`. -/
  removals : Nat
  /-- Those of the current batch that have been called. -/
  removed : Nat
  entry : Option EntryStep
  work : WorkView

/-- What a step of the server means for one connection. -/
inductive ConnEvent where
  | idle
  /-- A new connection takes the name. -/
  | rename
  /-- The name is erased with another connection. -/
  | erase
  /-- A step of `~Entry`. -/
  | entry
  | remove
  | baseEnd
  | poll
  | dispatch
  | callback (cb : EventCallback) (read : Option Bytes) (fs : FileSystem)
  | message
  | swap
  | call
  | endBatch

namespace ConnView

def Referenced (v : ConnView) : Prop :=
  v.registered = some v.this ∨ 0 < v.removed + v.removals ∨
    (∃ f ∈ v.work.called ++ v.work.funcs ++ v.work.pendingFuncs, f.holds) ∨ v.entry ≠ none

/-- The view after a function of the connection. -/
def after (v : ConnView) (c : ServerConn) (es : List ConnEffect) : ConnView :=
  { v with conn := c, removals := v.removals + es.count .closeCb }

def setEntry (v : ConnView) (entry : Option EntryStep) : ConnView := { v with entry := entry }

def setWork (v : ConnView) (work : WorkView) : ConnView := { v with work := work }

def queueInLoop (v : ConnView) (f : WorkFunction) : ConnView :=
  v.setWork { v.work with pendingFuncs := v.work.pendingFuncs ++ [f] }

/-- A functor of the batch has been called. -/
def called (v : ConnView) (f : WorkFunction) (funcs : List WorkFunction) : ConnView :=
  v.setWork { v.work with funcs := funcs, called := v.work.called ++ [f] }

end ConnView

/-- What can happen to a connection. -/
inductive ConnStep (cfg : ServerConfig) (v : ConnView) : ConnEvent → ConnView → Prop where
  | idle : ConnStep cfg v .idle v
  | rename (conn : Nat) : conn ≠ v.this → ConnStep cfg v .rename { v with registered := some conn }
  | erase : ConnStep cfg v .erase { v with registered := none }
  | lock : v.Referenced → ConnStep cfg v .entry (v.setEntry (some .test))
  | test : v.entry = some .test → ConnStep cfg v .entry
    (v.setEntry (some (if v.conn.tcp.state = .connected then .setDisconnecting else .release)))
  | setDisconnecting : v.entry = some .setDisconnecting → ConnStep cfg v .entry
    { v.setEntry (some .queueShutdown) with conn := v.conn.setDisconnecting }
  | queueShutdown : v.entry = some .queueShutdown → ConnStep cfg v .entry
    ((v.setEntry (some .release)).queueInLoop (.shutdownInLoop v.this))
  | release : v.entry = some .release → ConnStep cfg v .entry (v.setEntry none)
  | remove : 0 < v.removals → v.registered ≠ none → ConnStep cfg v .remove
    { v.queueInLoop (.connectDestroyed v.this) with
      registered := none
      removals := v.removals - 1
      removed := v.removed + 1 }
  | baseEnd : ConnStep cfg v .baseEnd { v with removed := 0 }
  | poll (active : Bool) : v.work.stage = .poll →
    (active → v.conn.tcp.watched.interest ≠ none) →
    ConnStep cfg v .poll (v.setWork { v.work with stage := .events, active := active })
  | dispatch (active : Bool) : v.work.stage = .events → v.work.active →
    ConnStep cfg v .dispatch (v.setWork { v.work with active := active })
  | callback {read : Option Bytes} : v.work.stage = .events → v.work.message = none →
    v.conn.tcp.callback read write cb = some (tcp, es) → .messageCb ∉ es →
    ConnStep cfg v (.callback cb read fs) (v.after (v.conn.after tcp es) es)
  | enterMessage {read : Option Bytes} : v.work.stage = .events → v.work.message = none →
    v.conn.tcp.callback read write cb = some (tcp, es) → .messageCb ∈ es →
    ConnStep cfg v (.callback cb read fs) ((v.after (v.conn.after tcp es) es).setWork
      { v.work with message := some ⟨v.this, fs, .parseUrl, 0⟩ })
  | message : v.work.message = some m →
    OnMessage.step (v.conn.env cfg m) (v.conn.frame m) = (frame, effects) →
    (∀ f, frame.pc ≠ .stopped f) →
    (v.conn.ofFrame frame).tcp.perform write effects = some (tcp, es) →
    ConnStep cfg v .message ((v.after ((v.conn.ofFrame frame).after tcp es) es).setWork
      { v.work with
        message :=
          if frame.pc = .returned then none
          else some { m with pc := frame.pc, fsCalls := frame.fsCalls } })
  | swap : v.work.stage = .events → v.work.funcs = [] → v.work.active = false →
    v.work.message = none → ConnStep cfg v .swap (v.setWork
      { v.work with stage := .funcs, funcs := v.work.pendingFuncs, pendingFuncs := [] })
  | established (context : Bool) : v.work.funcs = .connectEstablished v.this :: funcs →
    v.work.stage = .funcs → v.conn.tcp.connectEstablished = some (tcp, es) →
    ConnStep cfg v .call
      ((v.called (.connectEstablished v.this) funcs).after
        { v.conn.after tcp es with context := context } es)
  | destroyed (context : Bool) : v.work.funcs = .connectDestroyed v.this :: funcs →
    v.work.stage = .funcs → v.conn.tcp.connectDestroyed = some (tcp, es) →
    ConnStep cfg v .call
      ((v.called (.connectDestroyed v.this) funcs).after
        { v.conn.after tcp es with
          destructions := v.conn.destructions + 1, context := context } es)
  | shutdownInLoop : v.work.funcs = .shutdownInLoop v.this :: funcs → v.work.stage = .funcs →
    ConnStep cfg v .call
      ((v.called (.shutdownInLoop v.this) funcs).after
        (v.conn.after v.conn.tcp v.conn.tcp.shutdownInLoop) v.conn.tcp.shutdownInLoop)
  | endBatch : v.work.funcs = [] → v.work.stage = .funcs →
    ConnStep cfg v .endBatch (v.setWork { v.work with stage := .poll, called := [] })

namespace WorkLoop

/-- The part of a worker loop that is for one connection. -/
def view (l : WorkLoop) (conn : Nat) : WorkView where
  stage := l.stage
  pendingFuncs := l.pendingFuncs.filter (·.conn = conn)
  funcs := l.funcs.filter (·.conn = conn)
  called := l.called.filter (·.conn = conn)
  active := conn ∈ l.activeQueue.map Prod.fst
  message := l.message.filter (·.conn = conn)

/-- Every connection that the loop has something for meets `P`, and there is a batch only while
its functors are called. -/
structure All (l : WorkLoop) (P : Nat → Prop) : Prop where
  batch : l.stage ≠ .funcs → l.funcs = []
  functor : ∀ f ∈ l.called ++ l.funcs ++ l.pendingFuncs, P f.conn
  active : ∀ e ∈ l.activeQueue, P e.1
  callback : ∀ e ∈ l.callbacks, P e.1
  message : ∀ m ∈ l.message, P m.conn

end WorkLoop

namespace WebServer

def view (s : WebServer) (conn : Nat) : ConnView where
  this := conn
  conn := s.conns conn
  registered := s.connections (s.conns conn).connName
  removals := s.base.funcs.count conn + s.base.pendingFuncs.count conn
  removed := s.base.called.count conn
  entry := (s.base.entry.filter (·.1 = conn)).map Prod.snd
  work := (s.workers (s.conns conn).lp).view conn

/-- What an action means for a connection. -/
def event (cfg : ServerConfig) (s : WebServer) (conn : Nat) : ServerAction → ConnEvent
  | .basePoll | .onTimer _ | .baseSwap | .exit _ => .idle
  | .accept => if s.connName cfg = (s.conns conn).connName then .rename else .idle
  | .destroyEntry =>
    match s.base.entry with
    | some (c, _) => if c = conn then .entry else .idle
    | none =>
      if s.base.expired.head? = some conn ∧ s.connBuckets.any (conn ∈ ·) = false ∧
          s.Referenced conn then .entry
      else .idle
  | .baseCall =>
    match s.base.funcs.head? with
    | some c =>
      if c = conn then .remove
      else if (s.conns c).connName = (s.conns conn).connName then .erase
      else .idle
    | none => .idle
  | .baseEnd => .baseEnd
  | .poll w _ => if (s.conns conn).lp = w then .poll else .idle
  | .dispatch w =>
    if (s.workers w).activeQueue.head?.map Prod.fst = some conn then .dispatch else .idle
  | .callback w read _ fs =>
    match (s.workers w).callbacks.head? with
    | some (c, cb) => if c = conn then .callback cb read fs else .idle
    | none => .idle
  | .onMessage w _ =>
    if (s.workers w).message.map Message.conn = some conn then .message else .idle
  | .swap w => if (s.conns conn).lp = w then .swap else .idle
  | .call w => if (s.workers w).funcs.head?.map WorkFunction.conn = some conn then .call else .idle
  | .endBatch w => if (s.conns conn).lp = w then .endBatch else .idle

/-- The actions behind an event. -/
def Causes (cfg : ServerConfig) (s : WebServer) (conn : Nat) (a : ServerAction) : ConnEvent → Prop
  | .rename => a = .accept ∧ s.connName cfg = (s.conns conn).connName
  | .erase => a = .baseCall ∧ ∃ c ∈ s.base.funcs.head?,
      c ≠ conn ∧ (s.conns c).connName = (s.conns conn).connName
  | .entry => a = .destroyEntry
  | .callback cb read fs => ∃ w write, a = .callback w read write fs ∧
      (conn, cb) ∈ (s.workers w).callbacks.head?
  | .message => ∃ w write, a = .onMessage w write ∧ ∃ m ∈ (s.workers w).message, m.conn = conn
  | .idle | .remove | .baseEnd | .poll | .dispatch | .swap | .call | .endBatch => True

theorem event_causes (cfg : ServerConfig) (s : WebServer) (conn : Nat) (a : ServerAction) :
    s.Causes cfg conn a (s.event cfg conn a) := by
  cases a with
  | basePoll | onTimer | baseSwap | baseEnd | exit => trivial
  | poll | dispatch | swap | call | endBatch =>
    rw [event]
    split_ifs <;> trivial
  | accept =>
    rw [event]
    split_ifs with hname
    · exact ⟨rfl, hname⟩
    · trivial
  | destroyEntry =>
    rw [event]
    split <;> split_ifs <;> trivial
  | baseCall =>
    rw [event]
    split
    · next c hhead =>
      split_ifs with hc hname
      · trivial
      · exact ⟨rfl, c, hhead, hc, hname⟩
      · trivial
    · trivial
  | callback w read write fs =>
    rw [event]
    split
    · next c cb hhead =>
      split_ifs with hc
      · exact ⟨w, write, rfl, hc ▸ hhead⟩
      · trivial
    · trivial
  | onMessage w write =>
    rw [event]
    split_ifs with hm
    · obtain ⟨m, hm, hconn⟩ := Option.map_eq_some_iff.mp hm
      exact ⟨w, write, rfl, m, hm, hconn⟩
    · trivial

/-! ## What a loop holds is for its own connections -/

/-- The connection belongs to a worker loop. -/
def Owns (s : WebServer) (w conn : Nat) : Prop := conn < s.count ∧ (s.conns conn).lp = w

structure Placed (s : WebServer) : Prop where
  work : ∀ w, (s.workers w).All (s.Owns w)
  batch : s.base.stage ≠ .funcs → s.base.funcs = []
  removal : ∀ conn ∈ s.base.called ++ s.base.funcs ++ s.base.pendingFuncs, conn < s.count
  entry : ∀ e ∈ s.base.entry, e.1 < s.count
  connections : ∀ name conn, s.connections name = some conn → conn < s.count

@[simp] theorem modifyWorker_workers (s : WebServer) (w : Nat) (f : WorkLoop → WorkLoop) :
    (s.modifyWorker w f).workers w = f (s.workers w) := Function.update_self ..

@[simp] theorem after_conns (s : WebServer) (conn : Nat) (c : ServerConn) (es : List ConnEffect) :
    (s.after conn c es).conns conn = c := Function.update_self ..

theorem after_after (s : WebServer) (conn : Nat) (c c' : ServerConn) (es : List ConnEffect) :
    (s.after conn c es).after conn c' [] = s.after conn c' es := by
  simp [after]

namespace Placed
variable {cfg : ServerConfig} {s : WebServer}

theorem init (cfg : ServerConfig) : (WebServer.init cfg).Placed where
  work _ := ⟨fun _ => rfl, nofun, nofun, nofun, nofun⟩
  batch _ := rfl
  removal := nofun
  entry := nofun
  connections := nofun

/-- A step keeps connections where they are, and puts nothing where it does not belong. -/
theorem of_owns {s' : WebServer} (h : s.Placed)
    (howns : ∀ w conn, s.Owns w conn → s'.Owns w conn) (hcount : s.count ≤ s'.count)
    (hwork : ∀ w, (s.workers w).All (s'.Owns w) → (s'.workers w).All (s'.Owns w))
    (hbatch : s'.base.stage ≠ .funcs → s'.base.funcs = [])
    (hremoval : ∀ conn ∈ s'.base.called ++ s'.base.funcs ++ s'.base.pendingFuncs,
      conn ∈ s.base.called ++ s.base.funcs ++ s.base.pendingFuncs ∨ conn < s'.count)
    (hentry : ∀ e ∈ s'.base.entry, (∃ step, (e.1, step) ∈ s.base.entry) ∨ e.1 < s'.count)
    (hconnections : ∀ name conn, s'.connections name = some conn →
      s.connections name = some conn ∨ conn < s'.count) : s'.Placed where
  work w := by
    have hall := h.work w
    exact hwork w ⟨hall.batch, fun f hf => howns w _ (hall.functor f hf),
      fun e he => howns w _ (hall.active e he), fun e he => howns w _ (hall.callback e he),
      fun m hm => howns w _ (hall.message m hm)⟩
  batch := hbatch
  removal conn hconn :=
    (hremoval conn hconn).elim (fun hold => (h.removal conn hold).trans_le hcount) id
  entry e he :=
    (hentry e he).elim (fun ⟨_, hold⟩ => (h.entry _ hold).trans_le hcount) id
  connections name conn hconn :=
    (hconnections name conn hconn).elim (fun hold => (h.connections _ _ hold).trans_le hcount) id

theorem modifyWorker (h : s.Placed) {w : Nat} {f : WorkLoop → WorkLoop}
    (hf : (f (s.workers w)).All (s.Owns w)) : (s.modifyWorker w f).Placed where
  work w' := by
    change (Function.update s.workers w (f (s.workers w)) w').All (s.Owns w')
    rcases eq_or_ne w' w with rfl | hne
    · rw [Function.update_self]
      exact hf
    · rw [Function.update_of_ne hne]
      exact h.work w'
  batch := h.batch
  removal := h.removal
  entry := h.entry
  connections := h.connections

theorem queueInLoop (h : s.Placed) {w : Nat} {f : WorkFunction} (hf : s.Owns w f.conn) :
    (s.queueInLoop w f).Placed := by
  have hw := h.work w
  refine h.modifyWorker ⟨hw.batch, ?_, hw.active, hw.callback, hw.message⟩
  intro g hg
  rw [← List.append_assoc] at hg
  rcases List.mem_append.mp hg with hg | hg
  · exact hw.functor g hg
  · rw [List.mem_singleton.mp hg]
    exact hf

theorem after (h : s.Placed) {conn : Nat} (hconn : conn < s.count) (c : ServerConn)
    (es : List ConnEffect) (hlp : c.lp = (s.conns conn).lp) : (s.after conn c es).Placed := by
  have howns : ∀ w i, s.Owns w i → (s.after conn c es).Owns w i := by
    intro w i hi
    refine ⟨hi.1, ?_⟩
    simp only [WebServer.after, Function.update_apply]
    split_ifs with heq
    · rw [hlp, ← heq]
      exact hi.2
    · exact hi.2
  refine h.of_owns howns (Nat.le_refl _) (fun _ => id) h.batch ?_ (fun e he => .inl ⟨e.2, he⟩)
    fun _ _ => .inl
  intro i hi
  rw [WebServer.after, ← List.append_assoc] at hi
  apply (List.mem_append.mp hi).imp_right
  intro hi
  rw [List.eq_of_mem_replicate hi]
  exact hconn

theorem lt_of_referenced (h : s.Placed) {conn : Nat} (href : s.Referenced conn) :
    conn < s.count := by
  rcases href with hname | hremoval | ⟨f, hf, -, rfl⟩ | ⟨e, he, rfl⟩
  · exact h.connections _ _ hname
  · exact h.removal conn hremoval
  · exact ((h.work _).functor f hf).1
  · exact h.entry e he

end Placed

/-! ## What an update means for a connection -/

section
variable {s : WebServer} {w conn id : Nat} {f : WorkLoop → WorkLoop}

theorem view_modifyWorker_self (hw : (s.conns id).lp = w) :
    (s.modifyWorker w f).view id = (s.view id).setWork ((f (s.workers w)).view id) := by
  subst hw
  simp [view, modifyWorker, ConnView.setWork]

theorem view_modifyWorker_of_eq
    (hf : (s.conns id).lp = w → (f (s.workers w)).view id = (s.workers w).view id) :
    (s.modifyWorker w f).view id = s.view id := by
  rcases eq_or_ne (s.conns id).lp w with hw | hw
  · rw [view_modifyWorker_self hw, hf hw, ← hw]
    rfl
  · simp [view, modifyWorker, Function.update_of_ne hw]

theorem view_queueInLoop_self (id : Nat) (g : WorkFunction) (hg : g.conn = id)
    (hw : (s.conns id).lp = w) :
    (s.queueInLoop w g).view id = (s.view id).queueInLoop g := by
  rw [queueInLoop, view_modifyWorker_self hw]
  subst hw
  simp [ConnView.queueInLoop, WorkLoop.view, view, ConnView.setWork, List.filter_append, hg]

theorem view_queueInLoop_of_ne (g : WorkFunction) (hg : g.conn ≠ id) :
    (s.queueInLoop w g).view id = s.view id := by
  apply view_modifyWorker_of_eq
  intro _
  simp [WorkLoop.view, List.filter_append, hg]

theorem view_after_self (c : ServerConn) (es : List ConnEffect) (hlp : c.lp = (s.conns id).lp)
    (hname : c.connName = (s.conns id).connName) :
    (s.after id c es).view id = (s.view id).after c es := by
  simp [view, after, ConnView.after, hlp, hname, List.count_append, Nat.add_assoc]

theorem view_after_of_ne {c : ServerConn} {es : List ConnEffect} (hne : conn ≠ id) :
    (s.after conn c es).view id = s.view id := by
  simp [view, after, Function.update_of_ne hne.symm, List.count_append, List.count_replicate, hne]

theorem view_setEntry_self {step : EntryStep} :
    (s.setEntry (some (id, step))).view id = (s.view id).setEntry (some step) := by
  simp [view, setEntry, ConnView.setEntry]

theorem view_entry {step : EntryStep} (h : s.base.entry = some (id, step)) :
    (s.view id).entry = some step := by
  simp [view, h]

theorem view_setEntry_of_ne {e : Option (Nat × EntryStep)} (hold : ∀ e ∈ s.base.entry, e.1 ≠ id)
    (hnew : ∀ e' ∈ e, e'.1 ≠ id) : (s.setEntry e).view id = s.view id := by
  have hfilter {e : Option (Nat × EntryStep)} (he : ∀ e' ∈ e, e'.1 ≠ id) :
      e.filter (·.1 = id) = none := by
    rw [Option.filter_eq_none_iff]
    intro e' he'
    simpa using he e' he'
  simp [view, setEntry, hfilter hold, hfilter hnew]

theorem view_referenced : (s.view id).Referenced ↔ s.Referenced id := by
  rw [ConnView.Referenced, Referenced]
  apply or_congr Iff.rfl
  apply or_congr
  · simp only [view, ← List.count_pos_iff, List.count_append]
    omega
  · apply or_congr
    · simp only [view, WorkLoop.view, ← List.filter_append, List.mem_filter, decide_eq_true_eq]
      constructor
      · intro ⟨f, ⟨hf, hconn⟩, hholds⟩
        exact ⟨f, hf, hholds, hconn⟩
      · intro ⟨f, hf, hholds, hconn⟩
        exact ⟨f, ⟨hf, hconn⟩, hholds⟩
    · simp only [view]
      cases s.base.entry with
      | none => simp
      | some e => simp [Option.filter_some]

/-! ## Every step -/

/-- The view of a connection that has just been accepted. -/
def freshView (this : Nat) (connName : Bytes) (lp : Nat) (stage : LoopStage) : ConnView where
  this := this
  conn := .make this connName lp
  registered := some this
  removals := 0
  removed := 0
  entry := none
  work := ⟨stage, [.connectEstablished this], [], [], false, none⟩

/-- What a step means for the connections. -/
structure Steps (cfg : ServerConfig) (s : WebServer) (a : ServerAction) (s' : WebServer) :
    Prop where
  placed : s'.Placed
  view : ∀ id < s.count, ConnStep cfg (s.view id) (s.event cfg id a) (s'.view id)
  count : s'.count = s.count ∨ s'.count = s.count + 1 ∧
    ∃ lp stage, s'.view s.count = freshView s.count (s.connName cfg) lp stage

variable {cfg : ServerConfig} {s' : WebServer}

/-- A step that leaves every connection alone. -/
theorem Steps.of_view {a : ServerAction} (hplaced : s'.Placed) (hcount : s'.count = s.count)
    (hevent : ∀ id, s.event cfg id a = .idle) (hview : ∀ id, s'.view id = s.view id) :
    Steps cfg s a s' where
  placed := hplaced
  view id _ := by
    rw [hevent, hview]
    exact .idle
  count := .inl hcount

/-- A step for one connection. -/
theorem Steps.of_one {a : ServerAction} (conn : Nat) (hplaced : s'.Placed)
    (hcount : s'.count = s.count)
    (hself : ConnStep cfg (s.view conn) (s.event cfg conn a) (s'.view conn))
    (hother : ∀ id, conn ≠ id → s.event cfg id a = .idle ∧ s'.view id = s.view id) :
    Steps cfg s a s' where
  placed := hplaced
  view id _ := by
    rcases eq_or_ne conn id with rfl | hne
    · exact hself
    · obtain ⟨hevent, hview⟩ := hother id hne
      rw [hevent, hview]
      exact .idle
  count := .inl hcount

theorem basePoll_steps (h : s.Placed) (hpre : s.base.stage = .poll) :
    Steps cfg s .basePoll { s with base := { s.base with stage := .events } } :=
  .of_view ⟨h.work, fun _ => h.batch (by rw [hpre]; nofun), h.removal, h.entry, h.connections⟩ rfl
    (fun _ => rfl) fun _ => rfl

theorem onTimer_steps (h : s.Placed) (order : List Nat) :
    Steps cfg s (.onTimer order) (s.onTimer cfg order) :=
  .of_view ⟨h.work, h.batch, h.removal, h.entry, h.connections⟩ rfl (fun _ => rfl) fun _ => rfl

theorem baseSwap_steps (h : s.Placed) (hpre : s.base.stage = .events) :
    Steps cfg s .baseSwap { s with base := { s.base with
      stage := .funcs, funcs := s.base.pendingFuncs, pendingFuncs := [] } } := by
  have hfuncs := h.batch (by rw [hpre]; nofun)
  have hremoval := h.removal
  rw [hfuncs, List.append_nil] at hremoval
  refine .of_view ⟨h.work, fun hne => absurd rfl hne, ?_, h.entry, h.connections⟩ rfl
    (fun _ => rfl) ?_
  · rw [List.append_nil]
    exact hremoval
  · intro id
    simp [view, hfuncs]

theorem baseEnd_steps (h : s.Placed) (hpre : s.base.funcs = []) :
    Steps cfg s .baseEnd { s with base := { s.base with stage := .poll, called := [] } } where
  placed := by
    refine ⟨h.work, fun _ => hpre, fun conn hconn => h.removal conn ?_, h.entry, h.connections⟩
    rw [List.append_assoc]
    exact List.mem_append_right _ hconn
  view _ _ := .baseEnd
  count := .inl rfl

theorem addConnection_placed (h : s.Placed) :
    (s.addConnection cfg).Placed ∧ (s.addConnection cfg).Owns s.next s.count := by
  have howns : ∀ w i, s.Owns w i → (s.addConnection cfg).Owns w i := by
    intro w i hi
    refine ⟨Nat.lt_succ_of_lt hi.1, ?_⟩
    simp only [addConnection, Function.update_of_ne (Nat.ne_of_lt hi.1)]
    exact hi.2
  refine ⟨h.of_owns howns (Nat.le_succ _) (fun _ => id) h.batch (fun _ => .inl) ?_ ?_,
    Nat.lt_succ_self _, by simp [addConnection, ServerConn.make]⟩
  · exact fun e he => .inl ⟨e.2, he⟩
  · intro name i hi
    simp only [addConnection, Function.update_apply] at hi
    split_ifs at hi
    · cases hi
      exact .inr (Nat.lt_succ_self _)
    · exact .inl hi

theorem view_addConnection_of_lt (hid : id < s.count) :
    (s.addConnection cfg).view id = { s.view id with
      registered :=
        if s.connName cfg = (s.conns id).connName then some s.count
        else s.connections (s.conns id).connName } := by
  have hne : id ≠ s.count := Nat.ne_of_lt hid
  simp [view, addConnection, Function.update_of_ne hne, Function.update_apply, eq_comm]

theorem view_addConnection_count (h : s.Placed) :
    ((s.addConnection cfg).queueInLoop s.next (.connectEstablished s.count)).view s.count =
      freshView s.count (s.connName cfg) s.next (s.workers s.next).stage := by
  have hwork := h.work s.next
  have hnone {l : List WorkFunction} (hl : ∀ f ∈ l, s.Owns s.next f.conn) :
      l.filter (·.conn = s.count) = [] := by
    rw [List.filter_eq_nil_iff]
    intro f hf
    simpa using Nat.ne_of_lt (hl f hf).1
  have hfunctor := hwork.functor
  simp only [List.forall_mem_append] at hfunctor
  have hremoval := h.removal
  simp only [List.forall_mem_append] at hremoval
  have hcount {l : List Nat} (hl : ∀ i ∈ l, i < s.count) : l.count s.count = 0 :=
    List.count_eq_zero.mpr fun hmem => Nat.lt_irrefl _ (hl _ hmem)
  have hactive : s.count ∉ (s.workers s.next).activeQueue.map Prod.fst := by
    intro hmem
    obtain ⟨e, he, heq⟩ := List.mem_map.mp hmem
    exact Nat.ne_of_lt (hwork.active e he).1 heq
  have hmessage : (s.workers s.next).message.filter (·.conn = s.count) = none := by
    rw [Option.filter_eq_none_iff]
    intro m hm
    simpa using Nat.ne_of_lt (hwork.message m hm).1
  have hentry : s.base.entry.filter (·.1 = s.count) = none := by
    rw [Option.filter_eq_none_iff]
    intro e he
    simpa using Nat.ne_of_lt (h.entry e he)
  rw [view_queueInLoop_self s.count (.connectEstablished s.count) rfl
    (by simp [addConnection, ServerConn.make])]
  simp only [view, addConnection, Function.update_self, ServerConn.make, WorkLoop.view, freshView,
    ConnView.queueInLoop, ConnView.setWork, hnone hfunctor.1.1, hnone hfunctor.1.2,
    hnone hfunctor.2, hcount hremoval.1.1, hcount hremoval.1.2, hcount hremoval.2, hmessage, hentry,
    decide_eq_false hactive, List.nil_append, Option.map_none, Nat.add_zero]

theorem accept_steps (h : s.Placed) (hexec : s.handleNewConnection cfg = some s') :
    Steps cfg s .accept s' := by
  rw [handleNewConnection] at hexec
  split_ifs at hexec
  cases hexec
  have hadd : (s.addConnection cfg).Placed ∧ _ := addConnection_placed h
  obtain ⟨hplaced, hnew⟩ := hadd
  refine ⟨hplaced.queueInLoop hnew, ?_, .inr ⟨rfl, _, _, view_addConnection_count h⟩⟩
  intro id hid
  rw [view_queueInLoop_of_ne (.connectEstablished s.count) (Nat.ne_of_gt hid),
    view_addConnection_of_lt hid]
  simp only [event]
  split_ifs
  · exact .rename s.count (Nat.ne_of_gt hid)
  · exact .idle

theorem view_eraseConnection {name : Bytes} :
    (s.eraseConnection name).view id = { s.view id with
      registered :=
        if name = (s.conns id).connName then none else s.connections (s.conns id).connName } := by
  simp [view, eraseConnection, Function.update_apply, eq_comm]

theorem baseCalled_placed (h : s.Placed) {funcs : List Nat} (hpre : s.base.stage = .funcs)
    (hfuncs : s.base.funcs = conn :: funcs) : (s.baseCalled conn funcs).Placed := by
  have hremoval := h.removal
  rw [hfuncs] at hremoval
  refine ⟨h.work, fun hne => absurd hpre hne, ?_, h.entry, h.connections⟩
  intro i hi
  apply hremoval i
  rw [baseCalled, List.append_assoc s.base.called] at hi
  exact hi

theorem view_baseCalled {funcs : List Nat} (hfuncs : s.base.funcs = conn :: funcs) :
    (s.baseCalled conn funcs).view id =
      if conn = id then { s.view id with
        removals := (s.view id).removals - 1
        removed := (s.view id).removed + 1 }
      else s.view id := by
  split_ifs with heq
  · subst heq
    have hcount : funcs.count conn + 1 + s.base.pendingFuncs.count conn - 1 =
        funcs.count conn + s.base.pendingFuncs.count conn := by omega
    simp [view, baseCalled, hfuncs, List.count_append, hcount]
  · simp [view, baseCalled, hfuncs, List.count_append, heq]

theorem view_removed {funcs : List Nat} {name : Bytes} :
    ((s.baseCalled conn funcs).eraseConnection name).view id =
      { (s.baseCalled conn funcs).view id with
        registered :=
          if name = (s.conns id).connName then none else (s.view id).registered } :=
  view_eraseConnection

theorem baseCall_steps (h : s.Placed) {funcs : List Nat} (hpre : s.base.stage = .funcs)
    (hfuncs : s.base.funcs = conn :: funcs)
    (hexec : (s.baseCalled conn funcs).handleRemoveConnectionInLoop conn = some s') :
    Steps cfg s .baseCall s' := by
  rw [handleRemoveConnectionInLoop] at hexec
  split_ifs at hexec with hregistered
  cases hexec
  change Steps cfg s .baseCall (((s.baseCalled conn funcs).eraseConnection
    (s.conns conn).connName).queueInLoop (s.conns conn).lp (.connectDestroyed conn))
  have hconn : conn < s.count := h.removal conn (by simp [hfuncs])
  have hplaced := baseCalled_placed h hpre hfuncs
  have herase : ((s.baseCalled conn funcs).eraseConnection (s.conns conn).connName).Placed := by
    refine ⟨hplaced.work, hplaced.batch, hplaced.removal, hplaced.entry, ?_⟩
    intro name i hi
    simp only [eraseConnection, Function.update_apply] at hi
    split_ifs at hi
    exact hplaced.connections name i hi
  refine ⟨herase.queueInLoop ⟨hconn, rfl⟩, ?_, .inl rfl⟩
  intro id hid
  simp only [event, hfuncs, List.head?_cons]
  split_ifs with heq hname
  · subst heq
    have hremovals : 0 < (s.view conn).removals := by
      simp only [view, hfuncs, List.count_cons_self]
      omega
    have hregistered' : (s.view conn).registered ≠ none := Option.isSome_iff_ne_none.mp hregistered
    have hstep : ConnStep cfg (s.view conn) _ _ := .remove hremovals hregistered'
    have hlp : (((s.baseCalled conn funcs).eraseConnection (s.conns conn).connName).conns conn).lp =
        (s.conns conn).lp := rfl
    rw [view_queueInLoop_self conn (.connectDestroyed conn) rfl hlp, view_removed, if_pos rfl,
      view_baseCalled hfuncs, if_pos rfl]
    exact hstep
  · rw [view_queueInLoop_of_ne (.connectDestroyed conn) heq, view_removed, if_pos hname,
      view_baseCalled hfuncs, if_neg heq]
    exact .erase
  · rw [view_queueInLoop_of_ne (.connectDestroyed conn) heq, view_removed, if_neg hname,
      view_baseCalled hfuncs, if_neg heq]
    exact .idle

theorem setEntry_placed (h : s.Placed) {e : Option (Nat × EntryStep)}
    (he : ∀ e' ∈ e, e'.1 < s.count) : (s.setEntry e).Placed :=
  ⟨h.work, h.batch, h.removal, he, h.connections⟩

/-- The next entry is released; if nothing else holds it, `~Entry` locks its connection, if there
is one. -/
theorem lockEntry_steps (h : s.Placed) (hentry : s.base.entry = none) :
    Steps cfg s .destroyEntry s.destroyEntry := by
  have hevent (id : Nat) : s.event cfg id .destroyEntry =
      if s.base.expired.head? = some id ∧ s.connBuckets.any (id ∈ ·) = false ∧ s.Referenced id
      then .entry else .idle := by
    rw [event, hentry]
  rw [destroyEntry, hentry]
  cases hexpired : s.base.expired with
  | nil =>
    refine .of_view ⟨h.work, h.batch, h.removal, h.entry, h.connections⟩ rfl (fun id => ?_)
      fun _ => rfl
    simp only [hevent, hexpired, List.head?_nil, reduceCtorEq, false_and, if_false]
  | cons conn expired =>
    set s₁ : WebServer := { s with base := { s.base with expired := expired } }
    have hidle {id : Nat} (h : ¬ (conn = id ∧ s.connBuckets.any (id ∈ ·) = false ∧
        s.Referenced id)) : s.event cfg id .destroyEntry = .idle := by
      rw [hevent, hexpired]
      exact if_neg fun ⟨heq, hrest⟩ => h ⟨Option.some.inj heq, hrest⟩
    have hplaced : s₁.Placed := ⟨h.work, h.batch, h.removal, h.entry, h.connections⟩
    simp only
    split_ifs with hheld href
    · refine .of_view hplaced rfl (fun id => hidle ?_) fun _ => rfl
      rintro ⟨rfl, hgone, -⟩
      rw [hheld] at hgone
      cases hgone
    · have hconn : conn < s.count := h.lt_of_referenced href
      have hself : s.event cfg conn .destroyEntry = .entry := by
        rw [hevent, hexpired]
        exact if_pos ⟨rfl, eq_false_of_ne_true hheld, href⟩
      refine .of_one conn (setEntry_placed hplaced ?_) rfl ?_ fun id hne =>
        ⟨hidle fun h => hne h.1, ?_⟩
      · rintro e ⟨⟩
        exact hconn
      · rw [hself, view_setEntry_self]
        exact .lock (view_referenced.mpr href)
      · have hview : s₁.view id = s.view id := rfl
        rw [← hview]
        apply view_setEntry_of_ne
        · change ∀ e ∈ s.base.entry, e.1 ≠ id
          rw [hentry]
          nofun
        · rintro e ⟨⟩
          exact hne
    · refine .of_view hplaced rfl (fun id => hidle ?_) fun _ => rfl
      rintro ⟨rfl, -, h⟩
      exact href h

/-- `~Entry` on the connection that it has locked. -/
theorem entry_steps (h : s.Placed) {step : EntryStep} (hentry : s.base.entry = some (conn, step)) :
    Steps cfg s .destroyEntry s.destroyEntry := by
  have hevent (id : Nat) : s.event cfg id .destroyEntry =
      if conn = id then .entry else .idle := by
    rw [event, hentry]
  have hself : s.event cfg conn .destroyEntry = .entry := (hevent conn).trans (if_pos rfl)
  have hidle {id : Nat} (hne : conn ≠ id) : s.event cfg id .destroyEntry = .idle :=
    (hevent id).trans (if_neg hne)
  have hconn : conn < s.count := h.entry (conn, step) hentry
  have hset (step' : EntryStep) : (s.setEntry (some (conn, step'))).Placed := by
    apply setEntry_placed h
    rintro e ⟨⟩
    exact hconn
  have hother {id : Nat} {e : Option (Nat × EntryStep)} (hne : conn ≠ id)
      (he : ∀ e' ∈ e, e'.1 = conn) : (s.setEntry e).view id = s.view id := by
    apply view_setEntry_of_ne
    · rw [hentry]
      rintro e' ⟨⟩
      exact hne
    · exact fun e' he' => (he e' he').trans_ne hne
  have hstep := view_entry hentry
  rw [destroyEntry, hentry]
  cases step with
  | test =>
    refine .of_one conn (hset _) rfl ?_ fun id hne => ⟨hidle hne, hother hne ?_⟩
    · rw [hself, view_setEntry_self]
      exact .test hstep
    · rintro e ⟨⟩
      rfl
  | setDisconnecting =>
    refine .of_one conn ?_ rfl ?_ fun id hne => ⟨hidle hne, ?_⟩
    · exact (hset .queueShutdown).after hconn (s.conns conn).setDisconnecting [] rfl
    · have hview : ((s.setEntry (some (conn, .queueShutdown))).after conn
          (s.conns conn).setDisconnecting []).view conn = _ := view_after_self _ _ rfl rfl
      simp only
      rw [hself, hview, view_setEntry_self]
      exact .setDisconnecting hstep
    · simp only
      rw [view_after_of_ne hne]
      apply hother hne
      rintro e ⟨⟩
      rfl
  | queueShutdown =>
    have hlp : ((s.setEntry (some (conn, .release))).conns conn).lp = (s.conns conn).lp := rfl
    refine .of_one conn ((hset _).queueInLoop ⟨hconn, rfl⟩) rfl ?_ fun id hne => ⟨hidle hne, ?_⟩
    · rw [hself, view_queueInLoop_self conn (.shutdownInLoop conn) rfl hlp, view_setEntry_self]
      exact .queueShutdown hstep
    · rw [view_queueInLoop_of_ne (.shutdownInLoop conn) hne]
      apply hother hne
      rintro e ⟨⟩
      rfl
  | release =>
    refine .of_one conn (setEntry_placed h nofun) rfl ?_ fun id hne =>
      ⟨hidle hne, hother hne nofun⟩
    rw [hself]
    exact .release hstep

theorem destroyEntry_steps (h : s.Placed) : Steps cfg s .destroyEntry s.destroyEntry := by
  cases hentry : s.base.entry with
  | none => exact lockEntry_steps h hentry
  | some e => exact entry_steps h hentry

/-- A step for all connections of a loop. -/
theorem Steps.of_worker {a : ServerAction} {event : ConnEvent}
    (hplaced : (s.modifyWorker w f).Placed)
    (hevent : ∀ id, s.event cfg id a = if (s.conns id).lp = w then event else .idle)
    (hview : ∀ id < s.count, (s.conns id).lp = w →
      ConnStep cfg (s.view id) event ((s.view id).setWork ((f (s.workers w)).view id))) :
    Steps cfg s a (s.modifyWorker w f) where
  placed := hplaced
  view id hid := by
    rw [hevent]
    split_ifs with hlp
    · rw [view_modifyWorker_self hlp]
      exact hview id hid hlp
    · rw [view_modifyWorker_of_eq fun h => absurd h hlp]
      exact .idle
  count := .inl rfl

theorem poll_steps (h : s.Placed) {events : List (Nat × EventMask)}
    (hpre : s.Pre cfg (.poll w events)) :
    Steps cfg s (.poll w events)
      (s.modifyWorker w fun l => { l with stage := .events, activeQueue := events }) := by
  obtain ⟨hstage, -, hevents⟩ := hpre
  have hw := h.work w
  refine .of_worker (h.modifyWorker ⟨fun _ => hw.batch (by rw [hstage]; nofun), hw.functor,
    fun e he => ⟨(hevents e he).1, (hevents e he).2.1⟩, hw.callback, hw.message⟩) (fun _ => rfl) ?_
  intro id _ hlp
  subst hlp
  refine .poll (decide (id ∈ events.map Prod.fst)) hstage fun hactive => ?_
  obtain ⟨e, he, rfl⟩ := List.mem_map.mp (of_decide_eq_true hactive)
  obtain ⟨-, -, interest, hinterest, -⟩ := hevents e he
  rw [view, hinterest]
  nofun

theorem swap_steps (h : s.Placed) (hpre : s.Pre cfg (.swap w)) :
    Steps cfg s (.swap w) (s.modifyWorker w fun l =>
      { l with stage := .funcs, funcs := l.pendingFuncs, pendingFuncs := [] }) := by
  obtain ⟨hstage, hactive, hcallbacks, hmessage⟩ := hpre
  have hw := h.work w
  have hfuncs := hw.batch (by rw [hstage]; nofun)
  refine .of_worker (h.modifyWorker ⟨fun hne => absurd rfl hne, ?_, hw.active, hw.callback,
    hw.message⟩) (fun _ => rfl) ?_
  · have hfunctor := hw.functor
    rw [hfuncs, List.append_nil] at hfunctor
    rw [List.append_nil]
    exact hfunctor
  · intro id _ hlp
    subst hlp
    refine .swap hstage ?_ ?_ ?_
    · simp [view, WorkLoop.view, hfuncs]
    · simp [view, WorkLoop.view, hactive]
    · simp [view, WorkLoop.view, hmessage]

theorem endBatch_steps (h : s.Placed) (hpre : s.Pre cfg (.endBatch w)) :
    Steps cfg s (.endBatch w)
      (s.modifyWorker w fun l => { l with stage := .poll, called := [] }) := by
  obtain ⟨hstage, hfuncs⟩ := hpre
  have hw := h.work w
  refine .of_worker (h.modifyWorker ⟨fun _ => hfuncs, fun g hg => hw.functor g ?_, hw.active,
    hw.callback, hw.message⟩) (fun _ => rfl) ?_
  · rw [List.append_assoc]
    exact List.mem_append_right _ hg
  · intro id _ hlp
    subst hlp
    refine .endBatch ?_ hstage
    simp [view, WorkLoop.view, hfuncs]

theorem dispatch_steps (h : s.Placed) {revents : EventMask} {activeQueue : List (Nat × EventMask)}
    (hstage : (s.workers w).stage = .events)
    (hqueue : (s.workers w).activeQueue = (conn, revents) :: activeQueue) :
    Steps cfg s (.dispatch w) (s.modifyWorker w fun l =>
      { l with
        activeQueue := activeQueue
        callbacks := (Handler.handleEvents revents).map (conn, ·) }) := by
  have hw := h.work w
  obtain ⟨hconn, hlp⟩ := hw.active (conn, revents) (by rw [hqueue]; exact List.mem_cons_self)
  refine .of_one conn (h.modifyWorker ⟨hw.batch, hw.functor, fun e he => hw.active e ?_, ?_,
    hw.message⟩) rfl ?_ fun id hne => ⟨?_, view_modifyWorker_of_eq fun _ => ?_⟩
  · rw [hqueue]
    exact List.mem_cons_of_mem _ he
  · intro e he
    obtain ⟨cb, -, rfl⟩ := List.mem_map.mp he
    exact ⟨hconn, hlp⟩
  · have hevent : s.event cfg conn (.dispatch w) = .dispatch := by
      rw [event, hqueue]
      exact if_pos rfl
    rw [hevent, view_modifyWorker_self hlp]
    subst hlp
    refine .dispatch (decide (conn ∈ activeQueue.map Prod.fst)) hstage ?_
    simp [view, WorkLoop.view, hqueue]
  · rw [event, hqueue]
    exact if_neg fun heq => hne (Option.some.inj heq)
  · simp [WorkLoop.view, hqueue, Ne.symm hne]

theorem view_modifyWorker_message_self {message : Option Message} (hlp : (s.conns id).lp = w)
    (hconn : ∀ m ∈ message, m.conn = id) :
    (s.modifyWorker w fun l => { l with message := message }).view id =
      (s.view id).setWork { (s.view id).work with message := message } := by
  subst hlp
  have hfilter : message.filter (·.conn = id) = message := by
    cases message with
    | none => rfl
    | some m => simp [Option.filter_some, hconn m rfl]
  rw [view_modifyWorker_self rfl]
  simp only [WorkLoop.view, view, ConnView.setWork, hfilter]

theorem view_modifyWorker_message {message : Option Message} (hold : (s.workers w).message = none)
    (hne : ∀ m ∈ message, m.conn ≠ id) :
    (s.modifyWorker w fun l => { l with message := message }).view id = s.view id := by
  apply view_modifyWorker_of_eq
  intro _
  have hfilter : message.filter (·.conn = id) = none := by
    rw [Option.filter_eq_none_iff]
    intro m hm
    simpa using hne m hm
  simp [WorkLoop.view, hold, hfilter]

theorem enterMessage_eq_some {fs : FileSystem} {tables : List SharedTable}
    (h : s.enterMessage cfg w conn fs = some (s', tables)) :
    ∃ connBuckets, s' =
      { s.modifyWorker w fun l => { l with message := some ⟨conn, fs, .parseUrl, 0⟩ } with
        connBuckets := connBuckets } := by
  rw [enterMessage] at h
  split_ifs at h
  · obtain ⟨connBuckets, -, heq⟩ := Option.map_eq_some_iff.mp h
    cases heq
    exact ⟨connBuckets, rfl⟩
  all_goals
    cases h
    exact ⟨_, rfl⟩

/-- A step whose last act is to enter `onMessage`. -/
theorem Steps.of_enterMessage {a : ServerAction} {s₂ : WebServer} {fs : FileSystem}
    {tables : List SharedTable} (hplaced : s₂.Placed) (hcount : s₂.count = s.count)
    (hconn : conn < s.count) (hlp : (s₂.conns conn).lp = w)
    (hmessage : (s₂.workers w).message = none)
    (hself : ConnStep cfg (s.view conn) (s.event cfg conn a) ((s₂.view conn).setWork
      { (s₂.view conn).work with message := some ⟨conn, fs, .parseUrl, 0⟩ }))
    (hother : ∀ id, conn ≠ id → s.event cfg id a = .idle ∧ s₂.view id = s.view id)
    (hexec : s₂.enterMessage cfg w conn fs = some (s', tables)) : Steps cfg s a s' := by
  obtain ⟨connBuckets, rfl⟩ := enterMessage_eq_some hexec
  set s₃ := s₂.modifyWorker w fun l => { l with message := some ⟨conn, fs, .parseUrl, 0⟩ }
  have hplaced₃ : s₃.Placed := by
    have hw := hplaced.work w
    refine hplaced.modifyWorker ⟨hw.batch, hw.functor, hw.active, hw.callback, ?_⟩
    rintro m ⟨⟩
    exact ⟨hcount ▸ hconn, hlp⟩
  refine .of_one conn ⟨hplaced₃.work, hplaced₃.batch, hplaced₃.removal, hplaced₃.entry,
    hplaced₃.connections⟩ hcount ?_ fun id hne => ⟨(hother id hne).1, ?_⟩
  · have hview : s₃.view conn = (s₂.view conn).setWork
        { (s₂.view conn).work with message := some ⟨conn, fs, .parseUrl, 0⟩ } := by
      apply view_modifyWorker_message_self hlp
      rintro m ⟨⟩
      rfl
    change ConnStep cfg _ _ (s₃.view conn)
    rw [hview]
    exact hself
  · change s₃.view id = s.view id
    rw [← (hother id hne).2]
    apply view_modifyWorker_message hmessage
    rintro m ⟨⟩
    exact hne

theorem callback_steps (h : s.Placed) {read : Option Bytes} {write : Option Nat}
    {fs : FileSystem} {tables : List SharedTable} (hstage : (s.workers w).stage = .events)
    (hmessage : (s.workers w).message = none)
    (hexec : s.callback cfg w read write fs = some (s', tables)) :
    Steps cfg s (.callback w read write fs) s' := by
  have hw := h.work w
  rw [callback] at hexec
  cases hcallbacks : (s.workers w).callbacks with
  | nil =>
    rw [hcallbacks] at hexec
    cases hexec
  | cons e callbacks =>
    obtain ⟨conn, cb⟩ := e
    rw [hcallbacks] at hexec
    simp only [Option.bind_eq_bind, Option.bind_eq_some_iff] at hexec
    obtain ⟨⟨tcp, es⟩, hcall, hexec⟩ := hexec
    obtain ⟨hconn, hlp⟩ := hw.callback (conn, cb) (by rw [hcallbacks]; exact List.mem_cons_self)
    set s₁ := s.modifyWorker w fun l => { l with callbacks := callbacks } with hs₁
    have hplaced₁ : s₁.Placed := by
      refine h.modifyWorker ⟨hw.batch, hw.functor, hw.active, fun e he => hw.callback e ?_,
        hw.message⟩
      rw [hcallbacks]
      exact List.mem_cons_of_mem _ he
    have hview₁ (id : Nat) : s₁.view id = s.view id := view_modifyWorker_of_eq fun _ => rfl
    set s₂ := s₁.after conn ((s.conns conn).after tcp es) es with hs₂
    have hplaced₂ : s₂.Placed := hplaced₁.after hconn _ es rfl
    have hself₂ : s₂.view conn = (s.view conn).after ((s.conns conn).after tcp es) es := by
      rw [← hview₁]
      exact view_after_self _ _ rfl rfl
    have hevent : s.event cfg conn (.callback w read write fs) = .callback cb read fs := by
      rw [event, hcallbacks]
      exact if_pos rfl
    have hother (id : Nat) (hne : conn ≠ id) :
        s.event cfg id (.callback w read write fs) = .idle ∧ s₂.view id = s.view id := by
      rw [event, hcallbacks, hs₂, view_after_of_ne hne, hview₁]
      exact ⟨if_neg hne, rfl⟩
    have hevents : (s.view conn).work.stage = .events := by
      subst hlp
      exact hstage
    have hnone : (s.view conn).work.message = none := by
      subst hlp
      simp [view, WorkLoop.view, hmessage]
    split_ifs at hexec with hmem
    · refine .of_enterMessage hplaced₂ rfl hconn ?_ ?_ ?_ hother hexec
      · rw [hs₂, after_conns]
        exact hlp
      · change (s₁.workers w).message = none
        rw [hs₁, modifyWorker_workers]
        exact hmessage
      · rw [hevent, hself₂]
        exact .enterMessage hevents hnone hcall hmem
    · obtain ⟨rfl, -⟩ := Prod.mk.inj (Option.some.inj hexec)
      refine .of_one conn hplaced₂ rfl ?_ hother
      rw [hevent, hself₂]
      exact .callback hevents hnone hcall hmem

theorem view_message (h : s.Placed) {m : Message} (hm : m ∈ (s.workers w).message) :
    (s.view m.conn).work.message = some m := by
  obtain ⟨-, rfl⟩ := (h.work w).message m hm
  simp [view, WorkLoop.view, Option.mem_def.mp hm, Option.filter_some]

theorem messageStep_eq_some {m : Message} {write : Option Nat}
    (h : s.messageStep cfg w m write = some s') :
    ∃ frame effects tcp es,
      OnMessage.step ((s.conns m.conn).env cfg m) ((s.conns m.conn).frame m) = (frame, effects) ∧
      (∀ f, frame.pc ≠ .stopped f) ∧
      ((s.conns m.conn).ofFrame frame).tcp.perform write effects = some (tcp, es) ∧
      s' = (s.modifyWorker w fun l => { l with
        message :=
          if frame.pc = .returned then none
          else some { m with pc := frame.pc, fsCalls := frame.fsCalls } }).after m.conn
        (((s.conns m.conn).ofFrame frame).after tcp es) es := by
  rw [messageStep] at h
  generalize OnMessage.step ((s.conns m.conn).env cfg m) ((s.conns m.conn).frame m) = r at h ⊢
  obtain ⟨frame, effects⟩ := r
  refine ⟨frame, effects, ?_⟩
  cases hpc : frame.pc with
  | stopped f => simp [hpc] at h
  | parseUrl | parseHeaders | headerLoop m | parseBody | bodyLoop l | responsing | finish
  | returned =>
    simp only [hpc, Option.bind_eq_bind, Option.bind_eq_some_iff, Option.pure_def] at h
    obtain ⟨⟨tcp, es⟩, hperform, heq⟩ := h
    cases heq
    exact ⟨tcp, es, rfl, nofun, hperform, rfl⟩

theorem message_steps (h : s.Placed) {m : Message} {write : Option Nat}
    (hm : (s.workers w).message = some m) (hexec : s.messageStep cfg w m write = some s') :
    Steps cfg s (.onMessage w write) s' := by
  have hw := h.work w
  obtain ⟨frame, effects, tcp, es, hstep, hpc, hperform, rfl⟩ := messageStep_eq_some hexec
  obtain ⟨hconn, hlp⟩ := hw.message m hm
  set message : Option Message :=
    if frame.pc = .returned then none else some { m with pc := frame.pc, fsCalls := frame.fsCalls }
    with hmessage
  have hsame : ∀ m' ∈ message, m'.conn = m.conn := by
    rw [hmessage]
    split_ifs
    · nofun
    · rintro m' ⟨⟩
      rfl
  set s₁ := s.modifyWorker w fun l => { l with message := message }
  have hplaced : s₁.Placed := by
    refine h.modifyWorker ⟨hw.batch, hw.functor, hw.active, hw.callback, fun m' hm' => ?_⟩
    rw [hsame m' hm']
    exact ⟨hconn, hlp⟩
  refine .of_one m.conn (hplaced.after hconn _ es rfl) rfl ?_ fun id hne => ⟨?_, ?_⟩
  · have hevent : s.event cfg m.conn (.onMessage w write) = .message := by
      rw [event, hm]
      exact if_pos rfl
    have hview : (s₁.after m.conn (((s.conns m.conn).ofFrame frame).after tcp es) es).view m.conn =
        (s₁.view m.conn).after (((s.conns m.conn).ofFrame frame).after tcp es) es :=
      view_after_self _ _ rfl rfl
    have hself : (s.view m.conn).work.message = some m := view_message h hm
    rw [hevent, hview, view_modifyWorker_message_self hlp hsame]
    exact .message hself hstep hpc hperform
  · rw [event, hm]
    exact if_neg fun heq => hne (Option.some.inj heq)
  · rw [view_after_of_ne hne]
    apply view_modifyWorker_of_eq
    intro _
    have hnone {p : Option Message} (hp : ∀ m' ∈ p, m'.conn = m.conn) :
        p.filter (·.conn = id) = none := by
      rw [Option.filter_eq_none_iff]
      intro m' hm'
      simpa [hp m' hm'] using hne
    have hold : ∀ m' ∈ (s.workers w).message, m'.conn = m.conn := by
      rw [hm]
      rintro m' ⟨⟩
      rfl
    simp only [WorkLoop.view, hnone hold, hnone hsame]

theorem onConnection_eq_some {tables : List SharedTable}
    (h : s.onConnection cfg conn = some (s', tables)) :
    ∃ connBuckets context, s' = { s.after conn { s.conns conn with context := context } [] with
      connBuckets := connBuckets } := by
  have hsame : s = { s.after conn { s.conns conn with context := (s.conns conn).context } [] with
      connBuckets := s.connBuckets } := by
    simp [after]
  rw [onConnection] at h
  simp only [Option.bind_eq_bind, Option.pure_def] at h
  split_ifs at h
  · obtain ⟨connBuckets, -, heq⟩ := Option.bind_eq_some_iff.mp h
    cases heq
    exact ⟨connBuckets, true, by simp [after]⟩
  all_goals
    cases h
    exact ⟨_, _, hsame⟩

/-- What a functor can change. -/
theorem runFunctor_eq_some {g : WorkFunction} {tables : List SharedTable}
    (h : s.runFunctor cfg g = some (s', tables)) :
    ∃ c es connBuckets, s' = { s.after g.conn c es with connBuckets := connBuckets } := by
  cases g with
  | connectEstablished conn | connectDestroyed conn =>
    simp only [runFunctor, Option.bind_eq_bind, Option.bind_eq_some_iff] at h
    obtain ⟨⟨tcp, es⟩, -, h⟩ := h
    obtain ⟨connBuckets, context, rfl⟩ := onConnection_eq_some h
    rw [after_conns, after_after]
    exact ⟨_, es, connBuckets, rfl⟩
  | shutdownInLoop conn =>
    simp only [runFunctor] at h
    split_ifs at h
    cases h
    exact ⟨_, _, s.connBuckets, rfl⟩

/-- A functor that calls `connCb_` at its end. -/
theorem Steps.of_onConnection {s₁ : WebServer} {c : ServerConn} {es : List ConnEffect}
    {tables : List SharedTable} (hplaced : s₁.Placed) (hcount : s₁.count = s.count)
    (hconn : conn < s.count) (hlp : c.lp = (s₁.conns conn).lp)
    (hname : c.connName = (s₁.conns conn).connName)
    (hself : ∀ context, ConnStep cfg (s.view conn) (s.event cfg conn (.call w))
      ((s₁.view conn).after { c with context := context } es))
    (hother : ∀ id, conn ≠ id →
      s.event cfg id (.call w) = .idle ∧ s₁.view id = s.view id)
    (hexec : (s₁.after conn c es).onConnection cfg conn = some (s', tables)) :
    Steps cfg s (.call w) s' := by
  obtain ⟨connBuckets, context, rfl⟩ := onConnection_eq_some hexec
  rw [after_conns]
  set s₂ := s₁.after conn c es with hs₂
  have hplaced₂ : s₂.Placed := hplaced.after (hcount ▸ hconn) c es hlp
  have hplaced₃ : (s₂.after conn { c with context := context } []).Placed := by
    refine hplaced₂.after (hcount ▸ hconn) _ [] ?_
    rw [hs₂, after_conns]
  refine .of_one conn ⟨hplaced₃.work, hplaced₃.batch, hplaced₃.removal, hplaced₃.entry,
    hplaced₃.connections⟩ hcount ?_ fun id hne => ⟨(hother id hne).1, ?_⟩
  · have hview₂ : s₂.view conn = (s₁.view conn).after c es := view_after_self c es hlp hname
    have hview₃ : (s₂.after conn { c with context := context } []).view conn =
        (s₂.view conn).after { c with context := context } [] := by
      apply view_after_self <;> rw [hs₂, after_conns]
    change ConnStep cfg _ _ ((s₂.after conn { c with context := context } []).view conn)
    rw [hview₃, hview₂]
    exact hself context
  · change (s₂.after conn { c with context := context } []).view id = s.view id
    rw [view_after_of_ne hne, hs₂, view_after_of_ne hne]
    exact (hother id hne).2

section Called
variable {f : WorkFunction} {funcs : List WorkFunction}

theorem called_placed (h : s.Placed) (hstage : (s.workers w).stage = .funcs)
    (hfuncs : (s.workers w).funcs = f :: funcs) :
    (s.modifyWorker w fun l => { l with funcs := funcs, called := l.called ++ [f] }).Placed := by
  have hw := h.work w
  refine h.modifyWorker ⟨fun hne => absurd hstage hne, fun g hg => hw.functor g ?_, hw.active,
    hw.callback, hw.message⟩
  rw [List.append_assoc (s.workers w).called] at hg
  rw [hfuncs]
  exact hg

theorem view_called_self (hf : f.conn = conn) (hlp : (s.conns conn).lp = w)
    (hfuncs : (s.workers w).funcs = f :: funcs) :
    (s.modifyWorker w fun l => { l with funcs := funcs, called := l.called ++ [f] }).view conn =
      (s.view conn).called f (funcs.filter (·.conn = conn)) := by
  subst hlp
  rw [view_modifyWorker_self rfl]
  simp [view, WorkLoop.view, ConnView.setWork, ConnView.called, List.filter_append, hf]

theorem view_called_of_ne (hne : f.conn ≠ id) (hfuncs : (s.workers w).funcs = f :: funcs) :
    (s.modifyWorker w fun l => { l with funcs := funcs, called := l.called ++ [f] }).view id =
      s.view id := by
  apply view_modifyWorker_of_eq
  intro _
  simp [WorkLoop.view, hfuncs, List.filter_append, hne]

end Called

theorem call_steps (h : s.Placed) {tables : List SharedTable}
    (hstage : (s.workers w).stage = .funcs) (hexec : s.call cfg w = some (s', tables)) :
    Steps cfg s (.call w) s' := by
  rw [call] at hexec
  cases hfuncs : (s.workers w).funcs with
  | nil =>
    rw [hfuncs] at hexec
    cases hexec
  | cons f funcs =>
    rw [hfuncs] at hexec
    simp only at hexec
    obtain ⟨conn, hf⟩ : ∃ conn, f.conn = conn := ⟨_, rfl⟩
    obtain ⟨hconn, hlp⟩ := (h.work w).functor f (by simp [hfuncs])
    rw [hf] at hconn hlp
    set s₁ := s.modifyWorker w fun l => { l with funcs := funcs, called := l.called ++ [f] }
    have hplaced : s₁.Placed := called_placed h hstage hfuncs
    have hself : s₁.view conn = (s.view conn).called f (funcs.filter (·.conn = conn)) :=
      view_called_self hf hlp hfuncs
    have hevent : s.event cfg conn (.call w) = .call := by
      rw [event, hfuncs, List.head?_cons, Option.map_some, hf]
      exact if_pos rfl
    have hother (id : Nat) (hne : conn ≠ id) :
        s.event cfg id (.call w) = .idle ∧ s₁.view id = s.view id := by
      rw [event, hfuncs, List.head?_cons, Option.map_some]
      rw [← hf] at hne
      exact ⟨if_neg fun heq => hne (Option.some.inj heq), view_called_of_ne hne hfuncs⟩
    have hview : (s.view conn).work.funcs = f :: funcs.filter (·.conn = conn) := by
      subst hlp
      simp [view, WorkLoop.view, hfuncs, hf]
    have hstage' : (s.view conn).work.stage = .funcs := by
      subst hlp
      exact hstage
    cases f with
    | connectEstablished c =>
      obtain rfl : c = conn := hf
      simp only [runFunctor, Option.bind_eq_bind, Option.bind_eq_some_iff] at hexec
      obtain ⟨⟨tcp, es⟩, hcall, hexec⟩ := hexec
      refine .of_onConnection hplaced rfl hconn ?_ ?_ (fun context => ?_) hother hexec
      · rfl
      · rfl
      · rw [hevent, hself]
        exact .established context hview hstage' hcall
    | connectDestroyed c =>
      obtain rfl : c = conn := hf
      simp only [runFunctor, Option.bind_eq_bind, Option.bind_eq_some_iff] at hexec
      obtain ⟨⟨tcp, es⟩, hcall, hexec⟩ := hexec
      refine .of_onConnection hplaced rfl hconn ?_ ?_ (fun context => ?_) hother hexec
      · rfl
      · rfl
      · rw [hevent, hself]
        exact .destroyed context hview hstage' hcall
    | shutdownInLoop c =>
      obtain rfl : c = conn := hf
      rw [runFunctor] at hexec
      split_ifs at hexec with href
      obtain rfl := congrArg Prod.fst (Option.some.inj hexec)
      refine .of_one c (hplaced.after hconn _ _ rfl) rfl ?_ fun id hne => ?_
      · have hafter : (s₁.after c ((s₁.conns c).after (s₁.conns c).tcp
            (s₁.conns c).tcp.shutdownInLoop) (s₁.conns c).tcp.shutdownInLoop).view c = _ :=
          view_after_self _ _ rfl rfl
        rw [hevent]
        change ConnStep cfg _ _ (WebServer.view (s₁.after c _ _) c)
        rw [hafter, hself]
        exact .shutdownInLoop hview hstage'
      · simp only
        rw [view_after_of_ne hne]
        exact hother id hne

/-- **One inversion for all steps.** What any step of the server means for its connections. -/
theorem exec_steps (h : s.Placed) {a : ServerAction} {accesses : List Access}
    (hpre : s.Pre cfg a) (hexec : s.exec cfg a = some (s', accesses)) : Steps cfg s a s' := by
  cases a with
  | basePoll =>
    cases hexec
    exact basePoll_steps h hpre
  | accept =>
    obtain ⟨s₁, hnew, heq⟩ := Option.map_eq_some_iff.mp hexec
    cases heq
    exact accept_steps h hnew
  | onTimer order =>
    cases hexec
    exact onTimer_steps h order
  | destroyEntry =>
    cases hexec
    exact destroyEntry_steps h
  | baseSwap =>
    cases hexec
    exact baseSwap_steps h hpre.1
  | baseCall =>
    rw [exec] at hexec
    cases hfuncs : s.base.funcs with
    | nil => exact absurd hfuncs hpre.2
    | cons conn funcs =>
      rw [hfuncs] at hexec
      obtain ⟨s₁, hremove, heq⟩ := Option.map_eq_some_iff.mp hexec
      cases heq
      exact baseCall_steps h hpre.1 hfuncs hremove
  | baseEnd =>
    cases hexec
    exact baseEnd_steps h hpre.2
  | poll w events =>
    cases hexec
    exact poll_steps h hpre
  | dispatch w =>
    rw [exec] at hexec
    cases hqueue : (s.workers w).activeQueue with
    | nil => exact absurd hqueue hpre.2.1
    | cons e activeQueue =>
      rw [hqueue] at hexec
      cases hexec
      exact dispatch_steps h hpre.1 hqueue
  | callback w read write fs =>
    obtain ⟨⟨s₁, tables⟩, hcallback, heq⟩ := Option.map_eq_some_iff.mp hexec
    cases heq
    exact callback_steps h hpre.1 hpre.2.1 hcallback
  | onMessage w write =>
    obtain ⟨m, hm, hexec⟩ := Option.bind_eq_some_iff.mp hexec
    obtain ⟨s₁, hstep, heq⟩ := Option.map_eq_some_iff.mp hexec
    cases heq
    exact message_steps h hm hstep
  | swap w =>
    cases hexec
    exact swap_steps h hpre
  | call w =>
    obtain ⟨⟨s₁, tables⟩, hcall, heq⟩ := Option.map_eq_some_iff.mp hexec
    cases heq
    exact call_steps h hpre.1 hcall
  | endBatch w =>
    cases hexec
    exact endBatch_steps h hpre
  | exit => cases hexec

/-- The induction rule: what holds of a connection when it is accepted, and is kept by the steps
that meet `ok`, holds of every connection in every state. -/
theorem preserves_views {I : ConnView → Prop} {ok : WebServer → ServerAction → Prop}
    (hfresh : ∀ this connName lp stage, I (freshView this connName lp stage))
    (hstep : ∀ s a id v', s.Placed → (∀ i < s.count, I (s.view i)) → s.Pre cfg a → ok s a →
      id < s.count → ConnStep cfg (s.view id) (s.event cfg id a) v' → I v') :
    ((webServer cfg).restrict ok).Preserves fun s => s.Placed ∧ ∀ i < s.count, I (s.view i) := by
  intro s a s' accesses ⟨hplaced, hI⟩ ⟨hpre, hok⟩ hexec
  have hsteps := exec_steps hplaced hpre hexec
  refine ⟨hsteps.placed, fun id hid => ?_⟩
  have hold (hlt : id < s.count) : I (s'.view id) :=
    hstep s a id _ hplaced hI hpre hok hlt (hsteps.view id hlt)
  rcases hsteps.count with hcount | ⟨hcount, lp, stage, hnew⟩
  · exact hold (hcount ▸ hid)
  · rcases Nat.lt_succ_iff_lt_or_eq.mp (hcount ▸ hid) with hlt | heq
    · exact hold hlt
    · rw [heq, hnew]
      exact hfresh _ _ _ _

/-- The rule applied from the start. -/
theorem views_of_reachable {I : ConnView → Prop} {ok : WebServer → ServerAction → Prop}
    (h : ((webServer cfg).restrict ok).Reachable (.init cfg) s)
    (hfresh : ∀ this connName lp stage, I (freshView this connName lp stage))
    (hstep : ∀ s a id v', s.Placed → (∀ i < s.count, I (s.view i)) → ok s a →
      ConnStep cfg (s.view id) (s.event cfg id a) v' → id < s.count → I v') :
    s.Placed ∧ ∀ i < s.count, I (s.view i) := by
  have hkeeps : ((webServer cfg).restrict ok).Preserves fun s =>
      s.Placed ∧ ∀ i < s.count, I (s.view i) := by
    refine preserves_views hfresh ?_
    intro s a id v' hplaced hI _ hok hid hstep'
    exact hstep s a id v' hplaced hI hok hstep' hid
  have hviews := h.invariant hkeeps ⟨.init cfg, nofun⟩
  exact hviews

end
end WebServer
end Httpancake
