import Httpancake.Server.Lifetime

/-! # What a loop dispatches

A worker loop dispatches the connections that it has events, callbacks or a running `onMessage`
for. Between two iterations there are none, and `poll` reports watched sockets only; so every
connection that is dispatched has been established and has not been destroyed
(`WebServer.dispatching_of_reachable`). -/

namespace Httpancake

open TcpConnection

namespace WorkLoop

/-- The connections that the current iteration still does something for. -/
def dispatched (l : WorkLoop) : List Nat :=
  l.activeQueue.map Prod.fst ++ l.callbacks.map Prod.fst ++ l.message.toList.map Message.conn

variable {l l' l'' : WorkLoop}

/-- A step that dispatches nothing new, and leaves the events only when all of it is done. -/
structure Calms (l l' : WorkLoop) : Prop where
  mem : ∀ conn ∈ l'.dispatched, conn ∈ l.dispatched
  rest : l'.stage ≠ .events → l.stage ≠ .events ∨ l'.dispatched = []

theorem Calms.of_eq (hstage : l'.stage = l.stage) (hdispatched : l'.dispatched = l.dispatched) :
    l.Calms l' where
  mem _ hconn := hdispatched ▸ hconn
  rest hne := .inl (hstage ▸ hne)

theorem Calms.refl (l : WorkLoop) : l.Calms l := .of_eq rfl rfl

/-- A step within the events. -/
theorem Calms.of_mem (hstage : l'.stage = l.stage)
    (hmem : ∀ conn ∈ l'.dispatched, conn ∈ l.dispatched) : l.Calms l' :=
  ⟨hmem, fun hne => .inl (hstage ▸ hne)⟩

end WorkLoop

/-- Established, and not destroyed. -/
structure ServerConn.Alive (c : ServerConn) : Prop where
  established : c.tcp.state ≠ .connecting
  not_destroyed : c.destructions = 0

namespace ConnView

/-- The socket is watched from `connectEstablished` to `connectDestroyed` at most. -/
structure Watches (v : ConnView) : Prop where
  connecting : v.conn.tcp.state = .connecting →
    v.conn.tcp.handler.events = .none ∧ v.conn.tcp.watched.interest = none
  destroyed : 0 < v.conn.destructions → v.conn.tcp.Destroyed

/-- The callbacks of the handler come while the connection is alive. -/
def Within (v : ConnView) : ConnEvent → Prop
  | .callback _ _ _ => v.conn.Alive
  | _ => True

variable {cfg : ServerConfig} {v v' : ConnView}

theorem watches_fresh (this : Nat) (connName : Bytes) (lp : Nat) (stage : LoopStage) :
    (WebServer.freshView this connName lp stage).Watches := ⟨fun _ => ⟨rfl, rfl⟩, nofun⟩

/-- A watched socket belongs to a connection that is alive. -/
theorem Watches.alive (h : v.Watches) (hinterest : v.conn.tcp.watched.interest ≠ none) :
    v.conn.Alive where
  established hconnecting := hinterest (h.connecting hconnecting).2
  not_destroyed := by
    by_contra hne
    exact hinterest (h.destroyed (Nat.pos_of_ne_zero hne)).interest

/-- **The step lemma.** -/
theorem Watches.step {e : ConnEvent} (h : v.Watches) (hstep : ConnStep cfg v e v') :
    v'.Watches := by
  cases hstep with
  | idle | rename | erase | lock | test | queueShutdown | release | remove | baseEnd | poll
  | dispatch | swap | shutdownInLoop | endBatch => exact ⟨h.connecting, h.destroyed⟩
  | setDisconnecting =>
    refine ⟨fun heq => ?_, fun hpos => ?_⟩
    · cases heq
    · have hd := h.destroyed hpos
      exact ⟨ConnState.noConfusion, ConnState.noConfusion, hd.events, hd.interest⟩
  | callback hstage hnone hcall | enterMessage hstage hnone hcall =>
    refine ⟨fun hstate => ?_, fun hpos => (h.destroyed hpos).callback hcall⟩
    cases callback_outcome hcall with
    | close hcloses | endOfStream hread hcloses =>
      cases hcloses.state.symm.trans hstate
    | message hread hconn hes =>
      subst hconn
      exact h.connecting hstate
    | quiet hwrites hidle =>
      have hevents := h.connecting (hwrites.state.symm.trans hstate)
      obtain ⟨rfl, -⟩ := hidle (by rw [isWriting, Handler.isWriting, hevents.1]; rfl)
      exact hevents
  | message hm hstep hpc hperform =>
    refine ⟨fun hstate => ?_, fun hpos => ((h.destroyed hpos).ofFrame _).perform hperform⟩
    have hsame := (perform_spec hperform).state.symm.trans hstate
    rw [perform_of_not_connected (by rw [hsame]; exact ConnState.noConfusion)] at hperform
    cases hperform
    exact h.connecting hsame
  | established context hfuncs hstage hcall =>
    obtain ⟨hconnecting, hconnected, -⟩ := connectEstablished_spec hcall
    refine ⟨fun hstate => ?_, fun hpos => ?_⟩
    · cases hconnected.symm.trans hstate
    · exact absurd hconnecting (h.destroyed hpos).not_connecting
  | destroyed context hfuncs hstage hcall =>
    have hd := Destroyed.of_connectDestroyed hcall
    exact ⟨fun hstate => absurd hstate hd.not_connecting, fun _ => hd⟩

/-- Outside of a batch a connection neither begins nor ends. -/
theorem alive_step {e : ConnEvent} (h : v.conn.Alive) (hstage : v.work.stage = .events)
    (hstep : ConnStep cfg v e v') : v'.conn.Alive := by
  cases hstep with
  | idle | rename | erase | lock | test | queueShutdown | release | remove | baseEnd | poll
  | dispatch | swap | shutdownInLoop | endBatch => exact ⟨h.established, h.not_destroyed⟩
  | setDisconnecting => exact ⟨nofun, h.not_destroyed⟩
  | callback _ _ hcall | enterMessage _ _ hcall =>
    refine ⟨?_, h.not_destroyed⟩
    cases callback_outcome hcall with
    | close hcloses | endOfStream hread hcloses =>
      exact fun hstate => nomatch hcloses.state.symm.trans hstate
    | message hread hconn hes =>
      subst hconn
      exact h.established
    | quiet hwrites hidle => exact fun hstate => h.established (hwrites.state.symm.trans hstate)
  | message hm hstep hpc hperform =>
    exact ⟨fun hstate => h.established ((perform_spec hperform).state.symm.trans hstate),
      h.not_destroyed⟩
  | established context hfuncs hfuncsStage | destroyed context hfuncs hfuncsStage =>
    exact nomatch hstage.symm.trans hfuncsStage

end ConnView

namespace WebServer
variable {cfg : ServerConfig} {s s' : WebServer} {w : Nat}

/-! ## The loops -/

theorem modifyWorker_of_ne {w' : Nat} (hne : w' ≠ w) (f : WorkLoop → WorkLoop) :
    (s.modifyWorker w f).workers w' = s.workers w' := Function.update_of_ne hne ..

@[simp] theorem after_workers (s : WebServer) (conn : Nat) (c : ServerConn)
    (es : List ConnEffect) : (s.after conn c es).workers = s.workers := rfl

theorem calms_modifyWorker {f : WorkLoop → WorkLoop} (hf : (s.workers w).Calms (f (s.workers w)))
    (w' : Nat) : (s.workers w').Calms ((s.modifyWorker w f).workers w') := by
  rcases eq_or_ne w' w with rfl | hne
  · rw [modifyWorker_workers]
    exact hf
  · rw [modifyWorker_of_ne hne]
    exact .refl _

theorem calms_queueInLoop (f : WorkFunction) (w' : Nat) :
    (s.workers w').Calms ((s.queueInLoop w f).workers w') :=
  calms_modifyWorker (.of_eq rfl rfl) w'

theorem calms_destroyEntry (w' : Nat) : (s.workers w').Calms (s.destroyEntry.workers w') := by
  rw [destroyEntry]
  split
  · split
    · exact .refl _
    · simp only
      split_ifs <;> exact .refl _
  · exact .refl _
  · exact .refl _
  · exact calms_queueInLoop _ _
  · exact .refl _

theorem calms_baseCall {conn : Nat} (h : s.handleRemoveConnectionInLoop conn = some s') (w' : Nat) :
    (s.workers w').Calms (s'.workers w') := by
  rw [handleRemoveConnectionInLoop] at h
  split_ifs at h
  cases h
  exact calms_queueInLoop _ _

theorem calms_runFunctor {f : WorkFunction} {tables : List SharedTable}
    (h : s.runFunctor cfg f = some (s', tables)) : s'.workers = s.workers := by
  obtain ⟨c, es, connBuckets, rfl⟩ := runFunctor_eq_some h
  rfl

theorem calms_call {tables : List SharedTable} (h : s.call cfg w = some (s', tables)) (w' : Nat) :
    (s.workers w').Calms (s'.workers w') := by
  rw [call] at h
  split at h
  · cases h
  · rw [calms_runFunctor h]
    exact calms_modifyWorker (.of_eq rfl rfl) w'

/-- The next handler of the queue: its callbacks are for its connection. -/
theorem calms_dispatch {conn : Nat} {revents : EventMask} {activeQueue : List (Nat × EventMask)}
    (hqueue : (s.workers w).activeQueue = (conn, revents) :: activeQueue)
    (hcallbacks : (s.workers w).callbacks = []) (w' : Nat) :
    (s.workers w').Calms ((s.modifyWorker w fun l => { l with
      activeQueue := activeQueue
      callbacks := (Handler.handleEvents revents).map (conn, ·) }).workers w') := by
  refine calms_modifyWorker (.of_mem rfl fun id hid => ?_) w'
  simp only [WorkLoop.dispatched, hqueue, hcallbacks, List.map_cons, List.map_nil, List.mem_append,
    List.mem_map, List.mem_cons] at hid ⊢
  rcases hid with (⟨e, he, rfl⟩ | ⟨e, ⟨cb, -, rfl⟩, rfl⟩) | hmessage
  · exact .inl (.inl (.inr ⟨e, he, rfl⟩))
  · exact .inl (.inl (.inl rfl))
  · exact .inr hmessage

theorem calms_callback {read : Option Bytes} {write : Option Nat} {fs : FileSystem}
    {tables : List SharedTable} (hmessage : (s.workers w).message = none)
    (h : s.callback cfg w read write fs = some (s', tables)) (w' : Nat) :
    (s.workers w').Calms (s'.workers w') := by
  rw [callback] at h
  cases hcallbacks : (s.workers w).callbacks with
  | nil =>
    rw [hcallbacks] at h
    cases h
  | cons e callbacks =>
    obtain ⟨conn, cb⟩ := e
    simp only [hcallbacks, Option.bind_eq_bind, Option.bind_eq_some_iff] at h
    obtain ⟨⟨tcp, es⟩, -, h⟩ := h
    split_ifs at h
    · -- `onMessage` begins in the place of the callback
      have hworkers : s'.workers = (s.modifyWorker w fun l => { l with
          callbacks := callbacks, message := some ⟨conn, fs, .parseUrl, 0⟩ }).workers := by
        obtain ⟨connBuckets, rfl⟩ := enterMessage_eq_some h
        simp [modifyWorker, after]
      rw [hworkers]
      apply calms_modifyWorker
      refine .of_mem rfl fun id hid => ?_
      simp only [WorkLoop.dispatched, hcallbacks, hmessage, List.map_cons, List.mem_append,
        List.mem_cons, Option.toList_some, Option.toList_none, List.map_nil, List.not_mem_nil,
        or_false] at hid ⊢
      rcases hid with (hactive | hcallback) | hself
      · exact .inl hactive
      · exact .inr (.inr hcallback)
      · exact .inr (.inl hself)
    · cases h
      rw [after_workers]
      apply calms_modifyWorker
      refine .of_mem rfl fun id hid => ?_
      simp only [WorkLoop.dispatched, hcallbacks, List.map_cons, List.mem_append,
        List.mem_cons] at hid ⊢
      rcases hid with (hactive | hcallback) | hrunning
      · exact .inl (.inl hactive)
      · exact .inl (.inr (.inr hcallback))
      · exact .inr hrunning

theorem calms_messageStep {m : Message} {write : Option Nat} (hm : (s.workers w).message = some m)
    (h : s.messageStep cfg w m write = some s') (w' : Nat) :
    (s.workers w').Calms (s'.workers w') := by
  obtain ⟨frame, effects, tcp, es, -, -, -, rfl⟩ := messageStep_eq_some h
  rw [after_workers]
  apply calms_modifyWorker
  refine .of_mem rfl fun id hid => ?_
  simp only [WorkLoop.dispatched, hm, List.mem_append, Option.toList_some, List.map_cons,
    List.map_nil] at hid ⊢
  refine hid.imp_right fun hid => ?_
  split_ifs at hid
  · cases hid
  · exact hid

/-- **What a step dispatches.** Only `poll` adds to it. -/
theorem exec_calms {a : ServerAction} {accesses : List Access} (hpre : s.Pre cfg a)
    (hexec : s.exec cfg a = some (s', accesses)) (hpoll : ∀ w events, a ≠ .poll w events)
    (w' : Nat) : (s.workers w').Calms (s'.workers w') := by
  cases a with
  | poll w events => exact absurd rfl (hpoll w events)
  | basePoll | onTimer | baseSwap | baseEnd =>
    cases hexec
    exact .refl _
  | accept =>
    obtain ⟨s₁, hnew, heq⟩ := Option.map_eq_some_iff.mp hexec
    cases heq
    rw [handleNewConnection] at hnew
    split_ifs at hnew
    cases hnew
    exact calms_queueInLoop (s := s.addConnection cfg) _ _
  | destroyEntry =>
    cases hexec
    exact calms_destroyEntry w'
  | baseCall =>
    rw [exec] at hexec
    split at hexec
    · cases hexec
    · obtain ⟨s₁, hremove, heq⟩ := Option.map_eq_some_iff.mp hexec
      cases heq
      exact calms_baseCall (s := s.baseCalled _ _) hremove w'
  | dispatch w =>
    rw [exec] at hexec
    cases hqueue : (s.workers w).activeQueue with
    | nil => exact absurd hqueue hpre.2.1
    | cons e activeQueue =>
      rw [hqueue] at hexec
      cases hexec
      exact calms_dispatch hqueue hpre.2.2.1 w'
  | callback w read write fs =>
    obtain ⟨r, hcallback, heq⟩ := Option.map_eq_some_iff.mp hexec
    cases heq
    exact calms_callback hpre.2.1 hcallback w'
  | onMessage w write =>
    obtain ⟨m, hm, hexec⟩ := Option.bind_eq_some_iff.mp hexec
    obtain ⟨s₁, hstep, heq⟩ := Option.map_eq_some_iff.mp hexec
    cases heq
    exact calms_messageStep hm hstep w'
  | swap w =>
    cases hexec
    obtain ⟨-, hactive, hcallbacks, hmessage⟩ := hpre
    refine calms_modifyWorker ⟨fun conn hconn => hconn, fun _ => .inr ?_⟩ w'
    simp [WorkLoop.dispatched, hactive, hcallbacks, hmessage]
  | call w =>
    obtain ⟨r, hcall, heq⟩ := Option.map_eq_some_iff.mp hexec
    cases heq
    exact calms_call hcall w'
  | endBatch w =>
    cases hexec
    refine calms_modifyWorker ⟨fun conn hconn => hconn, fun _ => .inl ?_⟩ w'
    rw [hpre.1]
    exact LoopStage.noConfusion
  | exit => cases hexec

/-- **What a step leaves alone.** Only `accept` takes a loop from the pool, and only the timeout
destroys entries. -/
theorem exec_leaves {a : ServerAction} {accesses : List Access}
    (h : s.exec cfg a = some (s', accesses)) : (a ≠ .accept → s'.next = s.next) ∧
      ((∀ order, a ≠ .onTimer order) → a ≠ .destroyEntry → s'.base.ticking = s.base.ticking ∧
        s'.base.expired = s.base.expired ∧ s'.base.entry = s.base.entry) := by
  cases a with
  | onTimer order =>
    cases h
    exact ⟨fun _ => rfl, fun htimer => absurd rfl (htimer order)⟩
  | destroyEntry =>
    cases h
    refine ⟨fun _ => ?_, fun _ hentry => absurd rfl hentry⟩
    rw [destroyEntry]
    split
    · split
      · rfl
      · simp only
        split_ifs <;> rfl
    all_goals rfl
  | basePoll | baseSwap | baseEnd | poll | swap | endBatch =>
    cases h
    exact ⟨fun _ => rfl, fun _ _ => ⟨rfl, rfl, rfl⟩⟩
  | accept =>
    obtain ⟨s₁, hnew, heq⟩ := Option.map_eq_some_iff.mp h
    cases heq
    rw [handleNewConnection] at hnew
    split_ifs at hnew
    cases hnew
    exact ⟨fun haccept => absurd rfl haccept, fun _ _ => ⟨rfl, rfl, rfl⟩⟩
  | baseCall =>
    rw [exec] at h
    split at h
    · cases h
    · obtain ⟨s₁, hremove, heq⟩ := Option.map_eq_some_iff.mp h
      cases heq
      rw [handleRemoveConnectionInLoop] at hremove
      split_ifs at hremove
      cases hremove
      exact ⟨fun _ => rfl, fun _ _ => ⟨rfl, rfl, rfl⟩⟩
  | dispatch w =>
    rw [exec] at h
    split at h <;> cases h
    exact ⟨fun _ => rfl, fun _ _ => ⟨rfl, rfl, rfl⟩⟩
  | callback w read write fs =>
    obtain ⟨⟨s₁, tables⟩, hcallback, heq⟩ := Option.map_eq_some_iff.mp h
    cases heq
    rw [callback] at hcallback
    split at hcallback
    · cases hcallback
    · simp only [Option.bind_eq_bind, Option.bind_eq_some_iff] at hcallback
      obtain ⟨r, -, hcallback⟩ := hcallback
      split_ifs at hcallback
      · obtain ⟨connBuckets, rfl⟩ := enterMessage_eq_some hcallback
        exact ⟨fun _ => rfl, fun _ _ => ⟨rfl, rfl, rfl⟩⟩
      · cases hcallback
        exact ⟨fun _ => rfl, fun _ _ => ⟨rfl, rfl, rfl⟩⟩
  | onMessage w write =>
    obtain ⟨m, -, hexec⟩ := Option.bind_eq_some_iff.mp h
    obtain ⟨s₁, hstep, heq⟩ := Option.map_eq_some_iff.mp hexec
    cases heq
    obtain ⟨frame, effects, tcp, es, -, -, -, rfl⟩ := messageStep_eq_some hstep
    exact ⟨fun _ => rfl, fun _ _ => ⟨rfl, rfl, rfl⟩⟩
  | call w =>
    obtain ⟨⟨s₁, tables⟩, hcall, heq⟩ := Option.map_eq_some_iff.mp h
    cases heq
    rw [call] at hcall
    split at hcall
    · cases hcall
    · next f funcs hfuncs =>
      obtain ⟨c, es, connBuckets, rfl⟩ := runFunctor_eq_some hcall
      exact ⟨fun _ => rfl, fun _ _ => ⟨rfl, rfl, rfl⟩⟩
  | exit => cases h

/-- What one step keeps of the connections that there were, and a new connection has, all have. -/
theorem Steps.forall_view {I : ConnView → Prop} {a : ServerAction} (hsteps : Steps cfg s a s')
    (hfresh : ∀ this connName lp stage, I (freshView this connName lp stage))
    (hstep : ∀ conn < s.count, ConnStep cfg (s.view conn) (s.event cfg conn a) (s'.view conn) →
      I (s'.view conn)) : ∀ conn < s'.count, I (s'.view conn) := by
  intro conn hconn
  have hold (hlt : conn < s.count) : I (s'.view conn) := hstep conn hlt (hsteps.view conn hlt)
  rcases hsteps.count with hcount | ⟨hcount, lp, stage, hnew⟩
  · exact hold (hcount ▸ hconn)
  · rcases Nat.lt_succ_iff_lt_or_eq.mp (hcount ▸ hconn) with hlt | rfl
    · exact hold hlt
    · rw [hnew]
      exact hfresh ..

/-- What every loop dispatches is alive, and between two iterations nothing is dispatched. -/
structure Dispatching (s : WebServer) : Prop where
  placed : s.Placed
  watches : ∀ conn < s.count, (s.view conn).Watches
  rest : ∀ w, (s.workers w).stage ≠ .events → (s.workers w).dispatched = []
  alive : ∀ w, ∀ conn ∈ (s.workers w).dispatched, (s.conns conn).Alive

/-- What is dispatched is on its loop. -/
theorem Placed.dispatched (h : s.Placed) {conn : Nat} (hmem : conn ∈ (s.workers w).dispatched) :
    s.Owns w conn := by
  simp only [WorkLoop.dispatched, List.mem_append, List.mem_map, Option.mem_toList] at hmem
  rcases hmem with (⟨e, he, rfl⟩ | ⟨e, he, rfl⟩) | ⟨m, hm, rfl⟩
  · exact (h.work w).active e he
  · exact (h.work w).callback e he
  · exact (h.work w).message m hm

theorem Dispatching.init (cfg : ServerConfig) : (WebServer.init cfg).Dispatching where
  placed := .init cfg
  watches := nofun
  rest _ _ := rfl
  alive := nofun

/-- Only the events of `poll` can be new, and `epoll` watches their sockets. -/
theorem Dispatching.poll (h : s.Dispatching) {events : List (Nat × EventMask)}
    (hpre : s.Pre cfg (.poll w events)) {conn : Nat}
    (hmem : conn ∈ ({ s.workers w with stage := .events, activeQueue := events } :
      WorkLoop).dispatched) : (s.conns conn).Alive := by
  obtain ⟨hstage, -, hevents⟩ := hpre
  have hnone := h.rest w (by rw [hstage]; nofun)
  simp only [WorkLoop.dispatched, List.append_eq_nil_iff] at hnone
  simp only [WorkLoop.dispatched, hnone.1.2, hnone.2, List.append_nil, List.mem_map] at hmem
  obtain ⟨e, he, rfl⟩ := hmem
  obtain ⟨hcount, -, interest, hinterest, -⟩ := hevents e he
  exact (h.watches e.1 hcount).alive (Option.ne_none_iff_exists'.mpr ⟨interest, hinterest⟩)

theorem Dispatching.step {a : ServerAction} {accesses : List Access} (h : s.Dispatching)
    (hpre : s.Pre cfg a) (hexec : s.exec cfg a = some (s', accesses)) : s'.Dispatching := by
  have hsteps := exec_steps h.placed hpre hexec
  have hwatches : ∀ conn < s'.count, (s'.view conn).Watches :=
    hsteps.forall_view ConnView.watches_fresh fun conn hconn => (h.watches conn hconn).step
  by_cases hpoll : ∀ w events, a ≠ .poll w events
  · have hcalms := exec_calms hpre hexec hpoll
    refine ⟨hsteps.placed, hwatches, fun w hne => ?_, fun w conn hconn => ?_⟩
    · rcases (hcalms w).rest hne with hold | hnone
      · rw [List.eq_nil_iff_forall_not_mem]
        intro conn hconn
        have hmem := (hcalms w).mem conn hconn
        rw [h.rest w hold] at hmem
        cases hmem
      · exact hnone
    · have hmem := (hcalms w).mem conn hconn
      obtain ⟨hcount, rfl⟩ := h.placed.dispatched hmem
      have hstage : (s.view conn).work.stage = .events := by
        by_contra hne
        rw [h.rest _ hne] at hmem
        cases hmem
      exact ConnView.alive_step (h.alive _ conn hmem) hstage (hsteps.view conn hcount)
  · push Not at hpoll
    obtain ⟨w, events, rfl⟩ := hpoll
    cases hexec
    refine ⟨hsteps.placed, hwatches, fun w' hne => ?_, fun w' conn hconn => ?_⟩
    · rcases eq_or_ne w' w with rfl | hother
      · rw [modifyWorker_workers] at hne
        exact absurd rfl hne
      · rw [modifyWorker_of_ne hother] at hne ⊢
        exact h.rest w' hne
    · rcases eq_or_ne w' w with rfl | hother
      · rw [modifyWorker_workers] at hconn
        exact h.poll hpre hconn
      · rw [modifyWorker_of_ne hother] at hconn
        exact h.alive w' conn hconn

/-- A callback is one of those that are dispatched. -/
theorem Dispatching.within (h : s.Dispatching) (a : ServerAction) (conn : Nat) :
    (s.view conn).Within (s.event cfg conn a) := by
  have hcause := s.event_causes cfg conn a
  cases hevent : s.event cfg conn a with
  | callback cb read fs =>
    rw [hevent] at hcause
    obtain ⟨w, write, -, hhead⟩ := hcause
    apply h.alive w
    refine List.mem_append_left _ (List.mem_append_right _ ?_)
    exact List.mem_map_of_mem (f := Prod.fst) (List.mem_of_mem_head? hhead)
  | _ => trivial

theorem dispatching_of_reachable (h : (webServer cfg).Reachable (.init cfg) s) :
    s.Dispatching := by
  induction h with
  | start => exact .init cfg
  | step _ hpre hexec ih => exact ih.step hpre hexec

end WebServer
end Httpancake
