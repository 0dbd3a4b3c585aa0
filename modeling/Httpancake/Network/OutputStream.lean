import Httpancake.Network.ConnSystem

/-! # The output stream

What was written to the socket and what waits in `outputBuffer_` are together the messages whose
`sendInLoop` has run, whole and in that order; the messages of each thread run in the order in
which it sent them. `ConnSystem.Inv` carries this through every step, with one lemma for each kind
of step; `Inv.step` also says when a step ends the process. -/

namespace Httpancake.ConnSystem

open TcpConnection

/-- The messages of one thread. -/
def saidBy (sender : Option Nat) (msgs : List (Option Nat × Bytes)) : List Bytes :=
  (msgs.filter (·.1 = sender)).map Prod.snd

@[simp] theorem saidBy_nil (sender : Option Nat) : saidBy sender [] = [] := rfl

@[simp] theorem saidBy_append (sender : Option Nat) (l l' : List (Option Nat × Bytes)) :
    saidBy sender (l ++ l') = saidBy sender l ++ saidBy sender l' := by
  simp [saidBy]

theorem saidBy_singleton (sender thread : Option Nat) (msg : Bytes) :
    saidBy sender [(thread, msg)] = if thread = sender then [msg] else [] := by
  unfold saidBy
  split <;> simp_all

/-- The messages in a queue of functors. -/
def queuedMessages (funcs : List InLoopFunction) : List (Option Nat × Bytes) :=
  funcs.filterMap fun
    | .sendInLoop sender msg => some (some sender, msg)
    | _ => none

@[simp] theorem queuedMessages_append (l l' : List InLoopFunction) :
    queuedMessages (l ++ l') = queuedMessages l ++ queuedMessages l' := List.filterMap_append

theorem queuedMessages_queued (effects : List ConnEffect) :
    queuedMessages (effects.filterMap queued) = [] := by
  induction effects with
  | nil => rfl
  | cons e effects ih => cases e <;> simpa [queuedMessages, queued] using ih

/-- The message that a call is about to queue. -/
def Call.message : Option Call → List Bytes
  | some (.queueSend msg) => [msg]
  | _ => []

/-- What a thread has sent and `sendInLoop` has not seen. -/
def waiting (s : ConnSystem) : Option Nat → List Bytes
  | none => []
  | some thread =>
    saidBy (some thread) (queuedMessages (s.funcs ++ s.pendingFuncs)) ++
      Call.message (s.calls thread)

/-- The connection is being removed. -/
def Closed (s : ConnSystem) : Prop := .closeCb ∈ s.log ∨ s.destroyed = true

structure Inv (s : ConnSystem) (q : Bytes) : Prop where
  sound : s.conn.Sound q
  stream : written s.log ++ q = (s.ran.map Prod.snd).flatten
  order : ∀ sender, saidBy sender s.sent = saidBy sender s.ran ++ s.waiting sender
  needed : s.conn.Needed q
  flushing : ¬ s.Closed → s.conn.Flushing q
  history : s.conn.state = .connected ↔ s.shutdownTaken = false ∧ s.destroyed = false

variable {s s' : ConnSystem} {q q' : Bytes} {c : TcpConnection} {es : List ConnEffect}

theorem waiting_after (sender : Option Nat) : (s.after c es).waiting sender = s.waiting sender := by
  cases sender with
  | none => rfl
  | some thread => simp [waiting, after, queuedMessages_queued]

theorem waiting_queueInLoop (f : InLoopFunction) (thread : Nat) :
    (s.queueInLoop f).waiting (some thread) =
      saidBy (some thread) (queuedMessages (s.funcs ++ s.pendingFuncs)) ++
        saidBy (some thread) (queuedMessages [f]) ++ Call.message (s.calls thread) := by
  simp [waiting, queueInLoop, List.append_assoc]

namespace Inv

theorem init (this : Nat) (writeCb : Bool) : (init this writeCb).Inv [] where
  sound := ⟨⟨rfl, rfl⟩, .fresh, ⟨[], .fresh⟩⟩
  stream := rfl
  order sender := by cases sender <;> rfl
  needed := by
    simp [Needed, isWriting, Handler.isWriting, ConnSystem.init, established, EventMask.readEvent]
  flushing _ h := absurd rfl h
  history := ⟨fun _ => ⟨rfl, rfl⟩, fun _ => rfl⟩

/-- A step that touches neither the connection nor the messages. -/
theorem of_eq (h : s.Inv q) (hconn : s'.conn = s.conn) (hlog : s'.log = s.log)
    (hsent : s'.sent = s.sent) (hran : s'.ran = s.ran) (htaken : s'.shutdownTaken = s.shutdownTaken)
    (hdestroyed : s'.destroyed = s.destroyed) (hwaiting : ∀ t, s'.waiting t = s.waiting t) :
    s'.Inv q where
  sound := hconn ▸ h.sound
  stream := by rw [hlog, hran, h.stream]
  order t := by rw [hsent, hran, hwaiting, h.order]
  needed := hconn ▸ h.needed
  flushing hopen := by
    rw [hconn]
    exact h.flushing fun hclosed => hopen (by rwa [Closed, hlog, hdestroyed])
  history := by
    rw [htaken, hdestroyed, hconn]
    exact h.history

/-- A function that leaves the state and moves bytes from the buffer to the socket. -/
theorem after (h : s.Inv q) (hc : c.Sound q') (hstream : written es ++ q' = q)
    (hneeded : c.Needed q')
    (hflush : .closeCb ∉ es → ¬ s.Closed → c.Flushing q') (hstate : c.state = s.conn.state) :
    (s.after c es).Inv q' where
  sound := hc
  stream := by rw [ConnSystem.after, written_append, List.append_assoc, hstream, h.stream]
  order t := by rw [waiting_after]; exact h.order t
  needed := hneeded
  flushing hopen := hflush (fun hmem => hopen (.inl (List.mem_append_right _ hmem)))
    fun hclosed => hopen (hclosed.imp_left (List.mem_append_left _))
  history := by
    rw [ConnSystem.after, hstate]
    exact h.history

/-- Running `sendInLoop` for a message of `sender`. -/
theorem sendInLoop (h : s.Inv q) (sender : Option Nat) (msg : Bytes) (write : Option Nat) :
    ∃ c es q', s.conn.sendInLoop msg write = some (c, es) ∧ ∀ s' : ConnSystem, s'.conn = c →
      s'.log = s.log ++ es → s'.ran = s.ran ++ [(sender, msg)] →
      s'.shutdownTaken = s.shutdownTaken → s'.destroyed = s.destroyed →
      (∀ t, saidBy t s'.sent = saidBy t s'.ran ++ s'.waiting t) → s'.Inv q' := by
  obtain ⟨c, es, q', hsend, hc, hkeeps, hstream, hneeded, hflush⟩ := h.sound.sendInLoop msg write
  refine ⟨c, es, q', hsend, fun s' hconn hlog hran htaken hdestroyed horder => ?_⟩
  constructor
  · exact hconn ▸ hc
  · rw [hlog, hran, written_append, List.append_assoc, hstream, ← List.append_assoc, h.stream]
    simp
  · exact horder
  · exact hconn ▸ hneeded h.needed
  · intro hopen
    refine hconn ▸ hflush (h.flushing fun hclosed => hopen ?_)
    rw [Closed, hlog, hdestroyed]
    exact hclosed.imp_left (List.mem_append_left _)
  · rw [htaken, hdestroyed, hconn, hkeeps.state]
    exact h.history

theorem needed_of_no_events (hev : c.handler.events = .none) : c.Needed q := by
  simp [Needed, isWriting, Handler.isWriting, hev, EventMask.none]

theorem handleClose (h : s.Inv q) (hstate : s.conn.state = .connected) :
    ∃ c, s.conn.handleClose = some (c, [.closeCb]) ∧ (s.after c [.closeCb]).Inv q := by
  obtain ⟨c, hclose, hc, hev, -, hstate'⟩ := h.sound.handleClose hstate
  exact ⟨c, hclose, h.after hc rfl (needed_of_no_events hev)
    (fun hmem => absurd (List.mem_singleton_self _) hmem)
    (hstate'.trans hstate.symm)⟩

/-- A call of another thread: its messages count as sent, and wait. -/
theorem call (h : s.Inv q) (thread : Nat) (api : Api) (hfree : s.calls thread = none) :
    (s.call thread api).Inv q := by
  unfold ConnSystem.call
  split
  · constructor
    · exact h.sound
    · exact h.stream
    · intro sender
      have horder := h.order sender
      cases sender with
      | none => cases api <;> simpa [messageOf, waiting, setCall, saidBy_singleton] using horder
      | some t =>
        simp only [saidBy_append, horder, waiting, setCall, Function.update_apply]
        by_cases ht : t = thread
        · subst ht
          rw [hfree]
          cases api <;> simp [messageOf, Call.message, Api.enter, saidBy_singleton]
        · have ht' : thread ≠ t := fun heq => ht heq.symm
          cases api <;> simp [messageOf, ht, ht', saidBy_singleton]
    · exact h.needed
    · exact h.flushing
    · exact h.history
  · exact h

/-- A call that queues its message leaves it waiting. -/
theorem waiting_queue_call {thread : Nat} {call : Call} {f : InLoopFunction}
    (hcall : s.calls thread = some call)
    (hf : queuedMessages [f] = (Call.message (some call)).map (some thread, ·))
    (sender : Option Nat) :
    ((s.setCall thread none).queueInLoop f).waiting sender = s.waiting sender := by
  cases sender with
  | none => rfl
  | some t =>
    have hsaid : saidBy (some t) ((Call.message (some call)).map (some thread, ·)) =
        if thread = t then Call.message (some call) else [] := by
      cases call <;> simp [Call.message, saidBy_singleton]
    rw [waiting_queueInLoop, hf, hsaid]
    by_cases ht : thread = t
    · subst ht
      simp [setCall, waiting, hcall, Call.message]
    · have ht' : t ≠ thread := fun heq => ht heq.symm
      simp [setCall, waiting, Function.update_of_ne ht', ht]

/-- Its next step queues what it was about to queue. -/
theorem advance (h : s.Inv q) {thread : Nat} {call : Call} (hcall : s.calls thread = some call) :
    (s.advance thread call).Inv q := by
  cases call with
  | queueSend msg | queueShutdown | queueClose =>
    exact h.of_eq rfl rfl rfl rfl rfl rfl (waiting_queue_call hcall rfl)
  | setDisconnecting =>
    constructor
    · exact ⟨h.sound.agrees, h.sound.output, h.sound.input⟩
    · exact h.stream
    · intro sender
      rw [ConnSystem.advance]
      have horder := h.order sender
      cases sender with
      | none => exact horder
      | some t =>
        by_cases ht : t = thread
        · subst ht
          simpa [waiting, setCall, hcall, Call.message] using horder
        · simpa [waiting, setCall, Function.update_of_ne ht] using horder
    · exact h.needed
    · exact h.flushing
    · exact iff_of_false ConnState.noConfusion fun h => Bool.noConfusion h.1

theorem shutdownInLoop (h : s.Inv q) :
    (s.after s.conn s.conn.shutdownInLoop).Inv q := by
  refine h.after h.sound ?_ h.needed (fun _ hopen => h.flushing hopen) rfl
  rw [written_shutdownInLoop, List.nil_append]

/-- A call on the loop thread runs its function at once. -/
theorem loopCall (h : s.Inv q) (api : Api) (write : Option Nat) :
    ∃ s' q', s.loopCall write api = some s' ∧ s'.Inv q' := by
  by_cases hstate : s.conn.state = .connected
  · cases api with
    | send msg =>
      obtain ⟨c, es, q', hsend, hinv⟩ := h.sendInLoop none msg write
      have hexec : s.loopCall write (.send msg) = some { s.after c es with
          sent := s.sent ++ [(none, msg)]
          ran := s.ran ++ [(none, msg)] } := by
        simp [ConnSystem.loopCall, send, hstate, hsend]
      refine ⟨_, q', hexec, hinv _ rfl rfl rfl rfl rfl fun sender => ?_⟩
      have horder := h.order sender
      rw [← @waiting_after s c es sender] at horder
      cases sender with
      | none => simpa [waiting, saidBy_singleton] using horder
      | some t => simpa [waiting, saidBy_singleton] using horder
    | shutdown =>
      have hexec : s.loopCall write .shutdown = some { s.after
          { s.conn with state := .disconnecting } s.conn.shutdownInLoop with
          shutdownTaken := true } := by
        simp [ConnSystem.loopCall, shutdown, hstate]
      refine ⟨_, q, hexec, ?_⟩
      have hs := h.shutdownInLoop
      exact ⟨⟨hs.sound.agrees, hs.sound.output, hs.sound.input⟩, hs.stream, hs.order, hs.needed,
        hs.flushing, iff_of_false ConnState.noConfusion fun h => Bool.noConfusion h.1⟩
    | forceClose =>
      obtain ⟨c, hclose, hc⟩ := h.handleClose hstate
      exact ⟨_, q, by simp [ConnSystem.loopCall, forceClose, hstate, hclose], hc⟩
  · refine ⟨s.after s.conn [], q, ?_,
      h.after h.sound rfl h.needed (fun _ hopen => h.flushing hopen) rfl⟩
    cases api <;> simp [ConnSystem.loopCall, send, shutdown, forceClose, hstate]

/-- A queued functor: `handleClose` needs the state to be `CONNECTED`. -/
theorem runFunctor {f : InLoopFunction} {funcs : List InLoopFunction} (h : s.Inv q)
    (hfuncs : s.funcs = f :: funcs) (write : Option Nat)
    (hclose : f = .handleClose → s.conn.state = .connected) :
    ∃ s' q', { s with funcs := funcs }.runFunctor write f = some s' ∧ s'.Inv q' := by
  -- the functor leaves the queue
  have hpop : ∀ t, s.waiting t =
      saidBy t (queuedMessages [f]) ++ { s with funcs := funcs }.waiting t := by
    intro t
    cases t with
    | none => cases f <;> simp [waiting, queuedMessages, saidBy_singleton]
    | some t =>
      rw [waiting, waiting, hfuncs, ← List.singleton_append, List.append_assoc,
        queuedMessages_append, saidBy_append, List.append_assoc]
  have hrest : queuedMessages [f] = [] → { s with funcs := funcs }.Inv q := by
    intro hnone
    exact h.of_eq rfl rfl rfl rfl rfl rfl fun t => by rw [hpop t, hnone]; rfl
  cases f with
  | sendInLoop sender msg =>
    obtain ⟨c, es, q', hsend, hinv⟩ := h.sendInLoop (some sender) msg write
    have hexec : { s with funcs := funcs }.runFunctor write (.sendInLoop sender msg) =
        some { { s with funcs := funcs }.after c es with
          ran := s.ran ++ [(some sender, msg)] } := by
      simp [ConnSystem.runFunctor, hsend]
    refine ⟨_, q', hexec, hinv _ rfl rfl rfl rfl rfl fun t => ?_⟩
    have horder := h.order t
    rw [hpop t, ← @waiting_after { s with funcs := funcs } c es t] at horder
    rw [saidBy_append, List.append_assoc]
    exact horder
  | shutdownInLoop => exact ⟨_, q, rfl, (hrest rfl).shutdownInLoop⟩
  | handleClose =>
    obtain ⟨c, hclose, hc⟩ := (hrest rfl).handleClose (hclose rfl)
    exact ⟨_, q, by simp [ConnSystem.runFunctor, hclose], hc⟩
  | writeComplete => exact ⟨_, q, rfl, hrest rfl⟩
  | connectDestroyed =>
    obtain ⟨c, hdes, hc, hstate, -, hev⟩ := h.sound.connectDestroyed
    have hexec : { s with funcs := funcs }.runFunctor write .connectDestroyed =
        some { { s with funcs := funcs }.after c [.connCb] with destroyed := true } := by
      simp [ConnSystem.runFunctor, hdes]
    refine ⟨_, q, hexec, ?_⟩
    constructor
    · exact hc
    · simpa [ConnSystem.after, written] using h.stream
    · intro t
      have horder := (hrest rfl).order t
      rw [← @waiting_after { s with funcs := funcs } c [.connCb] t] at horder
      exact horder
    · exact needed_of_no_events hev
    · exact fun hopen => absurd (.inr rfl) hopen
    · exact iff_of_false (by simp [ConnSystem.after, hstate]) fun h => Bool.noConfusion h.2

/-- A callback of the handler. -/
theorem callback {cb : EventCallback} (h : s.Inv q) (read : Option Bytes) {write : Option Nat}
    (hwrite : WriteOk s.conn.outputBuffer.readableBytes write)
    (hclose : cb = .closeCb ∨ cb = .readCb ∧ read = some [] → s.conn.state = .connected) :
    ∃ c es q', s.conn.callback read write cb = some (c, es) ∧ (s.after c es).Inv q' := by
  cases cb with
  | closeCb =>
    obtain ⟨c, hc, hinv⟩ := h.handleClose (hclose (.inl rfl))
    exact ⟨c, _, q, hc, hinv⟩
  | errorCb =>
    exact ⟨s.conn, [], q, rfl, h.after h.sound rfl h.needed (fun _ hopen => h.flushing hopen) rfl⟩
  | readCb =>
    match read, hclose with
    | none, _ =>
      exact ⟨s.conn, [], q, handleRead_error s.conn,
        h.after h.sound rfl h.needed (fun _ hopen => h.flushing hopen) rfl⟩
    | some [], hclose =>
      obtain ⟨b, hread, hb⟩ := h.sound.handleRead_eof
      obtain ⟨c, hc, hsound, hev, -, hstate⟩ := hb.handleClose (hclose (.inr ⟨rfl, rfl⟩))
      refine ⟨c, [.closeCb], q, hread.trans hc,
        h.after hsound rfl (needed_of_no_events hev) ?_ ?_⟩
      · exact fun hmem => absurd (List.mem_singleton_self _) hmem
      · exact hstate.trans (hclose (.inr ⟨rfl, rfl⟩)).symm
    | some (x :: data), _ =>
      obtain ⟨b, hread, -, hb⟩ := h.sound.handleRead_data (List.cons_ne_nil x data)
      exact ⟨_, _, q, hread, h.after hb rfl h.needed (fun _ hopen => h.flushing hopen) rfl⟩
  | writeCb =>
    rw [h.sound.output.readableBytes_eq] at hwrite
    obtain ⟨c, es, q', hw, hc, hkeeps, hstream, hneeded, hflush⟩ := h.sound.handleWrite hwrite
    refine ⟨c, es, q', hw, h.after hc hstream (hneeded h.needed) (fun _ hopen => ?_) hkeeps.state⟩
    exact hflush (h.flushing hopen)

/-- Every step succeeds that does not run `handleClose` in another state than `CONNECTED`. -/
theorem step (h : s.Inv q) {a : ConnAction} (hpre : Pre s a)
    (hclose : s.EntersHandleClose a → s.conn.state = .connected) :
    ∃ s' q', s.exec a = some s' ∧ s'.Inv q' := by
  cases a with
  | call thread api => exact ⟨_, q, rfl, h.call thread api hpre⟩
  | advance thread =>
    cases hcall : s.calls thread with
    | none => exact absurd hcall hpre
    | some call => exact ⟨_, q, by simp [exec, hcall], h.advance hcall⟩
  | loopCall api write => exact h.loopCall api write
  | poll revents => exact ⟨_, q, rfl, h.of_eq rfl rfl rfl rfl rfl rfl fun t => by cases t <;> rfl⟩
  | dispatch =>
    cases hactive : s.active with
    | none => exact absurd hactive hpre.1
    | some revents =>
      refine ⟨_, q, by simp [exec, hactive]; rfl, ?_⟩
      exact h.of_eq rfl rfl rfl rfl rfl rfl fun t => by cases t <;> rfl
  | callback read write =>
    obtain ⟨hne, hwrite⟩ := hpre
    cases hcbs : s.callbacks with
    | nil => exact absurd hcbs hne
    | cons cb callbacks =>
      simp only [EntersHandleClose, hcbs, List.head?_cons, Option.some.injEq] at hclose
      obtain ⟨c, es, q', hcb, hinv⟩ := h.callback read hwrite hclose
      have hexec : s.exec (.callback read write) =
          some { s.after c es with callbacks := callbacks } := by
        simp [exec, hcbs, hcb]
      refine ⟨_, q', hexec, hinv.of_eq rfl rfl rfl rfl rfl rfl fun t => ?_⟩
      cases t <;> rfl
  | swap =>
    refine ⟨_, q, rfl, h.of_eq rfl rfl rfl rfl rfl rfl fun t => ?_⟩
    cases t with
    | none => rfl
    | some t => simp [waiting, hpre.2]
  | runFunctor write =>
    obtain ⟨-, hne, -⟩ := hpre
    cases hfuncs : s.funcs with
    | nil => exact absurd hfuncs hne
    | cons f funcs =>
      simp only [EntersHandleClose, hfuncs, List.head?_cons, Option.some.injEq] at hclose
      obtain ⟨s', q', hrun, hs'⟩ := h.runFunctor hfuncs write hclose
      exact ⟨s', q', by simp [exec, hfuncs, hrun], hs'⟩
  | remove =>
    refine ⟨_, q, rfl, h.of_eq rfl rfl rfl rfl rfl rfl fun t => ?_⟩
    cases t with
    | none => rfl
    | some t => simp [waiting, queueInLoop, queuedMessages]

/-- The other steps end the process. -/
theorem exec_eq_none (h : s.Inv q) {a : ConnAction} (henters : s.EntersHandleClose a)
    (hstate : s.conn.state ≠ .connected) : s.exec a = none := by
  cases a with
  | callback read write =>
    cases hcbs : s.callbacks with
    | nil => simp [EntersHandleClose, hcbs] at henters
    | cons cb callbacks =>
      simp only [EntersHandleClose, hcbs, List.head?_cons, Option.some.injEq] at henters
      rcases henters with rfl | ⟨rfl, rfl⟩
      · simp [exec, hcbs, TcpConnection.callback, handleClose_eq_none hstate]
      · obtain ⟨b, hread, -⟩ := h.sound.handleRead_eof
        have hnone : { s.conn with inputBuffer := b }.handleClose = none :=
          handleClose_eq_none hstate
        simp [exec, hcbs, TcpConnection.callback, hread, hnone]
  | runFunctor write =>
    cases hfuncs : s.funcs with
    | nil => simp [EntersHandleClose, hfuncs] at henters
    | cons f funcs =>
      simp only [EntersHandleClose, hfuncs, List.head?_cons, Option.some.injEq] at henters
      subst henters
      simp [exec, hfuncs, ConnSystem.runFunctor, handleClose_eq_none hstate]
  | loopCall api write =>
    cases api with
    | forceClose => exact absurd henters hstate
    | send msg | shutdown => exact henters.elim
  | call | advance | poll | dispatch | swap | remove => exact henters.elim

end Inv

theorem preserves : program.Preserves fun s => ∃ q, s.Inv q := by
  rintro s a s' o ⟨q, hs⟩ hpre hexec
  by_cases hclose : s.EntersHandleClose a → s.conn.state = .connected
  · obtain ⟨s₁, q', hstep, hs'⟩ := hs.step hpre hclose
    simp only [program, hstep, Option.map_some, Option.some.injEq, Prod.mk.injEq] at hexec
    exact ⟨q', hexec.1 ▸ hs'⟩
  · obtain ⟨henters, hstate⟩ := Classical.not_imp.mp hclose
    simp [program, hs.exec_eq_none henters hstate] at hexec

/-- **Output stream integrity.** In every state of every run, the bytes written and the bytes
waiting are the messages whose `sendInLoop` has run, in that order; each thread's messages run in
the order in which it sent them, and those that have not run wait; and while the connection is not
being removed, bytes are waiting exactly when the socket is watched for writing. -/
theorem output_stream_integrity {this : Nat} {writeCb : Bool} {s : ConnSystem}
    (h : program.Reachable (.init this writeCb) s) :
    written s.log ++ s.conn.outputBuffer.content = (s.ran.map Prod.snd).flatten ∧
      (∀ sender, saidBy sender s.sent = saidBy sender s.ran ++ s.waiting sender) ∧
      (¬ s.Closed → (s.conn.outputBuffer.content ≠ [] ↔ s.conn.isWriting)) := by
  obtain ⟨q, hs⟩ := h.invariant preserves ⟨[], Inv.init this writeCb⟩
  rw [hs.sound.output.content_eq]
  exact ⟨hs.stream, hs.order, fun hopen => ⟨hs.flushing hopen, hs.needed⟩⟩

/-- Thread 7 sends a message while the loop thread has written a part of another. -/
theorem output_stream_integrity_partial :
    ∃ s : ConnSystem, s.ran = [(none, [1, 2]), (some 7, [3])] ∧
      written s.log ++ s.conn.outputBuffer.content = (s.ran.map Prod.snd).flatten ∧
      (∀ sender, saidBy sender s.sent = saidBy sender s.ran ++ s.waiting sender) ∧
      (¬ s.Closed → (s.conn.outputBuffer.content ≠ [] ↔ s.conn.isWriting)) := by
  have hsend := (Program.Reachable.start : program.Reachable (init 0 false) _).next
    (.loopCall (.send [1, 2]) (some 1)) (fun n hn => by cases hn; decide) exec_partlySent
  have hcall := hsend.next (.call 7 (.send [3])) rfl rfl
  have hqueue := hcall.next (.advance 7) nofun rfl
  have hswap := hqueue.next .swap ⟨⟨rfl, rfl⟩, rfl⟩ rfl
  have happend : (waitingConn [2]).sendInLoop [3] none = some (waitingConn [2, 3], []) := by
    decide +kernel
  have hrun := hswap.next (.runFunctor none) ⟨⟨rfl, rfl⟩, nofun, fun _ _ _ => nofun⟩
    (exec_sendInLoop rfl happend)
  exact ⟨_, rfl, output_stream_integrity hrun⟩

end Httpancake.ConnSystem
