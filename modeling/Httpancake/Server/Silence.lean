import Httpancake.Server.Removal
import Mathlib.Data.List.TakeWhile

/-! # When a closed connection is silent

`handleClose` stops all watching of the socket but leaves `state_` at `CONNECTED`, in which `send`
and `forceClose` go on as before. A closed connection is silent (`ConnView.Silent`) when the call
of `onMessage` that closes it has nothing left to read, and when the rest of the dispatch that
closes it brings no bytes. -/

namespace Httpancake

open Bytes TcpConnection

/-- Neither bytes for the socket nor a call of `messageCb_`. -/
def ConnEffect.Silent : ConnEffect → Prop
  | .write _ | .messageCb => False
  | .queueWriteCb | .shutdownWrite | .closeCb | .connCb => True

/-- What a connection asks for from its first close on. -/
def afterClose (log : List ConnEffect) : List ConnEffect := log.dropWhile (· ≠ .closeCb)

theorem afterClose_of_not_mem {log : List ConnEffect} (h : .closeCb ∉ log) :
    afterClose log = [] := by
  rw [afterClose, List.dropWhile_eq_nil_iff]
  intro e he
  simpa using ne_of_mem_of_not_mem he h

theorem afterClose_append {log : List ConnEffect} (h : .closeCb ∈ log) (es : List ConnEffect) :
    afterClose (log ++ es) = afterClose log ++ es := by
  induction log with
  | nil => cases h
  | cons e log ih =>
    rcases eq_or_ne e .closeCb with rfl | hne
    · simp [afterClose]
    · have hmem : .closeCb ∈ log := (List.mem_cons.mp h).resolve_left hne.symm
      have hskip (l : List ConnEffect) : afterClose (e :: l) = afterClose l := by
        rw [afterClose, List.dropWhile_cons_of_pos (by simpa using hne)]
        rfl
      rw [List.cons_append, hskip, hskip, ih hmem]

theorem afterClose_append_of_not_mem {log : List ConnEffect} (h : .closeCb ∉ log)
    (es : List ConnEffect) : afterClose (log ++ es) = afterClose es := by
  rw [afterClose, List.dropWhile_append_of_pos]
  · rfl
  · intro e he
    simpa using ne_of_mem_of_not_mem he h

namespace ConnView

/-- Once closed, a connection is silent, watches nothing and runs no `onMessage`. -/
structure Silent (v : ConnView) : Prop where
  silent : ∀ e ∈ afterClose v.conn.log, e.Silent
  closed : .closeCb ∈ v.conn.log → v.conn.tcp.handler.events = .none ∧
    v.conn.tcp.state ≠ .connecting ∧ v.work.message = none

variable {cfg : ServerConfig} {v v' : ConnView}

theorem silent_fresh (this : Nat) (connName : Bytes) (lp : Nat) (stage : LoopStage) :
    (WebServer.freshView this connName lp stage).Silent := ⟨nofun, nofun⟩

namespace Silent

/-- A step that closes nothing, and is silent if the connection is closed. -/
theorem of_after (h : v.Silent) {es : List ConnEffect} (hlog : v'.conn.log = v.conn.log ++ es)
    (hquiet : .closeCb ∉ es)
    (hclosed : .closeCb ∈ v.conn.log → (∀ e ∈ es, e.Silent) ∧
      v'.conn.tcp.handler.events = .none ∧ v'.conn.tcp.state ≠ .connecting ∧
      v'.work.message = none) : v'.Silent := by
  have hmem (hc : .closeCb ∈ v'.conn.log) : .closeCb ∈ v.conn.log := by
    rw [hlog] at hc
    exact (List.mem_append.mp hc).resolve_right hquiet
  refine ⟨fun e he => ?_, fun hc => (hclosed (hmem hc)).2⟩
  by_cases hc : .closeCb ∈ v.conn.log
  · rw [hlog, afterClose_append hc] at he
    exact (List.mem_append.mp he).elim (h.silent e) ((hclosed hc).1 e)
  · rw [afterClose_of_not_mem fun hc' => hc (hmem hc')] at he
    cases he

/-- A step that leaves the connection to itself. -/
theorem of_conn (h : v.Silent) (hconn : v'.conn = v.conn)
    (hmessage : v'.work.message = v.work.message) : v'.Silent := by
  obtain ⟨hsilent, hclosed⟩ := h
  rw [← hconn] at hsilent hclosed
  rw [← hmessage] at hclosed
  exact ⟨hsilent, hclosed⟩

/-- A step that closes, after which no `onMessage` is running. -/
theorem of_closes (h : v.Silent) {c tcp : TcpConnection} {es : List ConnEffect}
    (hcloses : c.Closes tcp es) (hlog : v'.conn.log = v.conn.log ++ es) (htcp : v'.conn.tcp = tcp)
    (hmessage : v'.work.message = none) : v'.Silent := by
  refine ⟨fun e he => ?_, fun _ => ?_⟩
  · rw [hlog, hcloses.effects] at he
    by_cases hc : .closeCb ∈ v.conn.log
    · rw [afterClose_append hc] at he
      apply (List.mem_append.mp he).elim (h.silent e)
      intro hlast
      rw [List.mem_singleton.mp hlast]
      trivial
    · rw [afterClose_append_of_not_mem hc] at he
      rw [List.mem_singleton.mp he]
      trivial
  · rw [htcp, hcloses.state]
    exact ⟨hcloses.events, nofun, hmessage⟩

end Silent

/-- Nothing is left behind a close. -/
def EndsWithClose (v : ConnView) : ConnEvent → Prop
  | .callback cb read _ => cb = .readCb → .closeCb ∈ v.conn.log → ∀ data ∈ read, data = []
  | .message => ∀ m ∈ v.work.message, m.pc = .finish → v.conn.http.keepAlive = false →
      v.conn.tcp.state = .connected → v.conn.tcp.inputBuffer.readableBytes = 0
  | _ => True

namespace Silent

theorem callback (h : v.Silent) {cb : EventCallback} {read : Option Bytes}
    (hends : cb = .readCb → .closeCb ∈ v.conn.log → ∀ data ∈ read, data = [])
    (hnone : v.work.message = none)
    (hcall : v.conn.tcp.callback read write cb = some (tcp, es)) :
    (v.after (v.conn.after tcp es) es).Silent := by
  cases callback_outcome hcall with
  | close hcloses | endOfStream hread hcloses => exact h.of_closes hcloses rfl rfl hnone
  | message hread hconn hes =>
    rw [hconn, hes]
    exact h.of_after rfl (by simp) fun hc => absurd (hends rfl hc _ rfl) (List.cons_ne_nil _ _)
  | quiet hwrites hidle =>
    refine h.of_after rfl hwrites.quiet.1 fun hc => ?_
    have hwriting : v.conn.tcp.isWriting = false := by
      rw [isWriting, Handler.isWriting, (h.closed hc).1]
      rfl
    obtain ⟨rfl, rfl⟩ := hidle hwriting
    exact ⟨List.forall_mem_nil _, h.closed hc⟩

/-- `onMessage` runs on an open connection, and closes it where it returns. -/
theorem message (h : v.Silent) {m : Message} {write : Option Nat}
    (hends : v.EndsWithClose .message) (hm : v.work.message = some m)
    (hstep : OnMessage.step (v.conn.env cfg m) (v.conn.frame m) = (frame, effects))
    (hperform : (v.conn.ofFrame frame).tcp.perform write effects = some (tcp, es)) :
    ((v.after ((v.conn.ofFrame frame).after tcp es) es).setWork
      { v.work with
        message :=
          if frame.pc = .returned then none
          else some { m with pc := frame.pc, fsCalls := frame.fsCalls } }).Silent := by
  by_cases hquiet : .closeCb ∈ es
  · have hcount := List.count_pos_iff.mpr hquiet
    rw [ServerConn.count_perform hperform] at hcount
    have hstate : v.conn.tcp.state = .connected := by
      by_contra hne
      rw [if_neg hne] at hcount
      cases hcount
    rw [if_pos hstate] at hcount
    have hpos : closes (OnMessage.step (v.conn.env cfg m) (v.conn.frame m)).2 ≠ 0 := by
      rw [hstep]
      exact hcount.ne'
    obtain ⟨hpc, hkeep⟩ : m.pc = .finish ∧ v.conn.http.keepAlive = false :=
      OnMessage.step_closes hpos
    -- the step is the end of an iteration, and there is no next one
    have hempty : (v.conn.frame m).inBuffer.readableBytes = 0 := hends m hm hpc hkeep hstate
    have hfinish : OnMessage.step (v.conn.env cfg m) (v.conn.frame m) =
        OnMessage.finish (v.conn.env cfg m) (v.conn.frame m) := by
      rw [OnMessage.step, show (v.conn.frame m).pc = .finish from hpc]
    rw [hstep, OnMessage.finish, if_neg (not_not.mpr hempty)] at hfinish
    obtain ⟨hframe, heffects⟩ := Prod.mk.inj hfinish
    have hreturned : frame.pc = .returned := congrArg OnMessage.pc hframe
    rw [heffects] at hperform
    exact h.of_closes (perform_finishEffects hperform hkeep hstate) rfl rfl (if_pos hreturned)
  · refine h.of_after rfl hquiet fun hc => ?_
    rw [(h.closed hc).2.2] at hm
    cases hm

end Silent

/-- **The step lemma.** -/
theorem Silent.step {e : ConnEvent} (h : v.Silent) (hends : v.EndsWithClose e)
    (hstep : ConnStep cfg v e v') : v'.Silent := by
  cases hstep with
  | idle => exact h
  | rename | erase | lock | test | queueShutdown | release | remove | baseEnd | poll | dispatch
  | swap | endBatch => exact h.of_conn rfl rfl
  | setDisconnecting =>
    refine h.of_after (List.append_nil _).symm nofun fun hc => ⟨nofun, ?_⟩
    exact ⟨(h.closed hc).1, nofun, (h.closed hc).2.2⟩
  | callback hstage hnone hcall hmem => exact h.callback hends hnone hcall
  | enterMessage hstage hnone hcall hmem =>
    obtain ⟨rfl, x, data, b, rfl, -, rfl, rfl⟩ := callback_messageCb hcall hmem
    exact h.of_after rfl (by simp) fun hc => absurd (hends rfl hc _ rfl) (List.cons_ne_nil _ _)
  | message hm hstep hpc hperform => exact h.message hends hm hstep hperform
  | established context hfuncs hstage hcall =>
    obtain ⟨hconnecting, -, -, rfl⟩ := connectEstablished_spec hcall
    exact h.of_after rfl (by simp) fun hc => absurd hconnecting (h.closed hc).2.1
  | destroyed context hfuncs hstage hcall =>
    obtain ⟨hstate, -, hevents, -, rfl⟩ := connectDestroyed_spec hcall
    refine h.of_after rfl (by simp) fun hc => ⟨by simp [ConnEffect.Silent], hevents, ?_⟩
    exact ⟨fun hconn => (nomatch hstate.symm.trans hconn), (h.closed hc).2.2⟩
  | shutdownInLoop hfuncs hstage =>
    refine h.of_after rfl (shutdownInLoop_quiet _).1 fun hc => ⟨?_, h.closed hc⟩
    unfold TcpConnection.shutdownInLoop
    split <;> simp [ConnEffect.Silent]

end ConnView

namespace WebServer
variable {cfg : ServerConfig} {s : WebServer}

/-- A dispatch brings no bytes to a connection that it has closed, and a call of `onMessage` that
closes its connection has nothing left to read. -/
def EndsWithClose (s : WebServer) : ServerAction → Prop
  | .callback w read _ _ => ∀ e ∈ (s.workers w).callbacks.head?, e.2 = .readCb →
      .closeCb ∈ (s.conns e.1).log → ∀ data ∈ read, data = []
  | .onMessage w _ => ∀ m ∈ (s.workers w).message, m.pc = .finish →
      (s.conns m.conn).http.keepAlive = false → (s.conns m.conn).tcp.state = .connected →
        (s.conns m.conn).tcp.inputBuffer.readableBytes = 0
  | _ => True

instance (s : WebServer) (a : ServerAction) : Decidable (s.EndsWithClose a) :=
  match a with
  | .callback w read _ _ => inferInstanceAs (Decidable (∀ e ∈ (s.workers w).callbacks.head?,
      e.2 = .readCb → .closeCb ∈ (s.conns e.1).log → ∀ data ∈ read, data = []))
  | .onMessage w _ => inferInstanceAs (Decidable (∀ m ∈ (s.workers w).message, m.pc = .finish →
      (s.conns m.conn).http.keepAlive = false → (s.conns m.conn).tcp.state = .connected →
        (s.conns m.conn).tcp.inputBuffer.readableBytes = 0))
  | .basePoll | .accept | .onTimer _ | .destroyEntry | .baseSwap | .baseCall | .baseEnd | .poll _ _
  | .dispatch _ | .swap _ | .call _ | .endBatch _ | .exit _ => inferInstanceAs (Decidable True)

theorem view_endsWithClose {a : ServerAction} (h : s.Placed) (hok : s.EndsWithClose a) (id : Nat) :
    (s.view id).EndsWithClose (s.event cfg id a) := by
  have hcause := s.event_causes cfg id a
  cases hevent : s.event cfg id a with
  | callback cb read fs =>
    rw [hevent] at hcause
    obtain ⟨w, write, rfl, hhead⟩ := hcause
    exact hok (id, cb) hhead
  | message =>
    rw [hevent] at hcause
    obtain ⟨w, write, rfl, m, hm, rfl⟩ := hcause
    intro m' hm'
    rw [view_message h hm] at hm'
    cases hm'
    exact hok m hm
  | idle | rename | erase | entry | remove | baseEnd | poll | dispatch | swap | call | endBatch =>
    trivial

/-- **A closed connection is silent**, in every run in which nothing is left behind a close: it
writes nothing, receives no message, runs no `onMessage` and watches nothing. -/
theorem closed_silent (cfg : ServerConfig)
    (h : ((webServer cfg).restrict EndsWithClose).Reachable (.init cfg) s) {conn : Nat}
    (hconn : conn < s.count) (hclosed : .closeCb ∈ (s.conns conn).log) :
    (∀ e ∈ afterClose (s.conns conn).log, e.Silent) ∧
      (s.conns conn).tcp.handler.events = .none ∧
      ∀ w, ∀ m ∈ (s.workers w).message, m.conn ≠ conn := by
  obtain ⟨hplaced, hsilent⟩ : s.Placed ∧ ∀ i < s.count, (s.view i).Silent := by
    refine views_of_reachable h ConnView.silent_fresh ?_
    intro s a id v' hplaced hsilent hok hstep hid
    exact (hsilent id hid).step (view_endsWithClose hplaced hok id) hstep
  obtain ⟨hevents, -, hnone⟩ := (hsilent conn hconn).closed hclosed
  refine ⟨(hsilent conn hconn).silent, hevents, fun w m hm heq => ?_⟩
  rw [← heq, view_message hplaced hm] at hnone
  cases hnone

/-- A rejected request line closes the connection, and nothing follows. -/
theorem closed_silent_rejected :
    ∃ s : WebServer, .closeCb ∈ (s.conns 0).log ∧ (∀ e ∈ afterClose (s.conns 0).log, e.Silent) ∧
      (s.conns 0).tcp.handler.events = .none ∧ ∀ w, ∀ m ∈ (s.workers w).message, m.conn ≠ 0 := by
  have hrun : ∃ s, ((webServer exampleConfig).restrict EndsWithClose).Reachable
      (.init exampleConfig) s ∧ 0 < s.count ∧ .closeCb ∈ (s.conns 0).log :=
    Program.Reachable.of_admissible
      (opened ++ received (ascii "\n") 5 ++ [.baseSwap, .baseCall, .swap 0, .call 0])
      (by decide +kernel) (by decide +kernel)
  obtain ⟨s, hreach, hcount, hclosed⟩ := hrun
  exact ⟨s, hclosed, closed_silent exampleConfig hreach hcount hclosed⟩

/-- Behind a rejected request line a pipelined request is answered: `::write` takes one byte, and
the rest of the response is watched for. -/
theorem closed_answers :
    ∃ s : WebServer, (webServer exampleConfig).Reachable (.init exampleConfig) s ∧ 0 < s.count ∧
      afterClose (s.conns 0).log = [.closeCb, .write (ascii "H")] ∧
      (s.conns 0).tcp.handler.events = .writeEvent :=
  Program.Reachable.of_admissible
    (opened ++ received (ascii "\nGET /x.c HTTP/1.1\r\n\r\n") 10 ++ [.onMessage 0 (some 1)])
    (by decide +kernel) (by decide +kernel)

end WebServer
end Httpancake
