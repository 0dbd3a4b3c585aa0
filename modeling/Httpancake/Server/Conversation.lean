import Httpancake.Lib.Observation
import Httpancake.Network.Delivered
import Httpancake.Server.Dispatch

/-! # What a connection is answered

In the whole server, with all its threads, timers and other connections, a connection is answered as
if it were alone: what was written to its socket and what waits in its `outputBuffer_` are the
messages that calls of `onMessage` on its own chunks send, one call after the other, up to the point
where the connection leaves `CONNECTED` (`WebServer.conversation`). Between two calls its input
buffer is empty and its parse state is cleared (`WebServer.between_calls`). -/

namespace Httpancake

open Bytes TcpConnection

/-- The bytes that one call of `handleRead` has brought, and the files that `onMessage` finds. -/
structure Chunk where
  data : Bytes
  fs : FileSystem

/-- The chunk of an event. -/
def ConnEvent.heard : ConnEvent → List Chunk
  | .callback .readCb (some (x :: data)) fs => [⟨x :: data, fs⟩]
  | _ => []

/-- The messages of a call on a chunk. -/
def ServerConn.answers (cfg : ServerConfig) (c : ServerConn) (chunk : Chunk) : List Bytes :=
  Httpancake.answers ⟨cfg.fileDir, c.connName, chunk.fs⟩ chunk.data

namespace ConnView

/-- What the calls of `onMessage` have asked to be sent: whole calls, and a call that is running on
the last chunk. -/
inductive Promised (cfg : ServerConfig) (v : ConnView) (heard : List Chunk) : List Bytes → Prop
  | idle (hnone : v.work.message = none) (hhttp : v.conn.http = .fresh)
    (hinput : v.conn.tcp.inputBuffer.Holds []) :
    Promised cfg v heard (heard.flatMap (v.conn.answers cfg))
  | running {m : Message} {past : List Chunk} {data : Bytes} {b : Buffer} {es : List Effect}
    (hm : v.work.message = some m) (hpc : m.pc ≠ .returned)
    (hheard : heard = past ++ [⟨data, m.fs⟩]) (hb : b.Holds data)
    (hsteps : OnMessage.Steps (v.conn.env cfg m) (.start .fresh b 0) es (v.conn.frame m)) :
    Promised cfg v heard (past.flatMap (v.conn.answers cfg) ++ sends es)

/-- The stream is a first part of what was promised, and all of it while the connection is open. -/
structure Converses (cfg : ServerConfig) (v : ConnView) (heard : List Chunk) : Prop where
  connecting : v.conn.tcp.state = .connecting → heard = []
  stream : ∃ q said promised, v.conn.tcp.Sound q ∧ written v.conn.log ++ q = said.flatten ∧
    v.Promised cfg heard promised ∧ said <+: promised ∧
    (v.conn.tcp.state = .connected → said = promised)

variable {cfg : ServerConfig} {v v' : ConnView} {heard : List Chunk} {promised : List Bytes}

theorem converses_fresh (this : Nat) (connName : Bytes) (lp : Nat) (stage : LoopStage) :
    (WebServer.freshView this connName lp stage).Converses cfg [] where
  connecting _ := rfl
  stream := ⟨[], [], [], .make this false, rfl, .idle rfl rfl .fresh, List.prefix_rfl, fun _ => rfl⟩

namespace Promised

/-- What is promised does not depend on the rest of the connection. -/
theorem of_eq (h : v.Promised cfg heard promised) (hmessage : v'.work.message = v.work.message)
    (hname : v'.conn.connName = v.conn.connName) (hhttp : v'.conn.http = v.conn.http)
    (hinput : v'.conn.tcp.inputBuffer = v.conn.tcp.inputBuffer) :
    v'.Promised cfg heard promised := by
  have hanswers : v'.conn.answers cfg = v.conn.answers cfg := by
    funext chunk
    rw [ServerConn.answers, hname]
    rfl
  cases h with
  | idle hnone hfresh hempty =>
    rw [← hanswers]
    exact .idle (hmessage.trans hnone) (hhttp.trans hfresh) (hinput ▸ hempty)
  | @running m _ _ _ _ hm hpc hheard hb hsteps =>
    have henv : v'.conn.env cfg m = v.conn.env cfg m := by
      rw [ServerConn.env, hname]
      rfl
    have hframe : v'.conn.frame m = v.conn.frame m := by
      rw [ServerConn.frame, hhttp, hinput]
      rfl
    rw [← hanswers]
    refine .running (hmessage.trans hm) hpc hheard hb ?_
    rw [henv, hframe]
    exact hsteps

/-- Between two calls. -/
theorem idle_inv (h : v.Promised cfg heard promised) (hnone : v.work.message = none) :
    promised = heard.flatMap (v.conn.answers cfg) ∧ v.conn.http = .fresh ∧
      v.conn.tcp.inputBuffer.Holds [] := by
  cases h with
  | idle _ hhttp hinput => exact ⟨rfl, hhttp, hinput⟩
  | running hm => exact nomatch hnone.symm.trans hm

/-- The buffer of a running call is sound. -/
theorem frame_sound (h : v.Promised cfg heard promised) {m : Message}
    (hm : v.work.message = some m) : (v.conn.frame m).Sound := by
  cases h with
  | idle hnone => cases hnone.symm.trans hm
  | @running m' past data b es hm' hpc hheard hb hsteps =>
    obtain rfl : m' = m := Option.some.inj (hm'.symm.trans hm)
    obtain ⟨n, hn⟩ := hsteps
    have hstart : OnMessage.Sound (.start .fresh b 0) := ⟨⟨data, hb⟩, fun _ => rfl⟩
    have hend := (@OnMessage.run_sound (v.conn.env cfg m') _ hstart n).1
    rwa [hn] at hend

/-- So is the one that a step of it leaves. -/
theorem next_holds (h : v.Promised cfg heard promised) {m : Message} {frame : OnMessage}
    {effects : List Effect} (hm : v.work.message = some m)
    (hstep : OnMessage.step (v.conn.env cfg m) (v.conn.frame m) = (frame, effects)) :
    ∃ p, frame.inBuffer.Holds p := by
  have hnext := (@OnMessage.step_sound (v.conn.env cfg m) _ (h.frame_sound hm)).1
  rw [hstep] at hnext
  exact hnext.holds

/-- Before the first chunk. -/
theorem nil_inv (h : v.Promised cfg [] promised) : promised = [] := by
  cases h with
  | idle => rfl
  | running hm hpc hheard => exact absurd hheard.symm (List.append_ne_nil_of_right_ne_nil _ nofun)

/-- The calls promise a first part of their answers. -/
theorem prefix_answers (h : v.Promised cfg heard promised) :
    promised <+: heard.flatMap (v.conn.answers cfg) := by
  cases h with
  | idle => exact List.prefix_rfl
  | @running m past data b es hm hpc hheard hb hsteps =>
    obtain ⟨n, hn⟩ := hsteps
    have hsends := @OnMessage.sends_run (v.conn.env cfg m) b _ hb n
    rw [hn] at hsends
    rw [hheard, List.flatMap_append, List.prefix_append_right_inj, List.flatMap_singleton]
    exact hsends

end Promised

namespace Converses

/-- A step that hears nothing, sends nothing and does not open the connection. -/
theorem of_adds (h : v.Converses cfg heard) {es : List ConnEffect}
    (hlog : v'.conn.log = v.conn.log ++ es)
    (hadds : ∀ q, v.conn.tcp.Sound q → Adds q v'.conn.tcp es [])
    (hpromised : ∀ promised, v.Promised cfg heard promised → v'.Promised cfg heard promised)
    (hconnecting : v'.conn.tcp.state = .connecting → v.conn.tcp.state = .connecting)
    (hconnected : v'.conn.tcp.state = .connected → v.conn.tcp.state = .connected) :
    v'.Converses cfg heard := by
  obtain ⟨q, said, promised, hsound, hstream, hp, hprefix, hall⟩ := h.stream
  obtain ⟨q', hsound', hadd⟩ := hadds q hsound
  refine ⟨fun hc => h.connecting (hconnecting hc), q', said, promised, hsound', ?_,
    hpromised promised hp, hprefix, fun hc => hall (hconnected hc)⟩
  rw [hlog, written_append, List.append_assoc, hadd, List.append_nil]
  exact hstream

/-- A step that leaves the connection and the running call alone. -/
theorem of_conn (h : v.Converses cfg heard) (hconn : v'.conn = v.conn)
    (hmessage : v'.work.message = v.work.message) : v'.Converses cfg heard := by
  have hlog : v'.conn.log = v.conn.log ++ [] := by rw [hconn, List.append_nil]
  refine h.of_adds hlog (fun q hq => ?_) (fun _ hp => ?_) ?_ ?_
  · rw [hconn]
    exact hq.adds_nil
  · exact hp.of_eq hmessage (congrArg _ hconn) (congrArg _ hconn)
      (congrArg (·.tcp.inputBuffer) hconn)
  · rw [hconn]
    exact id
  · rw [hconn]
    exact id

end Converses

/-- Only a call of `messageCb_` hears something. -/
theorem heard_callback {c c' : TcpConnection} {es : List ConnEffect} {cb : EventCallback}
    {read : Option Bytes} {write : Option Nat} {fs : FileSystem}
    (hcall : c.callback read write cb = some (c', es)) (hmem : .messageCb ∉ es) :
    (ConnEvent.callback cb read fs).heard = [] := by
  cases cb with
  | closeCb | errorCb | writeCb => rfl
  | readCb =>
    match read with
    | none | some [] => rfl
    | some (x :: data) =>
      obtain ⟨b, -, -, rfl⟩ := handleRead_spec hcall
      exact absurd (List.mem_singleton_self _) hmem

namespace Converses

/-- A callback that brings no bytes. -/
theorem callback (h : v.Converses cfg heard) {cb : EventCallback} {read : Option Bytes}
    {write : Option Nat} {tcp : TcpConnection} {es : List ConnEffect}
    (hnone : v.work.message = none) (hcall : v.conn.tcp.callback read write cb = some (tcp, es))
    (hmem : .messageCb ∉ es) : (v.after (v.conn.after tcp es) es).Converses cfg heard := by
  have hkeep : tcp.state = v.conn.tcp.state ∧
      (v.conn.tcp.inputBuffer.Holds [] → tcp.inputBuffer.Holds []) := by
    cases callback_outcome hcall with
    | close hcloses =>
      exact ⟨hcloses.state.trans hcloses.connected.symm, fun hb => hcloses.input ▸ hb⟩
    | endOfStream hread hcloses =>
      refine ⟨hcloses.state.trans hcloses.connected.symm, fun hb => ?_⟩
      obtain ⟨b', hread', hb'⟩ := hb.readFd []
      cases hread.symm.trans hread'
      exact hcloses.input ▸ hb'
    | message hread hconn hes =>
      rw [hes] at hmem
      exact absurd (List.mem_singleton_self _) hmem
    | quiet hwrites hidle => exact ⟨hwrites.state, fun hb => hwrites.input ▸ hb⟩
  refine h.of_adds rfl (fun q hq => hq.callback_stream hcall) (fun promised hp => ?_) ?_ ?_
  · obtain ⟨rfl, hhttp, hinput⟩ := hp.idle_inv hnone
    exact .idle hnone hhttp (hkeep.2 hinput)
  · exact hkeep.1.symm.trans
  · exact hkeep.1.symm.trans

/-- `onMessage` begins on a chunk. -/
theorem enterMessage (h : v.Converses cfg heard) {x : UInt8} {data : Bytes} {fs : FileSystem}
    {b : Buffer} (hnone : v.work.message = none) (halive : v.conn.Alive)
    (hread : v.conn.tcp.inputBuffer.readFd (some (x :: data)) = some b) :
    ((v.after (v.conn.after { v.conn.tcp with inputBuffer := b } [.messageCb])
      [.messageCb]).setWork { v.work with message := some ⟨v.this, fs, .parseUrl, 0⟩ }).Converses
      cfg (heard ++ [⟨x :: data, fs⟩]) := by
  obtain ⟨q, said, promised, hsound, hstream, hp, hprefix, hall⟩ := h.stream
  obtain ⟨rfl, hhttp, hinput⟩ := hp.idle_inv hnone
  obtain ⟨b', hread', hb⟩ := hinput.readFd (x :: data)
  cases hread.symm.trans hread'
  refine ⟨fun hc => absurd hc halive.established, q, said,
    heard.flatMap (v.conn.answers cfg) ++ sends [], hsound.ofInput ⟨_, hb⟩, ?_, ?_, ?_, ?_⟩
  · change written (v.conn.log ++ [.messageCb]) ++ q = _
    rw [written_append, show written [.messageCb] = [] from rfl, List.append_nil]
    exact hstream
  · refine .running rfl (by simp) rfl hb ?_
    have hframe : (v.conn.after { v.conn.tcp with inputBuffer := b } [.messageCb]).frame
        ⟨v.this, fs, .parseUrl, 0⟩ = .start .fresh b 0 := by
      rw [ServerConn.frame, OnMessage.start, ← hhttp]
      rfl
    change OnMessage.Steps _ _ _ (ServerConn.frame (v.conn.after _ _) _)
    rw [hframe]
    exact .refl
  · rw [sends_nil, List.append_nil]
    exact hprefix
  · rw [sends_nil, List.append_nil]
    exact hall

theorem ofFrame_sound (h : v.Converses cfg heard) {m : Message} {frame : OnMessage}
    {effects : List Effect} (hm : v.work.message = some m)
    (hstep : OnMessage.step (v.conn.env cfg m) (v.conn.frame m) = (frame, effects)) :
    ∃ q, (v.conn.ofFrame frame).tcp.Sound q := by
  obtain ⟨q, said, promised, hsound, -, hp, -⟩ := h.stream
  exact ⟨q, hsound.ofInput (hp.next_holds hm hstep)⟩

/-- A step of `onMessage`. -/
theorem message (h : v.Converses cfg heard) {m : Message} {frame : OnMessage}
    {effects : List Effect} {write : Option Nat} {tcp : TcpConnection} {es : List ConnEffect}
    (hm : v.work.message = some m)
    (hstep : OnMessage.step (v.conn.env cfg m) (v.conn.frame m) = (frame, effects))
    (hperform : (v.conn.ofFrame frame).tcp.perform write effects = some (tcp, es)) :
    ((v.after ((v.conn.ofFrame frame).after tcp es) es).setWork
      { v.work with
        message :=
          if frame.pc = .returned then none
          else some { m with pc := frame.pc, fsCalls := frame.fsCalls } }).Converses cfg heard := by
  obtain ⟨q, said, promised, hsound, hstream, hp, hprefix, hall⟩ := h.stream
  have hinput := hp.next_holds hm hstep
  cases hp with
  | idle hnone => exact nomatch hnone.symm.trans hm
  | @running m' past data b done hm' hpc hheard hb hsteps =>
    obtain rfl : m' = m := Option.some.inj (hm'.symm.trans hm)
    have hsteps' : OnMessage.Steps (v.conn.env cfg m') (.start .fresh b 0) (done ++ effects)
        frame := by
      have hone : OnMessage.Steps (v.conn.env cfg m') (v.conn.frame m') effects frame := by
        simpa using Machine.Steps.head hstep .refl
      exact hsteps.trans hone
    have hperf := perform_spec hperform
    have hstate : tcp.state = v.conn.tcp.state := hperf.state
    have hbuffer : tcp.inputBuffer = frame.inBuffer := hperf.input
    obtain ⟨q', hsound', hadd⟩ :=
      Sound.perform_stream (c := (v.conn.ofFrame frame).tcp) (hsound.ofInput hinput) hperform
    -- what the step adds to the stream and to what is promised
    obtain ⟨new, hnew, hprefix', hall'⟩ : ∃ new,
        (if v.conn.tcp.state = .connected then (sends effects).flatten else []) = new.flatten ∧
        said ++ new <+: past.flatMap (v.conn.answers cfg) ++ sends (done ++ effects) ∧
        (v.conn.tcp.state = .connected →
          said ++ new = past.flatMap (v.conn.answers cfg) ++ sends (done ++ effects)) := by
      rw [sends_append, ← List.append_assoc]
      by_cases hconn : v.conn.tcp.state = .connected
      · have heq := hall hconn
        exact ⟨sends effects, if_pos hconn, by rw [heq], fun _ => by rw [heq]⟩
      · refine ⟨[], if_neg hconn, ?_, fun hc => absurd hc hconn⟩
        rw [List.append_nil]
        exact hprefix.trans (List.prefix_append _ _)
    refine ⟨fun hc => ?_, q', said ++ new, past.flatMap (v.conn.answers cfg) ++
      sends (done ++ effects), hsound', ?_, ?_, hprefix', fun hc => hall' (hstate.symm.trans hc)⟩
    · exact h.connecting (hstate.symm.trans hc)
    · change written (v.conn.log ++ es) ++ q' = _
      rw [written_append, List.append_assoc, hadd, ← List.append_assoc, hstream,
        List.flatten_append, ← hnew]
      rfl
    · by_cases hreturned : frame.pc = .returned
      · obtain ⟨hsends, hempty, hfresh⟩ := OnMessage.returned_spec hb hsteps' hreturned
        have hwhole : past.flatMap (v.conn.answers cfg) ++ sends (done ++ effects) =
            heard.flatMap (v.conn.answers cfg) := by
          rw [hheard, List.flatMap_append, List.flatMap_singleton, hsends]
          rfl
        rw [hwhole]
        exact .idle (if_pos hreturned) hfresh (hbuffer.symm ▸ hempty)
      · refine .running (m := { m' with pc := frame.pc, fsCalls := frame.fsCalls })
          (if_neg hreturned) hreturned hheard hb ?_
        have hframe : ((v.conn.ofFrame frame).after tcp es).frame
            { m' with pc := frame.pc, fsCalls := frame.fsCalls } = frame := by
          rw [ServerConn.frame]
          exact congrArg (OnMessage.mk frame.pc frame.conn · frame.fsCalls) hbuffer
        change OnMessage.Steps _ _ _ (ServerConn.frame (ServerConn.after _ _ _) _)
        rw [hframe]
        exact hsteps'

/-- An event that brings nothing. -/
theorem silent (h : v.Converses cfg heard) {e : ConnEvent} (he : e.heard = []) :
    v.Converses cfg (heard ++ e.heard) := by
  rw [he, List.append_nil]
  exact h

/-- **The step lemma.** -/
theorem step {e : ConnEvent} (h : v.Converses cfg heard) (hwithin : v.Within e)
    (hstep : ConnStep cfg v e v') : v'.Converses cfg (heard ++ e.heard) := by
  cases hstep with
  | callback hstage hnone hcall hmem =>
    exact (h.callback hnone hcall hmem).silent (heard_callback hcall hmem)
  | enterMessage hstage hnone hcall hmem =>
    obtain ⟨rfl, x, data, b, rfl, hread, rfl, rfl⟩ := callback_messageCb hcall hmem
    exact h.enterMessage hnone hwithin hread
  | message hm hstep hpc hperform => exact (h.message hm hstep hperform).silent rfl
  | idle | rename | erase | lock | test | queueShutdown | release | remove | baseEnd | poll
  | dispatch | swap | endBatch =>
    refine silent ?_ rfl
    exact h.of_conn rfl rfl
  | setDisconnecting =>
    refine silent ?_ rfl
    exact h.of_adds (List.append_nil _).symm (fun q hq => (hq.ofState _).adds_nil)
      (fun _ hp => hp.of_eq rfl rfl rfl rfl) nofun nofun
  | established context hfuncs hstage hcall =>
    refine silent ?_ rfl
    obtain ⟨hconnecting, hconnected, hinput, rfl⟩ := connectEstablished_spec hcall
    -- nothing was promised before
    obtain rfl := h.connecting hconnecting
    obtain ⟨q, said, promised, hsound, hstream, hp, hprefix, -⟩ := h.stream
    obtain rfl := hp.nil_inv
    obtain rfl := List.prefix_nil.mp hprefix
    obtain ⟨q', hsound', hadd⟩ := hsound.connectEstablished_stream hcall
    refine ⟨fun hc => (nomatch hconnected.symm.trans hc), q', [], [], hsound', ?_,
      hp.of_eq rfl rfl rfl hinput, List.prefix_rfl, fun _ => rfl⟩
    change written (v.conn.log ++ [.connCb]) ++ q' = _
    rw [written_append, List.append_assoc, hadd, List.append_nil]
    exact hstream
  | destroyed context hfuncs hstage hcall =>
    refine silent ?_ rfl
    obtain ⟨hstate, hinput, -⟩ := connectDestroyed_spec hcall
    refine h.of_adds rfl (fun q hq => hq.connectDestroyed_stream hcall)
      (fun _ hp => hp.of_eq rfl rfl rfl hinput) ?_ ?_
    · exact fun hc => nomatch hstate.symm.trans hc
    · exact fun hc => nomatch hstate.symm.trans hc
  | shutdownInLoop hfuncs hstage =>
    refine silent ?_ rfl
    exact h.of_adds rfl (fun q hq => hq.adds_quiet (written_shutdownInLoop _))
      (fun _ hp => hp.of_eq rfl rfl rfl rfl) id id

end Converses
end ConnView

namespace WebServer
variable {cfg : ServerConfig} {s s' : WebServer} {conn : Nat} {as : List ServerAction}
  {answered : List (List Access)}

/-- The chunks that a connection has received in a run. -/
def heard (cfg : ServerConfig) (conn : Nat) (as : List ServerAction) : List Chunk :=
  (webServer cfg).observe (fun s a => (s.event cfg conn a).heard) (.init cfg) as

/-- Only a connection that exists hears something. -/
theorem heard_eq_nil (h : s.Placed) (a : ServerAction) (hconn : s.count ≤ conn) :
    (s.event cfg conn a).heard = [] := by
  have hcause := s.event_causes cfg conn a
  cases hevent : s.event cfg conn a with
  | callback cb read fs =>
    rw [hevent] at hcause
    obtain ⟨w, write, -, hhead⟩ := hcause
    have hlt := ((h.work w).callback _ (List.mem_of_mem_head? hhead)).1
    exact absurd hconn (Nat.not_le_of_lt hlt)
  | _ => rfl

theorem converses_of_run (hadm : (webServer cfg).Admissible (.init cfg) as)
    (hrun : (webServer cfg).run (.init cfg) as = some (s, answered)) (hconn : conn < s.count) :
    (s.view conn).Converses cfg (heard cfg conn as) := by
  have hall : s.Dispatching ∧ (conn < s.count → (s.view conn).Converses cfg (heard cfg conn as)) ∧
      (s.count ≤ conn → heard cfg conn as = []) := by
    refine Program.run_observed (I := fun (s : WebServer) chunks => s.Dispatching ∧
      (conn < s.count → (s.view conn).Converses cfg chunks) ∧ (s.count ≤ conn → chunks = []))
      ?_ ⟨.init cfg, nofun, fun _ => rfl⟩ hadm hrun
    rintro s chunks a s' accesses ⟨hd, hbelow, habove⟩ hpre hexec
    have hsteps := exec_steps hd.placed hpre hexec
    have hold (hlt : conn < s.count) : (s'.view conn).Converses cfg
        (chunks ++ (s.event cfg conn a).heard) :=
      (hbelow hlt).step (hd.within a conn) (hsteps.view conn hlt)
    have hnew (hle : s.count ≤ conn) : chunks ++ (s.event cfg conn a).heard = [] := by
      rw [habove hle, heard_eq_nil hd.placed a hle]
      rfl
    refine ⟨hd.step hpre hexec, fun hlt' => ?_, fun hle' => hnew ?_⟩
    · rcases Nat.lt_or_ge conn s.count with hlt | hle
      · exact hold hlt
      · rw [hnew hle]
        rcases hsteps.count with hcount | ⟨hcount, lp, stage, hview⟩
        · exact absurd (hcount ▸ hlt') (Nat.not_lt_of_le hle)
        · obtain rfl : conn = s.count := by omega
          rw [hview]
          exact ConnView.converses_fresh ..
    · rcases hsteps.count with hcount | ⟨hcount, -⟩ <;> omega
  exact hall.2.1 hconn

/-- Its loop is running no call of `onMessage` on the connection. -/
def Waits (s : WebServer) (conn : Nat) : Prop :=
  ∀ m ∈ (s.workers (s.conns conn).lp).message, m.conn ≠ conn

instance (s : WebServer) (conn : Nat) : Decidable (s.Waits conn) :=
  inferInstanceAs (Decidable (∀ m ∈ (s.workers (s.conns conn).lp).message, m.conn ≠ conn))

theorem Waits.message_eq_none (h : s.Waits conn) : (s.view conn).work.message = none := by
  rw [Option.eq_none_iff_forall_not_mem]
  intro m hm
  obtain ⟨hmem, hconn⟩ := Option.mem_filter_iff.mp hm
  exact h m hmem (of_decide_eq_true hconn)

/-- The bytes written to the socket of a connection and those that wait to be. -/
def stream (c : ServerConn) : Bytes := written c.log ++ c.tcp.outputBuffer.content

/-- The stream consists of whole messages. -/
theorem said_of_converses {v : ConnView} {heard : List Chunk} (h : v.Converses cfg heard) :
    ∃ said promised, stream v.conn = said.flatten ∧ v.Promised cfg heard promised ∧
      said <+: promised ∧ (v.conn.tcp.state = .connected → said = promised) := by
  obtain ⟨q, said, promised, hsound, hstream, hp, hprefix, hall⟩ := h.stream
  refine ⟨said, promised, ?_, hp, hprefix, hall⟩
  rw [← hstream, ← hsound.output.content_eq]
  rfl

/-- **Every connection is answered on its own.** In every run of the server, the stream of a
connection consists of the first messages that calls of `onMessage` on its chunks send, each call on
one chunk and one call after the other; while the connection is open and no call is running, it has
all of them. -/
theorem conversation (cfg : ServerConfig) (hadm : (webServer cfg).Admissible (.init cfg) as)
    (hrun : (webServer cfg).run (.init cfg) as = some (s, answered)) (hconn : conn < s.count) :
    (∃ said, stream (s.conns conn) = said.flatten ∧
      said <+: (heard cfg conn as).flatMap ((s.conns conn).answers cfg)) ∧
    ((s.conns conn).tcp.state = .connected → s.Waits conn → stream (s.conns conn) =
      ((heard cfg conn as).flatMap ((s.conns conn).answers cfg)).flatten) := by
  obtain ⟨said, promised, hsaid, hp, hprefix, hall⟩ :=
    said_of_converses (converses_of_run hadm hrun hconn)
  change stream (s.conns conn) = said.flatten at hsaid
  refine ⟨⟨said, hsaid, hprefix.trans hp.prefix_answers⟩, fun hopen hwaits => ?_⟩
  rw [hsaid, hall hopen, (hp.idle_inv hwaits.message_eq_none).1]
  rfl

/-- A request for a missing file, and the steps of the call on it. -/
def requested : List ServerAction := opened ++ received (ascii "GET /x.c HTTP/1.1\r\n\r\n") 7

/-- It is answered, and the connection stays open. -/
theorem conversation_missing : ∃ s answered,
    (webServer exampleConfig).run (.init exampleConfig) requested = some (s, answered) ∧
    stream (s.conns 0) = ((heard exampleConfig 0 requested).flatMap
      ((s.conns 0).answers exampleConfig)).flatten := by
  have hadm : (webServer exampleConfig).Admissible (.init exampleConfig) requested := by
    decide +kernel
  have hend : ∃ r ∈ (webServer exampleConfig).run (.init exampleConfig) requested,
      0 < r.1.count ∧ (r.1.conns 0).tcp.state = .connected ∧ r.1.Waits 0 := by
    decide +kernel
  obtain ⟨⟨s, answered⟩, hrun, hcount, hopen, hwaits⟩ := hend
  exact ⟨s, answered, hrun, (conversation exampleConfig hadm hrun hcount).2 hopen hwaits⟩

/-- **No request is carried over.** In every run, a connection on which no call is running has an
empty input buffer and a cleared parse state. -/
theorem between_calls (cfg : ServerConfig) (hadm : (webServer cfg).Admissible (.init cfg) as)
    (hrun : (webServer cfg).run (.init cfg) as = some (s, answered)) (hconn : conn < s.count)
    (hwaits : s.Waits conn) :
    (s.conns conn).tcp.inputBuffer.content = [] ∧ (s.conns conn).http = .fresh := by
  obtain ⟨q, said, promised, -, -, hp, -⟩ := (converses_of_run hadm hrun hconn).stream
  obtain ⟨-, hhttp, hinput⟩ := hp.idle_inv hwaits.message_eq_none
  exact ⟨hinput.content_eq, hhttp⟩

/-- After the answer nothing is left. -/
theorem between_calls_missing : ∃ s answered,
    (webServer exampleConfig).run (.init exampleConfig) requested = some (s, answered) ∧
    (s.conns 0).tcp.inputBuffer.content = [] ∧ (s.conns 0).http = .fresh := by
  have hadm : (webServer exampleConfig).Admissible (.init exampleConfig) requested := by
    decide +kernel
  have hend : ∃ r ∈ (webServer exampleConfig).run (.init exampleConfig) requested,
      0 < r.1.count ∧ r.1.Waits 0 := by
    decide +kernel
  obtain ⟨⟨s, answered⟩, hrun, hcount, hwaits⟩ := hend
  exact ⟨s, answered, hrun, between_calls exampleConfig hadm hrun hcount hwaits⟩

end WebServer
end Httpancake
