import Httpancake.Server.Survival

/-! # No answer is left behind

What `::write` does not accept waits in `outputBuffer_` until the socket can be written. As long as
a connection has not closed, bytes wait exactly while its poller watches the socket for writing
(`ConnView.Flows`), in the whole server and with all its threads. So an open connection whose socket
is not watched for writing has been sent every answer (`WebServer.delivered`). -/

namespace Httpancake

open Bytes TcpConnection

namespace ConnView

/-- Nothing gets stuck before the connection closes. -/
def Flows (v : ConnView) : Prop := v.closings = 0 → v.conn.tcp.Drains

variable {cfg : ServerConfig} {v v' : ConnView} {heard : List Chunk}

theorem flows_fresh (this : Nat) (connName : Bytes) (lp : Nat) (stage : LoopStage) :
    (WebServer.freshView this connName lp stage).Flows := fun _ => .make this false

/-- A function that closes promises nothing. -/
theorem Flows.of_drains (h : v.Flows) {es : List ConnEffect}
    (hlog : v'.conn.log = v.conn.log ++ es)
    (hdrains : v.conn.tcp.Drains → .closeCb ∉ es → v'.conn.tcp.Drains) : v'.Flows := by
  intro hzero
  rw [closings_append hlog, Nat.add_eq_zero_iff] at hzero
  exact hdrains (h hzero.1) (List.count_eq_zero.mp hzero.2)

/-- **The step lemma.** -/
theorem Flows.step {e : ConnEvent} (h : v.Flows) (hreports : v.Reports)
    (hconverses : v.Converses cfg heard) (hstep : ConnStep cfg v e v') : v'.Flows := by
  obtain ⟨q, -, -, hsound, -⟩ := hconverses.stream
  cases hstep with
  | idle | rename | erase | lock | test | queueShutdown | release | remove | baseEnd | poll
  | dispatch | swap | endBatch => exact h
  | setDisconnecting => exact fun hzero => (h hzero).of_eq rfl rfl rfl
  | callback hstage hnone hcall | enterMessage hstage hnone hcall =>
    exact h.of_drains rfl fun hd hopen => hsound.callback_drains hd hcall hopen
  | message hm hstep hpc hperform =>
    obtain ⟨q', hframe⟩ := hconverses.ofFrame_sound hm hstep
    refine h.of_drains rfl fun hd hopen => ?_
    exact hframe.perform_drains (hd.of_eq rfl rfl rfl) hperform hopen
  | established context hfuncs hstage hcall =>
    exact h.of_drains rfl fun hd _ => hd.connectEstablished hcall
  | destroyed context hfuncs hstage hcall =>
    -- who is destroyed has closed
    intro hzero
    have hqueue := destroying_called hfuncs
    rw [if_pos rfl] at hqueue
    have heq := hreports.closings_eq
    have hold : v.closings + List.count ConnEffect.closeCb _ = 0 :=
      (closings_append rfl).symm.trans hzero
    omega
  | shutdownInLoop hfuncs hstage => exact h.of_drains rfl fun hd _ => hd

end ConnView

namespace WebServer
variable {cfg : ServerConfig} {s : WebServer} {conn : Nat} {as : List ServerAction}
  {answered : List (List Access)}

theorem flows_of_reachable (h : (webServer cfg).Reachable (.init cfg) s) :
    ∀ conn < s.count, (s.view conn).Flows := by
  induction h with
  | start =>
    intro conn hconn
    cases hconn
  | step hreach hpre hexec ih =>
    have hready : Ready cfg _ := hreach.invariant preserves_ready (ready_init cfg)
    apply (exec_steps hready.dispatching.placed hpre hexec).forall_view ConnView.flows_fresh
    intro conn hconn hstep
    obtain ⟨heard, hconverses⟩ := hready.converses conn hconn
    exact (ih conn hconn).step (hready.reports conn hconn) hconverses hstep

/-- The poller watches the socket of the connection for writing. -/
def WatchedForWriting (c : ServerConn) : Prop :=
  ∃ interest ∈ c.tcp.watched.interest, interest.epollout

instance (c : ServerConn) : Decidable (WatchedForWriting c) :=
  inferInstanceAs (Decidable (∃ interest ∈ c.tcp.watched.interest, interest.epollout = true))

/-- **No answer is left behind.** In every run, a connection that has never closed has bytes waiting
exactly while its socket is watched for writing; and once it is not, and no call of `onMessage` is
running, an open connection has been sent every answer to every chunk it was sent. -/
theorem delivered (cfg : ServerConfig) (hadm : (webServer cfg).Admissible (.init cfg) as)
    (hrun : (webServer cfg).run (.init cfg) as = some (s, answered)) (hconn : conn < s.count)
    (hopen : .closeCb ∉ (s.conns conn).log) :
    ((s.conns conn).tcp.outputBuffer.content ≠ [] ↔ WatchedForWriting (s.conns conn)) ∧
      ((s.conns conn).tcp.state = .connected → s.Waits conn →
        ¬ WatchedForWriting (s.conns conn) → written (s.conns conn).log =
          ((heard cfg conn as).flatMap ((s.conns conn).answers cfg)).flatten) := by
  have hreach := Program.Reachable.of_run hadm hrun
  have hdrains : (s.conns conn).tcp.Drains :=
    flows_of_reachable hreach conn hconn (List.count_eq_zero.mpr hopen)
  have hconverses := converses_of_run hadm hrun hconn
  obtain ⟨q, said, promised, hsound, hstream, hp, -, hall⟩ := hconverses.stream
  have hwaiting : (s.conns conn).tcp.outputBuffer.content ≠ [] ↔
      WatchedForWriting (s.conns conn) := hdrains.waiting_iff_interest hsound
  refine ⟨hwaiting, fun hstate hwaits hidle => ?_⟩
  have hnil : q = [] := by
    rw [← hsound.output.content_eq]
    exact not_not.mp fun hne => hidle (hwaiting.mp hne)
  rw [hnil, List.append_nil, hall hstate, (hp.idle_inv hwaits.message_eq_none).1] at hstream
  exact hstream

/-- The socket takes nothing at first, then 50 bytes of the reply, then the other 46. -/
def flushed : List ServerAction :=
  requested ++ [.swap 0, .endBatch 0] ++
    [50, 46].flatMap fun n =>
      [.poll 0 [(0, ⟨false, false, true, false, false⟩)], .dispatch 0,
        .callback 0 none (some n) noFiles, .swap 0, .endBatch 0]

/-- All of it arrives. -/
theorem delivered_flushed : ∃ s answered,
    (webServer exampleConfig).run (.init exampleConfig) flushed = some (s, answered) ∧
    (written (s.conns 0).log).length = 96 ∧ written (s.conns 0).log =
      ((heard exampleConfig 0 flushed).flatMap ((s.conns 0).answers exampleConfig)).flatten := by
  have hadm : (webServer exampleConfig).Admissible (.init exampleConfig) flushed := by
    decide +kernel
  have hend : ∃ r ∈ (webServer exampleConfig).run (.init exampleConfig) flushed,
      0 < r.1.count ∧ .closeCb ∉ (r.1.conns 0).log ∧ (r.1.conns 0).tcp.state = .connected ∧
      r.1.Waits 0 ∧ ¬ WatchedForWriting (r.1.conns 0) ∧
      (written (r.1.conns 0).log).length = 96 := by
    decide +kernel
  obtain ⟨⟨s, answered⟩, hrun, hcount, hopen, hstate, hwaits, hidle, hlength⟩ := hend
  exact ⟨s, answered, hrun, hlength,
    (delivered exampleConfig hadm hrun hcount hopen).2 hstate hwaits hidle⟩

end WebServer
end Httpancake
