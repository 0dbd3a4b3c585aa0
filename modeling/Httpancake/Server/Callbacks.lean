import Httpancake.Server.Dispatch
import Httpancake.Server.Names

/-! # The callbacks of a connection

`connCb_` is called when a connection has been established and when it is being destroyed, and
`messageCb_` when bytes have arrived. For every connection these calls come in this order: once up,
any number of messages, once down (`WebServer.callback_order`). That the end comes only once rests
on the names: a second removal finds nothing in `connections_` and ends the process. -/

namespace Httpancake

open Bytes TcpConnection

/-- The calls of `connCb_` and `messageCb_`. -/
def callbacksOf (log : List ConnEffect) : List ConnEffect :=
  log.filter fun e => e = .connCb ∨ e = .messageCb

@[simp] theorem callbacksOf_append (log es : List ConnEffect) :
    callbacksOf (log ++ es) = callbacksOf log ++ callbacksOf es := List.filter_append ..

theorem callbacksOf_quiet {es : List ConnEffect} (hes : .messageCb ∉ es ∧ .connCb ∉ es) :
    callbacksOf es = [] := by
  rw [callbacksOf, List.filter_eq_nil_iff]
  intro e he hmem
  rw [decide_eq_true_eq] at hmem
  rcases hmem with rfl | rfl
  · exact hes.2 he
  · exact hes.1 he

namespace ConnView

/-- The callbacks so far. -/
def callbacks (v : ConnView) : List ConnEffect := callbacksOf v.conn.log

/-- Up, the messages, and as often down as the connection was destroyed. -/
structure Reports (v : ConnView) : Prop where
  closings_eq : v.closings = v.removals + v.destroying + v.conn.destructions
  connecting : v.conn.tcp.state = .connecting → v.callbacks = [] ∧ v.closings = 0
  established : v.conn.tcp.state ≠ .connecting → ∃ n, v.callbacks =
    .connCb :: (List.replicate n .messageCb ++ List.replicate v.conn.destructions .connCb)
  entry : v.entry = some .setDisconnecting → v.conn.tcp.state ≠ .connecting

variable {cfg : ServerConfig} {v v' : ConnView}

theorem reports_fresh (this : Nat) (connName : Bytes) (lp : Nat) (stage : LoopStage) :
    (WebServer.freshView this connName lp stage).Reports where
  closings_eq := rfl
  connecting _ := ⟨rfl, rfl⟩
  established hne := absurd rfl hne
  entry := nofun

namespace Reports

/-- A step that reports nothing. -/
theorem of_quiet (h : v.Reports)
    (hclosings : v'.closings = v'.removals + v'.destroying + v'.conn.destructions)
    {es : List ConnEffect} (hlog : v'.conn.log = v.conn.log ++ es) (hes : callbacksOf es = [])
    (hstate : v'.conn.tcp.state = .connecting ↔ v.conn.tcp.state = .connecting)
    (hclose : v.conn.tcp.state = .connecting → .closeCb ∉ es)
    (hdestructions : v'.conn.destructions = v.conn.destructions)
    (hentry : v'.entry = some .setDisconnecting → v.conn.tcp.state ≠ .connecting) :
    v'.Reports := by
  have hsame : v'.callbacks = v.callbacks := by
    rw [callbacks, hlog, callbacksOf_append, hes, List.append_nil]
    rfl
  refine ⟨hclosings, fun hconnecting => ?_, fun hne => ?_, fun hmem => ?_⟩
  · have hold := h.connecting (hstate.mp hconnecting)
    rw [hsame, closings_append hlog,
      List.count_eq_zero.mpr (hclose (hstate.mp hconnecting))]
    exact hold
  · rw [hsame, hdestructions]
    exact h.established fun hold => hne (hstate.mpr hold)
  · exact fun hconnecting => hentry hmem (hstate.mp hconnecting)

/-- A message comes after up and before down. -/
theorem message (h : v.Reports) (halive : v.conn.Alive)
    (hclosings : v'.closings = v'.removals + v'.destroying + v'.conn.destructions)
    (hlog : v'.conn.log = v.conn.log ++ [.messageCb])
    (hstate : v'.conn.tcp.state = v.conn.tcp.state)
    (hdestructions : v'.conn.destructions = v.conn.destructions)
    (hentry : v'.entry = v.entry) : v'.Reports := by
  refine ⟨hclosings, fun hconnecting => ?_, fun hne => ?_, fun hmem => ?_⟩
  · exact absurd (hstate.symm.trans hconnecting) halive.established
  · obtain ⟨n, hn⟩ := h.established halive.established
    have hadd : v'.callbacks = v.callbacks ++ [.messageCb] := by
      rw [callbacks, hlog, callbacksOf_append]
      rfl
    refine ⟨n + 1, ?_⟩
    rw [hadd, hn, hdestructions, halive.not_destroyed, List.replicate_succ']
    simp
  · rw [hstate]
    exact h.entry (hentry ▸ hmem)

/-- **The step lemma.** -/
theorem step {e : ConnEvent} (h : v.Reports) (hwatches : v.Watches) (hwithin : v.Within e)
    (hstep : ConnStep cfg v e v') : v'.Reports := by
  have hclosings := closings_eq_step h.closings_eq hstep
  have hnil : callbacksOf [] = [] := rfl
  cases hstep with
  | idle => exact h
  | rename | erase | remove | baseEnd | poll | dispatch | swap | endBatch =>
    exact h.of_quiet hclosings (List.append_nil _).symm hnil Iff.rfl (fun _ => List.not_mem_nil) rfl
      h.entry
  | lock | release | queueShutdown =>
    apply h.of_quiet hclosings (List.append_nil _).symm hnil Iff.rfl (fun _ => List.not_mem_nil) rfl
    intro hentry
    cases hentry
  | test hentry =>
    apply h.of_quiet hclosings (List.append_nil _).symm hnil Iff.rfl (fun _ => List.not_mem_nil) rfl
    intro hmem hconnecting
    simp only [setEntry, hconnecting] at hmem
    cases hmem
  | setDisconnecting hentry =>
    apply h.of_quiet hclosings (List.append_nil _).symm hnil ?_ (fun _ => List.not_mem_nil) rfl
    · intro hentry
      cases hentry
    · apply iff_of_false _ (h.entry hentry)
      intro heq
      cases heq
  | callback hstage hnone hcall hmem =>
    have halive : v.conn.Alive := hwithin
    cases callback_outcome hcall with
    | close hcloses | endOfStream hread hcloses =>
      refine h.of_quiet hclosings rfl ?_ ?_ ?_ rfl h.entry
      · rw [hcloses.effects]
        rfl
      · apply iff_of_false _ halive.established
        intro heq
        cases hcloses.state.symm.trans heq
      · exact fun heq => absurd heq halive.established
    | message hread hconn hes =>
      rw [hes] at hmem
      exact absurd (List.mem_singleton_self _) hmem
    | quiet hwrites hidle =>
      refine h.of_quiet hclosings rfl (callbacksOf_quiet hwrites.quiet.2) ?_ ?_ rfl h.entry
      · exact Eq.congr_left hwrites.state
      · exact fun _ => hwrites.quiet.1
  | enterMessage hstage hnone hcall hmem =>
    obtain ⟨rfl, x, data, b, rfl, -, rfl, rfl⟩ := callback_messageCb hcall hmem
    exact h.message hwithin hclosings rfl rfl rfl rfl
  | message hm hstep hpc hperform =>
    have hperf := perform_spec hperform
    refine h.of_quiet hclosings rfl (callbacksOf_quiet hperf.quiet) ?_ ?_ rfl h.entry
    · exact Eq.congr_left hperf.state
    · intro hconnecting hmem
      have hcount := List.count_pos_iff.mpr hmem
      rw [ServerConn.count_perform hperform, hconnecting] at hcount
      cases hcount
  | established context hfuncs hstage hcall =>
    obtain ⟨hconnecting, hconnected, -, rfl⟩ := connectEstablished_spec hcall
    have hzero : v.conn.destructions = 0 := by
      by_contra hne
      exact (hwatches.destroyed (Nat.pos_of_ne_zero hne)).not_connecting hconnecting
    have hold := (h.connecting hconnecting).1
    have hnot : _ ≠ ConnState.connecting := hconnected.trans_ne ConnState.noConfusion
    refine ⟨hclosings, fun heq => absurd heq hnot, fun _ => ⟨0, ?_⟩, fun _ => hnot⟩
    change callbacksOf (v.conn.log ++ [.connCb]) = .connCb :: List.replicate v.conn.destructions _
    rw [callbacksOf_append, show callbacksOf v.conn.log = [] from hold, hzero]
    rfl
  | destroyed context hfuncs hstage hcall =>
    obtain ⟨hstate, -, -, -, rfl⟩ := connectDestroyed_spec hcall
    -- who is destroyed has closed, and has been open
    have hne : v.conn.tcp.state ≠ .connecting := by
      intro hconnecting
      have hzero := (h.connecting hconnecting).2
      have hqueue := destroying_called hfuncs
      rw [if_pos rfl] at hqueue
      have heq := h.closings_eq
      omega
    have hnot : _ ≠ ConnState.connecting := hstate.trans_ne ConnState.noConfusion
    obtain ⟨n, hn⟩ := h.established hne
    refine ⟨hclosings, fun heq => absurd heq hnot, fun _ => ⟨n, ?_⟩, fun _ => hnot⟩
    change callbacksOf (v.conn.log ++ [.connCb]) =
      .connCb :: (List.replicate n .messageCb ++ List.replicate (v.conn.destructions + 1) .connCb)
    rw [callbacksOf_append, show callbacksOf v.conn.log = _ from hn, List.replicate_succ',
      List.cons_append, List.append_assoc]
    rfl
  | shutdownInLoop hfuncs hstage =>
    have hquiet := v.conn.tcp.shutdownInLoop_quiet
    exact h.of_quiet hclosings rfl (callbacksOf_quiet hquiet.2) Iff.rfl (fun _ => hquiet.1) rfl
      h.entry

end Reports

/-! ## The end -/

/-- One removal erases the name, and `connectDestroyed` follows it. -/
structure EndsOnce (v : ConnView) : Prop where
  le : v.destroying + v.conn.destructions ≤ 1
  registered : v.registered = some v.this → v.destroying + v.conn.destructions = 0

theorem endsOnce_fresh (this : Nat) (connName : Bytes) (lp : Nat) (stage : LoopStage) :
    (WebServer.freshView this connName lp stage).EndsOnce := ⟨Nat.zero_le _, fun _ => rfl⟩

theorem this_step {e : ConnEvent} (hstep : ConnStep cfg v e v') : v'.this = v.this := by
  cases hstep <;> rfl

/-- No step gives a connection its name back. -/
theorem registered_of_step {e : ConnEvent} (hstep : ConnStep cfg v e v')
    (hname : v'.registered = some v.this) : v.registered = some v.this := by
  cases hstep with
  | rename other hne => exact absurd (Option.some.inj hname) hne
  | erase | remove => cases hname
  | _ => exact hname

/-- Only a removal queues `connectDestroyed`. -/
theorem ends_step {e : ConnEvent} (hstep : ConnStep cfg v e v') (hne : e ≠ .remove) :
    v'.destroying + v'.conn.destructions = v.destroying + v.conn.destructions := by
  cases hstep with
  | idle | rename | erase | lock | test | setDisconnecting | release | baseEnd | poll | dispatch
  | callback | enterMessage | message | endBatch => rfl
  | remove => exact absurd rfl hne
  | queueShutdown =>
    exact congrArg (· + v.conn.destructions) (destroying_queueInLoop (v := v.setEntry _))
  | swap hstage hfuncs =>
    rw [destroying_swap hfuncs]
    rfl
  | established context hfuncs | shutdownInLoop hfuncs =>
    rw [destroying_called hfuncs]
    rfl
  | destroyed context hfuncs =>
    rw [destroying_called hfuncs, if_pos rfl, Nat.add_assoc, Nat.add_comm 1]
    rfl

/-- A removal that succeeds has found its own name, and queues `connectDestroyed`. -/
theorem ends_remove (hheld : v.Held) (hstep : ConnStep cfg v .remove v') :
    v.registered = some v.this ∧ v'.registered = none ∧
      v'.destroying + v'.conn.destructions = v.destroying + v.conn.destructions + 1 := by
  cases hstep with
  | remove hremovals hsome =>
    have href : v.Referenced := .inr (.inl (Nat.add_pos_right _ hremovals))
    have hone : (v.queueInLoop (.connectDestroyed v.this)).destroying = v.destroying + 1 := by
      rw [destroying_queueInLoop, if_pos rfl]
    refine ⟨(hheld.registered href).resolve_right hsome, rfl, ?_⟩
    change (v.queueInLoop (.connectDestroyed v.this)).destroying + v.conn.destructions = _
    omega

/-- **The step lemma.** -/
theorem EndsOnce.step {e : ConnEvent} (h : v.EndsOnce) (hheld : v.Held)
    (hstep : ConnStep cfg v e v') : v'.EndsOnce := by
  by_cases hremove : e = .remove
  · subst hremove
    obtain ⟨hname, hnone, hends⟩ := ends_remove hheld hstep
    have hzero := h.registered hname
    refine ⟨by omega, fun hname' => ?_⟩
    cases hnone.symm.trans hname'
  · have hends := ends_step hstep hremove
    refine ⟨hends.trans_le h.le, fun hname => ?_⟩
    rw [this_step hstep] at hname
    exact hends.trans (h.registered (registered_of_step hstep hname))

end ConnView

namespace WebServer
variable {cfg : ServerConfig} {s : WebServer}

theorem reports_of_reachable (h : (webServer cfg).Reachable (.init cfg) s) :
    ∀ conn < s.count, (s.view conn).Reports := by
  induction h with
  | start => exact nofun
  | step hreach hpre hexec ih =>
    have hd := dispatching_of_reachable hreach
    apply (exec_steps hd.placed hpre hexec).forall_view ConnView.reports_fresh
    intro conn hconn hstep
    exact (ih conn hconn).step (hd.watches conn hconn) (hd.within _ conn) hstep

theorem nameFree_of_spaced (h : ((webServer cfg).restrict Spaced).Reachable (.init cfg) s) :
    ((webServer cfg).restrict (NameFree cfg)).Reachable (.init cfg) s :=
  h.weaken fun _ _ hreach => (named_of_reachable hreach.of_restrict).nameFree_iff.mpr

theorem endsOnce_of_reachable
    (h : ((webServer cfg).restrict (NameFree cfg)).Reachable (.init cfg) s) :
    ∀ conn < s.count, (s.view conn).EndsOnce := by
  induction h with
  | start => exact nofun
  | step hreach hpre hexec ih =>
    have hunique := Unique.of_reachable hreach
    apply (exec_steps hunique.placed hpre.1 hexec).forall_view ConnView.endsOnce_fresh
    intro conn hconn hstep
    exact (ih conn hconn).step (hunique.held conn hconn) hstep

/-- The callbacks of a connection that has not been established, that is up, and that is down. -/
inductive CallbackOrder (c : ServerConn) : Prop
  | before (hstate : c.tcp.state = .connecting) (hnone : callbacksOf c.log = [])
  | up (messages : Nat) (halive : c.Alive)
    (hcallbacks : callbacksOf c.log = .connCb :: List.replicate messages .messageCb)
  | down (messages : Nat) (hdestroyed : c.tcp.Destroyed) (hdestructions : c.destructions = 1)
    (hcallbacks : callbacksOf c.log =
      .connCb :: (List.replicate messages .messageCb ++ [.connCb]))

/-- **The order of the callbacks**, in every run in which no connection outlives `2 ^ 32` others:
`connCb_` once, `messageCb_` any number of times, `connCb_` once. What a loop dispatches is between
the two. -/
theorem callback_order (cfg : ServerConfig)
    (h : ((webServer cfg).restrict Spaced).Reachable (.init cfg) s) :
    (∀ conn < s.count, CallbackOrder (s.conns conn)) ∧
      ∀ w, ∀ conn ∈ (s.workers w).dispatched, ∃ n,
        callbacksOf (s.conns conn).log = .connCb :: List.replicate n .messageCb := by
  have hd := dispatching_of_reachable h.of_restrict
  have hreports := reports_of_reachable h.of_restrict
  have hends := endsOnce_of_reachable (nameFree_of_spaced h)
  have hup {conn : Nat} (hconn : conn < s.count) (halive : (s.conns conn).Alive) : ∃ n,
      callbacksOf (s.conns conn).log = .connCb :: List.replicate n .messageCb := by
    obtain ⟨n, hn⟩ := (hreports conn hconn).established halive.established
    refine ⟨n, ?_⟩
    have hzero : (s.view conn).conn.destructions = 0 := halive.not_destroyed
    rw [hzero, List.replicate_zero, List.append_nil] at hn
    exact hn
  refine ⟨fun conn hconn => ?_, fun w conn hmem => ?_⟩
  · by_cases hstate : (s.conns conn).tcp.state = .connecting
    · exact .before hstate ((hreports conn hconn).connecting hstate).1
    · have hle : (s.conns conn).destructions ≤ 1 :=
        (Nat.le_add_left _ _).trans (hends conn hconn).le
      rcases Nat.le_one_iff_eq_zero_or_eq_one.mp hle with hzero | hone
      · obtain ⟨n, hn⟩ := hup hconn ⟨hstate, hzero⟩
        exact .up n ⟨hstate, hzero⟩ hn
      · obtain ⟨n, hn⟩ := (hreports conn hconn).established hstate
        have hone' : (s.view conn).conn.destructions = 1 := hone
        rw [hone'] at hn
        exact .down n ((hd.watches conn hconn).destroyed (hone'.symm ▸ Nat.one_pos)) hone hn
  · exact hup (hd.placed.dispatched hmem).1 (hd.alive w conn hmem)

/-- A connection that was opened, has received a rejected request and is destroyed. -/
theorem callback_order_rejected : ∃ s : WebServer, (s.conns 0).destructions = 1 ∧
    CallbackOrder (s.conns 0) := by
  have hrun : ∃ s, ((webServer exampleConfig).restrict Spaced).Reachable (.init exampleConfig) s ∧
      0 < s.count ∧ (s.conns 0).destructions = 1 :=
    Program.Reachable.of_admissible
      (opened ++ received (ascii "\n") 5 ++ [.baseSwap, .baseCall, .swap 0, .call 0])
      (by decide +kernel) (by decide +kernel)
  obtain ⟨s, hreach, hcount, hs⟩ := hrun
  exact ⟨s, hs, (callback_order exampleConfig hreach).1 0 hcount⟩

end WebServer
end Httpancake
