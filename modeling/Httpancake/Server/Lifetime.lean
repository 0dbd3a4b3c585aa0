import Httpancake.Server.Removal

/-! # How long a connection lives

What keeps a connection alive is `connections_` and, after the removal, the functor of
`connectDestroyed`, which goes with the batch in which it is called (`ConnView.Held`). From then on
the connection asks for nothing that would hold it, so that it never comes back
(`ConnView.Held.referenced_of_step`). -/

namespace Httpancake

open Bytes TcpConnection

namespace TcpConnection

/-- What `connectDestroyed` leaves: the connection neither closes nor watches again. -/
structure Destroyed (c : TcpConnection) : Prop where
  not_connected : c.state ≠ .connected
  not_connecting : c.state ≠ .connecting
  events : c.handler.events = .none
  interest : c.watched.interest = none

namespace Destroyed
variable {c c' : TcpConnection} {es : List ConnEffect} {read : Option Bytes} {write : Option Nat}

theorem of_connectDestroyed (h : c.connectDestroyed = some (c', es)) : c'.Destroyed := by
  obtain ⟨hstate, -, hevents, hinterest, -⟩ := connectDestroyed_spec h
  exact ⟨by rw [hstate]; nofun, by rw [hstate]; nofun, hevents, hinterest⟩

theorem callback (h : c.Destroyed) {cb : EventCallback}
    (hcall : c.callback read write cb = some (c', es)) : c'.Destroyed := by
  cases callback_outcome hcall with
  | close hcloses | endOfStream hread hcloses =>
    exact absurd hcloses.connected h.not_connected
  | message hread hconn hes =>
    rw [hconn]
    exact ⟨h.not_connected, h.not_connecting, h.events, h.interest⟩
  | quiet hwrites hidle =>
    have hnone : c.isWriting = false := by
      rw [isWriting, Handler.isWriting, h.events]
      rfl
    exact (hidle hnone).1 ▸ h

theorem perform (h : c.Destroyed) {effects : List Effect}
    (hperform : c.perform write effects = some (c', es)) : c'.Destroyed := by
  rw [perform_of_not_connected h.not_connected] at hperform
  cases hperform
  exact h

theorem ofFrame {c : ServerConn} (h : c.tcp.Destroyed) (frame : OnMessage) :
    (c.ofFrame frame).tcp.Destroyed :=
  ⟨h.not_connected, h.not_connecting, h.events, h.interest⟩

end Destroyed

end TcpConnection

namespace ConnView

/-- The removal is still to come, or `connectDestroyed` waits in the queue. -/
def Kept (v : ConnView) : Prop :=
  v.registered = some v.this ∨ .connectDestroyed v.this ∈ v.work.pendingFuncs

structure Held (v : ConnView) : Prop where
  registered : v.Referenced → v.registered = some v.this ∨ v.registered = none
  batch : v.work.stage ≠ .funcs → v.work.funcs = []
  kept : v.conn.destructions = 0 → v.Kept ∨ .connectDestroyed v.this ∈ v.work.funcs
  destroyed : 0 < v.conn.destructions → v.conn.tcp.Destroyed

/-- The name is not taken from a connection that is still referred to, and not erased with
another. -/
def KeepsName (v : ConnView) : ConnEvent → Prop
  | .rename => ¬ v.Referenced
  | .erase => v.registered ≠ some v.this
  | _ => True

variable {cfg : ServerConfig} {v v' : ConnView}

theorem held_fresh (this : Nat) (connName : Bytes) (lp : Nat) (stage : LoopStage) :
    (WebServer.freshView this connName lp stage).Held where
  registered _ := .inl rfl
  batch _ := rfl
  kept _ := .inl (.inl rfl)
  destroyed := nofun

theorem Kept.referenced (h : v.Kept) : v.Referenced :=
  h.imp_right fun hmem => .inr (.inl ⟨_, List.mem_append_right _ hmem, rfl⟩)

theorem referenced_of_batch
    (h : .connectDestroyed v.this ∈ v.work.called ++ v.work.funcs) : v.Referenced :=
  .inr (.inr (.inl ⟨_, List.mem_append_left _ h, rfl⟩))

/-- A step changes what is under the name only by a new connection, or by a removal. -/
theorem registered_step {e : ConnEvent} (hstep : ConnStep cfg v e v') :
    v'.registered = v.registered ∨ v'.registered = none ∨ e = .rename := by
  cases hstep with
  | rename => exact .inr (.inr rfl)
  | erase | remove => exact .inr (.inl rfl)
  | _ => exact .inl rfl

/-- What a batch holds, with one functor of it called. -/
theorem called_referenced {f : WorkFunction} {funcs : List WorkFunction} {c : ServerConn}
    {es : List ConnEffect} (hfuncs : v.work.funcs = f :: funcs) (hquiet : .closeCb ∉ es)
    (href : ((v.called f funcs).after c es).Referenced) : v.Referenced := by
  have hmove : v.work.called ++ [f] ++ funcs = v.work.called ++ v.work.funcs := by
    rw [hfuncs, List.append_assoc, List.singleton_append]
  have hcount : es.count .closeCb = 0 := List.count_eq_zero.mpr hquiet
  simp only [Referenced, ConnView.called, ConnView.after, ConnView.setWork, hmove, hcount,
    Nat.add_zero] at href
  exact href

namespace Held

theorem referenced_of_kept (h : v.Held) (hdestructions : v.conn.destructions = 0) :
    v.Referenced := by
  rcases h.kept hdestructions with hkept | hmem
  · exact hkept.referenced
  · exact referenced_of_batch (List.mem_append_right _ hmem)

/-- A connection that can close, or whose socket is watched, has not been destroyed. -/
theorem destructions_eq_zero (h : v.Held) (hnot : ¬ v.conn.tcp.Destroyed) :
    v.conn.destructions = 0 := by
  by_contra hne
  exact hnot (h.destroyed (Nat.pos_of_ne_zero hne))

/-- Only a connection that is alive closes. -/
theorem after_referenced (h : v.Held) {c : ServerConn} {es : List ConnEffect}
    (hclose : .closeCb ∈ es → v.conn.tcp.state = .connected) (href : (v.after c es).Referenced) :
    v.Referenced := by
  by_cases hes : .closeCb ∈ es
  · exact h.referenced_of_kept (h.destructions_eq_zero fun hd => hd.not_connected (hclose hes))
  · simp only [Referenced, ConnView.after, List.count_eq_zero.mpr hes, Nat.add_zero] at href
    exact href

/-- **Nothing comes back.** What is referred to after a step was referred to before it. -/
theorem referenced_of_step {e : ConnEvent} (h : v.Held) (hstep : ConnStep cfg v e v')
    (href : v'.Referenced) : v.Referenced := by
  have hlocked {step : EntryStep} (hentry : v.entry = some step) : v.Referenced :=
    .inr (.inr (.inr (by simp [hentry])))
  cases hstep with
  | idle => exact href
  | rename other hne => exact href.imp_left fun heq => absurd (Option.some.inj heq) hne
  | erase => exact href.imp_left fun hname => by cases hname
  | lock hold => exact hold
  | test hentry | setDisconnecting hentry | queueShutdown hentry | release hentry =>
    exact hlocked hentry
  | remove hremovals => exact .inr (.inl (Nat.add_pos_right _ hremovals))
  | baseEnd => exact href.imp_right (Or.imp_left fun hpos => by simp at hpos; omega)
  | poll | dispatch => exact href
  | callback hstage hnone hcall => exact h.after_referenced (callback_closeCb hcall) href
  | enterMessage hstage hnone hcall =>
    exact h.after_referenced (c := v.conn) (callback_closeCb hcall) href
  | message hm hstep hpc hperform =>
    refine h.after_referenced (c := v.conn) (fun hmem => ?_) href
    by_contra hne
    have hcount := List.count_pos_iff.mpr hmem
    rw [ServerConn.count_perform hperform, if_neg hne] at hcount
    cases hcount
  | swap hstage hfuncs =>
    refine href.imp_right (Or.imp_right (Or.imp_left ?_))
    rintro ⟨f, hf, hholds⟩
    refine ⟨f, ?_, hholds⟩
    simpa [ConnView.setWork, hfuncs] using hf
  | established context hfuncs hstage hcall =>
    obtain ⟨-, -, -, rfl⟩ := connectEstablished_spec hcall
    exact called_referenced hfuncs (by simp) href
  | destroyed context hfuncs hstage hcall =>
    obtain ⟨-, -, -, -, rfl⟩ := connectDestroyed_spec hcall
    exact called_referenced hfuncs (by simp) href
  | shutdownInLoop hfuncs hstage =>
    exact called_referenced hfuncs (shutdownInLoop_quiet _).1 href
  | endBatch hfuncs =>
    refine href.imp_right (Or.imp_right (Or.imp_left ?_))
    rintro ⟨f, hf, hholds⟩
    refine ⟨f, ?_, hholds⟩
    rw [List.append_assoc]
    exact List.mem_append_right _ hf

/-- Queueing on the worker loop keeps what waits there. -/
theorem kept_queueInLoop (f : WorkFunction) (h : v.Kept) : (v.queueInLoop f).Kept :=
  h.imp_right fun hmem => List.mem_append_left _ hmem

/-- The functors of the batch up to `connectDestroyed`. -/
theorem kept_called (h : v.Held) {f : WorkFunction} {funcs : List WorkFunction}
    (hfuncs : v.work.funcs = f :: funcs) (hdestructions : v.conn.destructions = 0)
    (hne : f ≠ .connectDestroyed v.this) : v.Kept ∨ .connectDestroyed v.this ∈ funcs := by
  refine (h.kept hdestructions).imp_right fun hmem => ?_
  rw [hfuncs] at hmem
  exact (List.mem_cons.mp hmem).resolve_left fun heq => hne heq.symm

/-- **The step lemma.** -/
theorem step {e : ConnEvent} (h : v.Held) (hname : v.KeepsName e) (hstep : ConnStep cfg v e v') :
    v'.Held := by
  have hregistered (hthis : v'.this = v.this) (href : v'.Referenced) :
      v'.registered = some v'.this ∨ v'.registered = none := by
    have hold := h.referenced_of_step hstep href
    rw [hthis]
    rcases registered_step hstep with heq | hnone | rfl
    · rw [heq]
      exact h.registered hold
    · exact .inr hnone
    · exact absurd hold hname
  cases hstep with
  | idle => exact h
  | rename =>
    refine ⟨hregistered rfl, h.batch, fun hzero => ?_, h.destroyed⟩
    exact absurd (h.referenced_of_kept hzero) hname
  | erase =>
    refine ⟨hregistered rfl, h.batch, fun hzero => ?_, h.destroyed⟩
    exact (h.kept hzero).imp_left fun hkept => .inr (hkept.resolve_left hname)
  | lock | test | release | baseEnd => exact ⟨hregistered rfl, h.batch, h.kept, h.destroyed⟩
  | setDisconnecting =>
    refine ⟨hregistered rfl, h.batch, h.kept, fun hpos => ?_⟩
    have hd := h.destroyed hpos
    exact ⟨nofun, nofun, hd.events, hd.interest⟩
  | queueShutdown =>
    refine ⟨hregistered rfl, h.batch, fun hzero => (h.kept hzero).imp_left ?_, h.destroyed⟩
    exact kept_queueInLoop (v := v.setEntry _) _
  | remove =>
    refine ⟨hregistered rfl, h.batch, fun _ => .inl (.inr ?_), h.destroyed⟩
    exact List.mem_append_right _ (List.mem_singleton_self _)
  | poll active hstage =>
    exact ⟨hregistered rfl, fun _ => h.batch (by rw [hstage]; nofun), h.kept, h.destroyed⟩
  | dispatch => exact ⟨hregistered rfl, h.batch, h.kept, h.destroyed⟩
  | callback hstage hnone hcall | enterMessage hstage hnone hcall =>
    exact ⟨hregistered rfl, h.batch, h.kept, fun hpos => (h.destroyed hpos).callback hcall⟩
  | message hm hstep hpc hperform =>
    refine ⟨hregistered rfl, h.batch, h.kept, fun hpos => ?_⟩
    exact ((h.destroyed hpos).ofFrame _).perform hperform
  | swap hstage hfuncs =>
    refine ⟨hregistered rfl, fun hne => absurd rfl hne, fun hzero => ?_, h.destroyed⟩
    rcases h.kept hzero with (hname | hmem) | hmem
    · exact .inl (.inl hname)
    · exact .inr hmem
    · rw [hfuncs] at hmem
      cases hmem
  | established context hfuncs hstage hcall =>
    refine ⟨hregistered rfl, fun hne => absurd hstage hne, fun hzero => ?_, fun hpos => ?_⟩
    · exact h.kept_called hfuncs hzero nofun
    · exact absurd (connectEstablished_spec hcall).1 (h.destroyed hpos).not_connecting
  | destroyed context hfuncs hstage hcall =>
    refine ⟨hregistered rfl, fun hne => absurd hstage hne, nofun, fun _ => ?_⟩
    exact .of_connectDestroyed hcall
  | shutdownInLoop hfuncs hstage =>
    refine ⟨hregistered rfl, fun hne => absurd hstage hne, fun hzero => ?_, h.destroyed⟩
    exact h.kept_called hfuncs hzero nofun
  | endBatch hfuncs => exact ⟨hregistered rfl, fun _ => hfuncs, h.kept, h.destroyed⟩

end Held
end ConnView

namespace WebServer
variable {cfg : ServerConfig} {s : WebServer}

/-- What a removal erases belongs to its own connection. -/
theorem registered_of_removal (hheld : ∀ i < s.count, (s.view i).Held) (h : s.Placed) {conn : Nat}
    (hmem : conn ∈ s.base.called ++ s.base.funcs ++ s.base.pendingFuncs) :
    s.connections (s.conns conn).connName = some conn ∨
      s.connections (s.conns conn).connName = none := by
  have href : (s.view conn).Referenced := view_referenced.mpr (.inr (.inl hmem))
  exact (hheld conn (h.removal conn hmem)).registered href

theorem view_keepsName {a : ServerAction} (hheld : ∀ i < s.count, (s.view i).Held) (h : s.Placed)
    (hfree : a = .accept → ∀ conn < s.count, s.Referenced conn →
      (s.conns conn).connName ≠ s.connName cfg) {id : Nat} (hid : id < s.count) :
    (s.view id).KeepsName (s.event cfg id a) := by
  have hcause := s.event_causes cfg id a
  cases hevent : s.event cfg id a with
  | rename =>
    rw [hevent] at hcause
    obtain ⟨rfl, hname⟩ := hcause
    intro href
    exact hfree rfl id hid (view_referenced.mp href) hname.symm
  | erase =>
    rw [hevent] at hcause
    obtain ⟨rfl, c, hhead, hne, hname⟩ := hcause
    have hmem : c ∈ s.base.funcs := List.mem_of_mem_head? hhead
    change s.connections (s.conns id).connName ≠ some id
    rw [← hname]
    intro heq
    have hall : c ∈ s.base.called ++ s.base.funcs ++ s.base.pendingFuncs := by simp [hmem]
    rcases registered_of_removal hheld h hall with hown | hnone
    · exact hne (Option.some.inj (hown.symm.trans heq))
    · exact nomatch hnone.symm.trans heq
  | _ => trivial

end WebServer
end Httpancake
