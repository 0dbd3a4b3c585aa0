import Httpancake.Server.Descriptors

/-! # No connection is lost

From `accept` on a connection is in `connections_`, or its `connectDestroyed` waits on the worker
loop, or it has been destroyed, and these exclude each other (`ConnView.Stage`). So a server whose
queues are empty holds the connections that have not closed and no others
(`WebServer.no_connection_lost`). -/

namespace Httpancake

open Bytes

namespace ConnView

/-- A connection has not lost its name, or its end has begun. -/
def Accounted (v : ConnView) : Prop :=
  v.registered = some v.this ∨ 0 < v.destroying + v.conn.destructions

variable {cfg : ServerConfig} {v v' : ConnView}

theorem accounted_fresh (this : Nat) (connName : Bytes) (lp : Nat) (stage : LoopStage) :
    (WebServer.freshView this connName lp stage).Accounted := .inl rfl

/-- What takes the name of a connection: its removal, or what `KeepsName` excludes. -/
theorem registered_of_keepsName {e : ConnEvent} (hstep : ConnStep cfg v e v')
    (hkeeps : v.KeepsName e) (hne : e ≠ .remove) (hname : v.registered = some v.this) :
    v'.registered = some v.this := by
  cases hstep with
  | rename => exact absurd (.inl hname) hkeeps
  | erase => exact absurd hname hkeeps
  | remove => exact absurd rfl hne
  | _ => exact hname

/-- **The step lemma.** -/
theorem Accounted.step {e : ConnEvent} (h : v.Accounted) (hheld : v.Held)
    (hkeeps : v.KeepsName e) (hstep : ConnStep cfg v e v') : v'.Accounted := by
  by_cases hremove : e = .remove
  · subst hremove
    obtain ⟨-, -, hends⟩ := ends_remove hheld hstep
    exact .inr (by omega)
  · rw [Accounted, this_step hstep, ends_step hstep hremove]
    exact h.imp_left (registered_of_keepsName hstep hkeeps hremove)

/-- Where a connection is on its way. -/
inductive Stage (v : ConnView) : Prop
  /-- In `connections_`; every call of `closeCb_` is still queued. -/
  | held (hname : v.registered = some v.this) (hclosings : v.closings = v.removals)
    (hends : v.destroying = 0 ∧ v.conn.destructions = 0)
  /-- Erased; `connectDestroyed` is queued. -/
  | removed (hname : v.registered ≠ some v.this) (hclosings : 0 < v.closings)
    (hends : v.destroying = 1 ∧ v.conn.destructions = 0)
  | gone (hname : v.registered ≠ some v.this) (hclosings : 0 < v.closings)
    (hends : v.destroying = 0 ∧ v.conn.destructions = 1)

theorem Accounted.stage (h : v.Accounted) (honce : v.EndsOnce)
    (hclosings : v.closings = v.removals + v.destroying + v.conn.destructions) : v.Stage := by
  have hle := honce.le
  by_cases hname : v.registered = some v.this
  · have hzero := honce.registered hname
    exact .held hname (by omega) (by omega)
  · have hpos := h.resolve_left hname
    rcases Nat.eq_zero_or_pos v.conn.destructions with hzero | hone
    · exact .removed hname (by omega) (by omega)
    · exact .gone hname (by omega) (by omega)

end ConnView

/-- The functors of a loop, from the current batch on. -/
def WorkLoop.functors (l : WorkLoop) : List WorkFunction := l.called ++ l.funcs ++ l.pendingFuncs

namespace WebServer
variable {cfg : ServerConfig} {s : WebServer}

theorem accounted_of_reachable
    (h : ((webServer cfg).restrict (NameFree cfg)).Reachable (.init cfg) s) :
    ∀ conn < s.count, (s.view conn).Accounted := by
  induction h with
  | start =>
    intro conn hconn
    cases hconn
  | @step s a s' accesses hreach hpre hexec ih =>
    have hunique := Unique.of_reachable hreach
    apply (exec_steps hunique.placed hpre.1 hexec).forall_view ConnView.accounted_fresh
    intro conn hconn hstep
    refine (ih conn hconn).step (hunique.held conn hconn) ?_ hstep
    apply view_keepsName hunique.held hunique.placed _ hconn
    rintro rfl
    exact hpre.2

/-- Nothing waits in the loops of the connections, and no batch and no `~Entry` holds one. -/
structure Quiet (s : WebServer) : Prop where
  base : s.base.called ++ s.base.funcs ++ s.base.pendingFuncs = []
  entry : s.base.entry = none
  work : ∀ conn < s.count, (s.workers (s.conns conn).lp).functors = []

instance (s : WebServer) : Decidable s.Quiet :=
  decidable_of_iff (s.base.called ++ s.base.funcs ++ s.base.pendingFuncs = [] ∧
      s.base.entry = none ∧ ∀ conn < s.count, (s.workers (s.conns conn).lp).functors = [])
    ⟨fun h => ⟨h.1, h.2.1, h.2.2⟩, fun h => ⟨h.base, h.entry, h.work⟩⟩

/-- Only `connections_` keeps a connection. -/
theorem Quiet.referenced_iff (h : s.Quiet) {conn : Nat} (hconn : conn < s.count) :
    s.Referenced conn ↔ s.connections (s.conns conn).connName = some conn := by
  have hwork := h.work conn hconn
  rw [WorkLoop.functors] at hwork
  simp [Referenced, h.base, h.entry, hwork]

theorem Quiet.removals (h : s.Quiet) (conn : Nat) : (s.view conn).removals = 0 := by
  have hbase := h.base
  simp only [List.append_eq_nil_iff] at hbase
  change s.base.funcs.count conn + s.base.pendingFuncs.count conn = 0
  rw [hbase.1.2, hbase.2]
  rfl

theorem Quiet.destroying (h : s.Quiet) {conn : Nat} (hconn : conn < s.count) :
    (s.view conn).destroying = 0 := by
  have hwork := h.work conn hconn
  simp only [WorkLoop.functors, List.append_eq_nil_iff] at hwork
  simp [ConnView.destroying, view, WorkLoop.view, hwork.1.2, hwork.2]

/-- What the server has of a connection when its queues are empty. -/
structure Settled (s : WebServer) (conn : Nat) : Prop where
  exists_iff : s.Referenced conn ↔ .closeCb ∉ (s.conns conn).log
  connections_iff :
    s.connections (s.conns conn).connName = some conn ↔ .closeCb ∉ (s.conns conn).log
  destructions :
    (s.conns conn).destructions = if .closeCb ∈ (s.conns conn).log then 1 else 0

theorem Quiet.settled (h : s.Quiet) {conn : Nat} (hconn : conn < s.count)
    (hstage : (s.view conn).Stage) : s.Settled conn := by
  have hdestroying := h.destroying hconn
  have hremovals := h.removals conn
  have hsettled (hiff : s.connections (s.conns conn).connName = some conn ↔
      .closeCb ∉ (s.conns conn).log) (hends : (s.conns conn).destructions =
      if .closeCb ∈ (s.conns conn).log then 1 else 0) : s.Settled conn :=
    ⟨(h.referenced_iff hconn).trans hiff, hiff, hends⟩
  cases hstage with
  | held hname hclosings hends =>
    have hopen : .closeCb ∉ (s.conns conn).log :=
      List.count_eq_zero.mp (hclosings.trans hremovals)
    exact hsettled (iff_of_true hname hopen) (by rw [if_neg hopen]; exact hends.2)
  | removed hname hclosings hends => exact absurd (hends.1.symm.trans hdestroying) Nat.one_ne_zero
  | gone hname hclosings hends =>
    have hclosed : .closeCb ∈ (s.conns conn).log := List.count_pos_iff.mp hclosings
    exact hsettled (iff_of_false hname (not_not_intro hclosed))
      (by rw [if_pos hclosed]; exact hends.2)

/-- **No connection is lost**, in every run in which no connection outlives `2 ^ 32` others: each
is in `connections_`, or on its way out, or destroyed; and once the queues are empty the server
has exactly those that never closed, while each of the others was destroyed once. -/
theorem no_connection_lost (cfg : ServerConfig)
    (h : ((webServer cfg).restrict Spaced).Reachable (.init cfg) s) :
    (∀ conn < s.count, (s.view conn).Stage) ∧
      (s.Quiet → ∀ conn < s.count, s.Settled conn) := by
  have hfree := nameFree_of_spaced h
  have hstage (conn : Nat) (hconn : conn < s.count) : (s.view conn).Stage :=
    (accounted_of_reachable hfree conn hconn).stage (endsOnce_of_reachable hfree conn hconn)
      ((unique_of_spaced h).closings conn hconn)
  exact ⟨hstage, fun hquiet conn hconn => hquiet.settled hconn (hstage conn hconn)⟩

/-- The first connection has come and gone, the second one is open. -/
theorem no_connection_lost_twice : ∃ s : WebServer, s.Quiet ∧ s.count = 2 ∧
    .closeCb ∈ (s.conns 0).log ∧ s.Settled 0 ∧ .closeCb ∉ (s.conns 1).log ∧ s.Settled 1 := by
  have hrun : ∃ s, ((webServer exampleConfig).restrict Spaced).Reachable (.init exampleConfig) s ∧
      s.Quiet ∧ s.count = 2 ∧ .closeCb ∈ (s.conns 0).log ∧ .closeCb ∉ (s.conns 1).log :=
    Program.Reachable.of_admissible
      (twice ++ [.baseSwap, .baseEnd, .poll 0 [], .swap 0, .call 0, .endBatch 0])
      (by decide +kernel) (by decide +kernel)
  obtain ⟨s, hreach, hquiet, hcount, hgone, hopen⟩ := hrun
  have hsettled := (no_connection_lost exampleConfig hreach).2 hquiet
  exact ⟨s, hquiet, hcount, hgone, hsettled 0 (by omega), hopen, hsettled 1 (by omega)⟩

end WebServer
end Httpancake
