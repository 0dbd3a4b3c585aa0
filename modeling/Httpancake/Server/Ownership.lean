import Httpancake.Server.Lifetime

/-! # When queued work keeps its connection alive

The functor that `shutdown` queues is bound to `this` and holds nothing. What keeps its connection
alive goes with the batch in which `connectDestroyed` is called, so that the other functor must be
in no later batch (`ConnView.Owned`). The idle timer can queue it later. -/

namespace Httpancake

open Bytes TcpConnection

namespace ConnView

structure Owned (v : ConnView) : Prop extends v.Held where
  pendingFuncs : .shutdownInLoop v.this ∈ v.work.pendingFuncs → v.Kept
  funcs : .shutdownInLoop v.this ∈ v.work.funcs →
    v.Kept ∨ .connectDestroyed v.this ∈ v.work.called ++ v.work.funcs
  active : v.work.active → v.Kept

variable {cfg : ServerConfig} {v v' : ConnView}

theorem owned_fresh (this : Nat) (connName : Bytes) (lp : Nat) (stage : LoopStage) :
    (WebServer.freshView this connName lp stage).Owned where
  toHeld := held_fresh this connName lp stage
  pendingFuncs _ := .inl rfl
  funcs := nofun
  active := nofun

namespace Owned

/-- A step that leaves the functors alone, and what holds the connection. -/
theorem of_held (h : v.Owned) (hheld : v'.Held) (hthis : v'.this = v.this)
    (hpending : v'.work.pendingFuncs = v.work.pendingFuncs) (hfuncs : v'.work.funcs = v.work.funcs)
    (hcalled : v'.work.called = v.work.called) (hactive : v'.work.active → v.work.active)
    (hkept : v.Kept → v'.Kept) : v'.Owned := by
  refine ⟨hheld, fun hmem => ?_, fun hmem => ?_, fun htrue => hkept (h.active (hactive htrue))⟩
  · rw [hthis, hpending] at hmem
    exact hkept (h.pendingFuncs hmem)
  · rw [hthis, hfuncs] at hmem
    rw [hthis, hcalled, hfuncs]
    exact (h.funcs hmem).imp_left hkept

/-- What is kept needs nothing else. -/
theorem of_kept (hheld : v.Held) (hkept : v.Kept) : v.Owned :=
  ⟨hheld, fun _ => hkept, fun _ => .inl hkept, fun _ => hkept⟩

/-- Nothing waits for a connection that nothing refers to. -/
theorem rename (h : v.Owned) (hnot : ¬ v.Referenced) {other : Option Nat}
    (hheld : { v with registered := other : ConnView }.Held) :
    { v with registered := other : ConnView }.Owned := by
  have hkept {p : Prop} (hkept : v.Kept) : p := absurd hkept.referenced hnot
  refine ⟨hheld, ?_, ?_, ?_⟩
  · exact fun hmem => hkept (h.pendingFuncs hmem)
  · intro hmem
    rcases h.funcs hmem with hold | hbatch
    · exact hkept hold
    · exact absurd (referenced_of_batch hbatch) hnot
  · exact fun hactive => hkept (h.active hactive)

/-- `shutdownInLoop` is queued before the worker loop takes `connectDestroyed`. -/
theorem queueShutdown (h : v.Owned)
    (hwaits : .connectDestroyed v.this ∉ v.work.called ++ v.work.funcs)
    (hdestructions : v.conn.destructions = 0)
    (hheld : ((v.setEntry (some .release)).queueInLoop (.shutdownInLoop v.this)).Held) :
    ((v.setEntry (some .release)).queueInLoop (.shutdownInLoop v.this)).Owned := by
  have hkept : v.Kept := (h.kept hdestructions).resolve_right fun hmem =>
    hwaits (List.mem_append_right _ hmem)
  exact of_kept hheld (Held.kept_queueInLoop (v := v.setEntry _) _ hkept)

/-- The functors that wait become the batch. -/
theorem swap (h : v.Owned) (hactive : v.work.active = false)
    (hheld : (v.setWork { v.work with
      stage := .funcs, funcs := v.work.pendingFuncs, pendingFuncs := [] }).Held) :
    (v.setWork
      { v.work with stage := .funcs, funcs := v.work.pendingFuncs, pendingFuncs := [] }).Owned := by
  refine ⟨hheld, nofun, ?_, ?_⟩
  · intro hmem
    rcases h.pendingFuncs hmem with hname | hwaits
    · exact .inl (.inl hname)
    · exact .inr (List.mem_append_right _ hwaits)
  · intro htrue
    rw [show v.work.active = true from htrue] at hactive
    cases hactive

/-- A functor of the batch has been called. -/
theorem called (h : v.Owned) {f : WorkFunction} {funcs : List WorkFunction} {c : ServerConn}
    {es : List ConnEffect} (hfuncs : v.work.funcs = f :: funcs)
    (hheld : ((v.called f funcs).after c es).Held) : ((v.called f funcs).after c es).Owned := by
  have hmove : v.work.called ++ [f] ++ funcs = v.work.called ++ v.work.funcs := by
    rw [hfuncs, List.append_assoc, List.singleton_append]
  refine ⟨hheld, h.pendingFuncs, ?_, h.active⟩
  intro hmem
  have hold : .shutdownInLoop v.this ∈ v.work.funcs := by
    rw [hfuncs]
    exact List.mem_cons_of_mem _ hmem
  refine (h.funcs hold).imp_right fun hmem' => ?_
  change _ ∈ v.work.called ++ [f] ++ funcs
  rw [hmove]
  exact hmem'

/-- A handler that is reported has not been destroyed. -/
theorem poll (h : v.Owned) {active : Bool} (hstage : v.work.stage = .poll)
    (hactive : active → v.conn.tcp.watched.interest ≠ none)
    (hheld : (v.setWork { v.work with stage := .events, active := active }).Held) :
    (v.setWork { v.work with stage := .events, active := active }).Owned := by
  refine ⟨hheld, h.pendingFuncs, h.funcs, ?_⟩
  intro htrue
  have hzero := h.toHeld.destructions_eq_zero fun hd => hactive htrue hd.interest
  refine (h.kept hzero).resolve_right fun hmem => ?_
  rw [h.batch (by rw [hstage]; nofun)] at hmem
  cases hmem

end Owned

/-- The names are not taken from connections that are still referred to, and `~Entry` queues
`shutdownInLoop` before the worker loop takes `connectDestroyed`. -/
def InTime (v : ConnView) : ConnEvent → Prop
  | .rename => ¬ v.Referenced
  | .erase => v.registered ≠ some v.this
  | .entry => v.entry = some .queueShutdown →
      .connectDestroyed v.this ∉ v.work.called ++ v.work.funcs ∧ v.conn.destructions = 0
  | _ => True

theorem InTime.keepsName {e : ConnEvent} (h : v.InTime e) : v.KeepsName e := by
  cases e with
  | rename | erase => exact h
  | _ => trivial

/-- **The step lemma.** -/
theorem Owned.step {e : ConnEvent} (h : v.Owned) (hintime : v.InTime e)
    (hstep : ConnStep cfg v e v') : v'.Owned := by
  have hheld : v'.Held := h.toHeld.step hintime.keepsName hstep
  cases hstep with
  | idle => exact h
  | rename => exact h.rename hintime hheld
  | erase => exact h.of_held hheld rfl rfl rfl rfl id fun hkept => .inr (hkept.resolve_left hintime)
  | lock | test | setDisconnecting | release | baseEnd | callback | enterMessage | message =>
    exact h.of_held hheld rfl rfl rfl rfl id id
  | queueShutdown hentry => exact h.queueShutdown (hintime hentry).1 (hintime hentry).2 hheld
  | remove => exact of_kept hheld (.inr (List.mem_append_right _ (List.mem_singleton_self _)))
  | poll active hstage hactive => exact h.poll hstage hactive hheld
  | dispatch active hstage hactive => exact h.of_held hheld rfl rfl rfl rfl (fun _ => hactive) id
  | swap hstage hfuncs hactive => exact h.swap hactive hheld
  | established context hfuncs | destroyed context hfuncs | shutdownInLoop hfuncs =>
    exact h.called hfuncs hheld
  | endBatch hfuncs =>
    refine ⟨hheld, h.pendingFuncs, ?_, h.active⟩
    intro hmem
    have hold : .shutdownInLoop v.this ∈ v.work.funcs := hmem
    rw [hfuncs] at hold
    cases hold

end ConnView

namespace WebServer
variable {cfg : ServerConfig} {s : WebServer}

/-- No accepted connection takes the name of one that is still referred to, and `~Entry` queues
`shutdownInLoop` before the worker loop takes `connectDestroyed`. -/
def InTime (cfg : ServerConfig) (s : WebServer) : ServerAction → Prop
  | .accept => ∀ conn < s.count, s.Referenced conn → (s.conns conn).connName ≠ s.connName cfg
  | .destroyEntry => ∀ e ∈ s.base.entry, e.2 = .queueShutdown →
      let l := s.workers (s.conns e.1).lp
      .connectDestroyed e.1 ∉ l.called ++ l.funcs ∧ (s.conns e.1).destructions = 0
  | _ => True

instance (cfg : ServerConfig) (s : WebServer) (a : ServerAction) : Decidable (s.InTime cfg a) :=
  match a with
  | .accept => inferInstanceAs (Decidable (∀ conn < s.count,
      s.Referenced conn → (s.conns conn).connName ≠ s.connName cfg))
  | .destroyEntry => inferInstanceAs (Decidable (∀ e ∈ s.base.entry, e.2 = .queueShutdown →
      .connectDestroyed e.1 ∉ (s.workers (s.conns e.1).lp).called ++
        (s.workers (s.conns e.1).lp).funcs ∧ (s.conns e.1).destructions = 0))
  | .basePoll | .onTimer _ | .baseSwap | .baseCall | .baseEnd | .poll _ _ | .dispatch _
  | .callback _ _ _ _ | .onMessage _ _ | .swap _ | .call _ | .endBatch _ | .exit _ =>
    inferInstanceAs (Decidable True)

theorem view_inTime {a : ServerAction} (howned : ∀ i < s.count, (s.view i).Owned) (h : s.Placed)
    (hok : s.InTime cfg a) {id : Nat} (hid : id < s.count) :
    (s.view id).InTime (s.event cfg id a) := by
  have hkeeps : (s.view id).KeepsName (s.event cfg id a) := by
    refine view_keepsName (fun i hi => (howned i hi).toHeld) h ?_ hid
    rintro rfl
    exact hok
  have hcause := s.event_causes cfg id a
  cases hevent : s.event cfg id a with
  | rename | erase =>
    rw [hevent] at hkeeps
    exact hkeeps
  | entry =>
    rw [hevent] at hcause
    obtain rfl : a = .destroyEntry := hcause
    intro hentry
    obtain ⟨e, hfilter, hstep⟩ := Option.map_eq_some_iff.mp hentry
    obtain ⟨hmem, hconn⟩ := Option.filter_eq_some_iff.mp hfilter
    obtain rfl : e.1 = id := of_decide_eq_true hconn
    obtain ⟨hwaits, hzero⟩ := hok e hmem hstep
    refine ⟨fun hmem => hwaits ?_, hzero⟩
    change _ ∈ (s.workers (s.conns e.1).lp).called.filter _ ++
      (s.workers (s.conns e.1).lp).funcs.filter _ at hmem
    rw [← List.filter_append] at hmem
    exact List.mem_of_mem_filter hmem
  | idle | remove | baseEnd | poll | dispatch | callback | message | swap | call | endBatch =>
    trivial

/-- **Queued work finds its connection alive**, in every run in which names are not taken from
connections that are still referred to and `~Entry` is in time. -/
theorem queued_work_referenced (cfg : ServerConfig)
    (h : ((webServer cfg).restrict (InTime cfg)).Reachable (.init cfg) s) (w : Nat) :
    (∀ conn, .shutdownInLoop conn ∈ (s.workers w).funcs → s.Referenced conn) ∧
      ∀ e ∈ (s.workers w).activeQueue, s.Referenced e.1 := by
  obtain ⟨hplaced, howned⟩ : s.Placed ∧ ∀ i < s.count, (s.view i).Owned := by
    refine views_of_reachable h ConnView.owned_fresh ?_
    intro s a id v' hplaced howned hok hstep hid
    exact (howned id hid).step (view_inTime howned hplaced hok hid) hstep
  have hwork := hplaced.work w
  refine ⟨fun conn hmem => ?_, fun e he => ?_⟩
  · obtain ⟨hlt, hlp⟩ : s.Owns w conn := hwork.functor (.shutdownInLoop conn) (by simp [hmem])
    have hview : .shutdownInLoop conn ∈ (s.view conn).work.funcs := by
      change _ ∈ (s.workers (s.conns conn).lp).funcs.filter _
      rw [hlp]
      exact List.mem_filter.mpr ⟨hmem, decide_eq_true rfl⟩
    apply view_referenced.mp
    rcases (howned conn hlt).funcs hview with hkept | hbatch
    · exact hkept.referenced
    · exact ConnView.referenced_of_batch hbatch
  · obtain ⟨hlt, hlp⟩ := hwork.active e he
    have hactive : (s.view e.1).work.active = true := by
      change decide (e.1 ∈ (s.workers (s.conns e.1).lp).activeQueue.map Prod.fst) = true
      rw [hlp]
      exact decide_eq_true (List.mem_map_of_mem he)
    exact view_referenced.mp ((howned e.1 hlt).active hactive).referenced

/-- A bucket is dropped every second. -/
def exampleExpires : ServerConfig := { exampleConfig with expiredSec := 1 }

/-- The peer closes its side, and the base loop removes the connection. -/
def peerClosed : List ServerAction :=
  [.callback 0 (some []) none noFiles, .baseSwap, .baseCall, .baseEnd, .basePoll]

/-- The idle timer shuts a connection down that no one has closed. -/
theorem queued_work_referenced_idle :
    ∃ s : WebServer, .shutdownInLoop 0 ∈ (s.workers 0).funcs ∧ s.Referenced 0 := by
  have hrun : ∃ s, ((webServer exampleExpires).restrict (InTime exampleExpires)).Reachable
      (.init exampleExpires) s ∧ .shutdownInLoop 0 ∈ (s.workers 0).funcs :=
    Program.Reachable.of_admissible
      (opened ++ [.callback 0 none none noFiles, .onTimer [0]] ++ List.replicate 5 .destroyEntry ++
        [.swap 0])
      (by decide +kernel) (by decide +kernel)
  obtain ⟨s, hreach, hmem⟩ := hrun
  exact ⟨s, hmem, (queued_work_referenced exampleExpires hreach 0).1 0 hmem⟩

/-- `~Entry` has locked a connection that is being removed and tests its state; the worker loop
runs `connectDestroyed`; only then `shutdownInLoop` is queued. -/
theorem queued_work_dangles :
    ∃ s : WebServer, (webServer exampleExpires).Reachable (.init exampleExpires) s ∧
      (s.workers 0).stage = .funcs ∧ (s.workers 0).funcs = [.shutdownInLoop 0] ∧
      ¬ s.Referenced 0 :=
  Program.Reachable.of_admissible
    (opened ++ peerClosed ++ [.onTimer [0], .destroyEntry, .destroyEntry, .swap 0, .call 0,
      .endBatch 0, .destroyEntry, .destroyEntry, .destroyEntry, .poll 0 [], .swap 0])
    (by decide +kernel) (by decide +kernel)

end WebServer
end Httpancake
