import Httpancake.Http.Delimiting
import Httpancake.Server.Lifetime

/-! # The names of the connections

The name of a connection ends in `nextConnId_`, an `int` that every accepted connection increments.
So two connections have the same name when a multiple of `2 ^ 32` connections were accepted from
one to the other (`WebServer.nameOf_eq_iff`). As long as no connection outlives that many others,
names are unique (`WebServer.names_unique`). -/

namespace Httpancake

open Bytes

namespace WebServer
variable {cfg : ServerConfig} {s s' : WebServer}

/-! ## The counter -/

theorem decimal_ofNat (n : Nat) : decimal (.ofNat n) = ascii (toString n) := rfl

theorem decimal_negSucc (n : Nat) : decimal (.negSucc n) = 45 :: ascii (toString (n + 1)) := by
  have htext : toString (Int.negSucc n) = "-" ++ toString (n + 1) := rfl
  rw [decimal, htext, ascii, String.toList_append]
  rfl

theorem ascii_toString_injective {m n : Nat} (h : ascii (toString m) = ascii (toString n)) :
    m = n := by
  have hparse := parseDecimal_toString m
  rw [h, parseDecimal_toString] at hparse
  exact (Option.some.inj hparse).symm

theorem decimal_injective {m n : Int} (h : decimal m = decimal n) : m = n := by
  have hdash (k : Nat) : (45 : UInt8) ∉ ascii (toString k) := by
    rw [ascii_toString]
    intro hmem
    obtain ⟨c, hc, heq⟩ := List.mem_map.mp hmem
    have hd := isDigit_of_isDigit (Nat.isDigit_of_mem_toDigits (by decide) (by decide) hc)
    rw [heq] at hd
    exact absurd hd (by decide)
  cases m with
  | ofNat m =>
    cases n with
    | ofNat n => exact congrArg Int.ofNat (ascii_toString_injective h)
    | negSucc n =>
      rw [decimal_ofNat, decimal_negSucc] at h
      exact absurd (h ▸ List.mem_cons_self) (hdash m)
  | negSucc m =>
    cases n with
    | ofNat n =>
      rw [decimal_negSucc, decimal_ofNat] at h
      exact absurd (h ▸ List.mem_cons_self) (hdash n)
    | negSucc n =>
      rw [decimal_negSucc, decimal_negSucc] at h
      exact congrArg Int.negSucc (Nat.succ.inj (ascii_toString_injective (List.cons.inj h).2))

/-- `nextConnId_` when the connection is accepted. -/
def connIdOf (conn : Nat) : Int := ((conn : Int) + 1).bmod (2 ^ 32)

def nameOf (cfg : ServerConfig) (conn : Nat) : Bytes :=
  cfg.serverName ++ ascii "#" ++ decimal (connIdOf conn)

theorem connIdOf_zero : connIdOf 0 = 1 := by decide

theorem succ32_connIdOf (conn : Nat) : succ32 (connIdOf conn) = connIdOf (conn + 1) :=
  Int.bmod_add_bmod

theorem bmod_succ_eq_iff {m i j : Nat} (h : i ≤ j) :
    ((i : Int) + 1).bmod m = ((j : Int) + 1).bmod m ↔ m ∣ j - i := by
  rw [eq_comm, Int.bmod_add_cancel_right, Int.bmod_eq_bmod_iff_bmod_sub_eq_zero,
    ← Int.dvd_iff_bmod_eq_zero, ← Int.ofNat_sub h, Int.natCast_dvd_natCast]

/-- **When two names are the same.** -/
theorem nameOf_eq_iff {i j : Nat} (h : i ≤ j) : nameOf cfg i = nameOf cfg j ↔ 2 ^ 32 ∣ j - i := by
  have hid : connIdOf i = connIdOf j ↔ 2 ^ 32 ∣ j - i := bmod_succ_eq_iff h
  rw [← hid]
  constructor
  · exact fun hname => decimal_injective (List.append_cancel_left hname)
  · exact fun heq => congrArg (cfg.serverName ++ ascii "#" ++ decimal ·) heq

/-! ## The table -/

/-- A step that accepts no connection gives no name. -/
structure KeepsNames (s s' : WebServer) : Prop where
  nextConnId : s'.nextConnId = s.nextConnId
  count : s'.count = s.count
  connections : ∀ name conn, s'.connections name = some conn → s.connections name = some conn

theorem KeepsNames.of_eq (hid : s'.nextConnId = s.nextConnId) (hcount : s'.count = s.count)
    (hconnections : s'.connections = s.connections) : s.KeepsNames s' :=
  ⟨hid, hcount, fun _ _ h => hconnections ▸ h⟩

theorem destroyEntry_keepsNames : s.KeepsNames s.destroyEntry := by
  rw [destroyEntry]
  split
  · split
    · exact .of_eq rfl rfl rfl
    · simp only
      split_ifs <;> exact .of_eq rfl rfl rfl
  · exact .of_eq rfl rfl rfl
  · exact .of_eq rfl rfl rfl
  · exact .of_eq rfl rfl rfl
  · exact .of_eq rfl rfl rfl

theorem callback_keepsNames {w : Nat} {read : Option Bytes} {write : Option Nat} {fs : FileSystem}
    {tables : List SharedTable} (h : s.callback cfg w read write fs = some (s', tables)) :
    s.KeepsNames s' := by
  rw [callback] at h
  split at h
  · cases h
  · simp only [Option.bind_eq_bind, Option.bind_eq_some_iff] at h
    obtain ⟨r, -, h⟩ := h
    split_ifs at h
    · obtain ⟨connBuckets, rfl⟩ := enterMessage_eq_some h
      exact .of_eq rfl rfl rfl
    · cases h
      exact .of_eq rfl rfl rfl

theorem runFunctor_keepsNames {f : WorkFunction} {tables : List SharedTable}
    (h : s.runFunctor cfg f = some (s', tables)) : s.KeepsNames s' := by
  obtain ⟨c, es, connBuckets, rfl⟩ := runFunctor_eq_some h
  exact .of_eq rfl rfl rfl

theorem exec_keepsNames {a : ServerAction} {accesses : List Access}
    (h : s.exec cfg a = some (s', accesses)) (hne : a ≠ .accept) : s.KeepsNames s' := by
  cases a with
  | accept => exact absurd rfl hne
  | basePoll | onTimer | baseSwap | baseEnd | poll | swap | endBatch =>
    cases h
    exact .of_eq rfl rfl rfl
  | destroyEntry =>
    cases h
    exact destroyEntry_keepsNames
  | baseCall =>
    rw [exec] at h
    split at h
    · cases h
    · obtain ⟨s₁, hremove, heq⟩ := Option.map_eq_some_iff.mp h
      cases heq
      rw [handleRemoveConnectionInLoop] at hremove
      split_ifs at hremove
      cases hremove
      refine ⟨rfl, rfl, fun name conn hconn => ?_⟩
      simp only [queueInLoop, modifyWorker, eraseConnection, Function.update_apply] at hconn
      split_ifs at hconn
      exact hconn
  | dispatch w =>
    rw [exec] at h
    split at h <;> cases h
    exact .of_eq rfl rfl rfl
  | callback w read write fs =>
    obtain ⟨r, hcallback, heq⟩ := Option.map_eq_some_iff.mp h
    cases heq
    exact callback_keepsNames hcallback
  | onMessage w write =>
    obtain ⟨m, -, hexec⟩ := Option.bind_eq_some_iff.mp h
    obtain ⟨s₁, hstep, heq⟩ := Option.map_eq_some_iff.mp hexec
    cases heq
    obtain ⟨frame, effects, tcp, es, -, -, -, rfl⟩ := messageStep_eq_some hstep
    exact .of_eq rfl rfl rfl
  | call w =>
    obtain ⟨r, hcall, heq⟩ := Option.map_eq_some_iff.mp h
    cases heq
    rw [call] at hcall
    split at hcall
    · cases hcall
    · have hkeeps := runFunctor_keepsNames hcall
      exact ⟨hkeeps.nextConnId, hkeeps.count, hkeeps.connections⟩
  | exit => cases h

/-- No step changes the name of a connection. -/
theorem connName_step {v v' : ConnView} {e : ConnEvent} (hstep : ConnStep cfg v e v') :
    v'.conn.connName = v.conn.connName := by
  cases hstep <;> rfl

/-- The names, their counter and the table belong together. -/
structure Named (cfg : ServerConfig) (s : WebServer) : Prop where
  placed : s.Placed
  nextConnId : s.nextConnId = connIdOf s.count
  connName : ∀ conn < s.count, (s.conns conn).connName = nameOf cfg conn
  connections : ∀ name conn, s.connections name = some conn → (s.conns conn).connName = name

theorem Named.next (h : s.Named cfg) : s.connName cfg = nameOf cfg s.count := by
  rw [WebServer.connName, h.nextConnId, nameOf]

/-- The name of the next connection, compared with the name of one that was accepted. -/
theorem Named.eq_next_iff (h : s.Named cfg) {conn : Nat} (hconn : conn < s.count) :
    (s.conns conn).connName = s.connName cfg ↔ 2 ^ 32 ∣ s.count - conn := by
  rw [h.connName conn hconn, h.next, nameOf_eq_iff hconn.le]

theorem Named.step {a : ServerAction} {accesses : List Access} (h : s.Named cfg)
    (hpre : s.Pre cfg a) (hexec : s.exec cfg a = some (s', accesses)) : s'.Named cfg := by
  have hsteps := exec_steps h.placed hpre hexec
  have hold (conn : Nat) (hconn : conn < s.count) :
      (s'.conns conn).connName = (s.conns conn).connName :=
    connName_step (hsteps.view conn hconn)
  rcases eq_or_ne a .accept with rfl | hne
  · obtain ⟨s₁, hnew, heq⟩ := Option.map_eq_some_iff.mp hexec
    cases heq
    rw [handleNewConnection] at hnew
    split_ifs at hnew
    cases hnew
    refine ⟨hsteps.placed, ?_, fun conn hconn => ?_, fun name conn hconn => ?_⟩
    · exact (congrArg succ32 h.nextConnId).trans (succ32_connIdOf s.count)
    · rcases Nat.lt_succ_iff_lt_or_eq.mp hconn with hlt | rfl
      · exact (hold conn hlt).trans (h.connName conn hlt)
      · simp [queueInLoop, modifyWorker, addConnection, ServerConn.make, h.next]
    · simp only [queueInLoop, modifyWorker, addConnection, Function.update_apply] at hconn
      split_ifs at hconn with hname
      · cases hconn
        simp [queueInLoop, modifyWorker, addConnection, ServerConn.make, hname]
      · rw [hold conn (h.placed.connections name conn hconn)]
        exact h.connections name conn hconn
  · have hkeeps := exec_keepsNames hexec hne
    refine ⟨hsteps.placed, ?_, fun conn hconn => ?_, fun name conn hconn => ?_⟩
    · rw [hkeeps.nextConnId, hkeeps.count]
      exact h.nextConnId
    · rw [hkeeps.count] at hconn
      exact (hold conn hconn).trans (h.connName conn hconn)
    · have hconn' := hkeeps.connections name conn hconn
      rw [hold conn (h.placed.connections name conn hconn')]
      exact h.connections name conn hconn'

theorem named_of_reachable (h : (webServer cfg).Reachable (.init cfg) s) : s.Named cfg := by
  induction h with
  | start => exact ⟨.init cfg, connIdOf_zero.symm, nofun, nofun⟩
  | step _ hpre hexec ih => exact ih.step hpre hexec

/-! ## Names of live connections -/

/-- The connections that exist have different names. -/
def Distinct (s : WebServer) : Prop :=
  ∀ i j, s.Referenced i → s.Referenced j → (s.conns i).connName = (s.conns j).connName → i = j

/-- The next connection does not get the name of one that exists. -/
def NameFree (cfg : ServerConfig) (s : WebServer) : ServerAction → Prop
  | .accept => ∀ conn < s.count, s.Referenced conn → (s.conns conn).connName ≠ s.connName cfg
  | _ => True

/-- No connection that exists was accepted a multiple of `2 ^ 32` connections before the next. -/
def Spaced (s : WebServer) : ServerAction → Prop
  | .accept => ∀ conn < s.count, s.Referenced conn → ¬ 2 ^ 32 ∣ s.count - conn
  | _ => True

instance (s : WebServer) (a : ServerAction) : Decidable (s.Spaced a) :=
  match a with
  | .accept => inferInstanceAs (Decidable (∀ conn < s.count,
      s.Referenced conn → ¬ 2 ^ 32 ∣ s.count - conn))
  | .basePoll | .onTimer _ | .destroyEntry | .baseSwap | .baseCall | .baseEnd | .poll _ _
  | .dispatch _ | .callback _ _ _ _ | .onMessage _ _ | .swap _ | .call _ | .endBatch _ | .exit _ =>
    inferInstanceAs (Decidable True)

theorem Named.nameFree_iff (h : s.Named cfg) {a : ServerAction} :
    s.NameFree cfg a ↔ s.Spaced a := by
  cases a with
  | accept =>
    apply forall_congr'
    intro conn
    apply forall_congr'
    intro hconn
    apply imp_congr_right
    intro _
    exact not_congr (h.eq_next_iff hconn)
  | _ => exact Iff.rfl

/-- What holds of a server whose names are free when they are given. -/
structure Unique (s : WebServer) : Prop where
  placed : s.Placed
  held : ∀ conn < s.count, (s.view conn).Held
  closings : ∀ conn < s.count, (s.view conn).closings =
    (s.view conn).removals + (s.view conn).destroying + (s.view conn).conn.destructions
  distinct : s.Distinct

/-- What exists after a step existed before it, or is a new connection. -/
theorem Unique.referenced (h : s.Unique) {a : ServerAction} (hsteps : Steps cfg s a s') {id : Nat}
    (hid : id < s.count) (href : s'.Referenced id) : s.Referenced id :=
  view_referenced.mp ((h.held id hid).referenced_of_step (hsteps.view id hid)
    (view_referenced.mpr href))

theorem Steps.connName {a : ServerAction} (hsteps : Steps cfg s a s') {id : Nat}
    (hid : id < s.count) : (s'.conns id).connName = (s.conns id).connName :=
  connName_step (hsteps.view id hid)

/-- The connections that there were keep their different names. -/
theorem Unique.eq_of_connName (h : s.Unique) {a : ServerAction} (hsteps : Steps cfg s a s')
    {i j : Nat} (hi : i < s.count) (hj : j < s.count) (hrefi : s'.Referenced i)
    (hrefj : s'.Referenced j) (heq : (s'.conns i).connName = (s'.conns j).connName) : i = j := by
  rw [hsteps.connName hi, hsteps.connName hj] at heq
  exact h.distinct i j (h.referenced hsteps hi hrefi) (h.referenced hsteps hj hrefj) heq

/-- The name of the connection that `accept` makes is free. -/
theorem Unique.distinct_accept (h : s.Unique) (hfree : s.NameFree cfg .accept)
    (hsteps : Steps cfg s .accept s') (hcount : s'.count = s.count + 1)
    (hname : (s'.conns s.count).connName = s.connName cfg) : s'.Distinct := by
  have hother {id : Nat} (hid : id < s.count) (href : s'.Referenced id) :
      (s'.conns id).connName ≠ (s'.conns s.count).connName := by
    rw [hsteps.connName hid, hname]
    exact hfree id hid (h.referenced hsteps hid href)
  have hcases {id : Nat} (href : s'.Referenced id) : id < s.count ∨ id = s.count :=
    Nat.lt_succ_iff_lt_or_eq.mp ((hsteps.placed.lt_of_referenced href).trans_eq hcount)
  intro i j hi hj heq
  rcases hcases hi with hlti | rfl
  · rcases hcases hj with hltj | rfl
    · exact h.eq_of_connName hsteps hlti hltj hi hj heq
    · exact absurd heq (hother hlti hi)
  · rcases hcases hj with hltj | rfl
    · exact absurd heq.symm (hother hltj hj)
    · rfl

theorem Unique.step {a : ServerAction} {accesses : List Access} (h : s.Unique)
    (hfree : s.NameFree cfg a) (hsteps : Steps cfg s a s')
    (hexec : s.exec cfg a = some (s', accesses)) : s'.Unique := by
  have hkeeps (id : Nat) (hid : id < s.count) : (s.view id).KeepsName (s.event cfg id a) := by
    refine view_keepsName h.held h.placed ?_ hid
    rintro rfl
    exact hfree
  have hheld (id : Nat) (hid : id < s.count) : (s'.view id).Held :=
    (h.held id hid).step (hkeeps id hid) (hsteps.view id hid)
  have hclosings (id : Nat) (hid : id < s.count) :=
    ConnView.closings_eq_step (h.closings id hid) (hsteps.view id hid)
  rcases hsteps.count with hcount | ⟨hcount, lp, stage, hnew⟩
  · have hlt {id : Nat} (href : s'.Referenced id) : id < s.count :=
      hcount ▸ hsteps.placed.lt_of_referenced href
    refine ⟨hsteps.placed, ?_, ?_, fun i j hi hj heq => ?_⟩
    · rw [hcount]
      exact hheld
    · rw [hcount]
      exact hclosings
    · exact h.eq_of_connName hsteps (hlt hi) (hlt hj) hi hj heq
  · obtain rfl : a = .accept := by
      by_contra hne
      exact Nat.succ_ne_self _ (hcount.symm.trans (exec_keepsNames hexec hne).count)
    have hcases {id : Nat} (hid : id < s'.count) : id < s.count ∨ id = s.count :=
      Nat.lt_succ_iff_lt_or_eq.mp (hid.trans_eq hcount)
    refine ⟨hsteps.placed, fun id hid => ?_, fun id hid => ?_, ?_⟩
    · rcases hcases hid with hlt | rfl
      · exact hheld id hlt
      · rw [hnew]
        exact ConnView.held_fresh _ _ _ _
    · rcases hcases hid with hlt | rfl
      · exact hclosings id hlt
      · rw [hnew]
        rfl
    · exact h.distinct_accept hfree hsteps hcount (congrArg (·.conn.connName) hnew)

theorem Unique.of_reachable
    (h : ((webServer cfg).restrict (NameFree cfg)).Reachable (.init cfg) s) : s.Unique := by
  induction h with
  | start =>
    refine ⟨.init cfg, nofun, nofun, fun i _ hi => ?_⟩
    exact absurd ((Placed.init cfg).lt_of_referenced hi) (Nat.not_lt_zero i)
  | step _ hpre hexec ih => exact ih.step hpre.2 (exec_steps ih.placed hpre.1 hexec) hexec

/-- A removal finds the entry of its own connection, unless the connection has closed twice. -/
theorem Unique.erase (h : s.Unique) {conn : Nat} (hmem : conn ∈ s.base.funcs) :
    s.connections (s.conns conn).connName = some conn ∨
      s.connections (s.conns conn).connName = none ∧ 1 < (s.conns conn).log.count .closeCb := by
  have hall : conn ∈ s.base.called ++ s.base.funcs ++ s.base.pendingFuncs := by simp [hmem]
  have hconn := h.placed.removal conn hall
  refine (registered_of_removal h.held h.placed hall).imp_right fun hnone => ⟨hnone, ?_⟩
  by_contra hle
  have hremovals : 0 < (s.view conn).removals :=
    Nat.add_pos_left (List.count_pos_iff.mpr hmem) _
  have heq : (s.conns conn).log.count .closeCb =
    (s.view conn).removals + (s.view conn).destroying + (s.view conn).conn.destructions :=
      h.closings conn hconn
  have hqueue : (s.view conn).destroying = 0 := by omega
  rw [ConnView.destroying, List.count_eq_zero, List.mem_append, not_or] at hqueue
  rcases (h.held conn hconn).kept (by omega) with (hname | hpending) | hfuncs
  · exact absurd (hnone.symm.trans hname) (by simp)
  · exact hqueue.2 hpending
  · exact hqueue.1 hfuncs

/-- What the table and the names must be. -/
structure NamesUnique (s : WebServer) : Prop where
  distinct : s.Distinct
  erase : ∀ conn ∈ s.base.funcs, s.connections (s.conns conn).connName = some conn ∨
    s.connections (s.conns conn).connName = none ∧ 1 < (s.conns conn).log.count .closeCb

/-- An accept at a wrong time overwrites the entry of a connection that exists, or gives its name
to another. -/
theorem Named.spaced_of_accept (h : s.Named cfg) (hnew : s.handleNewConnection cfg = some s')
    (hdistinct : s'.Distinct) (hinsert : s.connections (s.connName cfg) = none) :
    s.Spaced .accept := by
  intro conn hconn href hdvd
  have hname := (h.eq_next_iff hconn).mpr hdvd
  have hsteps : Steps cfg s .accept s' := accept_steps h.placed hnew
  rw [handleNewConnection] at hnew
  split_ifs at hnew
  cases hnew
  set s₁ := (s.addConnection cfg).queueInLoop s.next (.connectEstablished s.count)
  have hview : s₁.view conn = { s.view conn with registered := some s.count } := by
    rw [view_queueInLoop_of_ne (.connectEstablished s.count) (Nat.ne_of_gt hconn),
      view_addConnection_of_lt hconn, if_pos hname.symm]
  have hlast : (s₁.conns s.count).connName = s.connName cfg := by
    simp [s₁, queueInLoop, modifyWorker, addConnection, ServerConn.make]
  have hreflast : s₁.Referenced s.count := by
    left
    rw [hlast]
    simp [s₁, queueInLoop, modifyWorker, addConnection]
  rcases view_referenced.mpr href with hentry | hrest
  · have hsome : s.connections (s.conns conn).connName = some conn := hentry
    rw [hname, hinsert] at hsome
    cases hsome
  · have href₁ : s₁.Referenced conn := by
      apply view_referenced.mp
      rw [hview]
      exact .inr hrest
    have heq : (s₁.conns conn).connName = (s₁.conns s.count).connName := by
      rw [hlast, ← hname]
      exact connName_step (hsteps.view conn hconn)
    exact Nat.ne_of_lt hconn (hdistinct conn s.count href₁ hreflast heq)

/-- **Names are unique**, in every run in which no connection outlives `2 ^ 32` others: connections
that exist have different names, accepting one overwrites nothing, and removing one erases its own
entry or, when it has closed twice, nothing. An accept at another time breaks this. -/
theorem names_unique (cfg : ServerConfig)
    (h : ((webServer cfg).restrict Spaced).Reachable (.init cfg) s) :
    s.NamesUnique ∧ ∀ s', s.handleNewConnection cfg = some s' →
      (s'.Distinct ∧ s.connections (s.connName cfg) = none ↔ s.Spaced .accept) := by
  have hnamed : s.Named cfg := named_of_reachable h.of_restrict
  have hunique : s.Unique := by
    apply Unique.of_reachable
    exact h.weaken fun s a hreach => (named_of_reachable hreach.of_restrict).nameFree_iff.mpr
  refine ⟨⟨hunique.distinct, fun conn => hunique.erase⟩, fun s' hnew => ⟨?_, fun hspaced => ?_⟩⟩
  · exact fun ⟨hdistinct, hinsert⟩ => hnamed.spaced_of_accept hnew hdistinct hinsert
  · have hfree : s.NameFree cfg .accept := hnamed.nameFree_iff.mpr hspaced
    have hexec : s.exec cfg .accept = some (s', by_ .base [.connections]) := by
      rw [exec, hnew]
      rfl
    refine ⟨(hunique.step hfree (accept_steps hunique.placed hnew) hexec).distinct, ?_⟩
    rw [Option.eq_none_iff_forall_ne_some]
    intro conn hconn
    have hname := hnamed.connections _ conn hconn
    have href : s.Referenced conn := .inl (hname ▸ hconn)
    exact hfree conn (hnamed.placed.connections _ conn hconn) href hname

/-- Two connections are open. -/
theorem names_unique_two : ∃ s : WebServer, s.count = 2 ∧ s.NamesUnique := by
  have hrun : ∃ s, ((webServer exampleConfig).restrict Spaced).Reachable (.init exampleConfig) s ∧
      s.count = 2 :=
    Program.Reachable.of_admissible [.basePoll, .accept, .accept] (by decide +kernel)
      (by decide +kernel)
  obtain ⟨s, hreach, hs⟩ := hrun
  exact ⟨s, hs, (names_unique exampleConfig hreach).1⟩

/-! ## A connection that stays -/

def idleBase : BaseLoop := ⟨.events, [], [], [], false, [], none⟩

def idleWorker : WorkLoop := ⟨.poll, [], [], [], [], [], none⟩

/-- A server of one worker loop while nothing happens. -/
structure Between (s : WebServer) : Prop where
  next : s.next = 0
  base : s.base = idleBase
  worker : s.workers 0 = idleWorker

/-- What one connection goes through. -/
def focus (s : WebServer) (conn : Nat) (c : ServerConn) (connections : Bytes → Option Nat)
    (base : BaseLoop) (worker : WorkLoop) : WebServer :=
  { s with
    conns := Function.update s.conns conn c
    connections := connections
    base := base
    workers := Function.update s.workers 0 worker }

/-- A connection that has been established. -/
def up (conn : Nat) (connName : Bytes) : ServerConn :=
  (ServerConn.make conn connName 0).after
    { TcpConnection.make conn false with
      state := .connected
      handler := ⟨.readEvent, .using_⟩
      watched := ⟨some conn, some .readEvent⟩ } [.connCb]

/-- Its peer has closed. -/
def down (conn : Nat) (connName : Bytes) : ServerConn :=
  (up conn connName).after
    { (up conn connName).tcp with
      handler := ⟨.none, .deleted⟩
      watched := ⟨some conn, none⟩ } [.closeCb]

/-- The end. -/
def gone (conn : Nat) (connName : Bytes) : ServerConn :=
  { (down conn connName).after
      { (down conn connName).tcp with
        state := .disconnected
        handler := ⟨.none, .new⟩
        watched := ⟨none, none⟩ } [.connCb] with
    destructions := 1 }

section
variable {conn : Nat} {connName : Bytes}

theorem connectEstablished_make : (ServerConn.make conn connName 0).tcp.connectEstablished =
    some ((up conn connName).tcp, [.connCb]) := rfl

theorem callback_up : (up conn connName).tcp.callback (some []) none .readCb =
    some ((down conn connName).tcp, [.closeCb]) := by
  have hread (b : Buffer) : b.readFd (some []) = some b := by
    simp [Buffer.readFd]
  simp [TcpConnection.callback, TcpConnection.handleRead, hread, TcpConnection.handleClose,
    TcpConnection.disableAll, TcpConnection.update, Handler.updateHandler, up, down,
    ServerConn.after, ServerConn.make, TcpConnection.make]

theorem connectDestroyed_down : (down conn connName).tcp.connectDestroyed =
    some ((gone conn connName).tcp, [.connCb]) := by
  simp [TcpConnection.connectDestroyed, TcpConnection.disableAll, TcpConnection.update,
    Handler.updateHandler, Handler.removeHandler, up, down, gone, ServerConn.after,
    ServerConn.make, TcpConnection.make]

section
variable {table : Bytes → Option Nat} {base : BaseLoop} {l : WorkLoop} {c : ServerConn}

@[simp] theorem focus_conns : (s.focus conn c table base l).conns conn = c :=
  Function.update_self ..

@[simp] theorem focus_workers : (s.focus conn c table base l).workers 0 = l := by
  simp [focus]

theorem modifyWorker_focus (f : WorkLoop → WorkLoop) :
    (s.focus conn c table base l).modifyWorker 0 f = s.focus conn c table base (f l) := by
  simp [focus, modifyWorker]

theorem after_focus (c' : ServerConn) (es : List ConnEffect) :
    (s.focus conn c table base l).after conn c' es =
      s.focus conn c' table { base with
        pendingFuncs := base.pendingFuncs ++ List.replicate (es.count .closeCb) conn } l := by
  simp [focus, after]

theorem runFunctor_established :
    (s.focus conn (.make conn connName 0) table base l).runFunctor exampleConfig
      (.connectEstablished conn) = some (s.focus conn (up conn connName) table base l, []) := by
  have hup : (ServerConn.make conn connName 0).after (up conn connName).tcp [.connCb] =
      up conn connName := rfl
  have hstate : (up conn connName).tcp.state = .connected := rfl
  have hexpires : ¬ exampleConfig.Expires := by decide
  simp [runFunctor, connectEstablished_make, after_focus, hup, onConnection, hstate, hexpires]

theorem runFunctor_destroyed :
    (s.focus conn (down conn connName) table base l).runFunctor exampleConfig
      (.connectDestroyed conn) =
      some (s.focus conn (gone conn connName) table base l, [.connections]) := by
  have hgone : { (down conn connName).after (gone conn connName).tcp [.connCb] with
      destructions := (down conn connName).destructions + 1 } = gone conn connName := rfl
  have hstate : ((down conn connName).after (gone conn connName).tcp [.connCb]).tcp.state ≠
      .connected := nofun
  simp [runFunctor, connectDestroyed_down, after_focus, hgone, onConnection, hstate]

theorem callback_focus {callbacks : List (Nat × EventCallback)}
    (hcallbacks : l.callbacks = (conn, .readCb) :: callbacks) :
    (s.focus conn (up conn connName) table base l).callback exampleConfig 0 (some []) none noFiles =
      some (s.focus conn (down conn connName) table
        { base with pendingFuncs := base.pendingFuncs ++ [conn] }
        { l with callbacks := callbacks }, []) := by
  have hdown : (up conn connName).after (down conn connName).tcp [.closeCb] =
      down conn connName := rfl
  simp [callback, hcallbacks, callback_up, modifyWorker_focus, after_focus, hdown]

/-- The worker loop establishes the connection. -/
theorem established_reachable :
    (webServer exampleConfig).Reachable
      (s.focus conn (.make conn connName 0) table base
        ⟨.poll, [.connectEstablished conn], [], [], [], [], none⟩)
      (s.focus conn (up conn connName) table base idleWorker) := by
  have hrun : (webServer exampleConfig).run
      (s.focus conn (.make conn connName 0) table base
        ⟨.poll, [.connectEstablished conn], [], [], [], [], none⟩)
      [.poll 0 [], .swap 0, .call 0, .endBatch 0] =
      some (s.focus conn (up conn connName) table base idleWorker, [[], [], [], []]) := by
    simp [Program.run, webServer, exec, modifyWorker_focus, call, runFunctor_established, by_,
      idleWorker]
  refine .of_run ?_ hrun
  simp [Program.Admissible, webServer, Pre, exec, modifyWorker_focus, call, runFunctor_established]

/-- The peer of a connection closes. -/
theorem down_reachable (hconn : conn < s.count) :
    (webServer exampleConfig).Reachable
      (s.focus conn (up conn connName) table base idleWorker)
      (s.focus conn (down conn connName) table
        { base with pendingFuncs := base.pendingFuncs ++ [conn] }
        { idleWorker with stage := .events }) := by
  have hrun : (webServer exampleConfig).run
      (s.focus conn (up conn connName) table base idleWorker)
      [.poll 0 [(conn, ⟨true, false, false, false, false⟩)], .dispatch 0,
        .callback 0 (some []) none noFiles] =
      some (s.focus conn (down conn connName) table
        { base with pendingFuncs := base.pendingFuncs ++ [conn] }
        { idleWorker with stage := .events }, [[], [], []]) := by
    simp [Program.run, webServer, exec, modifyWorker_focus, callback_focus, by_,
      Handler.handleEvents, idleWorker]
  refine .of_run ?_ hrun
  simp [Program.Admissible, webServer, Pre, exec, modifyWorker_focus, idleWorker,
    Handler.handleEvents]
  exact ⟨⟨hconn, rfl, .readEvent, rfl, by decide⟩, fun _ h => by cases h⟩

theorem queueInLoop_focus (f : WorkFunction) :
    (s.focus conn c table base l).queueInLoop 0 f =
      s.focus conn c table base { l with pendingFuncs := l.pendingFuncs ++ [f] } :=
  modifyWorker_focus _

theorem handleRemove_focus (hname : (table connName).isSome) :
    (s.focus conn (down conn connName) table base l).handleRemoveConnectionInLoop conn =
      some (s.focus conn (down conn connName) (Function.update table connName none) base
        { l with pendingFuncs := l.pendingFuncs ++ [.connectDestroyed conn] }) := by
  have hentry : ((s.focus conn (down conn connName) table base l).connections
      (down conn connName).connName).isSome := hname
  have herase : (s.focus conn (down conn connName) table base l).eraseConnection
      (down conn connName).connName =
      s.focus conn (down conn connName) (Function.update table connName none) base l := rfl
  have hlp : (down conn connName).lp = 0 := rfl
  simp only [handleRemoveConnectionInLoop, focus_conns, if_pos hentry, herase, hlp,
    queueInLoop_focus]

/-- The server removes it. -/
theorem gone_reachable (hname : (table connName).isSome) :
    (webServer exampleConfig).Reachable
      (s.focus conn (down conn connName) table { idleBase with pendingFuncs := [conn] }
        { idleWorker with stage := .events })
      (s.focus conn (gone conn connName) (Function.update table connName none) idleBase
        idleWorker) := by
  have hbase : (webServer exampleConfig).Reachable
      (s.focus conn (down conn connName) table { idleBase with pendingFuncs := [conn] }
        { idleWorker with stage := .events })
      (s.focus conn (down conn connName) (Function.update table connName none) idleBase
        ⟨.events, [.connectDestroyed conn], [], [], [], [], none⟩) := by
    have hremove : (s.focus conn (down conn connName) table
        ⟨.funcs, [], [], [conn], false, [], none⟩
        { idleWorker with stage := .events }).handleRemoveConnectionInLoop conn = _ :=
      handleRemove_focus hname
    have h₀ : (webServer exampleConfig).Reachable (s.focus conn (down conn connName) table
      { idleBase with pendingFuncs := [conn] } { idleWorker with stage := .events }) _ := .start
    have h₁ := h₀.next .baseSwap ⟨rfl, rfl⟩ rfl
    have h₂ := h₁.next .baseCall ⟨rfl, nofun⟩ (congrArg (Option.map _) hremove)
    have h₃ := h₂.next .baseEnd ⟨rfl, rfl⟩ rfl
    exact h₃.next .basePoll rfl rfl
  have hrun : (webServer exampleConfig).run
      (s.focus conn (down conn connName) (Function.update table connName none) idleBase
        ⟨.events, [.connectDestroyed conn], [], [], [], [], none⟩)
      [.swap 0, .call 0, .endBatch 0] =
      some (s.focus conn (gone conn connName) (Function.update table connName none) idleBase
        idleWorker, [[], [(.worker 0, .connections)], []]) := by
    simp [Program.run, webServer, exec, modifyWorker_focus, call, runFunctor_destroyed, by_,
      idleWorker]
  refine hbase.trans (.of_run ?_ hrun)
  simp [Program.Admissible, webServer, Pre, exec, modifyWorker_focus, call, runFunctor_destroyed]

end
end

/-- `nextConnId_` has been used. -/
def counted (s : WebServer) : WebServer :=
  { s with nextConnId := succ32 s.nextConnId, count := s.count + 1 }

/-- A connection is accepted and established. -/
theorem Between.accept (h : s.Between) :
    (webServer exampleConfig).Reachable s (s.counted.focus s.count
      (up s.count (s.connName exampleConfig))
      (Function.update s.connections (s.connName exampleConfig) (some s.count)) idleBase
      idleWorker) := by
  have hnew : s.handleNewConnection exampleConfig = some (s.counted.focus s.count
      (.make s.count (s.connName exampleConfig) 0)
      (Function.update s.connections (s.connName exampleConfig) (some s.count)) idleBase
      ⟨.poll, [.connectEstablished s.count], [], [], [], [], none⟩) := by
    simp [handleNewConnection, exampleConfig, addConnection, queueInLoop, modifyWorker, focus,
      counted, h.next, h.base, h.worker, idleWorker]
  have hidle : s.BaseIdle := by
    rw [BaseIdle, h.base]
    decide
  have h₀ : (webServer exampleConfig).Reachable s s := .start
  have h₁ := h₀.next .accept hidle (congrArg (Option.map (·, by_ .base [.connections])) hnew)
  exact h₁.trans established_reachable

/-- A connection comes and goes. -/
theorem Between.session (h : s.Between) :
    ∃ s', (webServer exampleConfig).Reachable s s' ∧ s'.Between ∧ s'.count = s.count + 1 ∧
      (∀ conn < s.count, s'.conns conn = s.conns conn) ∧
      ∀ name ≠ s.connName exampleConfig, s'.connections name = s.connections name := by
  set table := Function.update s.connections (s.connName exampleConfig) (some s.count) with htable
  have hdown : (webServer exampleConfig).Reachable
      (s.counted.focus s.count (up s.count (s.connName exampleConfig)) table idleBase idleWorker)
      _ := down_reachable (Nat.lt_succ_self s.count)
  have hgone : (webServer exampleConfig).Reachable
      (s.counted.focus s.count (down s.count (s.connName exampleConfig)) table
        { idleBase with pendingFuncs := [s.count] } { idleWorker with stage := .events })
      _ := gone_reachable (by simp [htable])
  refine ⟨_, (h.accept.trans hdown).trans hgone, ⟨h.next, rfl, by simp⟩, rfl, ?_, ?_⟩
  · intro conn hconn
    exact Function.update_of_ne (Nat.ne_of_lt hconn) _ _
  · intro name hne
    simp [focus, htable, hne]

/-- Any number of connections can come and go while the first one stays. -/
theorem sessions_reachable (n : Nat) (hn : n < 2 ^ 32) :
    ∃ s, (webServer exampleConfig).Reachable (.init exampleConfig) s ∧ s.Between ∧
      s.count = n + 1 ∧ s.conns 0 = up 0 (nameOf exampleConfig 0) ∧
      s.connections (nameOf exampleConfig 0) = some 0 := by
  induction n with
  | zero =>
    have h₀ : (webServer exampleConfig).Reachable (.init exampleConfig) _ := .start
    have h₁ := h₀.next .basePoll rfl rfl
    have hs : Between { init exampleConfig with base := idleBase } := ⟨rfl, rfl, rfl⟩
    have hname : connName exampleConfig { init exampleConfig with base := idleBase } =
        nameOf exampleConfig 0 := (named_of_reachable h₁).next
    refine ⟨_, h₁.trans hs.accept, ⟨rfl, rfl, rfl⟩, rfl, ?_, ?_⟩
    · exact congrArg (up 0) hname
    · rw [← hname]
      simp [focus, init]
  | succ n ih =>
    obtain ⟨s, hreach, hs, hcount, hconn, hname⟩ := ih (Nat.lt_of_succ_lt hn)
    obtain ⟨s', hreach', hs', hcount', hconns, htable⟩ := hs.session
    refine ⟨s', hreach.trans hreach', hs', by omega, (hconns 0 (by omega)).trans hconn, ?_⟩
    rw [htable _ ?_, hname]
    rw [(named_of_reachable hreach).next, hcount, ne_eq, nameOf_eq_iff (Nat.zero_le _)]
    intro hdvd
    exact Nat.not_le_of_gt hn (Nat.le_of_dvd (Nat.succ_pos n) hdvd)

/-- Two connections that exist have one name, and the removal of the first is about to erase the
entry of the second. -/
structure Collide (s : WebServer) (i j : Nat) : Prop where
  referenced : s.Referenced i ∧ s.Referenced j
  connName : (s.conns i).connName = (s.conns j).connName
  funcs : s.base.stage = .funcs ∧ s.base.funcs = [i]
  connections : s.connections (s.conns i).connName = some j

/-- The first connection is being removed when the counter comes to its name again. -/
theorem collide_reachable
    (hreach : (webServer exampleConfig).Reachable (.init exampleConfig) s) (hidle : s.BaseIdle)
    (hremoval : s.base.pendingFuncs = [0]) (hcount : s.count = 2 ^ 32) :
    ∃ s' : WebServer, (webServer exampleConfig).Reachable (.init exampleConfig) s' ∧
      s'.Collide 0 (2 ^ 32) := by
  have hnew : s.handleNewConnection exampleConfig = some
      ((s.addConnection exampleConfig).queueInLoop s.next (.connectEstablished s.count)) :=
    if_neg (by decide)
  have h₁ := hreach.next .accept hidle
    (congrArg (Option.map (·, by_ .base [.connections])) hnew)
  have h₂ := h₁.next .baseSwap hidle rfl
  have hnamed := named_of_reachable h₂
  have hcount₂ : (addConnection exampleConfig s).count = 2 ^ 32 + 1 := congrArg (· + 1) hcount
  have hsame : nameOf exampleConfig 0 = nameOf exampleConfig (2 ^ 32) :=
    (nameOf_eq_iff (Nat.zero_le _)).mpr (Nat.dvd_refl _)
  have hfirst := hnamed.connName 0 (Nat.succ_pos _)
  have hlast := hnamed.connName (2 ^ 32) (Nat.lt_of_lt_of_eq (Nat.lt_succ_self _) hcount₂.symm)
  have htable : (addConnection exampleConfig s).connections =
      Function.update s.connections (s.connName exampleConfig) (some s.count) := rfl
  have hentry : (addConnection exampleConfig s).connections (nameOf exampleConfig 0) =
      some (2 ^ 32) := by
    rw [htable, (named_of_reachable hreach).next, hcount, ← hsame, Function.update_self]
  refine ⟨_, h₂, ⟨.inr (.inl ?_), .inl ?_⟩, ?_, ⟨rfl, hremoval⟩, ?_⟩
  · simp [queueInLoop, modifyWorker, addConnection, hremoval]
  · rw [hlast, ← hsame]
    exact hentry
  · rw [hfirst, hlast, hsame]
  · rw [hfirst]
    exact hentry

/-- The first connection stays until `2 ^ 32 - 1` others have come and gone, and its peer closes
just before the next is accepted: the two have one name, the entry is that of the new one, and the
removal of the old one is about to erase it. -/
theorem names_collide :
    ∃ s : WebServer, (webServer exampleConfig).Reachable (.init exampleConfig) s ∧
      s.Collide 0 (2 ^ 32) := by
  obtain ⟨s, hreach, hs, hcount, hconn, -⟩ := sessions_reachable (2 ^ 32 - 1) (by decide)
  have hfocus : s =
      s.focus 0 (up 0 (nameOf exampleConfig 0)) s.connections idleBase idleWorker := by
    rw [focus, ← hconn, ← hs.worker, ← hs.base, Function.update_eq_self, Function.update_eq_self]
  rw [hfocus] at hreach
  have hdown := hreach.trans (down_reachable (by omega))
  exact collide_reachable hdown ⟨rfl, rfl⟩ rfl (by simpa [focus] using hcount)

end WebServer
end Httpancake
