import Httpancake.Lib.Observation
import Httpancake.Network.HalfClose
import Httpancake.Server.Conservation
import Httpancake.Server.TableAccess

/-! # The idle timeout of the whole server

`IdleTimeout` is the timing wheel alone, and its steps are whole calls. In the server the base loop
destroys the entries of the oldest bucket one by one, and the worker loops lock entries and insert
them meanwhile. It makes a run of the timing wheel all the same (`WebServer.Follows.step`): a tick
counts when the new bucket is in place, and a message when it finds its entry alive. So the idle
time that `IdleTimeout` counts decides what becomes of a connection: it is not shut down before it
is overdue (`WebServer.idle_not_early`), and it is not left open after
(`WebServer.idle_shut_down`). -/

namespace Httpancake

open Bytes TcpConnection

namespace IdleTimeout
variable {conn : Nat}

/-- The oldest bucket goes, the others are kept. -/
theorem any_kept_or_dropped (capacity : Nat) (buckets : List Bucket) :
    buckets.any (conn ∈ ·) ↔
      (kept capacity buckets).any (conn ∈ ·) ∨ conn ∈ dropped capacity buckets := by
  rw [kept, dropped]
  split_ifs
  · rcases List.eq_nil_or_concat buckets with rfl | ⟨newer, oldest, rfl⟩
    · simp
    · simp
  · simp

end IdleTimeout

/-- No call of `onMessage` half-closes. -/
theorem TcpConnection.shutdownWrite_not_mem_perform {c c' : TcpConnection} {es : List ConnEffect}
    {effects : List Effect} {write : Option Nat} (h : c.perform write effects = some (c', es)) :
    .shutdownWrite ∉ es := by
  induction effects generalizing c es with
  | nil =>
    cases h
    exact List.not_mem_nil
  | cons e effects ih =>
    cases e with
    | send msg =>
      simp only [perform, Option.bind_eq_bind, Option.bind_eq_some_iff] at h
      obtain ⟨⟨c₁, es₁⟩, hsend, ⟨c₂, es₂⟩, hrest, heq⟩ := h
      cases heq
      rw [send] at hsend
      rw [List.mem_append]
      refine not_or_intro ?_ (ih hrest)
      split_ifs at hsend
      · exact shutdownWrite_not_mem_sendInLoop hsend
      · cases hsend
        exact List.not_mem_nil
    | forceClose =>
      simp only [perform, Option.bind_eq_bind, Option.bind_eq_some_iff] at h
      obtain ⟨⟨c₁, es₁⟩, hclose, ⟨c₂, es₂⟩, hrest, heq⟩ := h
      cases heq
      rw [List.mem_append]
      refine not_or_intro ?_ (ih hrest)
      rcases forceClose_spec hclose with ⟨-, hcloses⟩ | ⟨-, -, rfl⟩
      · simp [hcloses.effects]
      · exact List.not_mem_nil
    | log text => exact ih h

namespace ConnView
variable {cfg : ServerConfig} {v v' : ConnView}

/-- How the state of a connection changes. -/
theorem state_step {e : ConnEvent} (hstep : ConnStep cfg v e v') :
    v'.conn.tcp.state = v.conn.tcp.state ∧ v'.conn.context = v.conn.context ∨
      v.entry = some .setDisconnecting ∧ v'.conn.tcp.state = .disconnecting ∨
      v.conn.tcp.state = .connecting ∧ v'.conn.tcp.state = .connected ∨
      v'.conn.tcp.state = .disconnected := by
  cases hstep with
  | setDisconnecting hentry => exact .inr (.inl ⟨hentry, rfl⟩)
  | callback hstage hnone hcall | enterMessage hstage hnone hcall =>
    exact .inl ⟨callback_state hcall, rfl⟩
  | message hm hstep hpc hperform => exact .inl ⟨(perform_spec hperform).state, rfl⟩
  | established context hfuncs hstage hcall =>
    obtain ⟨hconnecting, hconnected, -⟩ := connectEstablished_spec hcall
    exact .inr (.inr (.inl ⟨hconnecting, hconnected⟩))
  | destroyed context hfuncs hstage hcall =>
    exact .inr (.inr (.inr (connectDestroyed_spec hcall).1))
  | _ => exact .inl ⟨rfl, rfl⟩

/-- Nothing has begun to shut the connection down. -/
structure Undisturbed (v : ConnView) : Prop where
  state : v.conn.tcp.state ≠ .disconnecting
  entry : v.entry = none
  work : .shutdownInLoop v.this ∉ v.work.funcs ++ v.work.pendingFuncs
  half : .shutdownWrite ∉ v.conn.log

theorem undisturbed_fresh (this : Nat) (connName : Bytes) (lp : Nat) (stage : LoopStage) :
    (WebServer.freshView this connName lp stage).Undisturbed where
  state := ConnState.noConfusion
  entry := rfl
  work := by simp [WebServer.freshView]
  half := List.not_mem_nil

namespace Undisturbed

/-- A function of the connection that does not half-close it. -/
theorem after (h : v.Undisturbed) {c : ServerConn} {es : List ConnEffect}
    (hstate : c.tcp.state ≠ .disconnecting) (hlog : c.log = v.conn.log ++ es)
    (hes : .shutdownWrite ∉ es) : (v.after c es).Undisturbed where
  state := hstate
  entry := h.entry
  work := h.work
  half := by
    change .shutdownWrite ∉ c.log
    rw [hlog, List.mem_append]
    exact not_or_intro h.half hes

theorem called (h : v.Undisturbed) {f : WorkFunction} {funcs : List WorkFunction}
    (hfuncs : v.work.funcs = f :: funcs) : (v.called f funcs).Undisturbed where
  state := h.state
  entry := h.entry
  work hmem := h.work (by rw [hfuncs]; exact List.mem_cons_of_mem _ hmem)
  half := h.half

/-- `handleWrite` half-closes in the state `DISCONNECTING` only. -/
theorem callback (h : v.Undisturbed) {cb : EventCallback} {read : Option Bytes}
    {write : Option Nat} {tcp : TcpConnection} {es : List ConnEffect}
    (hcall : v.conn.tcp.callback read write cb = some (tcp, es)) :
    (v.after (v.conn.after tcp es) es).Undisturbed := by
  refine h.after ((callback_state hcall).trans_ne h.state) rfl fun hmem => ?_
  obtain rfl := callback_shutdownWrite hcall hmem
  exact h.state ((handleWrite_halves hcall).state hmem)

/-- **The step lemma.** -/
theorem step {e : ConnEvent} (h : v.Undisturbed) (he : e ≠ .entry) (hstep : ConnStep cfg v e v') :
    v'.Undisturbed := by
  cases hstep with
  | idle | rename | erase | baseEnd | poll | dispatch => exact ⟨h.state, h.entry, h.work, h.half⟩
  | lock | test | setDisconnecting | queueShutdown | release => exact absurd rfl he
  | remove =>
    refine ⟨h.state, h.entry, fun hmem => ?_, h.half⟩
    rw [ConnView.queueInLoop, ConnView.setWork, ← List.append_assoc, List.mem_append] at hmem
    rcases hmem with hmem | hmem
    · exact h.work hmem
    · cases List.mem_singleton.mp hmem
  | callback hstage hnone hcall hmem => exact h.callback hcall
  | enterMessage hstage hnone hcall hmem =>
    have hafter := h.callback hcall
    exact ⟨hafter.state, hafter.entry, hafter.work, hafter.half⟩
  | message hm hstep hpc hperform =>
    have hhalf := shutdownWrite_not_mem_perform hperform
    refine ⟨(perform_spec hperform).state.trans_ne h.state, h.entry, h.work, fun hmem => ?_⟩
    exact (List.mem_append.mp hmem).elim h.half hhalf
  | swap hstage hfuncs =>
    refine ⟨h.state, h.entry, fun hmem => h.work ?_, h.half⟩
    rw [hfuncs]
    simpa [ConnView.setWork] using hmem
  | established context hfuncs hstage hcall =>
    obtain ⟨-, hconnected, -, rfl⟩ := connectEstablished_spec hcall
    refine (h.called hfuncs).after ?_ rfl (by simp)
    exact hconnected.trans_ne ConnState.noConfusion
  | destroyed context hfuncs hstage hcall =>
    obtain ⟨hdown, -, -, -, rfl⟩ := connectDestroyed_spec hcall
    refine (h.called hfuncs).after ?_ rfl (by simp)
    exact hdown.trans_ne ConnState.noConfusion
  | shutdownInLoop hfuncs hstage =>
    refine absurd (List.mem_append_left _ ?_) h.work
    rw [hfuncs]
    exact List.mem_cons_self
  | endBatch hfuncs hstage => exact ⟨h.state, h.entry, h.work, h.half⟩

end Undisturbed
end ConnView

namespace WebServer
variable {cfg : ServerConfig} {s s' : WebServer} {w conn : Nat}

/-- What an action is for the timing wheel. A message that does not find its entry is nothing. -/
def idleActions (s : WebServer) : ServerAction → List IdleAction
  | .destroyEntry =>
    match s.base.entry, s.base.expired with
    | none, [] => [.onTimer]
    | _, _ => []
  | .callback w read _ _ =>
    match (s.workers w).callbacks.head?, read with
    | some (conn, .readCb), some (_ :: _) => if s.EntryAlive conn then [.onMessage conn] else []
    | _, _ => []
  | .call w =>
    match (s.workers w).funcs.head? with
    | some (.connectEstablished conn) => [.onConnection conn]
    | _ => []
  | _ => []

/-- The ticks, insertions and messages of a run. -/
def idleRun (cfg : ServerConfig) (as : List ServerAction) : List IdleAction :=
  (webServer cfg).observe idleActions (.init cfg) as

/-! ## What a step does to the timing wheel -/

/-- The context is kept, and the connection is not established. -/
def KeepsEntry (c c' : ServerConn) : Prop :=
  c'.context = c.context ∧ (c'.tcp.state = .connected → c.tcp.state = .connected)

/-- No context is set, and no connection is established. A new connection has no entry. -/
structure KeepsConns (s s' : WebServer) : Prop where
  conns : ∀ conn < s.count, KeepsEntry (s.conns conn) (s'.conns conn)
  count : s.count ≤ s'.count
  unborn : ∀ conn < s'.count, s.count ≤ conn →
    (s'.conns conn).context = false ∧ (s'.conns conn).tcp.state ≠ .connected

theorem KeepsConns.of_count (hconns : ∀ conn, KeepsEntry (s.conns conn) (s'.conns conn))
    (hcount : s'.count = s.count) : s.KeepsConns s' where
  conns i _ := hconns i
  count := Nat.le_of_eq hcount.symm
  unborn _ hlt hle := absurd (hcount ▸ hlt) (Nat.not_lt_of_le hle)

theorem KeepsConns.of_eq (hconns : s'.conns = s.conns) (hcount : s'.count = s.count) :
    s.KeepsConns s' := by
  refine .of_count (fun i => ?_) hcount
  rw [hconns]
  exact ⟨rfl, id⟩

/-- One connection is changed. -/
theorem KeepsConns.of_update {c : ServerConn} (hconns : s'.conns = Function.update s.conns conn c)
    (hcount : s'.count = s.count) (hc : KeepsEntry (s.conns conn) c) : s.KeepsConns s' := by
  refine .of_count (fun i => ?_) hcount
  rw [hconns, Function.update_apply]
  split_ifs with heq
  · rw [heq]
    exact hc
  · exact ⟨rfl, id⟩

/-- The step has no part in a tick, or is one of `~Entry`. -/
structure KeepsTick (s s' : WebServer) : Prop where
  ticking : s'.base.ticking = s.base.ticking
  expired : s'.base.expired = s.base.expired
  entry : s.base.ticking = false → s'.base.entry = s.base.entry

theorem exec_keepsTick {a : ServerAction} {accesses : List Access}
    (h : s.exec cfg a = some (s', accesses)) (htimer : ∀ order, a ≠ .onTimer order)
    (hentry : a ≠ .destroyEntry) : s.KeepsTick s' := by
  obtain ⟨hticking, hexpired, hentry⟩ := (exec_leaves h).2 htimer hentry
  exact ⟨hticking, hexpired, fun _ => hentry⟩

/-- What a step does to the timing wheel, with the actions of the wheel that it makes. -/
inductive WheelStep (cfg : ServerConfig) (s s' : WebServer) : List IdleAction → Prop where
  | other (hconns : s.KeepsConns s') (htick : s.KeepsTick s')
      (hbuckets : s'.connBuckets = s.connBuckets) : WheelStep cfg s s' []
  | begins {order : List Nat} (hticking : s.base.ticking = false)
      (hperm : order.Perm (IdleTimeout.dropped cfg.expiredSec.toNat s.connBuckets))
      (heq : s' = s.onTimer cfg order) : WheelStep cfg s s' []
  | releases {conn : Nat} {expired : List Nat} {entry : Option (Nat × EntryStep)}
      (hticking : s.base.ticking) (hexpired : s.base.expired = conn :: expired)
      (hlock : s.connBuckets.any (conn ∈ ·) = false → s.Referenced conn →
        entry = some (conn, .test))
      (heq : s' = { s with base := { s.base with expired := expired, entry := entry } }) :
    WheelStep cfg s s' []
  | ticks (hticking : s.base.ticking) (hexpired : s.base.expired = [])
      (hentry : s.base.entry = none) (heq : s' = s.endTimer) : WheelStep cfg s s' [.onTimer]
  | establishes {conn : Nat} (hconn : conn < s.count) (htick : s.KeepsTick s')
      (hstate : (s.conns conn).tcp.state = .connecting) (hcount : s'.count = s.count)
      (hinsert : insertBack s.connBuckets conn = some s'.connBuckets)
      (hcontext : (s'.conns conn).context) (hother : ∀ i, i ≠ conn → s'.conns i = s.conns i) :
    WheelStep cfg s s' [.onConnection conn]
  | receives {conn : Nat} (hconn : conn < s.count) (htick : s.KeepsTick s')
      (halive : s.EntryAlive conn) (hcontext : (s.conns conn).context) (hcount : s'.count = s.count)
      (hinsert : insertBack s.connBuckets conn = some s'.connBuckets)
      (hconns : ∀ i, KeepsEntry (s.conns i) (s'.conns i)) : WheelStep cfg s s' [.onMessage conn]

theorem destroyEntry_wheel (hticking : s.base.ticking) :
    WheelStep cfg s s.destroyEntry (s.idleActions .destroyEntry) := by
  -- a step of `~Entry` itself
  have htick {s' : WebServer} (hsame : s'.base.ticking = s.base.ticking)
      (hexpired : s'.base.expired = s.base.expired) : s.KeepsTick s' :=
    ⟨hsame, hexpired, fun hnot => absurd (hticking.symm.trans hnot) Bool.noConfusion⟩
  cases hentry : s.base.entry with
  | none =>
    cases hexpired : s.base.expired with
    | nil =>
      simp only [idleActions, hentry, hexpired]
      refine .ticks hticking hexpired hentry ?_
      simp only [destroyEntry, hentry, hexpired]
    | cons c expired =>
      simp only [idleActions, destroyEntry, hentry, hexpired]
      split_ifs with hheld href
      · refine .releases hticking hexpired (fun hnot => ?_) rfl
        exact absurd (hheld.symm.trans hnot) Bool.noConfusion
      · exact .releases hticking hexpired (fun _ _ => rfl) rfl
      · exact .releases hticking hexpired (fun _ hreferenced => absurd hreferenced href) rfl
  | some e =>
    obtain ⟨c, step⟩ := e
    cases step with
    | test | queueShutdown | release =>
      simp only [idleActions, destroyEntry, hentry]
      exact .other (.of_eq rfl rfl) (htick rfl rfl) rfl
    | setDisconnecting =>
      simp only [idleActions, destroyEntry, hentry]
      exact .other (.of_update rfl rfl ⟨rfl, fun hstate => ConnState.noConfusion hstate⟩)
        (htick rfl rfl) rfl

/-- `handleRead` with data begins with the head of `onMessage`. -/
theorem callback_wheel (hplaced : s.Placed) (hexpires : cfg.Expires) {read : Option Bytes}
    {write : Option Nat} {fs : FileSystem} {tables : List SharedTable} (htick : s.KeepsTick s')
    (h : s.callback cfg w read write fs = some (s', tables)) :
    WheelStep cfg s s' (s.idleActions (.callback w read write fs)) := by
  rw [callback] at h
  cases hcallbacks : (s.workers w).callbacks with
  | nil =>
    rw [hcallbacks] at h
    cases h
  | cons e callbacks =>
    obtain ⟨conn, cb⟩ := e
    rw [hcallbacks] at h
    simp only [Option.bind_eq_bind, Option.bind_eq_some_iff] at h
    obtain ⟨⟨tcp, es⟩, hcall, h⟩ := h
    have hconn : conn < s.count := by
      apply ((hplaced.work w).callback (conn, cb) _).1
      rw [hcallbacks]
      exact List.mem_cons_self
    have hkeeps : KeepsEntry (s.conns conn) ((s.conns conn).after tcp es) :=
      ⟨rfl, fun hstate => (callback_state hcall).symm.trans hstate⟩
    split_ifs at h with hmem
    · obtain ⟨rfl, x, data, b, rfl, -⟩ := callback_messageCb hcall hmem
      simp only [idleActions, hcallbacks, List.head?_cons]
      rw [enterMessage, if_pos hexpires, after_conns] at h
      split_ifs at h with hcontext halive
      · obtain ⟨connBuckets, hinsert, heq⟩ := Option.map_eq_some_iff.mp h
        cases heq
        have halive : s.EntryAlive conn := halive
        rw [if_pos halive]
        refine .receives hconn htick halive hcontext rfl hinsert fun i => ?_
        simp only [WebServer.after, modifyWorker, Function.update_apply]
        split_ifs with heq
        · rw [heq]
          exact hkeeps
        · exact ⟨rfl, id⟩
      · cases h
        have halive : ¬ s.EntryAlive conn := halive
        rw [if_neg halive]
        exact .other (.of_update rfl rfl hkeeps) htick rfl
    · have hnone : s.idleActions (.callback w read write fs) = [] := by
        simp only [idleActions, hcallbacks, List.head?_cons]
        split
        · next x data heq =>
          cases heq
          exact absurd ((messageCb_mem_callback hcall).mpr ⟨rfl, _, rfl, List.cons_ne_nil x data⟩)
            hmem
        · rfl
      cases h
      rw [hnone]
      exact .other (.of_update rfl rfl hkeeps) htick rfl

/-- `connectEstablished` ends with `onConnection`. -/
theorem call_wheel (hplaced : s.Placed) (hexpires : cfg.Expires) {tables : List SharedTable}
    (htick : s.KeepsTick s') (h : s.call cfg w = some (s', tables)) :
    WheelStep cfg s s' (s.idleActions (.call w)) := by
  rw [call] at h
  cases hfuncs : (s.workers w).funcs with
  | nil =>
    rw [hfuncs] at h
    cases h
  | cons f funcs =>
    rw [hfuncs] at h
    simp only [idleActions, hfuncs, List.head?_cons]
    cases f with
    | connectEstablished conn =>
      have hconn : conn < s.count := by
        apply ((hplaced.work w).functor (.connectEstablished conn) _).1
        rw [hfuncs]
        simp
      simp only [runFunctor, Option.bind_eq_bind, Option.bind_eq_some_iff] at h
      obtain ⟨⟨tcp, es⟩, hcall, h⟩ := h
      obtain ⟨hconnecting, hconnected, -⟩ := connectEstablished_spec hcall
      rw [onConnection, after_conns] at h
      simp only [ServerConn.after, if_pos hconnected, if_pos hexpires,
        Option.bind_eq_bind, Option.bind_eq_some_iff] at h
      obtain ⟨connBuckets, hinsert, heq⟩ := h
      cases heq
      refine .establishes hconn htick hconnecting rfl hinsert ?_ fun i hne => ?_
      · simp only [Function.update_self]
      · simp only [WebServer.after, Function.update_of_ne hne]
        rfl
    | connectDestroyed conn =>
      simp only [runFunctor, Option.bind_eq_bind, Option.bind_eq_some_iff] at h
      obtain ⟨⟨tcp, es⟩, hcall, h⟩ := h
      have hdown : tcp.state ≠ .connected := by
        rw [(connectDestroyed_spec hcall).1]
        exact fun heq => ConnState.noConfusion heq
      rw [onConnection, after_conns] at h
      split_ifs at h with hstate
      · exact absurd hstate hdown
      · cases h
        exact .other (.of_update rfl rfl ⟨rfl, fun hstate => absurd hstate hdown⟩) htick rfl
    | shutdownInLoop conn =>
      simp only [runFunctor] at h
      split_ifs at h
      cases h
      exact .other (.of_update rfl rfl ⟨rfl, id⟩) htick rfl

/-- **One inversion for all steps.** -/
theorem exec_wheel (hplaced : s.Placed) (hexpires : cfg.Expires) {a : ServerAction}
    {accesses : List Access} (hpre : s.Pre cfg a) (h : s.exec cfg a = some (s', accesses)) :
    WheelStep cfg s s' (s.idleActions a) := by
  cases a with
  | onTimer order =>
    cases h
    exact .begins hpre.1.2 hpre.2.2 rfl
  | destroyEntry =>
    cases h
    exact destroyEntry_wheel hpre.2
  | basePoll | baseSwap | baseEnd | poll | swap | endBatch =>
    cases h
    exact .other (.of_eq rfl rfl) ⟨rfl, rfl, fun _ => rfl⟩ rfl
  | accept =>
    obtain ⟨s₁, hnew, heq⟩ := Option.map_eq_some_iff.mp h
    cases heq
    rw [handleNewConnection] at hnew
    split_ifs at hnew
    cases hnew
    refine .other ⟨fun conn hconn => ?_, Nat.le_succ _, fun conn hconn hle => ?_⟩
      ⟨rfl, rfl, fun _ => rfl⟩ rfl
    · change KeepsEntry _ (Function.update s.conns s.count _ conn)
      rw [Function.update_of_ne hconn.ne]
      exact ⟨rfl, id⟩
    · obtain rfl : conn = s.count := Nat.le_antisymm (Nat.le_of_lt_succ hconn) hle
      change (Function.update s.conns s.count _ s.count).context = false ∧
        (Function.update s.conns s.count _ s.count).tcp.state ≠ .connected
      rw [Function.update_self]
      exact ⟨rfl, fun hstate => ConnState.noConfusion hstate⟩
  | baseCall =>
    rw [exec] at h
    split at h
    · cases h
    · obtain ⟨s₁, hremove, heq⟩ := Option.map_eq_some_iff.mp h
      cases heq
      rw [handleRemoveConnectionInLoop] at hremove
      split_ifs at hremove
      cases hremove
      exact .other (.of_eq rfl rfl) ⟨rfl, rfl, fun _ => rfl⟩ rfl
  | dispatch w =>
    rw [exec] at h
    split at h <;> cases h
    exact .other (.of_eq rfl rfl) ⟨rfl, rfl, fun _ => rfl⟩ rfl
  | callback w read write fs =>
    have htick := exec_keepsTick h (fun _ heq => by cases heq) (fun heq => by cases heq)
    obtain ⟨⟨s₁, tables⟩, hcallback, heq⟩ := Option.map_eq_some_iff.mp h
    cases heq
    exact callback_wheel hplaced hexpires htick hcallback
  | onMessage w write =>
    have htick := exec_keepsTick h (fun _ heq => by cases heq) (fun heq => by cases heq)
    obtain ⟨m, -, hexec⟩ := Option.bind_eq_some_iff.mp h
    obtain ⟨s₁, hstep, heq⟩ := Option.map_eq_some_iff.mp hexec
    cases heq
    obtain ⟨frame, effects, tcp, es, -, -, hperform, rfl⟩ := messageStep_eq_some hstep
    exact .other (.of_update rfl rfl
      ⟨rfl, fun hstate => (perform_spec hperform).state.symm.trans hstate⟩) htick rfl
  | call w =>
    have htick := exec_keepsTick h (fun _ heq => by cases heq) (fun heq => by cases heq)
    obtain ⟨⟨s₁, tables⟩, hcall, heq⟩ := Option.map_eq_some_iff.mp h
    cases heq
    exact call_wheel hplaced hexpires htick hcall
  | exit => cases h

/-! ## The simulation -/

/-- Its last entry is gone. -/
def Gone (s : WebServer) (conn : Nat) : Prop := (s.conns conn).context ∧ ¬ s.EntryAlive conn

/-- The last `EntryPtr` to an entry goes, and `~Entry` begins. -/
structure Releases (s s' : WebServer) (conn : Nat) : Prop where
  expired : s.base.expired = conn :: s'.base.expired
  last : s.connBuckets.any (conn ∈ ·) = false
  lock : s.Referenced conn → s'.base.entry = some (conn, .test)

theorem not_releases (h : s'.base.expired = s.base.expired) : ¬ s.Releases s' conn := by
  intro hreleases
  exact List.cons_ne_self _ _ (hreleases.expired.symm.trans h.symm)

theorem not_releases_of_nil (h : s.base.expired = []) : ¬ s.Releases s' conn := by
  intro hreleases
  exact List.cons_ne_nil _ _ (hreleases.expired.symm.trans h)

/-- Until a tick counts, the timing wheel still has the whole oldest bucket. -/
inductive AtTick (s : WebServer) (t : IdleTimeout) : Prop where
  | between (hticking : s.base.ticking = false) (hbuckets : t.connBuckets = s.connBuckets)
      (hexpired : s.base.expired = []) (hentry : s.base.entry = none)
  | within {oldest : Bucket} (hticking : s.base.ticking)
      (hbuckets : t.connBuckets = s.connBuckets ++ [oldest]) (hexpired : s.base.expired ⊆ oldest)
      (hnodup : s.base.expired.Nodup)

theorem any_insertBack {connBuckets connBuckets' : List Bucket} {c : Nat}
    (h : insertBack connBuckets c = some connBuckets') :
    connBuckets'.any (conn ∈ ·) ↔ conn = c ∨ connBuckets.any (conn ∈ ·) := by
  cases connBuckets with
  | nil => cases h
  | cons bucket buckets =>
    cases h
    simp [or_assoc]

namespace AtTick
variable {t t' : IdleTimeout}

theorem keeps (h : s.AtTick t) (htick : s.KeepsTick s')
    (hbuckets : s'.connBuckets = s.connBuckets) : s'.AtTick t := by
  cases h with
  | between hticking hsame hexpired hentry =>
    exact .between (htick.ticking.trans hticking) (hsame.trans hbuckets.symm)
      (htick.expired.trans hexpired) ((htick.entry hticking).trans hentry)
  | within hticking hsame hexpired hnodup =>
    exact .within (htick.ticking.trans hticking) (hbuckets ▸ hsame) (htick.expired ▸ hexpired)
      (htick.expired ▸ hnodup)

/-- The newest bucket is the same for the server and the timing wheel. -/
theorem inserted (h : s.AtTick t) (htick : s.KeepsTick s')
    (hinsert : insertBack s.connBuckets conn = some s'.connBuckets)
    (ht : t'.connBuckets = (t.insertBack conn).connBuckets) : s'.AtTick t' := by
  cases hbuckets : s.connBuckets with
  | nil =>
    rw [hbuckets] at hinsert
    cases hinsert
  | cons bucket buckets =>
    rw [hbuckets] at hinsert
    have hinsert : bucket.insert conn :: buckets = s'.connBuckets := Option.some.inj hinsert
    cases h with
    | between hticking hsame hexpired hentry =>
      refine .between (htick.ticking.trans hticking) ?_ (htick.expired.trans hexpired)
        ((htick.entry hticking).trans hentry)
      rw [ht, IdleTimeout.insertBack, hsame, hbuckets, ← hinsert]
    | @within oldest hticking hsame hexpired hnodup =>
      refine @AtTick.within s' t' oldest (htick.ticking.trans hticking) ?_
        (htick.expired ▸ hexpired) (htick.expired ▸ hnodup)
      rw [ht, IdleTimeout.insertBack, hsame, hbuckets, ← hinsert]
      rfl

theorem alive (h : s.AtTick t) (halive : s.EntryAlive conn) : t.alive conn := by
  rw [IdleTimeout.alive]
  cases h with
  | between hticking hsame hexpired hentry =>
    rw [EntryAlive, hexpired, or_iff_left List.not_mem_nil] at halive
    rw [hsame]
    exact halive
  | within hticking hsame hexpired hnodup =>
    rw [hsame, List.any_append, Bool.or_eq_true]
    refine halive.imp_right fun hmem => ?_
    simpa using hexpired hmem

end AtTick

/-- The timing wheel `t` has the buckets and the contexts of the server; its connections never
go. -/
structure Follows (cfg : ServerConfig) (s : WebServer) (t : IdleTimeout) : Prop where
  inv : t.Inv
  expiredSec : t.expiredSec = cfg.expiredSec.toNat
  atTick : s.AtTick t
  context : ∀ conn < s.count, t.context conn = (s.conns conn).context
  unborn : ∀ conn, s.count ≤ conn → t.context conn = false
  live : t.live = t.context
  connecting : ∀ conn < s.count, (s.conns conn).tcp.state = .connecting →
    (s.conns conn).context = false
  connected : ∀ conn < s.count, (s.conns conn).tcp.state = .connected → t.context conn

theorem Follows.init (cfg : ServerConfig) :
    Follows cfg (.init cfg) (.init cfg.expiredSec.toNat) where
  inv := .init _
  expiredSec := rfl
  atTick := .between rfl rfl rfl rfl
  context _ _ := rfl
  unborn _ _ := rfl
  live := rfl
  connecting _ _ _ := rfl
  connected := nofun

namespace Follows
variable {t : IdleTimeout} {a : ServerAction} {accesses : List Access}

/-- A connection whose entry is gone is idle for `expiredSec_` ticks, with the one that is
running. -/
theorem idle_of_gone (h : Follows cfg s t) (hconn : conn < s.count) (hgone : s.Gone conn) :
    ∃ k, t.idle conn = some k ∧ t.expiredSec ≤ k + s.base.ticking.toNat := by
  have hknown := (h.inv.known conn).mp ((h.context conn hconn).trans hgone.1)
  obtain ⟨k, hk⟩ := Option.ne_none_iff_exists'.mp hknown
  refine ⟨k, hk, ?_⟩
  by_contra hlt
  obtain ⟨bucket, hbucket, hmem⟩ := h.inv.newest conn k hk (by omega)
  -- no bucket of the server has the entry
  have hnot : bucket ∉ s.connBuckets := by
    intro hheld
    exact hgone.2 (.inl (List.any_eq_true.mpr ⟨bucket, hheld, decide_eq_true hmem⟩))
  cases h.atTick with
  | between hticking hsame => exact hnot (hsame ▸ List.mem_of_getElem? hbucket)
  | within hticking hsame =>
    have hfull := h.inv.full
    rw [hsame, List.length_append, List.length_singleton] at hfull
    rw [hticking, Bool.toNat_true] at hlt
    rw [hsame, List.getElem?_append_left (by omega)] at hbucket
    exact hnot (List.mem_of_getElem? hbucket)

/-- What has an entry has the context that `onConnection` left. -/
theorem context_of_alive (h : Follows cfg s t) (hconn : conn < s.count)
    (halive : s.EntryAlive conn) : (s.conns conn).context := by
  rw [← h.context conn hconn, h.inv.known]
  obtain ⟨k, hk, -⟩ := h.inv.alive_iff.mp (h.atTick.alive halive)
  rw [hk]
  exact Option.some_ne_none k

/-- An entry that is gone does not come back, and one goes only when its last `EntryPtr` does. -/
theorem gone_iff (h : Follows cfg s t) {l : List IdleAction} (hwheel : WheelStep cfg s s' l)
    (hconn : conn < s.count) : s'.Gone conn ↔ s.Gone conn ∨ s.Releases s' conn := by
  cases hwheel with
  | other hconns htick hbuckets =>
    rw [or_iff_left (not_releases htick.expired), Gone, Gone, EntryAlive, EntryAlive, hbuckets,
      htick.expired, (hconns.conns conn hconn).1]
  | begins hticking hperm heq =>
    have hnil : s.base.expired = [] := by
      cases h.atTick with
      | between hnot hsame hexpired => exact hexpired
      | within hrunning => cases hticking.symm.trans hrunning
    subst heq
    rw [or_iff_left (not_releases_of_nil hnil), Gone, Gone, EntryAlive, EntryAlive, hnil,
      or_iff_left List.not_mem_nil,
      IdleTimeout.any_kept_or_dropped cfg.expiredSec.toNat s.connBuckets, ← hperm.mem_iff]
    rfl
  | @releases c expired entry hticking hexpired hlock heq =>
    subst heq
    have hrel : s.Releases { s with base := { s.base with expired := expired, entry := entry } }
        conn ↔ conn = c ∧ s.connBuckets.any (conn ∈ ·) = false := by
      constructor
      · intro hreleases
        exact ⟨(List.cons.inj (hexpired.symm.trans hreleases.expired)).1.symm, hreleases.last⟩
      · rintro ⟨rfl, hlast⟩
        exact ⟨hexpired, hlast, hlock hlast⟩
    have hnodup : c ∉ expired := by
      cases h.atTick with
      | between hnot => cases hnot.symm.trans hticking
      | within hrunning hsame hsub hnodup =>
        rw [hexpired] at hnodup
        exact (List.nodup_cons.mp hnodup).1
    have hcontext : conn = c → (s.conns conn).context := by
      rintro rfl
      exact h.context_of_alive hconn (.inr (hexpired ▸ List.mem_cons_self))
    rw [hrel, Gone, Gone, EntryAlive, EntryAlive, hexpired, List.mem_cons]
    simp only [Bool.eq_false_iff]
    constructor
    · intro ⟨hmark, hnot⟩
      by_cases hc : conn = c
      · exact .inr ⟨hc, fun hany => hnot (.inl hany)⟩
      · exact .inl ⟨hmark, fun halive => hnot (halive.imp_right fun hor => hor.resolve_left hc)⟩
    · rintro (⟨hmark, hnot⟩ | ⟨hc, hany⟩)
      · exact ⟨hmark, fun halive => hnot (halive.imp_right .inr)⟩
      · refine ⟨hcontext hc, fun halive => ?_⟩
        exact halive.elim hany fun hmem => hnodup (hc ▸ hmem)
  | ticks hticking hexpired hentry heq =>
    subst heq
    rw [or_iff_left (not_releases_of_nil hexpired), Gone, Gone, EntryAlive, EntryAlive]
    simp [endTimer]
  | @establishes c hc htick hstate hcount hinsert hcontext hother =>
    rw [or_iff_left (not_releases htick.expired), Gone, Gone, EntryAlive, EntryAlive,
      any_insertBack hinsert, htick.expired]
    rcases eq_or_ne conn c with rfl | hne
    · refine iff_of_false (fun hgone => hgone.2 (.inl (.inl rfl))) fun hgone => ?_
      rw [h.connecting conn hconn hstate] at hgone
      exact Bool.noConfusion hgone.1
    · rw [hother conn hne, or_iff_right hne]
  | @receives c hc htick halive hmark hcount hinsert hconns =>
    rw [or_iff_left (not_releases htick.expired), Gone, Gone, EntryAlive, EntryAlive,
      any_insertBack hinsert, htick.expired, (hconns conn).1]
    rcases eq_or_ne conn c with rfl | hne
    · exact iff_of_false (fun hgone => hgone.2 (.inl (.inl rfl))) fun hgone => hgone.2 halive
    · rw [or_iff_right hne]

/-- A connection without a context is not established. -/
theorem connecting_step (h : Follows cfg s t) (hsteps : Steps cfg s a s') :
    ∀ conn < s'.count, (s'.conns conn).tcp.state = .connecting →
      (s'.conns conn).context = false := by
  apply hsteps.forall_view (I := fun v => v.conn.tcp.state = .connecting → v.conn.context = false)
  · exact fun _ _ _ _ _ => rfl
  · intro conn hconn hstep hstate
    rcases ConnView.state_step hstep with ⟨hsame, hcontext⟩ | ⟨-, hnew⟩ | ⟨-, hnew⟩ | hnew
    · exact hcontext.trans (h.connecting conn hconn (hsame.symm.trans hstate))
    all_goals cases hnew.symm.trans hstate

/-- A step that is nothing for the timing wheel. -/
theorem keeps (h : Follows cfg s t) (hconns : s.KeepsConns s') (hat : s'.AtTick t)
    (hconnecting : ∀ conn < s'.count, (s'.conns conn).tcp.state = .connecting →
      (s'.conns conn).context = false) : Follows cfg s' t where
  inv := h.inv
  expiredSec := h.expiredSec
  atTick := hat
  context conn hconn := by
    rcases Nat.lt_or_ge conn s.count with hlt | hge
    · rw [h.context conn hlt, (hconns.conns conn hlt).1]
    · rw [h.unborn conn hge, (hconns.unborn conn hconn hge).1]
  unborn conn hle := h.unborn conn (hconns.count.trans hle)
  live := h.live
  connecting := hconnecting
  connected conn hconn hstate := by
    rcases Nat.lt_or_ge conn s.count with hlt | hge
    · exact h.connected conn hlt ((hconns.conns conn hlt).2 hstate)
    · exact absurd hstate (hconns.unborn conn hconn hge).2

theorem begins (h : Follows cfg s t) {order : List Nat} (hpos : 0 < t.expiredSec)
    (hticking : s.base.ticking = false)
    (hperm : order.Perm (IdleTimeout.dropped cfg.expiredSec.toNat s.connBuckets)) :
    (s.onTimer cfg order).AtTick t := by
  obtain ⟨buckets, oldest, hbuckets, -, hnew, hdropped⟩ := h.inv.buckets_onTimer hpos
  cases h.atTick with
  | within hrunning => cases hticking.symm.trans hrunning
  | between hnot hsame =>
    rw [← hsame, ← h.expiredSec, hdropped] at hperm
    refine @AtTick.within (s.onTimer cfg order) t oldest rfl ?_ hperm.subset
      (hperm.nodup_iff.mpr ?_)
    · have hkept : IdleTimeout.kept t.expiredSec t.connBuckets = buckets := (List.cons.inj hnew).2
      change _ = IdleTimeout.kept cfg.expiredSec.toNat s.connBuckets ++ [oldest]
      rw [← hsame, ← h.expiredSec, hkept, hbuckets]
    · apply h.inv.nodup
      rw [hbuckets]
      exact List.mem_append_right _ List.mem_cons_self

/-- The tick counts. -/
theorem ticks (h : Follows cfg s t) (hpos : 0 < t.expiredSec) (hticking : s.base.ticking)
    (hexpired : s.base.expired = []) (hentry : s.base.entry = none) :
    Follows cfg s.endTimer (t.record t.onTimer .onTimer t.expired) where
  inv := h.inv.onTimer hpos
  expiredSec := h.expiredSec
  atTick := by
    obtain ⟨buckets, oldest, hbuckets, -, hnew, -⟩ := h.inv.buckets_onTimer hpos
    cases h.atTick with
    | between hnot => cases hnot.symm.trans hticking
    | within hrunning hsame =>
      refine .between rfl ?_ hexpired hentry
      have hkept : buckets = s.connBuckets := (List.append_inj' (hbuckets.symm.trans hsame) rfl).1
      exact hnew.trans (congrArg _ hkept)
  context := h.context
  unborn := h.unborn
  live := h.live
  connecting := h.connecting
  connected := h.connected

theorem establishes (h : Follows cfg s t) (hpos : 0 < t.expiredSec) (hconn : conn < s.count)
    (htick : s.KeepsTick s') (hnew : t.context conn = false) (hcount : s'.count = s.count)
    (hinsert : insertBack s.connBuckets conn = some s'.connBuckets)
    (hcontext : (s'.conns conn).context) (hother : ∀ i, i ≠ conn → s'.conns i = s.conns i)
    (hconnecting : ∀ conn < s'.count, (s'.conns conn).tcp.state = .connecting →
      (s'.conns conn).context = false) :
    Follows cfg s' (t.record (t.onConnection conn) (.onConnection conn) []) where
  inv := h.inv.onConnection hpos hnew
  expiredSec := h.expiredSec
  atTick := h.atTick.inserted htick hinsert rfl
  context i hi := by
    change Function.update t.context conn true i = _
    rcases eq_or_ne i conn with rfl | hne
    · rw [Function.update_self, hcontext]
    · rw [Function.update_of_ne hne, hother i hne, h.context i (hcount ▸ hi)]
  unborn i hle := by
    rw [hcount] at hle
    change Function.update t.context conn true i = _
    rw [Function.update_of_ne (Nat.ne_of_gt (Nat.lt_of_lt_of_le hconn hle))]
    exact h.unborn i hle
  live := by
    change Function.update t.live conn true = Function.update t.context conn true
    rw [h.live]
  connecting := hconnecting
  connected i hi hstate := by
    change Function.update t.context conn true i = true
    rcases eq_or_ne i conn with rfl | hne
    · rw [Function.update_self]
    · rw [hother i hne] at hstate
      rw [Function.update_of_ne hne]
      exact h.connected i (hcount ▸ hi) hstate

theorem receives (h : Follows cfg s t) (hpos : 0 < t.expiredSec) (htick : s.KeepsTick s')
    (halive : t.alive conn) (hlive : t.live conn) (hcount : s'.count = s.count)
    (hinsert : insertBack s.connBuckets conn = some s'.connBuckets)
    (hconns : ∀ i, KeepsEntry (s.conns i) (s'.conns i))
    (hconnecting : ∀ conn < s'.count, (s'.conns conn).tcp.state = .connecting →
      (s'.conns conn).context = false) :
    Follows cfg s' (t.record (t.insertBack conn) (.onMessage conn) []) where
  inv := by
    have hinv := h.inv.onMessage hpos hlive
    rwa [if_pos halive] at hinv
  expiredSec := h.expiredSec
  atTick := h.atTick.inserted htick hinsert rfl
  context i hi := by
    rw [(hconns i).1, ← h.context i (hcount ▸ hi)]
    rfl
  unborn i hle := h.unborn i (hcount ▸ hle)
  live := h.live
  connecting := hconnecting
  connected i hi hstate := h.connected i (hcount ▸ hi) ((hconns i).2 hstate)

/-- **The simulation step.** -/
theorem step (h : Follows cfg s t) (hexpires : cfg.Expires) (hplaced : s.Placed)
    (hpre : s.Pre cfg a) (hexec : s.exec cfg a = some (s', accesses)) :
    ∃ t' shut, IdleTimeout.program.Admissible t (s.idleActions a) ∧
      IdleTimeout.program.run t (s.idleActions a) = some (t', shut) ∧ Follows cfg s' t' := by
  have hconnecting := h.connecting_step (exec_steps hplaced hpre hexec)
  have hpos : 0 < t.expiredSec := by
    have hexpires : 0 < cfg.expiredSec := hexpires
    rw [h.expiredSec]
    omega
  have hwheel := exec_wheel hplaced hexpires hpre hexec
  generalize s.idleActions a = l at hwheel ⊢
  cases hwheel with
  | other hconns htick hbuckets =>
    exact ⟨t, [], trivial, rfl, h.keeps hconns (h.atTick.keeps htick hbuckets) hconnecting⟩
  | begins hticking hperm heq =>
    subst heq
    exact ⟨t, [], trivial, rfl,
      h.keeps (.of_eq rfl rfl) (h.begins hpos hticking hperm) hconnecting⟩
  | releases hticking hexpired hlock heq =>
    subst heq
    refine ⟨t, [], trivial, rfl, h.keeps (.of_eq rfl rfl) ?_ hconnecting⟩
    cases h.atTick with
    | between hnot => cases hnot.symm.trans hticking
    | within hrunning hsame hsub hnodup =>
      rw [hexpired] at hsub hnodup
      exact .within hrunning hsame (List.subset_of_cons_subset hsub) hnodup.of_cons
  | ticks hticking hexpired hentry heq =>
    subst heq
    exact ⟨_, _, ⟨trivial, fun _ _ _ => trivial⟩, rfl, h.ticks hpos hticking hexpired hentry⟩
  | establishes hconn htick hstate hcount hinsert hcontext hother =>
    have hnew : t.context _ = false := (h.context _ hconn).trans (h.connecting _ hconn hstate)
    exact ⟨_, [[]], ⟨hnew, fun _ _ _ => trivial⟩, rfl,
      h.establishes hpos hconn htick hnew hcount hinsert hcontext hother hconnecting⟩
  | @receives c hconn htick halive hcontext hcount hinsert hconns =>
    have hlive : t.live c := h.live ▸ (h.context c hconn).trans hcontext
    have halive := h.atTick.alive halive
    have hrun : t.exec (.onMessage c) =
        some (t.record (t.insertBack c) (.onMessage c) [], []) := by
      rw [IdleTimeout.exec, h.inv.code_onMessage hlive, if_pos halive]
      rfl
    refine ⟨_, [[]], ⟨hlive, fun _ _ _ => trivial⟩, ?_,
      h.receives hpos htick halive hlive hcount hinsert hconns hconnecting⟩
    simp only [Program.run, hrun, Option.bind_eq_bind, Option.bind_some, Option.pure_def]

end Follows

/-! ## Not before -/

/-- Only connections whose entry is gone are shut down. -/
def NotEarly (s : WebServer) : Prop :=
  ∀ conn < s.count, ¬ s.Gone conn → (s.view conn).Undisturbed

section
variable {t : IdleTimeout} {a : ServerAction} {accesses : List Access}

/-- `~Entry` begins when it has locked the connection. -/
theorem releases_of_event (hentry : (s.view conn).entry = none)
    (hevent : s.event cfg conn a = .entry) (hexec : s.exec cfg a = some (s', accesses)) :
    s.Releases s' conn := by
  have hcause := s.event_causes cfg conn a
  rw [hevent] at hcause
  obtain rfl : a = .destroyEntry := hcause
  cases hexec
  rw [event] at hevent
  split at hevent
  · next c step heq =>
    split_ifs at hevent with hc
    subst hc
    exact absurd ((view_entry heq).symm.trans hentry) (Option.some_ne_none step)
  · next hnone =>
    split_ifs at hevent with hhead
    obtain ⟨hexpired, hlast, href⟩ := hhead
    obtain ⟨expired, hexpired⟩ := List.head?_eq_some_iff.mp hexpired
    have heq : s.destroyEntry =
        setEntry { s with base := { s.base with expired := expired } } (some (conn, .test)) := by
      simp only [destroyEntry, hnone, hexpired, hlast, if_pos href, Bool.false_eq_true, if_false]
    rw [heq]
    exact ⟨hexpired, hlast, fun _ => rfl⟩

theorem NotEarly.step (h : s.NotEarly) (hfollows : Follows cfg s t) (hexpires : cfg.Expires)
    (hplaced : s.Placed) (hpre : s.Pre cfg a) (hexec : s.exec cfg a = some (s', accesses)) :
    s'.NotEarly := by
  have hwheel := exec_wheel hplaced hexpires hpre hexec
  apply (exec_steps hplaced hpre hexec).forall_view
    (I := fun v => ¬ s'.Gone v.this → v.Undisturbed)
  · exact fun _ _ _ _ _ => ConnView.undisturbed_fresh ..
  · intro conn hconn hstep hnot
    have hnot : ¬ (s.Gone conn ∨ s.Releases s' conn) := (hfollows.gone_iff hwheel hconn).not.mp hnot
    have hbefore := h conn hconn fun hgone => hnot (.inl hgone)
    refine hbefore.step (fun hevent => hnot (.inr ?_)) hstep
    exact releases_of_event hbefore.entry hevent hexec

/-! ## Not after -/

/-- `~Entry` is still to test the connection, or to change its state. -/
def Expiring (s : WebServer) (conn : Nat) : Prop :=
  (conn, .test) ∈ s.base.entry ∨ (conn, .setDisconnecting) ∈ s.base.entry

/-- A connection whose entry is gone does not stay open. -/
def NotLate (s : WebServer) : Prop :=
  ∀ conn < s.count, s.Gone conn → (s.conns conn).tcp.state = .connected → s.Expiring conn

theorem expiring_destroyEntry (hstate : (s.conns conn).tcp.state = .connected)
    (hstate' : (s.destroyEntry.conns conn).tcp.state = .connected) (h : s.Expiring conn) :
    s.destroyEntry.Expiring conn := by
  rcases h with hentry | hentry
  · rw [Option.mem_def] at hentry
    refine .inr ?_
    simp [destroyEntry, hentry, hstate, setEntry]
  · rw [Option.mem_def] at hentry
    simp only [destroyEntry, hentry, after_conns] at hstate'
    exact ConnState.noConfusion hstate'

theorem expiring_step (hstate : (s.conns conn).tcp.state = .connected)
    (hstate' : (s'.conns conn).tcp.state = .connected)
    (hexec : s.exec cfg a = some (s', accesses)) (h : s.Expiring conn) : s'.Expiring conn := by
  have hsame (htimer : ∀ order, a ≠ .onTimer order) (hentry : a ≠ .destroyEntry) :
      s'.Expiring conn := by
    rw [Expiring, ((exec_leaves hexec).2 htimer hentry).2.2]
    exact h
  cases a with
  | onTimer order =>
    cases hexec
    exact h
  | destroyEntry =>
    cases hexec
    exact expiring_destroyEntry hstate hstate' h
  | _ => exact hsame (fun _ heq => by cases heq) fun heq => by cases heq

theorem NotLate.step (h : s.NotLate) (hfollows : Follows cfg s t) (hexpires : cfg.Expires)
    (hunique : s.Unique) (hpre : s.Pre cfg a) (hexec : s.exec cfg a = some (s', accesses)) :
    s'.NotLate := by
  have hwheel := exec_wheel hunique.placed hexpires hpre hexec
  apply (exec_steps hunique.placed hpre hexec).forall_view
    (I := fun v => s'.Gone v.this → v.conn.tcp.state = .connected → s'.Expiring v.this)
  · exact fun _ _ _ _ _ hstate => ConnState.noConfusion hstate
  intro conn hconn hstep hgone hstate
  have hgone := (hfollows.gone_iff hwheel hconn).mp hgone
  have hcontext : (s.conns conn).context := by
    rcases hgone with hgone | hreleases
    · exact hgone.1
    · exact hfollows.context_of_alive hconn (.inr (hreleases.expired ▸ List.mem_cons_self))
  have hbefore : (s.conns conn).tcp.state = .connected := by
    rcases ConnView.state_step hstep with ⟨hsame, -⟩ | ⟨-, hnew⟩ | ⟨hconnecting, -⟩ | hnew
    · exact hsame.symm.trans hstate
    · cases hnew.symm.trans hstate
    · cases hcontext.symm.trans (hfollows.connecting conn hconn hconnecting)
    · cases hnew.symm.trans hstate
  rcases hgone with hgone | hreleases
  · exact expiring_step hbefore hstate hexec (h conn hconn hgone hbefore)
  · -- an open connection has not been destroyed, so `~Entry` can lock it
    have hheld := hunique.held conn hconn
    have href := hheld.referenced_of_kept
      (hheld.destructions_eq_zero fun hdestroyed => hdestroyed.not_connected hbefore)
    exact .inl (hreleases.lock (view_referenced.mp href))

end

/-! ## All runs -/

theorem simulates_idle (hexpires : cfg.Expires) :
    (webServer cfg).Simulates IdleTimeout.program idleActions fun s t =>
      s.Placed ∧ Follows cfg s t ∧ s.NotEarly := by
  intro s t a s' accesses ⟨hplaced, hfollows, hearly⟩ hpre hexec
  obtain ⟨t', shut, hadm, hrun, hnext⟩ := hfollows.step hexpires hplaced hpre hexec
  exact ⟨t', shut, hadm, hrun, (exec_steps hplaced hpre hexec).placed, hnext,
    hearly.step hfollows hexpires hplaced hpre hexec⟩

/-- Under names that are not reused. -/
theorem simulates_idle_spaced (hexpires : cfg.Expires) :
    ((webServer cfg).restrict Spaced).Simulates IdleTimeout.program idleActions fun s t =>
      ((webServer cfg).restrict Spaced).Reachable (.init cfg) s ∧ Follows cfg s t ∧ s.NotLate := by
  intro s t a s' accesses ⟨hreach, hfollows, hlate⟩ hpre hexec
  have hunique := unique_of_spaced hreach
  obtain ⟨t', shut, hadm, hrun, hnext⟩ := hfollows.step hexpires hunique.placed hpre.1 hexec
  exact ⟨t', shut, hadm, hrun, hreach.next a hpre hexec, hnext,
    hlate.step hfollows hexpires hunique hpre.1 hexec⟩

variable {as : List ServerAction} {answered : List (List Access)}

/-- **The server runs the timing wheel, and never early.** Every run of the server makes an
admissible run of the timing wheel alone, which has the buckets of the server whenever no tick is
running; and a connection is `DISCONNECTING` or half-closed only when the wheel has counted
`expiredSec_` ticks since an entry was last inserted for it, the tick that is running included. -/
theorem idle_not_early (cfg : ServerConfig) (hexpires : cfg.Expires)
    (hadm : (webServer cfg).Admissible (.init cfg) as)
    (hrun : (webServer cfg).run (.init cfg) as = some (s, answered)) :
    ∃ t shut, IdleTimeout.program.Admissible (.init cfg.expiredSec.toNat) (idleRun cfg as) ∧
      IdleTimeout.program.run (.init cfg.expiredSec.toNat) (idleRun cfg as) = some (t, shut) ∧
      (s.base.ticking = false → t.connBuckets = s.connBuckets) ∧
      ∀ conn < s.count, (s.conns conn).tcp.state = .disconnecting ∨
          .shutdownWrite ∈ (s.conns conn).log →
        ∃ k, t.idle conn = some k ∧ cfg.expiredSec.toNat ≤ k + s.base.ticking.toNat := by
  obtain ⟨t, shut, hwheel, hidle, -, hfollows, hearly⟩ :=
    (simulates_idle hexpires).run ⟨.init cfg, .init cfg, nofun⟩ hadm hrun
  refine ⟨t, shut, hwheel, hidle, fun hticking => ?_, fun conn hconn hdown => ?_⟩
  · cases hfollows.atTick with
    | between hnot hsame => exact hsame
    | within hrunning => cases hticking.symm.trans hrunning
  · rw [← hfollows.expiredSec]
    apply hfollows.idle_of_gone hconn
    by_contra hnot
    have hundisturbed := hearly conn hconn hnot
    exact hdown.elim hundisturbed.state hundisturbed.half

/-- A connection that has been silent for a tick. -/
def silent : List ServerAction :=
  opened ++ [.callback 0 none none noFiles, .onTimer [0]] ++ List.replicate 6 .destroyEntry ++
    [.swap 0, .call 0]

/-- It is half-closed. -/
theorem idle_not_early_silent : ∃ (t : IdleTimeout) (shut : List (List Nat)),
    IdleTimeout.program.run (.init 1) (idleRun exampleExpires silent) = some (t, shut) ∧
      ∃ k, t.idle 0 = some k ∧ 1 ≤ k := by
  have hadm : (webServer exampleExpires).Admissible (.init exampleExpires) silent := by
    decide +kernel
  have hend : ∃ r ∈ (webServer exampleExpires).run (.init exampleExpires) silent,
      0 < r.1.count ∧ r.1.base.ticking = false ∧ .shutdownWrite ∈ (r.1.conns 0).log := by
    decide +kernel
  obtain ⟨⟨s, answered⟩, hrun, hcount, hticking, hhalf⟩ := hend
  obtain ⟨t, shut, -, hidle, -, hearly⟩ := idle_not_early exampleExpires (by decide) hadm hrun
  obtain ⟨k, hk, hle⟩ := hearly 0 hcount (.inr hhalf)
  rw [hticking] at hle
  exact ⟨t, shut, hidle, k, hk, hle⟩

/-- **Nor late.** In every run in which no connection outlives `2 ^ 32` others: whenever no tick is
running, the wheel has counted fewer than `expiredSec_` ticks since an entry was last inserted for
any connection that is `CONNECTED`. -/
theorem idle_shut_down (cfg : ServerConfig) (hexpires : cfg.Expires)
    (hadm : ((webServer cfg).restrict Spaced).Admissible (.init cfg) as)
    (hrun : (webServer cfg).run (.init cfg) as = some (s, answered)) :
    ∃ t shut,
      IdleTimeout.program.run (.init cfg.expiredSec.toNat) (idleRun cfg as) = some (t, shut) ∧
      (s.base.ticking = false → ∀ conn < s.count, (s.conns conn).tcp.state = .connected →
        ∃ k, t.idle conn = some k ∧ k < cfg.expiredSec.toNat) := by
  rw [← Program.run_restrict Spaced] at hrun
  obtain ⟨t, shut, -, hidle, -, hfollows, hlate⟩ :=
    (simulates_idle_spaced hexpires).run ⟨.start, .init cfg, nofun⟩ hadm hrun
  rw [Program.observe_restrict] at hidle
  refine ⟨t, shut, hidle, fun hticking conn hconn hopen => ?_⟩
  rw [← hfollows.expiredSec]
  cases hfollows.atTick with
  | within hrunning => cases hticking.symm.trans hrunning
  | between hnot hsame hexpired hentry =>
    have hmark := hfollows.connected conn hconn hopen
    have hnotGone : ¬ s.Gone conn := by
      intro hgone
      rcases hlate conn hconn hgone hopen with hmem | hmem
      all_goals
        rw [hentry] at hmem
        cases hmem
    have halive : s.EntryAlive conn := by
      by_contra hnone
      exact hnotGone ⟨(hfollows.context conn hconn).symm.trans hmark, hnone⟩
    exact hfollows.inv.alive_iff.mp (hfollows.atTick.alive halive)

/-- With a timeout of two ticks, a connection that has been silent for one. -/
theorem idle_shut_down_one_tick : ∃ (t : IdleTimeout) (shut : List (List Nat)),
    IdleTimeout.program.run (.init 2) (idleRun { exampleConfig with expiredSec := 2 }
        (opened ++ [.onTimer [], .destroyEntry])) = some (t, shut) ∧
      ∃ k, t.idle 0 = some k ∧ k < 2 := by
  have hadm : ((webServer { exampleConfig with expiredSec := 2 }).restrict Spaced).Admissible
      (.init { exampleConfig with expiredSec := 2 }) (opened ++ [.onTimer [], .destroyEntry]) := by
    decide +kernel
  have hend : ∃ r ∈ (webServer { exampleConfig with expiredSec := 2 }).run
      (.init { exampleConfig with expiredSec := 2 }) (opened ++ [.onTimer [], .destroyEntry]),
      0 < r.1.count ∧ r.1.base.ticking = false ∧ (r.1.conns 0).tcp.state = .connected := by
    decide +kernel
  obtain ⟨⟨s, answered⟩, hrun, hcount, hticking, hopen⟩ := hend
  obtain ⟨t, shut, hidle, hlate⟩ := idle_shut_down _ (by decide) hadm hrun
  exact ⟨t, shut, hidle, hlate hticking 0 hcount hopen⟩

end WebServer
end Httpancake
