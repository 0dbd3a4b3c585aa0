import Httpancake.Http.LogTexts
import Httpancake.Lib.Observation
import Httpancake.Logging.LogLines
import Httpancake.Server.Conversation
import Httpancake.Server.Names

/-! # The log statements of the server

What `onConnection` and `onMessage` insert into their `LOG` streams, in a run of the whole server.
Nothing that a peer sends puts a line feed there, so every statement is one line of the log file
(`WebServer.one_line_each`). -/

namespace Httpancake

open Bytes

namespace WebServer

/-- `connections_.size()`: every name in the table is that of its connection. -/
def connSize (s : WebServer) : Nat :=
  (List.range s.count).countP fun conn => s.connections (s.conns conn).connName = some conn

/-- An `int`. -/
def intOf (n : Nat) : Integer where
  value := (n : Int).bmod (2 ^ 32)
  lower := by
    have hle := Int.le_bmod (x := n) (by decide : 0 < 2 ^ 32)
    omega
  upper := by
    have hlt := Int.bmod_lt (x := n) (by decide : 0 < 2 ^ 32)
    omega

/-- The statements of `onConnection`. -/
def onConnectionLog (s : WebServer) (c : ServerConn) : List Insertion :=
  if c.tcp.state = .connected then
    [.cstr (ascii "onConnection(): new connection ["), .cstr (cStr c.connName), .cstr (ascii "]")]
  else
    [.cstr (ascii "onConnection(): connection ["), .cstr (cStr c.connName),
      .cstr (ascii "] is down; "), .cstr (ascii "now "), .integer (intOf s.connSize),
      .cstr (ascii "conns.")]

/-- What is inserted by the statements of a step. -/
def logged (cfg : ServerConfig) (s : WebServer) : ServerAction → List (List Insertion)
  | .onMessage w _ =>
    match (s.workers w).message with
    | none => []
    | some m => (logs (OnMessage.step ((s.conns m.conn).env cfg m)
      ((s.conns m.conn).frame m)).2).map fun text => text.map .string
  | .call w =>
    match (s.workers w).funcs.head? with
    | some (.connectEstablished conn) =>
      (s.conns conn).tcp.connectEstablished.toList.map fun (tcp, es) =>
        s.onConnectionLog ((s.conns conn).after tcp es)
    | some (.connectDestroyed conn) =>
      (s.conns conn).tcp.connectDestroyed.toList.map fun (tcp, es) =>
        s.onConnectionLog ((s.conns conn).after tcp es)
    | _ => []
  | _ => []

variable {cfg : ServerConfig} {s : WebServer} {as : List ServerAction}

/-- No step puts a line feed into the url of a connection. -/
theorem url_step {v v' : ConnView} {e : ConnEvent} (hdir : LF ∉ cfg.fileDir)
    (hname : LF ∉ v.conn.connName) (hstep : ConnStep cfg v e v') (hurl : LF ∉ v.conn.http.url) :
    LF ∉ v'.conn.http.url := by
  cases hstep with
  | @message m _ _ _ _ _ hmessage hframe =>
    have hnext := (@OnMessage.step_logs (v.conn.env cfg m) (v.conn.frame m) hdir hname hurl).1
    rw [hframe] at hnext
    exact hnext
  | _ => exact hurl

theorem lf_not_mem_connName (hserver : LF ∉ cfg.serverName) (conn : Nat) :
    LF ∉ nameOf cfg conn := by
  have hid : LF ∉ decimal (connIdOf conn) := by
    cases connIdOf conn with
    | ofNat n => exact fun hmem => absurd (isDigit_toString LF hmem) (by decide)
    | negSucc n =>
      rw [decimal_negSucc, List.mem_cons, not_or]
      exact ⟨by decide, fun hmem => absurd (isDigit_toString LF hmem) (by decide)⟩
  exact List.not_mem_append (List.not_mem_append hserver (by decide)) hid

/-- No line feed in a name or in a url. -/
structure LineFree (s : WebServer) : Prop where
  connName : ∀ conn < s.count, LF ∉ (s.conns conn).connName
  url : ∀ conn < s.count, LF ∉ (s.conns conn).http.url

theorem lineFree_of_reachable (hserver : LF ∉ cfg.serverName) (hdir : LF ∉ cfg.fileDir)
    (h : (webServer cfg).Reachable (.init cfg) s) : s.LineFree := by
  have hnames {s : WebServer} (h : (webServer cfg).Reachable (.init cfg) s) :
      ∀ conn < s.count, LF ∉ (s.conns conn).connName := by
    intro conn hconn
    rw [(named_of_reachable h).connName conn hconn]
    exact lf_not_mem_connName hserver conn
  refine ⟨hnames h, ?_⟩
  induction h with
  | start => exact nofun
  | @step s a s' accesses hs hpre hexec ih =>
    have hsteps := exec_steps (named_of_reachable hs).placed hpre hexec
    have hold (conn : Nat) (hconn : conn < s.count) : LF ∉ (s'.conns conn).http.url :=
      url_step hdir (hnames hs conn hconn) (hsteps.view conn hconn) (ih conn hconn)
    intro conn hconn
    rcases hsteps.count with hcount | ⟨hcount, lp, stage, hnew⟩
    · exact hold conn (hcount ▸ hconn)
    · rcases Nat.lt_succ_iff_lt_or_eq.mp (hcount ▸ hconn) with hlt | rfl
      · exact hold conn hlt
      · change LF ∉ (s'.view s.count).conn.http.url
        rw [hnew]
        exact List.not_mem_nil

theorem onConnectionLog_lines {c : ServerConn} (hname : LF ∉ c.connName) :
    ∀ i ∈ s.onConnectionLog c, LF ∉ i.text := by
  have hname : LF ∉ cStr c.connName := fun h => hname (cStr_subset _ h)
  rw [onConnectionLog]
  split_ifs
  · simp only [List.forall_mem_cons, Insertion.text]
    exact ⟨by decide, hname, by decide, List.forall_mem_nil _⟩
  · simp only [List.forall_mem_cons, Insertion.text]
    exact ⟨by decide, hname, by decide, by decide, lf_not_mem_decimal _, by decide,
      List.forall_mem_nil _⟩

theorem logged_lines (hplaced : s.Placed) (h : s.LineFree) (hdir : LF ∉ cfg.fileDir)
    {a : ServerAction} {items : List Insertion} (hmem : items ∈ s.logged cfg a) :
    ∀ i ∈ items, LF ∉ i.text := by
  cases a with
  | onMessage w write =>
    rw [logged] at hmem
    cases hm : (s.workers w).message with
    | none =>
      rw [hm] at hmem
      cases hmem
    | some m =>
      rw [hm] at hmem
      obtain ⟨text, htext, rfl⟩ := List.mem_map.mp hmem
      have hconn : m.conn < s.count := ((hplaced.work w).message m hm).1
      have hlines := (@OnMessage.step_logs ((s.conns m.conn).env cfg m)
        ((s.conns m.conn).frame m) hdir (h.connName _ hconn) (h.url _ hconn)).2
      intro i hi
      obtain ⟨t, ht, rfl⟩ := List.mem_map.mp hi
      exact hlines text htext t ht
  | call w =>
    rw [logged] at hmem
    cases hhead : (s.workers w).funcs.head? with
    | none =>
      rw [hhead] at hmem
      cases hmem
    | some f =>
      have hconn : f.conn < s.count := by
        refine ((hplaced.work w).functor f ?_).1
        exact List.mem_append_left _ (List.mem_append_right _ (List.mem_of_head? hhead))
      rw [hhead] at hmem
      cases f with
      | connectEstablished conn | connectDestroyed conn =>
        obtain ⟨r, -, rfl⟩ := List.mem_map.mp hmem
        exact onConnectionLog_lines (h.connName conn hconn)
      | shutdownInLoop conn => cases hmem
  | _ => cases hmem

/-- **One line each.** Whatever is sent to the server, if neither its name nor the document root has
a line feed, and the log statements are those of one of its runs, the lines of the log file are
those of the first statements that ended, and of all of them when `stop` has ended the log
thread. -/
theorem one_line_each (hserver : LF ∉ cfg.serverName) (hdir : LF ∉ cfg.fileDir)
    (hadm : (webServer cfg).Admissible (.init cfg) as) {actions : List LoggingAction}
    (hlog : logging.Admissible .init actions)
    (hfrom : ∀ st ∈ (journal actions).ended, LF ∉ st.time ∧ LF ∉ st.basename ∧
      st.items ∈ (webServer cfg).observe (logged cfg) (.init cfg) as)
    {s : Logging} {os : List Unit} (hrun : logging.run .init actions = some (s, os)) :
    ∃ written, written <+: (journal actions).ended ∧
      (s.log.thread = .done → written = (journal actions).ended) ∧
      lines s.log.logFile = (written.map Statement.record, []) := by
  obtain ⟨written, hfirst, hdone, -, hlines⟩ := (Logging.follows_of_run hlog hrun).shows
  refine ⟨written, hfirst, hdone, hlines fun st hst => ?_⟩
  obtain ⟨htime, hbasename, hitems⟩ := hfrom st (hfirst.subset hst)
  obtain ⟨s₁, a, hreach, -, hmem⟩ := Program.mem_observe .start hadm hitems
  have hfree := lineFree_of_reachable hserver hdir hreach
  exact ⟨htime, logged_lines (named_of_reachable hreach).placed hfree hdir hmem, hbasename⟩

/-- What `onMessage` logs about a missing file. -/
def exampleMissing : Statement where
  time := ascii "now"
  items := [ascii "onMessage(): [", ascii "httpancake#1", ascii "] request: ", ascii "/srv/x.c",
    ascii " failed."].map .string
  basename := ascii "a.cpp"
  line := exampleStatement.line

theorem exampleMissing_full : exampleMissing.full =
    ascii "[now]onMessage(): [httpancake#1] request: /srv/x.c failed. -- a.cpp:7" := by
  have hfull : exampleMissing.full =
      ascii "[now]onMessage(): [httpancake#1] request: /srv/x.c failed. -- a.cpp:" ++
        (Httpancake.decimal exampleStatement.line ++ []) := rfl
  rw [hfull, exampleStatement_line]
  rfl

/-- One request, one line. -/
theorem one_line_missing : ∃ actions s os, logging.run .init actions = some (s, os) ∧
    s.log.thread = .done ∧ lines s.log.logFile =
      ([ascii "[now]onMessage(): [httpancake#1] request: /srv/x.c failed. -- a.cpp:7"], []) := by
  have hserver : (webServer exampleConfig).Admissible (.init exampleConfig) requested := by
    decide +kernel
  have hitems : exampleMissing.items ∈ (webServer exampleConfig).observe (logged exampleConfig)
      (.init exampleConfig) requested := by
    decide +kernel
  have hst : exampleMissing.Roomy := by
    rw [Statement.Roomy, exampleMissing_full]
    decide
  set before : List LoggingAction :=
    .construct 0 exampleMissing.basename exampleMissing.line exampleMissing.time ::
      exampleMissing.items.map (.insert 0)
  have hroom : ((journal before).next (.destruct 0)).Roomy :=
    .of_one (by simp [before, journal, Journal.after, Program.specRun, Journal.next,
      Journal.setStatement, Journal.init, exampleMissing]) rfl hst
  obtain ⟨s₀, os₀, hrun₀, hpre⟩ : ∃ s os, logging.run .init before = some (s, os) ∧
      logging.pre s (.destruct 0) := ⟨_, _, rfl, by decide⟩
  have hadm₀ : logging.Admissible .init before := by decide
  obtain ⟨n, s, os, hadm, hrun, hdone⟩ := Logging.stopped_run hadm₀ hrun₀ hpre hroom
  have hended : (journal (before ++ .destruct 0 :: .stop :: .replicate n .thread)).ended =
      [exampleMissing] := congrArg Journal.ended (Journal.after_threads _ n)
  obtain ⟨written, -, hwritten, hlines⟩ :=
    one_line_each (by decide) (by decide) hserver hadm (fun st hmem => by
      rw [hended] at hmem
      rw [List.mem_singleton.mp hmem]
      exact ⟨by decide, by decide, hitems⟩) hrun
  obtain rfl : written = [exampleMissing] := (hwritten hdone).trans hended
  refine ⟨_, s, os, hrun, hdone, hlines.trans ?_⟩
  rw [List.map_singleton, hst.record_eq, exampleMissing_full]

end WebServer
end Httpancake
