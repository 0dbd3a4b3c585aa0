import Mathlib.Data.Int.CardIntervalMod
import Httpancake.Reactor.EventLoopThreadPool
import Httpancake.Server.Dispatch
import Httpancake.Server.Names

/-! # The loops of the connections

`TcpServer::handleNewConnection` takes the loop of a connection from `getNextLoop`. The server of
`WebServer` keeps only `next_` of the pool; here the two belong together, and so the workers share
the connections evenly (`WebServer.placed_in_turn`). -/

namespace Httpancake
namespace WebServer

variable {cfg : ServerConfig} {s s' : WebServer}

/-- The connections that the worker `w` has been given. -/
def placedOn (s : WebServer) (w : Nat) : Nat := s.count.count fun conn => (s.conns conn).lp = w

/-- No step moves a connection to another loop. -/
theorem lp_step {v v' : ConnView} {e : ConnEvent} (hstep : ConnStep cfg v e v') :
    v'.conn.lp = v.conn.lp := by
  cases hstep <;> rfl

/-- The loops in turn. -/
structure InTurn (cfg : ServerConfig) (s : WebServer) : Prop where
  placed : s.Placed
  next : s.next = s.count % cfg.threadNum
  lp : ∀ conn < s.count, (s.conns conn).lp = conn % cfg.threadNum
  /-- Without loops the server ends at its first connection. -/
  pos : 0 < s.count → 0 < cfg.threadNum

theorem InTurn.step {a : ServerAction} {accesses : List Access} (h : s.InTurn cfg)
    (hpre : s.Pre cfg a) (hexec : s.exec cfg a = some (s', accesses)) : s'.InTurn cfg := by
  have hsteps := exec_steps h.placed hpre hexec
  have hold (conn : Nat) (hconn : conn < s.count) : (s'.conns conn).lp = conn % cfg.threadNum :=
    (lp_step (hsteps.view conn hconn)).trans (h.lp conn hconn)
  rcases eq_or_ne a .accept with rfl | hne
  · obtain ⟨s₁, hnew, heq⟩ := Option.map_eq_some_iff.mp hexec
    cases heq
    rw [handleNewConnection] at hnew
    split_ifs at hnew with hzero
    cases hnew
    refine ⟨hsteps.placed, ?_, fun conn hconn => ?_, fun _ => Nat.pos_of_ne_zero hzero⟩
    · have hlt := Nat.mod_lt s.count (Nat.pos_of_ne_zero hzero)
      change (if s.next + 1 = cfg.threadNum then 0 else s.next + 1) = (s.count + 1) % cfg.threadNum
      rw [h.next, EventLoopThreadPool.succ_mod_eq hlt]
    · rcases Nat.lt_succ_iff_lt_or_eq.mp hconn with hlt | rfl
      · exact hold conn hlt
      · simp [queueInLoop, modifyWorker, addConnection, ServerConn.make, h.next]
  · have hcount := (exec_keepsNames hexec hne).count
    refine ⟨hsteps.placed, ?_, fun conn hconn => hold conn (hcount ▸ hconn), fun hpos =>
      h.pos (hcount ▸ hpos)⟩
    rw [(exec_leaves hexec).1 hne, h.next, hcount]

theorem inTurn_of_reachable (h : (webServer cfg).Reachable (.init cfg) s) : s.InTurn cfg := by
  induction h with
  | start => exact ⟨.init cfg, (Nat.zero_mod _).symm, nofun, nofun⟩
  | step _ hpre hexec ih => exact ih.step hpre hexec

/-- The worker `w` has every `threadNum`-th connection. -/
theorem InTurn.placedOn_eq (h : s.InTurn cfg) {w : Nat} (hw : w < cfg.threadNum) :
    s.placedOn w = s.count / cfg.threadNum + if w < s.count % cfg.threadNum then 1 else 0 := by
  have hcount : s.placedOn w = s.count.count (· ≡ w [MOD cfg.threadNum]) := by
    rw [placedOn, Nat.count_eq_card_filter_range, Nat.count_eq_card_filter_range]
    congr 1
    apply Finset.filter_congr
    intro conn hconn
    rw [h.lp conn (Finset.mem_range.mp hconn), Nat.ModEq, Nat.mod_eq_of_lt hw]
  rw [hcount, Nat.count_modEq_card _ (Nat.zero_lt_of_lt hw), Nat.mod_eq_of_lt hw]

/-- **Connections in turn.** However the threads of the pool were interleaved with `start`, the
loops that the pool hands out to a server are those of its connections; each of them is published,
and every worker has the same number of connections, or one more if its turn came. -/
theorem placed_in_turn {acts : List PoolAction} {os : List (Option Nat)} {p : EventLoopThreadPool}
    (h : (webServer cfg).Reachable (.init cfg) s)
    (hadm : eventLoopThreadPool.Admissible (.init cfg.threadNum) acts)
    (hrun : eventLoopThreadPool.run (.init cfg.threadNum) acts = some (p, os))
    (hcalls : (os.filterMap id).length = s.count) :
    os.filterMap id = (List.range s.count).map (fun conn => (s.conns conn).lp) ∧
      (∀ conn < s.count, (p.threads (s.conns conn).lp).lp) ∧
      ∀ w < cfg.threadNum,
        s.placedOn w = s.count / cfg.threadNum + if w < s.count % cfg.threadNum then 1 else 0 := by
  have hserver := inTurn_of_reachable h
  have hturn := EventLoopThreadPool.turn_of_run hadm hrun
  have hreach := Program.Reachable.of_run hadm hrun
  have hnum : p.threadNum.toNat = cfg.threadNum := by
    rw [EventLoopThreadPool.threadNum_of_reachable hreach, Int.toNat_natCast]
  rw [hcalls] at hturn
  refine ⟨?_, fun conn hconn => ?_, fun w hw => hserver.placedOn_eq hw⟩
  · rw [hturn.handed, hnum]
    apply List.map_congr_left
    intro conn hconn
    exact (hserver.lp conn (List.mem_range.mp hconn)).symm
  · have hsound := EventLoopThreadPool.sound_of_reachable hreach
    have hcomplete := hsound.complete (hturn.started (Nat.zero_lt_of_lt hconn))
    apply hcomplete.published
    rw [hnum, hserver.lp conn hconn]
    exact Nat.mod_lt conn (hserver.pos (Nat.zero_lt_of_lt hconn))

/-- Three connections of a server with two loops, one of which is established meanwhile. -/
def threeAccepted : List ServerAction :=
  [.basePoll, .accept, .accept, .poll 1 [], .swap 1, .call 1, .accept]

theorem placed_in_turn_three : ∃ s p os,
    (webServer { exampleConfig with threadNum := 2 }).Reachable
      (.init { exampleConfig with threadNum := 2 }) s ∧
    eventLoopThreadPool.run (.init 2)
        (EventLoopThreadPool.twoLoops ++ [.getNextLoop, .getNextLoop, .getNextLoop]) =
      some (p, os) ∧
    s.count = 3 ∧ os.filterMap id = [0, 1, 0] ∧
    os.filterMap id = (List.range 3).map (fun conn => (s.conns conn).lp) ∧
    s.placedOn 0 = 2 ∧ s.placedOn 1 = 1 := by
  have hadm : eventLoopThreadPool.Admissible (.init 2)
    (EventLoopThreadPool.twoLoops ++ [.getNextLoop, .getNextLoop, .getNextLoop]) := by decide
  have haccepted : (webServer { exampleConfig with threadNum := 2 }).Admissible
    (.init { exampleConfig with threadNum := 2 }) threeAccepted := by decide
  have hreach := Program.Reachable.of_run haccepted rfl
  obtain ⟨hhanded, -, hplaced⟩ := placed_in_turn hreach hadm rfl rfl
  exact ⟨_, _, _, hreach, rfl, rfl, rfl, hhanded, hplaced 0 (by decide), hplaced 1 (by decide)⟩

end WebServer
end Httpancake
