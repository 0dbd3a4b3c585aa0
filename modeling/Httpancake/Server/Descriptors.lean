import Httpancake.Lib.Allocation
import Httpancake.Server.Callbacks

/-! # The descriptors of the connections

A `TcpConnection` owns its socket: the kernel gives it a descriptor when it is accepted, `~Socket`
closes it when the last `TcpConnectionPtr` goes, and then the kernel may give the descriptor again.
So two connections that exist never share a descriptor, and a socket that `epoll` watches, or whose
events are being dispatched, is open (`WebServer.descriptors`). A poller, which finds the handler of
an event by the descriptor, therefore finds the right one, and it is there. -/

namespace Httpancake

open Bytes

namespace WebServer
variable {cfg : ServerConfig} {s s' : WebServer} {fds₀ : Nat → Nat} {Reserved : Nat → Prop}

/-- A connection that exists; its socket is open. -/
def Open (s : WebServer) (conn : Nat) : Prop := conn < s.count ∧ s.Referenced conn

instance (s : WebServer) (conn : Nat) : Decidable (s.Open conn) :=
  inferInstanceAs (Decidable (_ ∧ _))

/-- The connection that a step makes. -/
def accepted (s : WebServer) : ServerAction → Option Nat
  | .accept => some s.count
  | _ => none

theorem unique_of_spaced (h : ((webServer cfg).restrict Spaced).Reachable (.init cfg) s) :
    s.Unique := .of_reachable (nameFree_of_spaced h)

/-- Connections come into being when they are accepted. -/
theorem births (cfg : ServerConfig) :
    ((webServer cfg).restrict Spaced).Births (.init cfg) Open accepted where
  init i hi := Nat.not_lt_zero i hi.1
  live s a s' accesses i hreach hpre hexec hi := by
    have hunique := unique_of_spaced hreach
    have hsteps := exec_steps hunique.placed hpre.1 hexec
    rcases Nat.lt_or_ge i s.count with hlt | hge
    · exact .inl ⟨hlt, hunique.referenced hsteps hlt hi.2⟩
    · right
      have hlt' := hi.1
      obtain rfl : a = .accept := by
        by_contra hne
        rw [(exec_keepsNames hexec hne).count] at hlt'
        exact Nat.not_lt_of_ge hge hlt'
      rcases hsteps.count with hcount | ⟨hcount, -⟩
      · exact absurd (hcount ▸ hlt') (Nat.not_lt_of_ge hge)
      · exact congrArg some (by omega)
  fresh s a i _ _ hborn hi := by
    cases a with
    | accept =>
      cases hborn
      exact Nat.lt_irrefl _ hi.1
    | _ => cases hborn

/-- The server with the descriptors of its connections; others are open all the time. -/
abbrev withDescriptors (cfg : ServerConfig) (Reserved : Nat → Prop) :=
  ((webServer cfg).restrict Spaced).tagged Open accepted Reserved

/-- The kernel gives a descriptor that is not open. -/
instance (cfg : ServerConfig) [DecidablePred Reserved] (s : WebServer × (Nat → Nat))
    (a : ServerAction × Nat) : Decidable ((withDescriptors cfg Reserved).pre s a) :=
  decidable_of_iff (((webServer cfg).restrict Spaced).pre s.1 a.1 ∧
      ((accepted s.1 a.1).isSome → ¬ Reserved a.2 ∧
        ∀ j < s.1.count, s.1.Referenced j → s.2 j ≠ a.2)) <| by
    refine and_congr_right' (imp_congr_right fun _ => and_congr_right' ?_)
    exact forall_congr' fun j => and_imp.symm

/-- The descriptors `fds` of the connections of `s`. -/
structure OwnDescriptors (Reserved : Nat → Prop) (s : WebServer) (fds : Nat → Nat) : Prop where
  distinct : ∀ i j, s.Open i → s.Open j → fds i = fds j → i = j
  not_reserved : ∀ i, s.Open i → ¬ Reserved (fds i)
  /-- What is watched is open. -/
  watched : ∀ i < s.count, (s.conns i).tcp.watched.interest ≠ none → s.Open i
  /-- What is dispatched is open. -/
  dispatched : ∀ w, ∀ i ∈ (s.workers w).dispatched, s.Open i
  /-- What is closed is out of the poller. -/
  closed : ∀ i < s.count, ¬ s.Open i → (s.conns i).tcp.Destroyed

/-- A connection that has not been destroyed exists. -/
theorem Unique.open_of_destructions (h : s.Unique) {conn : Nat} (hconn : conn < s.count)
    (hzero : (s.conns conn).destructions = 0) : s.Open conn :=
  ⟨hconn, view_referenced.mp ((h.held conn hconn).referenced_of_kept hzero)⟩

/-- **No descriptor is shared, and none is used after it was closed**, in every run of the server
in which no connection outlives `2 ^ 32` others, with every choice of the kernel; and what is closed
once is not closed again. -/
theorem descriptors (cfg : ServerConfig)
    (h : (withDescriptors cfg Reserved).Reachable (.init cfg, fds₀) (s, fds)) :
    s.OwnDescriptors Reserved fds ∧ ∀ a s' fds' accesses,
      (withDescriptors cfg Reserved).pre (s, fds) a →
      (withDescriptors cfg Reserved).exec (s, fds) a = some ((s', fds'), accesses) →
      ∀ i < s.count, (s.Open i → fds' i = fds i) ∧ (¬ s.Open i → ¬ s'.Open i) := by
  have htags := (births cfg).tags_injective h
  have hreach := Program.tagged_reachable h
  have hunique := unique_of_spaced hreach
  have hd := dispatching_of_reachable hreach.of_restrict
  refine ⟨⟨htags.injective, htags.not_reserved, fun i hi hinterest => ?_, fun w i hi => ?_,
    fun i hi hgone => ?_⟩, ?_⟩
  · exact hunique.open_of_destructions hi ((hd.watches i hi).alive hinterest).not_destroyed
  · exact hunique.open_of_destructions (hd.placed.dispatched hi).1 (hd.alive w i hi).not_destroyed
  · apply (hd.watches i hi).destroyed
    by_contra hzero
    exact hgone (hunique.open_of_destructions hi (Nat.eq_zero_of_not_pos hzero))
  · intro a s' fds' accesses hpre hexec i hi
    refine ⟨fun hopen => (births cfg).keeps_tag hreach hpre hexec hopen, fun hgone => ?_⟩
    refine (births cfg).not_live_step hreach hpre.1 (Program.tagged_exec hexec).1 hgone ?_
    intro hborn
    obtain ⟨action, fd⟩ := a
    cases action with
    | accept => exact Nat.ne_of_gt hi (Option.some.inj hborn)
    | _ => cases hborn

/-- A connection comes and goes, and another one comes. -/
def twice : List ServerAction :=
  opened ++ received (ascii "\n") 5 ++ [.baseSwap, .baseCall, .swap 0, .call 0, .endBatch 0,
    .baseEnd, .basePoll, .accept]

/-- Both get the same descriptor. -/
def reused : List (ServerAction × Nat) := twice.map (·, 7)

/-- Descriptors `0`, `1` and `2` are open all the time. -/
theorem descriptors_reused : ∃ (s : WebServer) (fds : Nat → Nat), fds 0 = 7 ∧ fds 1 = 7 ∧
    s.Open 1 ∧ s.OwnDescriptors (· < 3) fds := by
  have hrun : ∃ s, (withDescriptors exampleConfig (· < 3)).Reachable
      (.init exampleConfig, fun _ => 0) s ∧ s.2 0 = 7 ∧ s.2 1 = 7 ∧ s.1.Open 1 :=
    Program.Reachable.of_admissible reused (by decide +kernel) (by decide +kernel)
  obtain ⟨⟨s, fds⟩, hreach, h₀, h₁, hopen⟩ := hrun
  exact ⟨s, fds, h₀, h₁, hopen, (descriptors exampleConfig hreach).1⟩

end WebServer
end Httpancake
