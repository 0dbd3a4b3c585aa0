import Httpancake.Network.Outcomes
import Httpancake.Network.OutputStream

/-! # The half-close

On a connection that nothing closes and whose other threads only shut it down, every step keeps
`Half`: when `shutdownWrite` is called, all that `send` has accepted is written, and nothing is
written after it (`half_close_after_data`). Between the state change of a `shutdown` and its
`shutdownInLoop` the output may drain, and then it is called twice; `Once` says, of any connection,
when it is not. -/

namespace Httpancake

open ConnSystem

namespace TcpConnection

variable {c c' : TcpConnection} {es : List ConnEffect}

/-- Behind a half-close nothing is written. -/
def InOrder (es : List ConnEffect) : Prop :=
  es.Pairwise fun e e' => e = .shutdownWrite → ∀ data, e' ≠ .write data

theorem InOrder.of_not_mem (h : .shutdownWrite ∉ es) : InOrder es := by
  apply List.pairwise_of_forall_mem_list
  rintro e he - - rfl
  exact absurd he h

theorem written_eq_nil (h : ∀ data, .write data ∉ es) : written es = [] := by
  rw [written, List.flatMap_eq_nil_iff]
  intro e he
  cases e with
  | write data => exact absurd he (h data)
  | _ => rfl

theorem shutdownWrite_not_mem_queueWriteCb (c : TcpConnection) :
    .shutdownWrite ∉ c.queueWriteCb := by
  intro hmem
  cases mem_queueWriteCb hmem

theorem shutdownWrite_not_mem_sendInLoop {msg : Bytes} {result : Option Nat}
    (h : c.sendInLoop msg result = some (c', es)) : .shutdownWrite ∉ es := by
  intro hmem
  obtain heq | ⟨data, heq⟩ := mem_sendInLoop h hmem <;> cases heq

theorem disableWriting_isWriting (h : c.disableWriting = some c') : c'.isWriting = false := by
  obtain ⟨hev, -⟩ := update_spec h
  simp [isWriting, Handler.isWriting, hev, EventMask.diff, EventMask.writeEvent]

/-- Where `handleWrite` half-closes, it has drained the output. -/
theorem handleWrite_half {result : Option Nat} (h : c.handleWrite result = some (c', es))
    (hhalf : .shutdownWrite ∈ es) :
    c.isWriting ∧ c'.isWriting = false ∧ c.state = .disconnecting ∧
      c'.outputBuffer.readableBytes = 0 ∧
      ∃ n, result = some n ∧ es =
        .write (c.outputBuffer.content.take n) :: (c'.queueWriteCb ++ [.shutdownWrite]) := by
  unfold handleWrite at h
  split at h
  · next hw =>
    split at h
    · cases h
      cases hhalf
    · cases h
      cases hhalf
    · next n hn =>
      obtain ⟨outputBuffer, -, h⟩ := Option.bind_eq_some_iff.mp h
      simp only at h
      split at h
      · next hdone =>
        obtain ⟨c₁, hdis, heq⟩ := Option.bind_eq_some_iff.mp h
        cases heq
        have hidle := disableWriting_isWriting hdis
        obtain ⟨-, -, -, hout⟩ := update_frame hdis
        have hstate := (update_writes hdis (by simp [EventMask.diff, EventMask.writeEvent])).state
        have hdisc : c'.state = .disconnecting := by
          by_contra hne
          simp [hne, c'.shutdownWrite_not_mem_queueWriteCb] at hhalf
        refine ⟨hw, hidle, hstate ▸ hdisc, ?_, ?_⟩
        · rw [hout]
          exact hdone
        · rw [if_pos hdisc, shutdownInLoop, hidle]
          exact ⟨n, rfl, rfl⟩
      · cases h
        simp at hhalf
  · cases h
    cases hhalf

/-- What a function of an open connection has to do with the half-close. -/
structure Halves (c c' : TcpConnection) (es : List ConnEffect) : Prop where
  state_eq : c'.state = c.state
  stays : .closeCb ∉ es
  inOrder : InOrder es
  done : .shutdownWrite ∈ es → c'.isWriting = false
  state : .shutdownWrite ∈ es → c.state = .disconnecting

theorem Halves.of_not_mem (hstate : c'.state = c.state) (hstays : .closeCb ∉ es)
    (hno : .shutdownWrite ∉ es) : c.Halves c' es where
  state_eq := hstate
  stays := hstays
  inOrder := .of_not_mem hno
  done hmem := absurd hmem hno
  state hmem := absurd hmem hno

theorem handleWrite_halves {result : Option Nat} (h : c.handleWrite result = some (c', es)) :
    c.Halves c' es := by
  have hwrites := handleWrite_writes h
  by_cases hhalf : .shutdownWrite ∈ es
  · obtain ⟨-, hidle, hstate, -, n, -, rfl⟩ := handleWrite_half h hhalf
    have hqueue := c'.shutdownWrite_not_mem_queueWriteCb
    refine ⟨hwrites.state, hwrites.quiet.1, ?_, fun _ => hidle, fun _ => hstate⟩
    rw [InOrder, List.pairwise_cons, List.pairwise_append]
    refine ⟨fun _ _ => nofun, InOrder.of_not_mem hqueue, List.pairwise_singleton _ _, ?_⟩
    intro e he _ _ heq
    exact absurd (heq ▸ he) hqueue
  · exact .of_not_mem hwrites.state hwrites.quiet.1 hhalf

theorem shutdownInLoop_halves (hstate : c.state = .disconnecting) :
    c.Halves c c.shutdownInLoop := by
  refine ⟨rfl, c.shutdownInLoop_quiet.1, ?_, ?_, fun _ => hstate⟩ <;>
    cases hw : c.isWriting <;> simp [shutdownInLoop, InOrder, hw]

theorem count_shutdownInLoop (c : TcpConnection) : c.shutdownInLoop.count .shutdownWrite ≤ 1 := by
  unfold shutdownInLoop
  split <;> simp

theorem callback_state {cb : EventCallback} {read : Option Bytes} {write : Option Nat}
    (h : c.callback read write cb = some (c', es)) : c'.state = c.state := by
  cases callback_outcome h with
  | close hcloses | endOfStream hread hcloses => exact hcloses.state.trans hcloses.connected.symm
  | message hread hconn hes => rw [hconn]
  | quiet hwrites hidle => exact hwrites.state

/-- Only `handleWrite` half-closes. -/
theorem callback_shutdownWrite {cb : EventCallback} {read : Option Bytes} {write : Option Nat}
    (h : c.callback read write cb = some (c', es)) (hmem : .shutdownWrite ∈ es) :
    cb = .writeCb := by
  cases cb with
  | writeCb => rfl
  | errorCb =>
    cases h
    cases hmem
  | closeCb =>
    rw [(handleClose_closes h).effects] at hmem
    simp at hmem
  | readCb =>
    obtain ⟨b, -, hspec⟩ := handleRead_spec h
    match read with
    | none | some (x :: data) => simp [hspec.2] at hmem
    | some [] => simp [hspec.effects] at hmem

/-- A callback that closes nothing. -/
theorem callback_halves {cb : EventCallback} {read : Option Bytes} {write : Option Nat}
    (hok : ¬ (cb = .closeCb ∨ cb = .readCb ∧ read = some []))
    (h : c.callback read write cb = some (c', es)) :
    c.Halves c' es ∧
      (c.isWriting = false → c'.isWriting = false ∧ ∀ data, .write data ∉ es) := by
  cases cb with
  | closeCb => exact absurd (.inl rfl) hok
  | errorCb =>
    cases h
    exact ⟨.of_not_mem rfl (by simp) (by simp), fun hw => ⟨hw, by simp⟩⟩
  | readCb =>
    obtain ⟨b, -, hspec⟩ := handleRead_spec h
    match read with
    | none | some (x :: data) =>
      obtain ⟨rfl, rfl⟩ := hspec
      exact ⟨.of_not_mem rfl (by simp) (by simp), fun hw => ⟨hw, by simp⟩⟩
    | some [] => exact absurd (.inr ⟨rfl, rfl⟩) hok
  | writeCb =>
    refine ⟨handleWrite_halves h, fun hw => ?_⟩
    obtain ⟨rfl, rfl⟩ := handleWrite_idle h hw
    exact ⟨hw, by simp⟩

end TcpConnection

namespace ConnSystem

open TcpConnection

variable {s s' : ConnSystem} {c : TcpConnection} {es : List ConnEffect} {q : Bytes}

theorem exec_callback {read : Option Bytes} {write : Option Nat}
    (h : s.exec (.callback read write) = some s') :
    ∃ cb callbacks c es, s.callbacks = cb :: callbacks ∧
      s.conn.callback read write cb = some (c, es) ∧
      s' = { s.after c es with callbacks := callbacks } := by
  rw [exec] at h
  split at h
  · cases h
  · next cb callbacks hcbs =>
    obtain ⟨⟨c, es⟩, hcall, heq⟩ := Option.bind_eq_some_iff.mp h
    cases heq
    exact ⟨cb, callbacks, c, es, hcbs, hcall, rfl⟩

theorem exec_runFunctor {write : Option Nat} (h : s.exec (.runFunctor write) = some s') :
    ∃ f funcs, s.funcs = f :: funcs ∧ { s with funcs := funcs }.runFunctor write f = some s' := by
  rw [exec] at h
  split at h
  · cases h
  · next f funcs hfuncs => exact ⟨f, funcs, hfuncs, h⟩

/-- Nothing closes the connection, and the other threads only shut it down. -/
def Undisturbed (s : ConnSystem) (a : ConnAction) : Prop :=
  ¬ s.EntersHandleClose a ∧ ∀ thread api, a = .call thread api → api = .shutdown

/-- `sendInLoop` calls `::write` itself. -/
def WritesDirectly (s : ConnSystem) : Prop :=
  s.conn.isWriting = false ∧ s.conn.outputBuffer.readableBytes = 0

/-- The step calls `::write`, whatever comes of it. -/
def AttemptsWrite (s : ConnSystem) : ConnAction → Prop
  | .loopCall (.send _) _ => s.conn.state = .connected ∧ s.WritesDirectly
  | .callback _ _ => s.callbacks.head? = some .writeCb ∧ s.conn.isWriting
  | .runFunctor _ => ∃ sender msg, s.funcs.head? = some (.sendInLoop sender msg) ∧ s.WritesDirectly
  | _ => False

/-- A `shutdown` has changed the state, and its `shutdownInLoop` has not run yet. -/
def Outstanding (s : ConnSystem) : Prop :=
  (∃ t, s.calls t = some .queueShutdown) ∨ .shutdownInLoop ∈ s.funcs ++ s.pendingFuncs

structure Half (s : ConnSystem) : Prop where
  isOpen : ¬ s.Closed
  removals : s.removals = 0
  sent_eq : s.sent = s.ran
  calls : ∀ t call, s.calls t = some call → call = .setDisconnecting ∨ call = .queueShutdown
  queued : ∀ f ∈ s.funcs ++ s.pendingFuncs, f = .shutdownInLoop ∨ f = .writeComplete
  outstanding : s.Outstanding → s.conn.state = .disconnecting
  state : .shutdownWrite ∈ s.log → s.conn.state = .disconnecting
  drained : .shutdownWrite ∈ s.log → s.conn.isWriting = false
  inOrder : InOrder s.log

namespace Half

theorem init (this : Nat) (writeCb : Bool) : (init this writeCb).Half where
  isOpen := by simp [Closed, ConnSystem.init]
  removals := rfl
  sent_eq := rfl
  calls t call hcall := by cases hcall
  queued f hf := by cases hf
  outstanding := by simp [Outstanding, ConnSystem.init]
  state hmem := by cases hmem
  drained hmem := by cases hmem
  inOrder := .nil

/-- A step of the loop between two calls. -/
theorem of_eq (h : s.Half) (hconn : s'.conn = s.conn) (hlog : s'.log = s.log)
    (hsent : s'.sent = s.sent) (hran : s'.ran = s.ran) (hdestroyed : s'.destroyed = s.destroyed)
    (hcalls : s'.calls = s.calls) (hremovals : s'.removals = s.removals)
    (hfuncs : s'.funcs ++ s'.pendingFuncs ⊆ s.funcs ++ s.pendingFuncs) : s'.Half where
  isOpen := by
    rw [Closed, hlog, hdestroyed]
    exact h.isOpen
  removals := hremovals.trans h.removals
  sent_eq := by rw [hsent, hran, h.sent_eq]
  calls := hcalls ▸ h.calls
  queued f hf := h.queued f (hfuncs hf)
  outstanding hout := by
    rw [Outstanding, hcalls] at hout
    rw [hconn]
    exact h.outstanding (hout.imp_right fun hmem => hfuncs hmem)
  state := by rw [hlog, hconn]; exact h.state
  drained := by rw [hlog, hconn]; exact h.drained
  inOrder := hlog ▸ h.inOrder

/-- A function of the connection that does not write behind a half-close. -/
theorem after (h : s.Half) (hf : s.conn.Halves c es)
    (hwrites : .shutdownWrite ∈ s.log → c.isWriting = false ∧ ∀ data, .write data ∉ es) :
    (s.after c es).Half where
  isOpen := by
    rintro (hmem | hdestroyed)
    · rcases List.mem_append.mp hmem with hmem | hmem
      · exact h.isOpen (.inl hmem)
      · exact hf.stays hmem
    · exact h.isOpen (.inr hdestroyed)
  removals := by simp [ConnSystem.after, h.removals, List.count_eq_zero.mpr hf.stays]
  sent_eq := h.sent_eq
  calls := h.calls
  queued := by
    intro f hmem
    rw [ConnSystem.after, ← List.append_assoc] at hmem
    rcases List.mem_append.mp hmem with hmem | hmem
    · exact h.queued f hmem
    · obtain ⟨e, -, he⟩ := List.mem_filterMap.mp hmem
      cases e <;> cases he
      exact .inr rfl
  outstanding := by
    intro hout
    refine hf.state_eq.trans (h.outstanding (hout.imp_right fun hmem => ?_))
    rw [ConnSystem.after, ← List.append_assoc] at hmem
    refine (List.mem_append.mp hmem).resolve_right fun hmem => ?_
    obtain ⟨e, -, he⟩ := List.mem_filterMap.mp hmem
    cases e <;> cases he
  state := by
    intro hmem
    rcases List.mem_append.mp hmem with hmem | hmem
    · exact hf.state_eq.trans (h.state hmem)
    · exact hf.state_eq.trans (hf.state hmem)
  drained := by
    intro hmem
    rcases List.mem_append.mp hmem with hmem | hmem
    · exact (hwrites hmem).1
    · exact hf.done hmem
  inOrder := by
    refine List.pairwise_append.mpr ⟨h.inOrder, hf.inOrder, ?_⟩
    rintro e he e' he' rfl data rfl
    exact (hwrites he).2 data he'

theorem after_nil (h : s.Half) : (s.after s.conn []).Half :=
  h.after (.of_not_mem rfl List.not_mem_nil List.not_mem_nil)
    fun hmem => ⟨h.drained hmem, fun _ => List.not_mem_nil⟩

theorem call (h : s.Half) (thread : Nat) : (s.call thread .shutdown).Half := by
  rw [ConnSystem.call]
  split
  · refine ⟨h.isOpen, h.removals, ?_, ?_, h.queued, ?_, h.state, h.drained, h.inOrder⟩
    · exact (List.append_nil _).trans h.sent_eq
    · intro t call hcall
      simp only [setCall, Function.update_apply] at hcall
      split at hcall
      · cases hcall
        exact .inl rfl
      · exact h.calls t call hcall
    · intro hout
      refine h.outstanding (hout.imp_left ?_)
      rintro ⟨t, ht⟩
      refine ⟨t, ?_⟩
      simp only [setCall, Function.update_apply] at ht
      split at ht
      · cases ht
      · exact ht
  · exact h

theorem advance (h : s.Half) {thread : Nat} {call : Call} (hcall : s.calls thread = some call) :
    (s.advance thread call).Half := by
  have hcalls : ∀ (next : Option Call), (∀ call, next = some call → call = .queueShutdown) →
      ∀ t call, (s.setCall thread next).calls t = some call →
        call = .setDisconnecting ∨ call = .queueShutdown := by
    intro next hnext t call' hcall'
    simp only [setCall, Function.update_apply] at hcall'
    split at hcall'
    · exact .inr (hnext call' hcall')
    · exact h.calls t call' hcall'
  rcases h.calls thread call hcall with rfl | rfl
  · exact ⟨h.isOpen, h.removals, h.sent_eq, hcalls _ fun _ heq => (Option.some.inj heq).symm,
      h.queued, fun _ => rfl, fun _ => rfl, h.drained, h.inOrder⟩
  · have hstate : s.conn.state = .disconnecting := h.outstanding (.inl ⟨thread, hcall⟩)
    refine ⟨h.isOpen, h.removals, h.sent_eq, hcalls _ (by simp), ?_, fun _ => hstate, h.state,
      h.drained, h.inOrder⟩
    intro f hf
    rw [ConnSystem.advance, ConnSystem.queueInLoop, ← List.append_assoc] at hf
    rcases List.mem_append.mp hf with hf | hf
    · exact h.queued f hf
    · exact .inl (List.mem_singleton.mp hf)

/-- A call on the loop thread that closes nothing. -/
theorem loopCall (h : s.Half) {api : Api} {write : Option Nat}
    (hok : ¬ s.EntersHandleClose (.loopCall api write)) (hexec : s.loopCall write api = some s') :
    s'.Half := by
  by_cases hstate : s.conn.state = .connected
  · have hnone : .shutdownWrite ∉ s.log := by
      intro hmem
      rw [h.state hmem] at hstate
      cases hstate
    cases api with
    | send msg =>
      simp only [ConnSystem.loopCall, send, if_pos hstate] at hexec
      obtain ⟨⟨c, es⟩, hsend, heq⟩ := Option.bind_eq_some_iff.mp hexec
      cases heq
      have hwrites := sendInLoop_writes hsend
      have hhalves : s.conn.Halves c es :=
        .of_not_mem hwrites.state hwrites.quiet.1 (shutdownWrite_not_mem_sendInLoop hsend)
      have hafter := h.after hhalves fun hmem => absurd hmem hnone
      exact ⟨hafter.isOpen, hafter.removals, by rw [h.sent_eq], hafter.calls, hafter.queued,
        hafter.outstanding, hafter.state, hafter.drained, hafter.inOrder⟩
    | shutdown =>
      -- the state changes first
      have hset : { s with conn := { s.conn with state := .disconnecting } }.Half :=
        ⟨h.isOpen, h.removals, h.sent_eq, h.calls, h.queued, fun _ => rfl, fun _ => rfl, h.drained,
          h.inOrder⟩
      have hafter := hset.after (shutdownInLoop_halves rfl) fun hmem => absurd hmem hnone
      simp only [ConnSystem.loopCall, shutdown, hstate, if_true, Option.some.injEq] at hexec
      subst hexec
      exact ⟨hafter.isOpen, hafter.removals, hafter.sent_eq, hafter.calls, hafter.queued,
        hafter.outstanding, hafter.state, hafter.drained, hafter.inOrder⟩
    | forceClose => exact absurd hstate hok
  · have hnop : s' = s.after s.conn [] := by
      cases api <;> simpa [ConnSystem.loopCall, send, shutdown, forceClose, hstate] using hexec.symm
    rw [hnop]
    exact h.after_nil

theorem runFunctor (h : s.Half) {f : InLoopFunction} {funcs : List InLoopFunction}
    (hfuncs : s.funcs = f :: funcs) {write : Option Nat}
    (hexec : { s with funcs := funcs }.runFunctor write f = some s') : s'.Half := by
  have hsub : funcs ++ s.pendingFuncs ⊆ s.funcs ++ s.pendingFuncs := by
    rw [hfuncs]
    exact List.subset_cons_self _ _
  have hrest : { s with funcs := funcs }.Half := h.of_eq rfl rfl rfl rfl rfl rfl rfl hsub
  have hmem : f ∈ s.funcs ++ s.pendingFuncs := by simp [hfuncs]
  rcases h.queued f hmem with rfl | rfl
  · cases hexec
    refine hrest.after (shutdownInLoop_halves (h.outstanding (.inr hmem))) fun hlog => ?_
    refine ⟨h.drained hlog, fun data hdata => ?_⟩
    simp [shutdownInLoop, h.drained hlog] at hdata
  · cases hexec
    exact hrest

theorem step (h : s.Half) {a : ConnAction} (hpre : Pre s a) (hok : s.Undisturbed a)
    (hexec : s.exec a = some s') : s'.Half := by
  cases a with
  | call thread api =>
    obtain rfl := hok.2 thread api rfl
    cases hexec
    exact h.call thread
  | advance thread =>
    obtain ⟨call, hcall, rfl⟩ := Option.map_eq_some_iff.mp hexec
    exact h.advance hcall
  | loopCall api write => exact h.loopCall hok.1 hexec
  | poll revents =>
    cases hexec
    exact h.of_eq rfl rfl rfl rfl rfl rfl rfl (List.Subset.refl _)
  | dispatch =>
    obtain ⟨revents, -, rfl⟩ := Option.map_eq_some_iff.mp hexec
    exact h.of_eq rfl rfl rfl rfl rfl rfl rfl (List.Subset.refl _)
  | callback read write =>
    obtain ⟨cb, callbacks, c, es, hcbs, hcall, rfl⟩ := exec_callback hexec
    have hclose := hok.1
    simp only [EntersHandleClose, hcbs, List.head?_cons, Option.some.injEq] at hclose
    obtain ⟨hhalves, hidle⟩ := callback_halves hclose hcall
    exact (h.after hhalves fun hmem => hidle (h.drained hmem)).of_eq rfl rfl rfl rfl rfl rfl rfl
      (List.Subset.refl _)
  | swap =>
    cases hexec
    refine h.of_eq rfl rfl rfl rfl rfl rfl rfl ?_
    simp [hpre.2]
  | runFunctor write =>
    obtain ⟨f, funcs, hfuncs, hrun⟩ := exec_runFunctor hexec
    exact h.runFunctor hfuncs hrun
  | remove =>
    rw [Pre, h.removals] at hpre
    exact absurd hpre (Nat.lt_irrefl 0)

end Half

theorem preserves_half :
    (program.restrict Undisturbed).Preserves fun s => s.Half ∧ ∃ q, s.Inv q := by
  rintro s a s' o ⟨h, hq⟩ ⟨hpre, hok⟩ hexec
  refine ⟨?_, preserves s a s' o hq hpre hexec⟩
  obtain ⟨s₁, hstep, heq⟩ := Option.map_eq_some_iff.mp hexec
  cases heq
  exact h.step hpre hok hstep

/-- **The half-close comes after the data.** Whatever `send` is called with on the loop thread,
however much `::write` takes each time, and whenever other threads shut the connection down: where
`shutdownWrite` is called, every message that `send` accepted is written whole, and from then on
`::write` is not called any more. -/
theorem half_close_after_data {this : Nat} {writeCb : Bool} {s : ConnSystem}
    (h : (program.restrict Undisturbed).Reachable (.init this writeCb) s) :
    (∀ es es', s.log = es ++ .shutdownWrite :: es' →
      written es = (s.sent.map Prod.snd).flatten ∧ ∀ data, .write data ∉ es') ∧
    (.shutdownWrite ∈ s.log →
      ∀ a, program.pre s a → s.Undisturbed a → ¬ s.AttemptsWrite a) := by
  obtain ⟨h, q, hq⟩ := h.invariant preserves_half ⟨.init this writeCb, [], Inv.init this writeCb⟩
  -- nothing waits any more
  have hdrained (hmem : .shutdownWrite ∈ s.log) : q = [] := by
    by_contra hne
    have hwriting := hq.flushing h.isOpen hne
    rw [h.drained hmem] at hwriting
    cases hwriting
  constructor
  · intro es es' hlog
    have hstream := hq.stream
    rw [hdrained (by simp [hlog]), List.append_nil, hlog, ← h.sent_eq] at hstream
    have hafter : ∀ data, .write data ∉ es' := by
      have hinOrder := h.inOrder
      rw [InOrder, hlog, List.pairwise_append, List.pairwise_cons] at hinOrder
      exact fun data hdata => hinOrder.2.1.1 _ hdata rfl data rfl
    refine ⟨?_, hafter⟩
    have hnil : written (.shutdownWrite :: es') = [] := written_eq_nil fun data => by
      simpa using hafter data
    rw [← hstream, written_append, hnil, List.append_nil]
  · intro hmem a hpre hok hattempts
    cases a with
    | loopCall api write =>
      cases api with
      | send msg =>
        have hstate := hattempts.1
        rw [h.state hmem] at hstate
        cases hstate
      | shutdown | forceClose => exact hattempts
    | callback read write =>
      have hwriting := hattempts.2
      rw [h.drained hmem] at hwriting
      cases hwriting
    | runFunctor write =>
      obtain ⟨sender, msg, hhead, -⟩ := hattempts
      have hfunc := h.queued _ (List.mem_append_left _ (List.mem_of_mem_head? hhead))
      simp at hfunc
    | call | advance | poll | dispatch | swap | remove => exact hattempts

/-! ## Once -/

/-- The thread is in a call of `shutdown`. -/
def InShutdown (s : ConnSystem) (t : Nat) : Prop :=
  s.calls t = some .setDisconnecting ∨ s.calls t = some .queueShutdown

/-- `shutdown` is called by one thread at a time. -/
def OneShutdown (s : ConnSystem) : ConnAction → Prop
  | .call _ .shutdown | .loopCall .shutdown _ => ∀ t, ¬ s.InShutdown t
  | _ => True

theorem oneShutdown {a : ConnAction} (h : s.calls = fun _ => none) : s.OneShutdown a := by
  unfold OneShutdown
  split <;> simp [InShutdown, h]

/-- `handleWrite` writes all that waits. -/
def Drains (s : ConnSystem) (a : ConnAction) : Prop :=
  ∃ read n, a = .callback read (some n) ∧ s.callbacks.head? = some .writeCb ∧ s.conn.isWriting ∧
    s.conn.outputBuffer.readableBytes ≤ n

/-- The output of a connection that is shut down drains when no half-close has been made and none is
under way. -/
def DrainsInTime (s : ConnSystem) (a : ConnAction) : Prop :=
  s.Drains a → s.conn.state = .disconnecting → .shutdownWrite ∉ s.log ∧ ¬ s.Outstanding

theorem drainsInTime {a : ConnAction} (h : ∀ read write, a ≠ .callback read write) :
    s.DrainsInTime a := by
  rintro ⟨read, n, rfl, -⟩
  exact absurd rfl (h read (some n))

/-- The half-closes that were made or are queued. -/
def halves (s : ConnSystem) : Nat :=
  s.log.count .shutdownWrite + (s.funcs ++ s.pendingFuncs).count .shutdownInLoop

/-- A `shutdown` that is under way is the only one there was. -/
structure Once (s : ConnSystem) : Prop where
  alone : ∀ t t', s.InShutdown t → s.InShutdown t' → t = t'
  entering : ∀ t, s.calls t = some .setDisconnecting →
    s.conn.state ≠ .disconnecting ∧ s.halves = 0
  leaving : ∀ t, s.calls t = some .queueShutdown → s.conn.state ≠ .connected ∧ s.halves = 0
  connected : s.conn.state = .connected → s.halves = 0
  once : s.halves ≤ 1

theorem halves_after : (s.after c es).halves = s.halves + es.count .shutdownWrite := by
  have hqueued : (es.filterMap queued).count .shutdownInLoop = 0 := by
    rw [List.count_eq_zero]
    intro hmem
    obtain ⟨e, -, he⟩ := List.mem_filterMap.mp hmem
    cases e <;> cases he
  simp only [halves, ConnSystem.after, List.count_append, hqueued]
  omega

theorem halves_queueInLoop {f : InLoopFunction} (hf : f ≠ .shutdownInLoop) :
    (s.queueInLoop f).halves = s.halves := by
  simp [halves, ConnSystem.queueInLoop, List.count_append, hf]

namespace Once

theorem init (this : Nat) (writeCb : Bool) : (init this writeCb).Once where
  alone t t' ht := by rcases ht with ht | ht <;> cases ht
  entering t ht := by cases ht
  leaving t ht := by cases ht
  connected _ := rfl
  once := Nat.zero_le 1

/-- A step of no `shutdown` that half-closes nothing. -/
theorem mono (h : s.Once) (hcalls : ∀ t, s'.InShutdown t → s'.calls t = s.calls t)
    (hstate : s'.conn.state = s.conn.state ∨ s'.conn.state = .disconnected)
    (hhalves : s'.halves ≤ s.halves) : s'.Once where
  alone t t' ht ht' := by
    have hold {t : Nat} (ht : s'.InShutdown t) : s.InShutdown t := by
      rw [InShutdown, ← hcalls t ht]
      exact ht
    exact h.alone t t' (hold ht) (hold ht')
  entering t ht := by
    obtain ⟨hne, hzero⟩ := h.entering t (hcalls t (.inl ht) ▸ ht)
    refine ⟨?_, Nat.eq_zero_of_le_zero (hzero ▸ hhalves)⟩
    rcases hstate with hstate | hstate <;> rw [hstate]
    · exact hne
    · simp
  leaving t ht := by
    obtain ⟨hne, hzero⟩ := h.leaving t (hcalls t (.inr ht) ▸ ht)
    refine ⟨?_, Nat.eq_zero_of_le_zero (hzero ▸ hhalves)⟩
    rcases hstate with hstate | hstate <;> rw [hstate]
    · exact hne
    · simp
  connected hconn := by
    rcases hstate with hstate | hstate <;> rw [hstate] at hconn
    · exact Nat.eq_zero_of_le_zero (h.connected hconn ▸ hhalves)
    · cases hconn
  once := hhalves.trans h.once

theorem of_eq (h : s.Once) (hcalls : s'.calls = s.calls) (hconn : s'.conn = s.conn)
    (hhalves : s'.halves ≤ s.halves) : s'.Once :=
  h.mono (fun t _ => by rw [hcalls]) (.inl (by rw [hconn])) hhalves

/-- A function of the connection that does not half-close. -/
theorem after (h : s.Once) (hstate : c.state = s.conn.state ∨ c.state = .disconnected)
    (hno : .shutdownWrite ∉ es) : (s.after c es).Once := by
  refine h.mono (fun _ _ => rfl) hstate ?_
  rw [halves_after, List.count_eq_zero.mpr hno]
  exact Nat.le_refl _

/-- Where only one thread was in a `shutdown`, only that thread is when it has moved on. -/
theorem eq_of_inShutdown {thread t : Nat} {next : Option Call}
    (hcalls : s'.calls = Function.update s.calls thread next)
    (hfree : ∀ t, t ≠ thread → ¬ s.InShutdown t) (ht : s'.InShutdown t) : t = thread := by
  by_contra hne
  rw [InShutdown, hcalls, Function.update_of_ne hne] at ht
  exact hfree t hne ht

/-- A thread that goes on to something else than a `shutdown`. -/
theorem setCall (h : s.Once) {thread : Nat} {next : Option Call}
    (hnext : next ≠ some .setDisconnecting ∧ next ≠ some .queueShutdown) :
    (s.setCall thread next).Once := by
  refine h.mono (fun t ht => ?_) (.inl rfl) (Nat.le_refl _)
  by_cases heq : t = thread
  · subst heq
    simp only [InShutdown, ConnSystem.setCall, Function.update_self] at ht
    exact absurd ht (not_or.mpr hnext)
  · exact Function.update_of_ne heq _ _

theorem call (h : s.Once) {thread : Nat} {api : Api}
    (hone : s.OneShutdown (.call thread api)) : (s.call thread api).Once := by
  rw [ConnSystem.call]
  split
  · next hstate =>
    cases api with
    | send msg | forceClose => exact (h.setCall (by simp [Api.enter])).of_eq rfl rfl (Nat.le_refl _)
    | shutdown =>
      have hzero := h.connected hstate
      have hthread {t : Nat} := @eq_of_inShutdown s { s.setCall thread (some .setDisconnecting) with
        sent := s.sent ++ messageOf (some thread) .shutdown } thread t _ rfl fun t _ => hone t
      refine ⟨fun t t' ht ht' => (hthread ht).trans (hthread ht').symm, fun t ht => ⟨?_, hzero⟩,
        fun t ht => ?_, fun _ => hzero, h.once⟩
      · exact fun hdisc => by cases hstate.symm.trans hdisc
      · obtain rfl := hthread (.inr ht)
        cases (Function.update_self _ _ _).symm.trans ht
  · exact h

theorem advance (h : s.Once) {thread : Nat} {call : Call} (hcall : s.calls thread = some call) :
    (s.advance thread call).Once := by
  have hfree (hin : s.InShutdown thread) (t : Nat) (hne : t ≠ thread) : ¬ s.InShutdown t :=
    fun ht => hne (h.alone t thread ht hin)
  cases call with
  | queueSend msg | queueClose =>
    exact (h.setCall (by simp)).of_eq rfl rfl (halves_queueInLoop (by simp)).le
  | setDisconnecting =>
    have hzero := (h.entering thread hcall).2
    have hthread {t : Nat} := @eq_of_inShutdown s (s.advance thread .setDisconnecting) thread t _
      rfl (hfree (.inl hcall))
    refine ⟨fun t t' ht ht' => (hthread ht).trans (hthread ht').symm, fun t ht => ?_,
      fun t ht => ⟨by simp [ConnSystem.advance], hzero⟩, fun hconn => (by cases hconn), h.once⟩
    obtain rfl := hthread (.inl ht)
    cases (Function.update_self _ _ _).symm.trans ht
  | queueShutdown =>
    obtain ⟨hconn, hzero⟩ := h.leaving thread hcall
    have hnone : ∀ t, ¬ (s.advance thread .queueShutdown).InShutdown t := by
      intro t ht
      obtain rfl := eq_of_inShutdown rfl (hfree (.inr hcall)) ht
      simp [InShutdown, ConnSystem.advance, ConnSystem.queueInLoop, ConnSystem.setCall] at ht
    have hhalves : (s.advance thread .queueShutdown).halves = s.halves + 1 := by
      simp only [halves, ConnSystem.advance, ConnSystem.queueInLoop, ConnSystem.setCall,
        List.count_append, List.count_singleton_self]
      omega
    refine ⟨fun t _ ht => absurd ht (hnone t), fun t ht => absurd (.inl ht) (hnone t),
      fun t ht => absurd (.inr ht) (hnone t), fun hconn' => absurd hconn' hconn, ?_⟩
    rw [hhalves, hzero]

theorem loopCall (h : s.Once) {api : Api} {write : Option Nat}
    (hone : s.OneShutdown (.loopCall api write)) (hexec : s.loopCall write api = some s') :
    s'.Once := by
  cases api with
  | send msg =>
    obtain ⟨⟨c, es⟩, hsend, heq⟩ := Option.bind_eq_some_iff.mp hexec
    have hno : .shutdownWrite ∉ es := by
      rw [send] at hsend
      split at hsend
      · exact shutdownWrite_not_mem_sendInLoop hsend
      · cases hsend
        exact List.not_mem_nil
    have hafter := h.after (.inl (send_writes hsend).state) hno
    simp only at heq
    split at heq <;> cases heq
    · exact hafter.of_eq rfl rfl (Nat.le_refl _)
    · exact hafter
  | forceClose =>
    obtain ⟨⟨c, es⟩, hforce, heq⟩ := Option.bind_eq_some_iff.mp hexec
    cases heq
    rcases forceClose_spec hforce with ⟨hstate, hcloses⟩ | ⟨-, rfl, rfl⟩
    · exact h.after (.inl (hcloses.state.trans hstate.symm)) (by simp [hcloses.effects])
    · exact h.after (.inl rfl) List.not_mem_nil
  | shutdown =>
    by_cases hstate : s.conn.state = .connected
    · simp only [ConnSystem.loopCall, shutdown, hstate, if_true, Option.some.injEq] at hexec
      subst hexec
      refine ⟨fun t _ ht => absurd ht (hone t), fun t ht => absurd (.inl ht) (hone t),
        fun t ht => absurd (.inr ht) (hone t), fun hconn => (by cases hconn), ?_⟩
      have hhalves := @halves_after s { s.conn with state := .disconnecting } s.conn.shutdownInLoop
      rw [h.connected hstate, Nat.zero_add] at hhalves
      exact hhalves.trans_le s.conn.count_shutdownInLoop
    · simp only [ConnSystem.loopCall, shutdown, hstate, if_false, Option.some.injEq] at hexec
      subst hexec
      exact h.after (.inl rfl) List.not_mem_nil

/-- `handleWrite` half-closes where nothing else does. -/
theorem callback (h : s.Once) (hq : s.Inv q) {cb : EventCallback} {read : Option Bytes}
    {write : Option Nat} (hwrite : WriteOk s.conn.outputBuffer.readableBytes write)
    (hdrains : cb = .writeCb → ∀ n, write = some n → s.conn.isWriting →
      s.conn.outputBuffer.readableBytes ≤ n → s.conn.state = .disconnecting →
      .shutdownWrite ∉ s.log ∧ ¬ s.Outstanding)
    (hcall : s.conn.callback read write cb = some (c, es)) : (s.after c es).Once := by
  have hstate := callback_state hcall
  by_cases hmem : .shutdownWrite ∈ es
  · obtain rfl := callback_shutdownWrite hcall hmem
    obtain ⟨hwriting, -, hdisc, hempty, n, rfl, rfl⟩ := handleWrite_half hcall hmem
    have hle : s.conn.outputBuffer.readableBytes ≤ n := by
      rw [hq.sound.output.readableBytes_eq] at hwrite ⊢
      obtain ⟨c₁, es₁, q₁, hcall₁, hc₁, -, hstream, -⟩ := hq.sound.handleWrite hwrite
      rw [TcpConnection.callback, hcall₁] at hcall
      cases hcall
      rw [hc₁.output.readableBytes_eq, List.length_eq_zero_iff] at hempty
      have hlen := congrArg List.length hstream
      simp only [hempty, written_cons_write, written_append, written_queueWriteCb,
        hq.sound.output.content_eq, List.length_append, List.length_take] at hlen
      simp [written] at hlen
      omega
    obtain ⟨hlog, hnot⟩ := hdrains rfl n rfl hwriting hle hdisc
    have hzero : s.halves = 0 := by
      rw [halves, List.count_eq_zero.mpr hlog, List.count_eq_zero.mpr fun hf => hnot (.inr hf)]
    refine ⟨h.alone, fun t ht => absurd hdisc (h.entering t ht).1,
      fun t ht => absurd (.inl ⟨t, ht⟩) hnot, fun hconn => ?_, ?_⟩
    · cases hdisc.symm.trans (hstate.symm.trans hconn)
    · rw [halves_after, hzero]
      simp [List.count_append, List.count_eq_zero.mpr c.shutdownWrite_not_mem_queueWriteCb]
  · exact h.after (.inl hstate) hmem

theorem runFunctor (h : s.Once) {write : Option Nat} {f : InLoopFunction}
    {funcs : List InLoopFunction} (hfuncs : s.funcs = f :: funcs)
    (hexec : { s with funcs := funcs }.runFunctor write f = some s') : s'.Once := by
  have hpop : s.halves = { s with funcs := funcs }.halves + [f].count .shutdownInLoop := by
    simp only [halves, hfuncs, List.count_append, List.count_cons, List.count_nil]
    omega
  have hrest : { s with funcs := funcs }.Once := h.of_eq rfl rfl (hpop ▸ Nat.le_add_right _ _)
  cases f with
  | sendInLoop sender msg =>
    obtain ⟨⟨c, es⟩, hsend, heq⟩ := Option.bind_eq_some_iff.mp hexec
    cases heq
    have hafter := hrest.after (.inl (sendInLoop_writes hsend).state)
      (shutdownWrite_not_mem_sendInLoop hsend)
    exact hafter.of_eq rfl rfl (Nat.le_refl _)
  | shutdownInLoop =>
    cases hexec
    refine h.mono (fun _ _ => rfl) (.inl rfl) ?_
    rw [halves_after, hpop, List.count_singleton_self]
    exact Nat.add_le_add_left s.conn.count_shutdownInLoop _
  | handleClose =>
    obtain ⟨⟨c, es⟩, hclose, heq⟩ := Option.bind_eq_some_iff.mp hexec
    cases heq
    have hcloses := handleClose_closes hclose
    have hstate := hcloses.state.trans hcloses.connected.symm
    exact hrest.after (.inl hstate) (by simp [hcloses.effects])
  | writeComplete =>
    cases hexec
    exact hrest
  | connectDestroyed =>
    obtain ⟨⟨c, es⟩, hdestroyed, heq⟩ := Option.bind_eq_some_iff.mp hexec
    cases heq
    obtain ⟨hstate, -, -, -, rfl⟩ := connectDestroyed_spec hdestroyed
    exact (hrest.after (.inr hstate) (by simp)).of_eq rfl rfl (Nat.le_refl _)

theorem step (h : s.Once) (hq : s.Inv q) {a : ConnAction} (hpre : Pre s a) (hone : s.OneShutdown a)
    (htime : s.DrainsInTime a) (hexec : s.exec a = some s') : s'.Once := by
  cases a with
  | call thread api =>
    cases hexec
    exact h.call hone
  | advance thread =>
    obtain ⟨call, hcall, rfl⟩ := Option.map_eq_some_iff.mp hexec
    exact h.advance hcall
  | loopCall api write => exact h.loopCall hone hexec
  | poll revents =>
    cases hexec
    exact h.of_eq rfl rfl (Nat.le_refl _)
  | dispatch =>
    obtain ⟨revents, -, rfl⟩ := Option.map_eq_some_iff.mp hexec
    exact h.of_eq rfl rfl (Nat.le_refl _)
  | callback read write =>
    obtain ⟨cb, callbacks, c, es, hcbs, hcall, rfl⟩ := exec_callback hexec
    refine (h.callback hq hpre.2 ?_ hcall).of_eq rfl rfl (Nat.le_refl _)
    rintro rfl n rfl hwriting hle
    exact htime ⟨read, n, rfl, by rw [hcbs]; rfl, hwriting, hle⟩
  | swap =>
    cases hexec
    refine h.of_eq rfl rfl ?_
    simp [halves, hpre.2]
  | runFunctor write =>
    obtain ⟨f, funcs, hfuncs, hrun⟩ := exec_runFunctor hexec
    exact h.runFunctor hfuncs hrun
  | remove =>
    cases hexec
    have hhalves := @halves_queueInLoop s .connectDestroyed (by simp)
    exact h.of_eq rfl rfl hhalves.le

end Once

/-- **One half-close.** However the connection is used, as long as one thread at a time calls
`shutdown`: `shutdownWrite` is called at most once, unless the output drains in the state
`DISCONNECTING` while a half-close is under way or behind one. -/
theorem half_close_once {this : Nat} {writeCb : Bool} {s : ConnSystem}
    (h : (program.restrict fun s a => s.OneShutdown a ∧ s.DrainsInTime a).Reachable
      (.init this writeCb) s) : s.log.count .shutdownWrite ≤ 1 := by
  have hpreserves : (program.restrict fun s a => s.OneShutdown a ∧ s.DrainsInTime a).Preserves
      fun s => s.Once ∧ ∃ q, s.Inv q := by
    rintro s a s' o ⟨h, q, hq⟩ ⟨hpre, hone, htime⟩ hexec
    refine ⟨?_, preserves s a s' o ⟨q, hq⟩ hpre hexec⟩
    obtain ⟨s₁, hstep, heq⟩ := Option.map_eq_some_iff.mp hexec
    cases heq
    exact h.step hq hpre hone htime hstep
  obtain ⟨h, -⟩ := h.invariant hpreserves ⟨.init this writeCb, [], Inv.init this writeCb⟩
  exact (Nat.le_add_right _ _).trans h.once

/-- The output drains when the queued `shutdownInLoop` has run. -/
theorem half_close_once_drained :
    ∃ s : ConnSystem, s.log = [.write [1], .write [2], .shutdownWrite] ∧
      s.log.count .shutdownWrite ≤ 1 := by
  have hsend : (program.restrict fun s a => s.OneShutdown a ∧ s.DrainsInTime a).Reachable
      (init 0 false) partlySent :=
    Program.Reachable.start.next_restrict (.loopCall (.send [1, 2]) (some 1))
      (fun n hn => by cases hn; decide) ⟨trivial, drainsInTime (by simp)⟩ exec_partlySent
  have hcall := hsend.next (.call 7 .shutdown)
    ⟨rfl, oneShutdown rfl, drainsInTime (by simp)⟩ rfl
  have hset := hcall.next (.advance 7) ⟨nofun, trivial, drainsInTime (by simp)⟩ rfl
  have hqueue := hset.next (.advance 7) ⟨nofun, trivial, drainsInTime (by simp)⟩ rfl
  have hswap := hqueue.next .swap ⟨⟨⟨rfl, rfl⟩, rfl⟩, trivial, drainsInTime (by simp)⟩ rfl
  have hrun := hswap.next (.runFunctor none)
    ⟨⟨⟨rfl, rfl⟩, nofun, fun _ _ => nofun⟩, trivial, drainsInTime (by simp)⟩ rfl
  have hpoll := hrun.next (.poll ⟨false, false, true, false, false⟩)
    ⟨⟨⟨rfl, rfl⟩, rfl, _, rfl, by decide⟩, trivial, drainsInTime (by simp)⟩ rfl
  have hdispatch := hpoll.next .dispatch ⟨⟨nofun, rfl⟩, trivial, drainsInTime (by simp)⟩ rfl
  -- the thread has left `shutdown`
  have hleft : ∀ t, Function.update (Function.update (Function.update (fun _ => none) 7
      (some Call.setDisconnecting)) 7 (some .queueShutdown)) 7 none t ≠ some .queueShutdown := by
    simp
  have hdrain := hdispatch.next (.callback none (some 1))
    ⟨⟨nofun, fun n hn => by cases hn; decide⟩, trivial, fun _ _ => ⟨by decide, by
      rintro (⟨t, ht⟩ | hmem)
      · exact hleft t ht
      · cases hmem⟩⟩ rfl
  exact ⟨_, rfl, half_close_once hdrain⟩

/-- A thread has set `DISCONNECTING` and not queued `shutdownInLoop` yet when the output drains. -/
theorem reachable_twice :
    ∃ s : ConnSystem, (program.restrict fun s a => s.Undisturbed a ∧ s.OneShutdown a).Reachable
      (init 0 false) s ∧ s.log = [.write [1], .write [2], .shutdownWrite, .shutdownWrite] := by
  have hsend : (program.restrict fun s a => s.Undisturbed a ∧ s.OneShutdown a).Reachable
      (init 0 false) partlySent :=
    Program.Reachable.start.next_restrict (.loopCall (.send [1, 2]) (some 1))
      (fun n hn => by cases hn; decide) ⟨⟨id, nofun⟩, trivial⟩ exec_partlySent
  have hcall := hsend.next (.call 7 .shutdown)
    ⟨rfl, ⟨id, fun _ _ h => by cases h; rfl⟩, oneShutdown rfl⟩ rfl
  have hset := hcall.next (.advance 7) ⟨nofun, ⟨id, nofun⟩, trivial⟩ rfl
  have hpoll := hset.next (.poll ⟨false, false, true, false, false⟩)
    ⟨⟨⟨rfl, rfl⟩, rfl, _, rfl, by decide⟩, ⟨id, nofun⟩, trivial⟩ rfl
  have hdispatch := hpoll.next .dispatch ⟨⟨nofun, rfl⟩, ⟨id, nofun⟩, trivial⟩ rfl
  have hdrain := hdispatch.next (.callback none (some 1))
    ⟨⟨nofun, fun n hn => by cases hn; decide⟩, ⟨(by rintro (h | ⟨h, -⟩) <;> cases h), nofun⟩,
      trivial⟩ rfl
  have hqueue := hdrain.next (.advance 7) ⟨nofun, ⟨id, nofun⟩, trivial⟩ rfl
  have hswap := hqueue.next .swap ⟨⟨⟨rfl, rfl⟩, rfl⟩, ⟨id, nofun⟩, trivial⟩ rfl
  have hrun := hswap.next (.runFunctor none)
    ⟨⟨⟨rfl, rfl⟩, nofun, fun _ _ => nofun⟩, ⟨nofun, nofun⟩, trivial⟩ rfl
  exact ⟨_, hrun, rfl⟩

theorem half_close_twice :
    ∃ s : ConnSystem, (program.restrict fun s a => s.Undisturbed a ∧ s.OneShutdown a).Reachable
      (init 0 false) s ∧ ¬ s.log.count .shutdownWrite ≤ 1 := by
  obtain ⟨s, hs, hlog⟩ := reachable_twice
  refine ⟨s, hs, ?_⟩
  rw [hlog]
  decide

/-- Both half-closes come after the data. -/
theorem half_close_after_data_twice :
    ∃ s : ConnSystem, .shutdownWrite ∈ s.log ∧
      (∀ es es', s.log = es ++ .shutdownWrite :: es' →
        written es = (s.sent.map Prod.snd).flatten ∧ ∀ data, .write data ∉ es') ∧
      (.shutdownWrite ∈ s.log →
        ∀ a, program.pre s a → s.Undisturbed a → ¬ s.AttemptsWrite a) := by
  obtain ⟨s, hs, hlog⟩ := reachable_twice
  exact ⟨s, by simp [hlog], half_close_after_data (hs.weaken fun _ _ _ h => h.1)⟩

end ConnSystem
end Httpancake
