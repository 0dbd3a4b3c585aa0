import Httpancake.Http.Answers
import Httpancake.Network.Outcomes

/-! # What a function of a connection adds to the stream

The stream of a connection is what was written to its socket and what waits in `outputBuffer_`.
Every function that has succeeded leaves it as it was, except that `send` in the state `CONNECTED`
adds its message (`TcpConnection.Sound.perform_stream`); and as long as the connection is not
closed, its socket is watched for writing exactly while bytes wait (`TcpConnection.Drains`). -/

namespace Httpancake
namespace TcpConnection

variable {c c' : TcpConnection} {q : Bytes} {es : List ConnEffect}

/-- The connection has become `c'`, and `msg` was added to the stream. -/
def Adds (q : Bytes) (c' : TcpConnection) (es : List ConnEffect) (msg : Bytes) : Prop :=
  ∃ q', c'.Sound q' ∧ written es ++ q' = q ++ msg

namespace Sound

theorem adds_nil (h : c.Sound q) : Adds q c [] [] := ⟨q, h, (List.append_nil q).symm⟩

/-- A list of effects that writes nothing. -/
theorem adds_quiet (h : c.Sound q) (hes : written es = []) : Adds q c es [] := by
  refine ⟨q, h, ?_⟩
  rw [hes, List.nil_append, List.append_nil]

theorem ofInput (h : c.Sound q) {b : Buffer} (hb : ∃ p, b.Holds p) :
    { c with inputBuffer := b }.Sound q := ⟨h.agrees, h.output, hb⟩

theorem ofState (h : c.Sound q) (state : ConnState) : { c with state := state }.Sound q :=
  ⟨h.agrees, h.output, h.input⟩

theorem handleClose_stream (h : c.Sound q) (hclose : c.handleClose = some (c', es)) :
    Adds q c' es [] := by
  obtain ⟨c₁, hclose₁, hc₁, -⟩ := h.handleClose (handleClose_closes hclose).connected
  cases hclose.symm.trans hclose₁
  exact hc₁.adds_quiet rfl

theorem sendInLoop_stream (h : c.Sound q) {msg : Bytes} {result : Option Nat}
    (hsend : c.sendInLoop msg result = some (c', es)) : Adds q c' es msg := by
  obtain ⟨c₁, es₁, q', hsend₁, hc₁, -, hstream, -⟩ := h.sendInLoop msg result
  cases hsend.symm.trans hsend₁
  exact ⟨q', hc₁, hstream⟩

/-- A result that is more than was offered fails an assertion of `Buffer`. -/
theorem handleWrite_writeOk (h : c.Sound q) {result : Option Nat}
    (hw : c.handleWrite result = some (c', es)) :
    c' = c ∧ es = [] ∨ WriteOk q.length result := by
  cases hwriting : c.isWriting with
  | false => exact .inl (handleWrite_idle hw hwriting)
  | true =>
    refine .inr fun n hn => ?_
    by_contra hlt
    have hnone := h.output.retrieve_eq_none (Nat.lt_of_not_le hlt)
    cases n with
    | zero => exact hlt (Nat.zero_le _)
    | succ n =>
      have hstop : c.handleWrite (some (n + 1)) = none := by
        simp [TcpConnection.handleWrite, hwriting, hnone]
      rw [Option.mem_def.mp hn, hstop] at hw
      cases hw

theorem handleWrite_stream (h : c.Sound q) {result : Option Nat}
    (hw : c.handleWrite result = some (c', es)) : Adds q c' es [] := by
  rcases h.handleWrite_writeOk hw with ⟨rfl, rfl⟩ | hres
  · exact h.adds_nil
  · obtain ⟨c₁, es₁, q', hw₁, hc₁, -, hstream, -⟩ := h.handleWrite hres
    cases hw.symm.trans hw₁
    refine ⟨q', hc₁, ?_⟩
    rw [hstream, List.append_nil]

/-- A callback of the handler. -/
theorem callback_stream (h : c.Sound q) {read : Option Bytes} {write : Option Nat}
    {cb : EventCallback} (hcall : c.callback read write cb = some (c', es)) : Adds q c' es [] := by
  cases cb with
  | closeCb => exact h.handleClose_stream hcall
  | errorCb =>
    cases hcall
    exact h.adds_nil
  | writeCb => exact h.handleWrite_stream hcall
  | readCb =>
    match read with
    | none =>
      cases (handleRead_error c).symm.trans hcall
      exact h.adds_nil
    | some [] =>
      obtain ⟨b, hread, hb⟩ := h.handleRead_eof
      exact hb.handleClose_stream (hread.symm.trans hcall)
    | some (x :: data) =>
      obtain ⟨b, hread, -, hb⟩ := h.handleRead_data (List.cons_ne_nil x data)
      cases hread.symm.trans hcall
      exact hb.adds_quiet rfl

theorem connectEstablished_stream (h : c.Sound q) (hcall : c.connectEstablished = some (c', es)) :
    Adds q c' es [] := by
  obtain ⟨c₁, hcall₁, hc₁, -⟩ := h.connectEstablished (connectEstablished_spec hcall).1
  cases hcall.symm.trans hcall₁
  exact hc₁.adds_quiet rfl

theorem connectDestroyed_stream (h : c.Sound q) (hcall : c.connectDestroyed = some (c', es)) :
    Adds q c' es [] := by
  obtain ⟨c₁, hcall₁, hc₁, -⟩ := h.connectDestroyed
  cases hcall.symm.trans hcall₁
  exact hc₁.adds_quiet rfl

/-- One call after another. -/
theorem Adds.append {q₁ : Bytes} {es₁ : List ConnEffect} {msg msg' : Bytes}
    (hstream : written es₁ ++ q₁ = q ++ msg) (h : Adds q₁ c' es msg') :
    Adds q c' (es₁ ++ es) (msg ++ msg') := by
  obtain ⟨q', hc', hrest⟩ := h
  refine ⟨q', hc', ?_⟩
  rw [written_append, List.append_assoc, hrest, ← List.append_assoc, hstream, List.append_assoc]

/-- **What `onMessage` asks for.** In the state `CONNECTED` its messages are added to the stream, in
order; in any other state they are lost. -/
theorem perform_stream (h : c.Sound q) {effects : List Effect} {write : Option Nat}
    (hperform : c.perform write effects = some (c', es)) :
    Adds q c' es (if c.state = .connected then (sends effects).flatten else []) := by
  induction effects generalizing c q es with
  | nil =>
    cases hperform
    rw [sends_nil, List.flatten_nil, ite_self]
    exact h.adds_nil
  | cons e effects ih =>
    by_cases hstate : c.state = .connected
    · rw [if_pos hstate]
      cases e with
      | send msg =>
        simp only [perform, Option.bind_eq_bind, Option.bind_eq_some_iff] at hperform
        obtain ⟨⟨c₁, es₁⟩, hsend, ⟨c₂, es₂⟩, hrest, heq⟩ := hperform
        cases heq
        have hstate₁ := (send_writes hsend).state.trans hstate
        rw [send, if_pos hstate] at hsend
        obtain ⟨q₁, hc₁, hstream⟩ := h.sendInLoop_stream hsend
        have hadds := ih hc₁ hrest
        rw [if_pos hstate₁] at hadds
        exact Adds.append hstream hadds
      | forceClose =>
        simp only [perform, Option.bind_eq_bind, Option.bind_eq_some_iff] at hperform
        obtain ⟨⟨c₁, es₁⟩, hclose, ⟨c₂, es₂⟩, hrest, heq⟩ := hperform
        cases heq
        have hstate₁ : c₁.state = .connected := (forceClose_performs hclose).state.trans hstate
        rw [forceClose, if_pos hstate] at hclose
        obtain ⟨q₁, hc₁, hstream⟩ := h.handleClose_stream hclose
        have hadds := ih hc₁ hrest
        rw [if_pos hstate₁] at hadds
        exact Adds.append hstream hadds
      | log text =>
        have hadds := ih h hperform
        rwa [if_pos hstate] at hadds
    · rw [if_neg hstate]
      rw [perform_of_not_connected hstate] at hperform
      cases hperform
      exact h.adds_nil

end Sound

/-! ## Who waits is watched -/

/-- The poller holds the events that the handler wants. -/
def Registered (c : TcpConnection) : Prop :=
  c.handler.events ≠ .none → c.watched.interest = some c.handler.events

theorem update_registered {events : EventMask} (h : c.update events = some c') :
    c'.Registered := by
  obtain ⟨⟨handler, watched⟩, hupd, heq⟩ := Option.bind_eq_some_iff.mp h
  cases heq
  intro hne
  rw [Handler.updateHandler] at hupd
  cases hstate : c.handler.state with
  | new | deleted =>
    simp only [hstate, Option.bind_eq_bind, Option.bind_eq_some_iff] at hupd
    obtain ⟨-, -, -, -, heq⟩ := hupd
    cases heq
    rfl
  | using_ =>
    simp only [hstate, Option.bind_eq_bind, Option.bind_eq_some_iff] at hupd
    obtain ⟨-, -, -, -, heq⟩ := hupd
    split at heq
    · next hnone =>
      cases heq
      exact absurd hnone hne
    · cases heq
      rfl

/-- Bytes wait exactly while the socket is watched for writing, and the poller knows it. -/
structure Drains (c : TcpConnection) : Prop where
  waiting_iff : c.outputBuffer.content ≠ [] ↔ c.isWriting
  registered : c.Registered

/-- Nothing but the output buffer and the watching counts. -/
theorem Drains.of_eq (h : c.Drains) (houtput : c'.outputBuffer = c.outputBuffer)
    (hhandler : c'.handler = c.handler) (hwatched : c'.watched = c.watched) : c'.Drains where
  waiting_iff := by
    rw [houtput, isWriting, hhandler]
    exact h.waiting_iff
  registered := by
    rw [Registered, hhandler, hwatched]
    exact h.registered

theorem Drains.make (this : Nat) (writeCb : Bool) : (TcpConnection.make this writeCb).Drains :=
  ⟨iff_of_false (not_not_intro rfl) Bool.false_ne_true, fun hne => absurd rfl hne⟩

theorem Drains.connectEstablished (h : c.Drains)
    (hcall : c.connectEstablished = some (c', es)) : c'.Drains := by
  simp only [TcpConnection.connectEstablished, Option.bind_eq_bind, Option.bind_eq_some_iff,
    Option.guard_eq_some'] at hcall
  obtain ⟨-, -, c₁, hen, heq⟩ := hcall
  cases heq
  obtain ⟨hevents, -⟩ := update_spec hen
  refine ⟨?_, update_registered hen⟩
  have hwriting : c'.isWriting = c.isWriting := by
    rw [isWriting, Handler.isWriting, hevents]
    exact Bool.or_false _
  rw [hwriting, ← h.waiting_iff, (update_frame hen).2.2.2]

/-- What the poller has been told. -/
theorem Drains.waiting_iff_interest (h : c.Drains) (hs : c.Sound q) :
    c.outputBuffer.content ≠ [] ↔ ∃ interest ∈ c.watched.interest, interest.epollout := by
  rw [h.waiting_iff]
  constructor
  · intro hwriting
    refine ⟨c.handler.events, h.registered fun hnone => ?_, hwriting⟩
    rw [isWriting, Handler.isWriting, hnone] at hwriting
    cases hwriting
  · rintro ⟨interest, hinterest, hout⟩
    rw [Option.mem_def, hs.agrees.interest] at hinterest
    split_ifs at hinterest
    cases hinterest
    exact hout

namespace Sound

/-- What `Needed` and `Flushing` say together. -/
theorem waiting_iff {q' : Bytes} (h : c.Sound q) (h' : c'.Sound q')
    (hneeded : c.Needed q → c'.Needed q') (hflushing : c.Flushing q → c'.Flushing q')
    (hd : c.Drains) : c'.outputBuffer.content ≠ [] ↔ c'.isWriting := by
  have hold := hd.waiting_iff
  rw [h.output.content_eq] at hold
  rw [h'.output.content_eq]
  exact ⟨hflushing hold.mp, hneeded hold.mpr⟩

theorem sendInLoop_drains (h : c.Sound q) (hd : c.Drains) {msg : Bytes} {result : Option Nat}
    (hsend : c.sendInLoop msg result = some (c', es)) : c'.Drains where
  waiting_iff := by
    obtain ⟨c₁, es₁, q', hsend₁, hc₁, -, -, hneeded, hflushing⟩ := h.sendInLoop msg result
    cases hsend.symm.trans hsend₁
    exact h.waiting_iff hc₁ hneeded hflushing hd
  registered := by
    unfold TcpConnection.sendInLoop at hsend
    generalize (!c.isWriting && c.outputBuffer.readableBytes == 0) = direct at hsend
    dsimp only at hsend
    generalize (if direct then result.getD 0 else 0) = n at hsend
    split at hsend
    · obtain ⟨c₁, hout, heq⟩ := Option.bind_eq_some_iff.mp hsend
      cases heq
      obtain ⟨outputBuffer, -, hout⟩ := Option.bind_eq_some_iff.mp hout
      simp only at hout
      split at hout
      · cases hout
        exact hd.registered
      · exact update_registered hout
    · cases hsend
      exact hd.registered

theorem handleWrite_drains (h : c.Sound q) (hd : c.Drains) {result : Option Nat}
    (hw : c.handleWrite result = some (c', es)) : c'.Drains := by
  rcases h.handleWrite_writeOk hw with ⟨rfl, rfl⟩ | hres
  · exact hd
  · obtain ⟨c₁, es₁, q', hw₁, hc₁, -, -, hneeded, hflushing⟩ := h.handleWrite hres
    cases hw.symm.trans hw₁
    refine ⟨h.waiting_iff hc₁ hneeded hflushing hd, ?_⟩
    unfold TcpConnection.handleWrite at hw
    split at hw
    · split at hw
      · cases hw
        exact hd.registered
      · cases hw
        exact hd.registered
      · obtain ⟨outputBuffer, -, hw⟩ := Option.bind_eq_some_iff.mp hw
        simp only at hw
        split at hw
        · obtain ⟨c₁, hdis, heq⟩ := Option.bind_eq_some_iff.mp hw
          cases heq
          exact update_registered hdis
        · cases hw
          exact hd.registered
    · cases hw
      exact hd.registered

/-- A callback of the handler that does not close. -/
theorem callback_drains (h : c.Sound q) (hd : c.Drains) {read : Option Bytes}
    {write : Option Nat} {cb : EventCallback} (hcall : c.callback read write cb = some (c', es))
    (hopen : .closeCb ∉ es) : c'.Drains := by
  cases cb with
  | closeCb =>
    rw [(handleClose_closes hcall).effects] at hopen
    exact absurd (List.mem_singleton_self _) hopen
  | errorCb =>
    cases hcall
    exact hd
  | writeCb => exact h.handleWrite_drains hd hcall
  | readCb =>
    obtain ⟨b, -, hspec⟩ := handleRead_spec hcall
    match read with
    | none | some (x :: data) =>
      obtain ⟨rfl, -⟩ := hspec
      exact hd.of_eq rfl rfl rfl
    | some [] =>
      rw [hspec.effects] at hopen
      exact absurd (List.mem_singleton_self _) hopen

/-- **Requests that do not close.** -/
theorem perform_drains (h : c.Sound q) (hd : c.Drains) {effects : List Effect}
    {write : Option Nat} (hperform : c.perform write effects = some (c', es))
    (hopen : .closeCb ∉ es) : c'.Drains := by
  induction effects generalizing c q es with
  | nil =>
    cases hperform
    exact hd
  | cons e effects ih =>
    cases e with
    | send msg =>
      simp only [perform, Option.bind_eq_bind, Option.bind_eq_some_iff] at hperform
      obtain ⟨⟨c₁, es₁⟩, hsend, ⟨c₂, es₂⟩, hrest, heq⟩ := hperform
      cases heq
      have hopen₂ : .closeCb ∉ es₂ := fun hmem => hopen (List.mem_append_right _ hmem)
      rw [send] at hsend
      split at hsend
      · obtain ⟨q₁, hc₁, -⟩ := h.sendInLoop_stream hsend
        exact ih hc₁ (h.sendInLoop_drains hd hsend) hrest hopen₂
      · cases hsend
        exact ih h hd hrest hopen₂
    | forceClose =>
      simp only [perform, Option.bind_eq_bind, Option.bind_eq_some_iff] at hperform
      obtain ⟨⟨c₁, es₁⟩, hclose, ⟨c₂, es₂⟩, hrest, heq⟩ := hperform
      cases heq
      rcases forceClose_spec hclose with ⟨-, hcloses⟩ | ⟨-, rfl, rfl⟩
      · rw [hcloses.effects] at hopen
        exact absurd List.mem_cons_self hopen
      · exact ih h hd hrest hopen
    | log text => exact ih h hd hperform hopen

end Sound
end TcpConnection
end Httpancake
