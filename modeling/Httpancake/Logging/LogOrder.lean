import Httpancake.Logging.NonBlockingLog

/-! # The log file holds every message once and in order

The texts of the log thread's vector, of `buffers_` and of `nowBuffer_` follow what is in the file:
together they are the messages in the order in which their calls held the mutex
(`NonBlockingLog.Keeps`). Nothing is left outside of the file when the thread ends. -/

namespace Httpancake

open Bytes

/-- The text that a call appends. -/
def LogAction.text : LogAction → Bytes
  | .append msg => msg
  | .stop | .thread => []

namespace NonBlockingLog

/-- The buffer that `nowBuffer_` points to when `append` stores into it. -/
def target (s : NonBlockingLog) (msg : Bytes) : Option LargeFixBuffer :=
  s.nowBuffer.map fun now => if msg.length < now.free then now else s.nextBuffer.getD .fresh

/-- The text in a buffer, none for a null pointer. -/
def textOf (p : Option LargeFixBuffer) : Bytes := p.elim [] (·.text)

/-- What has been appended and not been written. -/
def unwritten (s : NonBlockingLog) : Bytes :=
  s.writeBackBuffers.flatMap textOf ++ s.buffers.flatMap textOf ++ textOf s.nowBuffer

/-- The file and the buffers keep `text`. -/
structure Keeps (s : NonBlockingLog) (text : Bytes) : Prop extends Sound s where
  text_eq : s.logFile ++ s.unwritten = text
  written : s.thread ≠ .writeBack → s.writeBackBuffers.flatMap textOf = []
  unwritten_done : s.thread = .done → s.unwritten = []

variable {s s' : NonBlockingLog} {text : Bytes}

theorem Spare.textOf_eq {p : Option LargeFixBuffer} (h : Spare p) : textOf p = [] := by
  cases p with
  | none => rfl
  | some b => exact (h b rfl).text_eq

theorem init_keeps : Keeps init [] where
  toSound := init_sound
  text_eq := fresh_holds.text_eq
  written _ := rfl
  unwritten_done := nofun

/-! ## Appending -/

theorem target_spec (h : Sound s) (hdone : s.thread ≠ .done) {msg : Bytes}
    (hlen : msg.length < largeBufferSize) :
    ∃ b t, s.target msg = some b ∧ b.Holds t ∧ msg.length < b.free := by
  obtain ⟨now, t, hnow, hnowt⟩ := h.nowBuffer hdone
  rw [target, hnow]
  by_cases hfree : msg.length < now.free
  · exact ⟨now, t, congrArg some (if_pos hfree), hnowt, hfree⟩
  · have hnext := h.nextBuffer.getD
    refine ⟨_, [], congrArg some (if_neg hfree), hnext, ?_⟩
    rw [FixBuffer.free, ← hnext.length_eq]
    exact hlen

/-- The message is behind everything that has not been written. -/
theorem append_unwritten (h : Sound s) (hdone : s.thread ≠ .done) {msg : Bytes}
    (happ : s.append msg = some s') :
    s'.unwritten = s.unwritten ++ msg ∧ s'.logFile = s.logFile ∧ s'.thread = s.thread ∧
      s'.writeBackBuffers = s.writeBackBuffers ∧ s'.running = s.running := by
  obtain ⟨now, t, hnow, hnowt⟩ := h.nowBuffer hdone
  have htext {b b' : LargeFixBuffer} {t : Bytes} (hb : b.Holds t)
      (hstore : b.append msg = some b') : b'.text = t ++ msg := by
    have hroom : t.length + msg.length < largeBufferSize := by
      apply Nat.lt_of_not_le
      intro hle
      rw [hb.append_eq_none hle] at hstore
      cases hstore
    obtain ⟨b₁, hb₁, hholds⟩ := hb.append hroom
    rw [hstore] at hb₁
    cases hb₁
    exact hholds.text_eq
  rw [append, hnow] at happ
  simp only at happ
  split at happ
  · obtain ⟨b, hstore, rfl⟩ := Option.map_eq_some_iff.mp happ
    refine ⟨?_, rfl, rfl, rfl, rfl⟩
    simp only [unwritten, hnow, textOf, Option.elim, htext hnowt hstore, hnowt.text_eq,
      List.append_assoc]
  · obtain ⟨b, hstore, rfl⟩ := Option.map_eq_some_iff.mp happ
    refine ⟨?_, rfl, rfl, rfl, rfl⟩
    simp only [unwritten, hnow, textOf, Option.elim, htext h.nextBuffer.getD hstore,
      List.flatMap_append, List.flatMap_singleton, List.nil_append, List.append_assoc]

theorem Keeps.append (h : Keeps s text) (hdone : s.thread ≠ .done) {msg : Bytes}
    (hlen : msg.length < largeBufferSize) :
    ∃ s', s.append msg = some s' ∧ Keeps s' (text ++ msg) ∧ s'.thread = s.thread ∧
      s'.running = s.running := by
  obtain ⟨s', happ, hs'⟩ := append_sound h.toSound hdone hlen
  obtain ⟨hunwritten, hfile, hthread, hwb, hrunning⟩ := append_unwritten h.toSound hdone happ
  refine ⟨s', happ, ⟨hs', ?_, ?_, ?_⟩, hthread, hrunning⟩
  · rw [hfile, hunwritten, ← List.append_assoc, h.text_eq]
  · rw [hthread, hwb]
    exact h.written
  · rw [hthread]
    exact fun hd => absurd hd hdone

/-! ## The thread -/

theorem writeAll_text {bs bs' : List (Option LargeFixBuffer)} {text : Bytes}
    (h : writeAll bs = some (bs', text)) :
    text = bs.flatMap textOf ∧ bs'.flatMap textOf = [] := by
  induction bs generalizing bs' text with
  | nil =>
    cases h
    exact ⟨rfl, rfl⟩
  | cons p bs ih =>
    cases p with
    | none => cases h
    | some b =>
      obtain ⟨⟨bs₁, text₁⟩, htail, heq⟩ := Option.map_eq_some_iff.mp h
      cases heq
      obtain ⟨htext, hempty⟩ := ih htail
      refine ⟨?_, ?_⟩
      · rw [List.flatMap_cons, htext]
        rfl
      · rw [List.flatMap_cons, hempty, List.append_nil]
        rfl

theorem handOver_unwritten (h : Keeps s text) (hthread : s.thread = .handOver) :
    s.handOver.unwritten = s.unwritten := by
  have hwritten := h.written (by simp [hthread])
  have hnew : textOf s.newBuffer1 = [] := h.newBuffer1.textOf_eq
  simp only [handOver, unwritten, hwritten, hnew, List.flatMap_append, List.flatMap_singleton,
    List.nil_append, List.append_nil]

theorem writeBack_spec (hwb : s.writeBack = some s') :
    s'.logFile = s.logFile ++ s.writeBackBuffers.flatMap textOf ∧
      s'.unwritten = s.buffers.flatMap textOf ++ textOf s.nowBuffer ∧
      s'.writeBackBuffers = [] ∧ s'.thread = .loop ∧ s'.running = s.running := by
  simp only [writeBack, Option.bind_eq_bind, Option.bind_eq_some_iff, Option.pure_def] at hwb
  obtain ⟨⟨bs, text⟩, hwrite, ⟨p₁, bs₁⟩, -, ⟨p₂, bs₂⟩, -, heq⟩ := hwb
  cases heq
  rw [(writeAll_text hwrite).1]
  exact ⟨rfl, rfl, rfl, rfl, rfl⟩

theorem drain_spec (h : Keeps s text) (hthread : s.thread = .drain) (hdrain : s.drain = some s') :
    s'.logFile = s.logFile ++ s.unwritten ∧ s'.unwritten = [] ∧
      s'.writeBackBuffers.flatMap textOf = [] ∧ s'.thread = .done ∧ s'.running = s.running := by
  have hwritten := h.written (by simp [hthread])
  obtain ⟨⟨bs, text⟩, hwrite, rfl⟩ := Option.map_eq_some_iff.mp hdrain
  obtain ⟨rfl, hempty⟩ := writeAll_text hwrite
  refine ⟨?_, ?_, hempty, rfl, rfl⟩
  · simp only [unwritten, hwritten, List.flatMap_append, List.flatMap_singleton, List.nil_append]
  · simp only [unwritten, hempty, hwritten, List.nil_append]
    rfl

/-- How many steps of the thread are left once `running_` is false. -/
def stepsLeft : LogThread → Nat
  | .handOver => 4
  | .writeBack => 3
  | .loop => 2
  | .drain => 1
  | .done => 0

theorem Keeps.threadFunc (h : Keeps s text) (hdone : s.thread ≠ .done) :
    ∃ s', s.threadFunc = some s' ∧ Keeps s' text ∧ s'.running = s.running ∧
      (s.running = false → stepsLeft s'.thread + 1 = stepsLeft s.thread) ∧
      (s.running = true → s.thread ≠ .drain → s'.thread ≠ .drain ∧ s'.thread ≠ .done) := by
  obtain ⟨s', hstep, hs'⟩ := threadFunc_sound h.toSound hdone
  refine ⟨s', hstep, ?_⟩
  rw [NonBlockingLog.threadFunc] at hstep
  cases hthread : s.thread with
  | loop =>
    rw [hthread] at hstep
    cases hstep
    have hwritten := h.written (by simp [hthread])
    refine ⟨⟨hs', h.text_eq, fun _ => hwritten, ?_⟩, rfl, ?_, ?_⟩
    · intro hd
      simp only at hd
      split at hd <;> cases hd
    · intro hrunning
      simp [hrunning, stepsLeft]
    · intro hrunning _
      simp [hrunning]
  | handOver =>
    rw [hthread] at hstep
    cases hstep
    have hnext : s.handOver.thread = .writeBack := rfl
    refine ⟨⟨hs', ?_, fun hne => absurd hnext hne, ?_⟩, rfl, fun _ => rfl, fun _ _ => ?_⟩
    · rw [handOver_unwritten h hthread]
      exact h.text_eq
    · simp [hnext]
    · simp [hnext]
  | writeBack =>
    rw [hthread] at hstep
    obtain ⟨hfile, hunwritten, hwb, hloop, hrunning⟩ := writeBack_spec hstep
    refine ⟨⟨hs', ?_, fun _ => by rw [hwb]; rfl, fun hd => ?_⟩, hrunning, fun _ => ?_,
      fun _ _ => ?_⟩
    · rw [hfile, hunwritten, List.append_assoc, ← h.text_eq, unwritten, List.append_assoc]
    · rw [hloop] at hd
      cases hd
    · rw [hloop]
      rfl
    · rw [hloop]
      simp
  | drain =>
    rw [hthread] at hstep
    obtain ⟨hfile, hunwritten, hwb, hend, hrunning⟩ := drain_spec h hthread hstep
    refine ⟨⟨hs', ?_, fun _ => hwb, fun _ => hunwritten⟩, hrunning, fun _ => ?_, fun _ hd => ?_⟩
    · rw [hfile, hunwritten, List.append_nil, h.text_eq]
    · rw [hend]
      rfl
    · exact absurd rfl hd
  | done => exact absurd hthread hdone

/-! ## Runs -/

theorem exec_keeps (h : Keeps s text) {a : LogAction} (hpre : nonBlockingLog.pre s a)
    (ha : Short a) :
    ∃ s' o, nonBlockingLog.exec s a = some (s', o) ∧ Keeps s' (text ++ a.text) := by
  cases a with
  | append msg =>
    obtain ⟨s', happ, hs', -⟩ := h.append hpre ha
    exact ⟨s', (), by simp only [nonBlockingLog, happ, Option.map_some], hs'⟩
  | stop =>
    refine ⟨s.stop, (), rfl, ⟨{ h.toSound with }, ?_, h.written, h.unwritten_done⟩⟩
    rw [LogAction.text, List.append_nil]
    exact h.text_eq
  | thread =>
    obtain ⟨s', hstep, hs', -⟩ := h.threadFunc hpre
    refine ⟨s', (), by simp only [nonBlockingLog, hstep, Option.map_some], ?_⟩
    rw [LogAction.text, List.append_nil]
    exact hs'

theorem run_keeps {actions : List LogAction} (h : Keeps s text)
    (hadm : nonBlockingLog.Admissible s actions) (hshort : ∀ a ∈ actions, Short a) :
    ∃ s' os, nonBlockingLog.run s actions = some (s', os) ∧
      Keeps s' (text ++ actions.flatMap LogAction.text) := by
  induction actions generalizing s text with
  | nil =>
    refine ⟨s, [], rfl, ?_⟩
    rw [List.flatMap_nil, List.append_nil]
    exact h
  | cons a actions ih =>
    obtain ⟨ha, hactions⟩ := List.forall_mem_cons.mp hshort
    obtain ⟨s₁, o, hexec, h₁⟩ := exec_keeps h hadm.1 ha
    obtain ⟨s', os, hrun, hs'⟩ := ih h₁ (hadm.2 s₁ o hexec) hactions
    refine ⟨s', o :: os, by simp [Program.run, hexec, hrun], ?_⟩
    rw [List.flatMap_cons, ← List.append_assoc]
    exact hs'

/-- Until `stop` every call finds the thread running. -/
theorem admissible_of_not_stop {actions : List LogAction} (h : Keeps s text)
    (hrunning : s.running = true) (hthread : s.thread ≠ .drain ∧ s.thread ≠ .done)
    (hstop : .stop ∉ actions) (hshort : ∀ a ∈ actions, Short a) :
    nonBlockingLog.Admissible s actions := by
  induction actions generalizing s text with
  | nil => trivial
  | cons a actions ih =>
    obtain ⟨ha, hactions⟩ := List.forall_mem_cons.mp hshort
    have htail : .stop ∉ actions := fun hmem => hstop (List.mem_cons_of_mem a hmem)
    cases a with
    | append msg =>
      obtain ⟨s₁, happ, h₁, hsame, hrunning₁⟩ := h.append hthread.2 ha
      have hexec : nonBlockingLog.exec s (.append msg) = some (s₁, ()) := by
        simp only [nonBlockingLog, happ, Option.map_some]
      exact .cons hthread.2 hexec
        (ih h₁ (hrunning₁.trans hrunning) (hsame ▸ hthread) htail hactions)
    | stop => exact absurd List.mem_cons_self hstop
    | thread =>
      obtain ⟨s₁, hstep, h₁, hrunning₁, -, hphase⟩ := h.threadFunc hthread.2
      have hexec : nonBlockingLog.exec s .thread = some (s₁, ()) := by
        simp only [nonBlockingLog, hstep, Option.map_some]
      exact .cons hthread.2 hexec
        (ih h₁ (hrunning₁.trans hrunning) (hphase hrunning hthread.1) htail hactions)

/-- Once `running_` is false, the thread ends. -/
theorem thread_ends (h : Keeps s text) (hrunning : s.running = false) :
    ∃ s' os, nonBlockingLog.Admissible s (.replicate (stepsLeft s.thread) .thread) ∧
      nonBlockingLog.run s (.replicate (stepsLeft s.thread) .thread) = some (s', os) ∧
      s'.thread = .done := by
  induction hn : stepsLeft s.thread generalizing s with
  | zero =>
    refine ⟨s, [], trivial, rfl, ?_⟩
    cases hthread : s.thread with
    | done => rfl
    | loop | handOver | writeBack | drain =>
      rw [hthread] at hn
      cases hn
  | succ n ih =>
    have hdone : s.thread ≠ .done := by
      intro hd
      rw [hd] at hn
      cases hn
    obtain ⟨s₁, hstep, h₁, hrunning₁, hleft, -⟩ := h.threadFunc hdone
    have hexec : nonBlockingLog.exec s .thread = some (s₁, ()) := by
      simp only [nonBlockingLog, hstep, Option.map_some]
    obtain ⟨s', os, hadm, hrun, hend⟩ :=
      ih h₁ (hrunning₁.trans hrunning) (Nat.succ.inj ((hleft hrunning).trans hn))
    refine ⟨s', () :: os, .cons hdone hexec hadm, ?_, hend⟩
    simp [List.replicate_succ, Program.run, hexec, hrun]

/-- `stop` after the other calls, and `n` steps of the thread that it joins. -/
def stopped (actions : List LogAction) (n : Nat) : List LogAction :=
  actions ++ .stop :: .replicate n .thread

theorem stopped_text (actions : List LogAction) (n : Nat) :
    (stopped actions n).flatMap LogAction.text = actions.flatMap LogAction.text := by
  have hthread : (List.replicate n LogAction.thread).flatMap LogAction.text = [] := by
    rw [List.flatMap_eq_nil_iff]
    intro a ha
    rw [List.eq_of_mem_replicate ha]
    rfl
  rw [stopped, List.flatMap_append, List.flatMap_cons, hthread]
  exact List.append_nil _

theorem stopped_short {actions : List LogAction} (h : ∀ a ∈ actions, Short a) (n : Nat) :
    ∀ a ∈ stopped actions n, Short a := by
  intro a ha
  rcases List.mem_append.mp ha with ha | ha
  · exact h a ha
  · rcases List.mem_cons.mp ha with rfl | ha
    · trivial
    · rw [List.eq_of_mem_replicate ha]
      trivial

end NonBlockingLog

open NonBlockingLog

/-- **The log is complete and in order.** Every `append` finds room in the buffer that it stores
into. After `stop` the thread ends, and then the file holds the messages in the order of the
calls. -/
theorem log_file_eq_messages {actions : List LogAction} (hstop : .stop ∉ actions)
    (hshort : ∀ msg, .append msg ∈ actions → msg.length < largeBufferSize) :
    (∀ before msg, before ++ [.append msg] <+: actions →
      ∃ s os b, nonBlockingLog.run .init before = some (s, os) ∧ s.target msg = some b ∧
        msg.length < b.free) ∧
    (∃ n s os, nonBlockingLog.Admissible .init (stopped actions n) ∧
      nonBlockingLog.run .init (stopped actions n) = some (s, os) ∧ s.thread = .done) ∧
    ∀ n s os, nonBlockingLog.Admissible .init (stopped actions n) →
      nonBlockingLog.run .init (stopped actions n) = some (s, os) → s.thread = .done →
      s.logFile = actions.flatMap LogAction.text := by
  have hshort : ∀ a ∈ actions, Short a := by
    intro a ha
    cases a with
    | append msg => exact hshort msg ha
    | stop | thread => trivial
  have hadm := admissible_of_not_stop init_keeps rfl ⟨nofun, nofun⟩ hstop hshort
  refine ⟨?_, ?_, ?_⟩
  · intro before msg ⟨rest, hrest⟩
    rw [← hrest, List.append_assoc] at hadm hshort
    obtain ⟨s, os, hrun, hs⟩ := run_keeps init_keeps hadm.of_append fun a ha =>
      hshort a (List.mem_append_left _ ha)
    have hnext := ((Program.Admissible.append_iff hrun).mp hadm).2.1
    have hmsg := hshort (.append msg) (List.mem_append_right _ List.mem_cons_self)
    obtain ⟨b, t, htarget, -, hroom⟩ := target_spec hs.toSound hnext hmsg
    exact ⟨s, os, b, hrun, htarget, hroom⟩
  · obtain ⟨s, os, hrun, hs⟩ := run_keeps init_keeps hadm hshort
    have hkeeps : Keeps s.stop _ := ⟨{ hs.toSound with }, hs.text_eq, hs.written, hs.unwritten_done⟩
    obtain ⟨s', os', hadm', hrun', hend⟩ := thread_ends hkeeps rfl
    have hstep : nonBlockingLog.run s (.stop :: .replicate (stepsLeft s.thread) .thread) =
        some (s', () :: os') := by
      simp only [Program.run, nonBlockingLog, Option.bind_eq_bind, Option.bind_some]
      exact congrArg (Option.bind · _) hrun'
    refine ⟨stepsLeft s.thread, s', os ++ () :: os', ?_, Program.run_append hrun hstep, hend⟩
    exact (Program.Admissible.append_iff hrun).mpr ⟨hadm, .cons trivial rfl hadm'⟩
  · intro n s os hadm hrun hdone
    obtain ⟨s', os', hrun', hs'⟩ := run_keeps init_keeps hadm (stopped_short hshort n)
    rw [hrun] at hrun'
    cases hrun'
    have htext := hs'.text_eq
    rw [hs'.unwritten_done hdone, List.append_nil, stopped_text] at htext
    exact htext

/-- The thread takes the buffers between two calls. -/
theorem log_file_eq_two : ∃ n s os,
    nonBlockingLog.run .init
      (stopped [.append (ascii "a"), .thread, .thread, .append (ascii "b"), .thread] n) =
        some (s, os) ∧
      s.thread = .done ∧ s.logFile = ascii "ab" := by
  have hshort : ∀ msg, LogAction.append msg ∈
      [.append (ascii "a"), .thread, .thread, .append (ascii "b"), .thread] →
      msg.length < largeBufferSize := by
    intro msg hmsg
    simp only [List.mem_cons, LogAction.append.injEq, reduceCtorEq, List.not_mem_nil, or_false,
      false_or] at hmsg
    rcases hmsg with rfl | rfl <;> decide
  obtain ⟨-, ⟨n, s, os, hadm, hrun, hdone⟩, hfile⟩ := log_file_eq_messages (by simp) hshort
  exact ⟨n, s, os, hrun, hdone, hfile n s os hadm hrun hdone⟩

end Httpancake
