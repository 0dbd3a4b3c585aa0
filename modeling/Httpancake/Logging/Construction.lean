import Httpancake.Logging.LogOrder

/-! # The log thread and the constructor that starts it

The singleton of `NonBlockingLog::getNonBlockingLog`. Its members are initialised in the order of
their declarations over storage that is zero, and `logThread_`, which starts the thread, stands
before `running_`. A thread that tests `running_` too early finds it false, leaves its loop and
releases `nowBuffer_`; otherwise it serves until `stop` (`SingletonLog.serves_iff_late`). -/

namespace Httpancake

open Bytes

inductive LogMember where
  | buffers
  | nowBuffer
  | nextBuffer
  | logFileName
  | logFileFd
  | logThread
  | mtx
  | cond
  | flushInterval
  | running
  deriving DecidableEq, Repr

/-- How far the log thread is. -/
inductive LogThreadStage where
  /-- `logThread_` has not been initialised. -/
  | absent
  /-- Before the local variables of `threadFunc`. -/
  | created
  | running
  deriving DecidableEq, Repr

structure SingletonLog where
  uninitialised : List LogMember
  /-- The members that are used under the mutex or by the thread, and the local variables of the
  thread. -/
  log : NonBlockingLog
  logFileName : Bytes
  logFileFd : Int
  logThread : LogThreadStage
  flushInterval : Int
  /-- The local variable of `threadFunc`, in seconds. -/
  timeout : Int
  /-- `stop` has been called. -/
  stopped : Bool

inductive SingletonAction where
  /-- The constructor initialises the next member. -/
  | construct
  | append (msg : Bytes)
  | stop
  | thread

namespace SingletonLog

/-- The members in the order of their declarations. -/
def declared : List LogMember :=
  [.buffers, .nowBuffer, .nextBuffer, .logFileName, .logFileFd, .logThread, .mtx, .cond,
    .flushInterval, .running]

/-- The storage before the constructor, which is zero. -/
def storage : SingletonLog where
  uninitialised := declared
  log :=
    { buffers := []
      nowBuffer := none
      nextBuffer := none
      running := false
      logFile := []
      thread := .loop
      newBuffer1 := none
      newBuffer2 := none
      writeBackBuffers := [] }
  logFileName := []
  logFileFd := 0
  logThread := .absent
  flushInterval := 0
  timeout := 0
  stopped := false

/-- The initialisation of one member. The constructors of `mtx_` and `cond_` store the zeros that
are there already. -/
def initialise (openFile : Bytes → Int) (logFileName : Bytes) (flushInterval : Int)
    (s : SingletonLog) : LogMember → SingletonLog
  | .buffers => { s with log := { s.log with buffers := [] } }
  | .nowBuffer => { s with log := { s.log with nowBuffer := some .fresh } }
  | .nextBuffer => { s with log := { s.log with nextBuffer := some .fresh } }
  | .logFileName => { s with logFileName := logFileName }
  | .logFileFd => { s with logFileFd := openFile s.logFileName }
  | .logThread => { s with logThread := .created }
  | .mtx | .cond => s
  | .flushInterval => { s with flushInterval := flushInterval }
  | .running => { s with log := { s.log with running := true } }

/-- `NonBlockingLog::NonBlockingLog`, one member further. -/
def construct (openFile : Bytes → Int) (logFileName : Bytes) (flushInterval : Int)
    (s : SingletonLog) : SingletonLog :=
  match s.uninitialised with
  | [] => s
  | m :: ms => { initialise openFile logFileName flushInterval s m with uninitialised := ms }

/-- The local variables of `threadFunc`. -/
def locals (s : SingletonLog) : SingletonLog :=
  { s with
    timeout := s.flushInterval
    log :=
      { s.log with newBuffer1 := some .fresh, newBuffer2 := some .fresh, writeBackBuffers := [] }
    logThread := .running }

/-- The next step of the thread. Without a file, `writeBack` ends the process. -/
def threadFunc (s : SingletonLog) : Option SingletonLog :=
  match s.logThread with
  | .absent => none
  | .created => some s.locals
  | .running =>
    if (s.log.thread = .writeBack ∨ s.log.thread = .drain) ∧ s.logFileFd ≤ 0 then none
    else s.log.threadFunc.map fun log => { s with log }

def stop (s : SingletonLog) : SingletonLog := { s with log := s.log.stop, stopped := true }

end SingletonLog

/-- The singleton from its first access on. The other callers of `getNonBlockingLog` get it when the
constructor has returned. -/
def getNonBlockingLog (openFile : Bytes → Int) (logFileName : Bytes) (flushInterval : Int) :
    Program SingletonLog SingletonAction Unit where
  pre s
    | .construct => s.uninitialised ≠ []
    | .append _ | .stop => s.uninitialised = []
    | .thread => s.logThread ≠ .absent ∧ s.log.thread ≠ .done
  exec s
    | .construct => some (s.construct openFile logFileName flushInterval, ())
    | .append msg => (s.log.append msg).map fun log => ({ s with log }, ())
    | .stop => some (s.stop, ())
    | .thread => s.threadFunc.map (·, ())

instance (openFile : Bytes → Int) (logFileName : Bytes) (flushInterval : Int) :
    ∀ s a, Decidable ((getNonBlockingLog openFile logFileName flushInterval).pre s a)
  | s, .construct => inferInstanceAs (Decidable (s.uninitialised ≠ []))
  | s, .append _ | s, .stop => inferInstanceAs (Decidable (s.uninitialised = []))
  | s, .thread => inferInstanceAs (Decidable (s.logThread ≠ .absent ∧ s.log.thread ≠ .done))

/-! ## Until `stop` -/

namespace NonBlockingLog

/-- The thread has left its loop. -/
def Left (s : NonBlockingLog) : Prop := s.thread = .drain ∨ s.thread = .done

instance (s : NonBlockingLog) : Decidable s.Left := inferInstanceAs (Decidable (_ ∨ _))

variable {s s' : NonBlockingLog} {text : Bytes}

theorem keeps_of_reachable (h : nonBlockingLog.Reachable .init s) : ∃ text, Keeps s text := by
  refine h.invariant (I := fun s => ∃ text, Keeps s text) ?_ ⟨[], init_keeps⟩
  have hshort s a (hs : ∃ text, Keeps s text) (hpre : nonBlockingLog.pre s a) (ha : Short a) :
      ∃ s' o, nonBlockingLog.exec s a = some (s', o) ∧ ∃ text, Keeps s' text := by
    obtain ⟨text, hs⟩ := hs
    obtain ⟨s', o, hexec, hs'⟩ := exec_keeps hs hpre ha
    exact ⟨s', o, hexec, _, hs'⟩
  refine Program.preserves_of_ok hshort fun s a hs hpre ha => ?_
  obtain ⟨text, hs⟩ := hs
  exact exec_not_short s a hs.toSound hpre ha

/-- Only `stop` changes `running_`, and the thread does not leave its loop while it is true. -/
theorem running_step {a : LogAction} {o : Unit} (h : Keeps s text) (hpre : nonBlockingLog.pre s a)
    (hstop : a ≠ .stop) (hexec : nonBlockingLog.exec s a = some (s', o)) :
    s'.running = s.running ∧ (s.running = true → ¬ s.Left → ¬ s'.Left) := by
  cases a with
  | append msg =>
    obtain ⟨s₁, happ, heq⟩ := Option.map_eq_some_iff.mp hexec
    cases heq
    obtain ⟨-, -, hthread, -, hrunning⟩ := append_unwritten h.toSound hpre happ
    refine ⟨hrunning, fun _ hleft => ?_⟩
    rw [Left, hthread]
    exact hleft
  | stop => exact absurd rfl hstop
  | thread =>
    obtain ⟨s₁, hstep, heq⟩ := Option.map_eq_some_iff.mp hexec
    cases heq
    obtain ⟨s₂, hstep', -, hrunning, -, hloop⟩ := h.threadFunc hpre
    rw [hstep] at hstep'
    cases hstep'
    refine ⟨hrunning, fun hrun hleft => ?_⟩
    exact not_or.mpr (hloop hrun fun hdrain => hleft (.inl hdrain))

/-- The thread keeps `nowBuffer_` as long as it has not ended. -/
theorem nowBuffer_isSome (h : Keeps s text) (hleft : ¬ s.Left) : s.nowBuffer.isSome := by
  obtain ⟨b, t, hb, -⟩ := h.nowBuffer fun hdone => hleft (.inr hdone)
  rw [hb]
  rfl

end NonBlockingLog

namespace SingletonLog

/-- Until `stop` the thread is in its loop, and every call of `append` finds a buffer. -/
def Serves (s : SingletonLog) : Prop :=
  s.stopped = false → ¬ s.log.Left ∧ (s.uninitialised = [] → s.log.nowBuffer.isSome)

/-- The thread is at the test of `running_`. -/
def AtTest (s : SingletonLog) : Prop := s.logThread = .running ∧ s.log.thread = .loop

/-- The thread tests `running_` after the constructor has set it. -/
def Late (s : SingletonLog) : SingletonAction → Prop
  | .thread => s.AtTest → .running ∉ s.uninitialised
  | _ => True

instance (s : SingletonLog) : Decidable s.AtTest := inferInstanceAs (Decidable (_ ∧ _))

instance : ∀ s a, Decidable (Late s a)
  | s, .thread => inferInstanceAs (Decidable (s.AtTest → .running ∉ s.uninitialised))
  | _, .construct | _, .append _ | _, .stop => isTrue trivial

/-! ## The object as the constructor leaves it -/

/-- The log with all members and local variables initialised. -/
def completed (s : SingletonLog) : NonBlockingLog where
  buffers := if .buffers ∈ s.uninitialised then [] else s.log.buffers
  nowBuffer := if .nowBuffer ∈ s.uninitialised then some .fresh else s.log.nowBuffer
  nextBuffer := if .nextBuffer ∈ s.uninitialised then some .fresh else s.log.nextBuffer
  running := if .running ∈ s.uninitialised then true else s.log.running
  logFile := s.log.logFile
  thread := s.log.thread
  newBuffer1 := if s.logThread = .running then s.log.newBuffer1 else some .fresh
  newBuffer2 := if s.logThread = .running then s.log.newBuffer2 else some .fresh
  writeBackBuffers := if s.logThread = .running then s.log.writeBackBuffers else []

/-- As long as all tests were late, the completed log runs like one whose constructor has
returned. -/
structure Steady (s : SingletonLog) : Prop where
  members : s.uninitialised <:+ declared
  completed : nonBlockingLog.Reachable .init s.completed
  serves : s.stopped = false → s.completed.running = true ∧ ¬ s.log.Left
  absent : .logThread ∈ s.uninitialised → s.logThread = .absent
  early : .running ∈ s.uninitialised → s.log.running = false ∧ s.stopped = false
  inside : s.log.thread ≠ .loop → s.uninitialised = []

variable {s s' : SingletonLog} {openFile : Bytes → Int} {logFileName : Bytes} {flushInterval : Int}

theorem storage_steady : storage.Steady where
  members := List.suffix_rfl
  completed := .start
  serves _ := ⟨rfl, by decide⟩
  absent _ := rfl
  early _ := ⟨rfl, rfl⟩
  inside h := absurd rfl h

theorem Steady.serve (h : s.Steady) : s.Serves := by
  intro hstopped
  have hleft := (h.serves hstopped).2
  refine ⟨hleft, fun hall => ?_⟩
  obtain ⟨text, hkeeps⟩ := NonBlockingLog.keeps_of_reachable h.completed
  have hnow := NonBlockingLog.nowBuffer_isSome hkeeps hleft
  simpa [SingletonLog.completed, hall] using hnow

/-- `running_` is the last member. -/
theorem uninitialised_eq_nil (h : s.uninitialised <:+ declared)
    (hrunning : .running ∉ s.uninitialised) : s.uninitialised = [] := by
  obtain ⟨before, hbefore⟩ := h
  cases hs : s.uninitialised using List.reverseRecOn with
  | nil => rfl
  | append_singleton ms m =>
    have hlast : (before ++ s.uninitialised).getLast? = some .running := by
      rw [hbefore]
      rfl
    rw [hs, ← List.append_assoc, List.getLast?_concat] at hlast
    cases hlast
    exact absurd (by rw [hs]; simp) hrunning

/-- The constructor leaves what the completed log is. -/
theorem Steady.construct_completed (h : s.Steady) :
    (s.construct openFile logFileName flushInterval).completed = s.completed := by
  have hnodup : s.uninitialised.Nodup := h.members.sublist.nodup (by decide)
  have habsent := h.absent
  rw [construct]
  cases hs : s.uninitialised with
  | nil => rfl
  | cons m ms =>
    rw [hs] at hnodup habsent
    have hm := (List.nodup_cons.mp hnodup).1
    cases m with
    | buffers | nowBuffer | nextBuffer | running =>
      simp [SingletonLog.completed, initialise, hs, hm]
    | logThread =>
      have hnew := habsent List.mem_cons_self
      simp [SingletonLog.completed, initialise, hs, hnew]
    | logFileName | logFileFd | mtx | cond | flushInterval =>
      simp only [SingletonLog.completed, hs, List.mem_cons, reduceCtorEq, false_or]
      rfl

theorem construct_spec (openFile : Bytes → Int) (logFileName : Bytes) (flushInterval : Int)
    {m : LogMember} {ms : List LogMember} (hs : s.uninitialised = m :: ms) :
    (s.construct openFile logFileName flushInterval).uninitialised = ms ∧
      (s.construct openFile logFileName flushInterval).log.thread = s.log.thread ∧
      (s.construct openFile logFileName flushInterval).stopped = s.stopped ∧
      (m ≠ .logThread →
        (s.construct openFile logFileName flushInterval).logThread = s.logThread) ∧
      (m ≠ .running →
        (s.construct openFile logFileName flushInterval).log.running = s.log.running) := by
  rw [construct, hs]
  cases m with
  | logThread => exact ⟨rfl, rfl, rfl, fun hne => absurd rfl hne, fun _ => rfl⟩
  | running => exact ⟨rfl, rfl, rfl, fun _ => rfl, fun hne => absurd rfl hne⟩
  | buffers | nowBuffer | nextBuffer | logFileName | logFileFd | mtx | cond | flushInterval =>
    exact ⟨rfl, rfl, rfl, fun _ => rfl, fun _ => rfl⟩

theorem Steady.construct (h : s.Steady) (hs : s.uninitialised ≠ []) :
    (s.construct openFile logFileName flushInterval).Steady := by
  obtain ⟨m, ms, hms⟩ := List.exists_cons_of_ne_nil hs
  obtain ⟨hrest, hthread, hstopped, hstage, hrunning⟩ :=
    construct_spec openFile logFileName flushInterval hms
  have hsuffix : m :: ms <:+ declared := hms ▸ h.members
  have hnodup : (m :: ms).Nodup := hsuffix.sublist.nodup (by decide)
  have hold {m' : LogMember} (hmem : m' ∈ ms) : m ≠ m' ∧ m' ∈ s.uninitialised :=
    ⟨fun heq => (List.nodup_cons.mp hnodup).1 (heq ▸ hmem), hms ▸ List.mem_cons_of_mem m hmem⟩
  refine ⟨?_, ?_, ?_, ?_, ?_, ?_⟩
  · rw [hrest]
    exact (List.suffix_cons m ms).trans hsuffix
  · rw [h.construct_completed]
    exact h.completed
  · rw [h.construct_completed, hstopped, NonBlockingLog.Left, hthread]
    exact h.serves
  · intro hmem
    rw [hrest] at hmem
    obtain ⟨hne, hmem⟩ := hold hmem
    rw [hstage hne]
    exact h.absent hmem
  · intro hmem
    rw [hrest] at hmem
    obtain ⟨hne, hmem⟩ := hold hmem
    rw [hrunning hne, hstopped]
    exact h.early hmem
  · intro hloop
    rw [hthread] at hloop
    exact absurd (h.inside hloop) hs

/-! ## The other steps -/

/-- A call of `append` does not use the local variables of the thread. -/
theorem append_completed (hall : s.uninitialised = []) (msg : Bytes) :
    s.completed.append msg = (s.log.append msg).map fun log => completed { s with log } := by
  simp only [NonBlockingLog.append, completed, hall, List.not_mem_nil, if_false]
  cases s.log.nowBuffer with
  | none => rfl
  | some now =>
    by_cases hfree : msg.length < now.free
    · simp only [if_pos hfree, Option.map_map]
      rfl
    · simp only [if_neg hfree, Option.map_map]
      rfl

theorem completed_running (hall : s.uninitialised = []) (hstage : s.logThread = .running) :
    s.completed = s.log := by
  simp [completed, hall, hstage]

/-- What a step of the completed log other than `stop` does to the invariant. -/
theorem Steady.step (h : s.Steady) {a : LogAction} {o : Unit}
    (hpre : nonBlockingLog.pre s.completed a) (hstop : a ≠ .stop)
    (hexec : nonBlockingLog.exec s.completed a = some (s'.completed, o))
    (hmembers : s'.uninitialised = s.uninitialised) (hall : s.uninitialised = [])
    (hstopped : s'.stopped = s.stopped) : s'.Steady := by
  obtain ⟨text, hkeeps⟩ := NonBlockingLog.keeps_of_reachable h.completed
  obtain ⟨hrunning, hloop⟩ := NonBlockingLog.running_step hkeeps hpre hstop hexec
  have hnil : s'.uninitialised = [] := hmembers.trans hall
  refine ⟨?_, h.completed.step hpre hexec, fun hs' => ?_, ?_, ?_, fun _ => hnil⟩
  · rw [hmembers]
    exact h.members
  · rw [hstopped] at hs'
    obtain ⟨hrun, hleft⟩ := h.serves hs'
    exact ⟨hrunning.trans hrun, hloop hrun hleft⟩
  · rw [hnil]
    exact nofun
  · rw [hnil]
    exact nofun

theorem Steady.append (h : s.Steady) (hall : s.uninitialised = []) {msg : Bytes}
    {log : NonBlockingLog} (happ : s.log.append msg = some log) : Steady { s with log } := by
  obtain ⟨text, hkeeps⟩ := NonBlockingLog.keeps_of_reachable h.completed
  have hcompleted : s.completed.append msg = some (SingletonLog.completed { s with log }) := by
    rw [append_completed hall, happ]
    rfl
  have hdone : s.completed.thread ≠ .done := by
    intro hd
    rw [NonBlockingLog.append, hkeeps.nowBuffer_eq_none hd] at hcompleted
    cases hcompleted
  refine h.step (a := .append msg) (o := ()) hdone (by simp) ?_ rfl hall rfl
  simp only [nonBlockingLog, hcompleted, Option.map_some]

theorem Steady.stop (h : s.Steady) (hall : s.uninitialised = []) : s.stop.Steady where
  members := h.members
  completed := by
    have hstop : s.stop.completed = s.completed.stop := by
      simp [SingletonLog.stop, SingletonLog.completed, NonBlockingLog.stop, hall]
    rw [hstop]
    exact h.completed.next .stop trivial rfl
  serves hstopped := by cases hstopped
  absent hmem := h.absent hmem
  early hmem := by
    rw [SingletonLog.stop, hall] at hmem
    cases hmem
  inside _ := hall

theorem Steady.locals (h : s.Steady) (hstage : s.logThread = .created) : s.locals.Steady := by
  have hcompleted : s.locals.completed = s.completed := by
    simp only [SingletonLog.completed, hstage]
    rfl
  refine ⟨h.members, ?_, ?_, fun hmem => ?_, h.early, h.inside⟩
  · rw [hcompleted]
    exact h.completed
  · rw [hcompleted]
    exact h.serves
  · rw [h.absent hmem] at hstage
    cases hstage

/-- A test that is not early, or a later position: all members are initialised. -/
theorem Steady.thread (h : s.Steady) (hstage : s.logThread = .running) (hlate : s.Late .thread)
    (hdone : s.log.thread ≠ .done) {log : NonBlockingLog} (hstep : s.log.threadFunc = some log) :
    Steady { s with log } := by
  have hall : s.uninitialised = [] := by
    by_cases hloop : s.log.thread = .loop
    · exact uninitialised_eq_nil h.members (hlate ⟨hstage, hloop⟩)
    · exact h.inside hloop
  have heq := completed_running hall hstage
  have heq' : SingletonLog.completed { s with log } = log := completed_running hall hstage
  refine h.step (a := .thread) (o := ()) ?_ (by simp) ?_ rfl hall rfl
  · rw [heq]
    exact hdone
  · rw [heq, heq']
    simp only [nonBlockingLog, hstep, Option.map_some]

theorem steady_step : ((getNonBlockingLog openFile logFileName flushInterval).restrict
    Late).Preserves Steady := by
  intro s a s' o h hpre hexec
  obtain ⟨hpre, hlate⟩ := hpre
  cases a with
  | construct =>
    cases hexec
    exact h.construct hpre
  | append msg =>
    obtain ⟨log, happ, heq⟩ := Option.map_eq_some_iff.mp hexec
    cases heq
    exact h.append hpre happ
  | stop =>
    cases hexec
    exact h.stop hpre
  | thread =>
    obtain ⟨s₁, hstep, heq⟩ := Option.map_eq_some_iff.mp hexec
    cases heq
    rw [threadFunc] at hstep
    split at hstep
    · cases hstep
    · next hstage =>
      cases hstep
      exact h.locals hstage
    · next hstage =>
      split at hstep
      · cases hstep
      · obtain ⟨log, hlog, rfl⟩ := Option.map_eq_some_iff.mp hstep
        exact h.thread hstage hlate hpre.2 hlog

/-- A test of `running_` that comes too early ends the loop. -/
theorem leaves_of_early (h : s.Steady) {a : SingletonAction} (hearly : ¬ s.Late a) :
    ∃ s' o, (getNonBlockingLog openFile logFileName flushInterval).exec s a = some (s', o) ∧
      ¬ s'.Serves := by
  cases a with
  | construct | append | stop => exact absurd trivial hearly
  | thread =>
    obtain ⟨⟨hstage, hloop⟩, hmem⟩ := Classical.not_imp.mp hearly
    obtain ⟨hrunning, hstopped⟩ := h.early (not_not.mp hmem)
    have hstep : s.log.threadFunc = some { s.log with thread := .drain } := by
      simp [NonBlockingLog.threadFunc, hloop, hrunning]
    refine ⟨{ s with log := { s.log with thread := .drain } }, (), ?_, ?_⟩
    · simp [getNonBlockingLog, threadFunc, hstage, hloop, hstep]
    · exact fun hserves => (hserves hstopped).1 (.inl rfl)

/-- **When the log thread serves until `stop`.** In a run, the thread is in its loop and
`nowBuffer_` is there for every call of `append` until `stop`, if and only if the thread does not
test `running_` before the constructor has set it. -/
theorem serves_iff_late {actions : List SingletonAction}
    (hadm : (getNonBlockingLog openFile logFileName flushInterval).Admissible storage actions) :
    (∀ before s os, before <+: actions →
      (getNonBlockingLog openFile logFileName flushInterval).run storage before = some (s, os) →
        s.Serves) ↔
      ((getNonBlockingLog openFile logFileName flushInterval).restrict Late).Admissible storage
        actions :=
  Program.forall_states_iff steady_step (fun _ h => h.serve)
    (fun _ _ h _ hearly => leaves_of_early h hearly) storage_steady hadm

/-- The thread starts while the constructor runs, and comes to its test when it has returned. -/
theorem serves_late : ∃ s os,
    (getNonBlockingLog (fun _ => 3) (ascii "a.log") 1).run storage
      (.replicate 7 .construct ++ .thread :: .replicate 3 .construct ++
        [.append (ascii "a"), .thread, .thread, .thread, .append (ascii "b")]) = some (s, os) ∧
      s.stopped = false ∧ ¬ s.log.Left ∧ s.log.nowBuffer.isSome := by
  set log := getNonBlockingLog (fun _ => 3) (ascii "a.log") 1
  set actions : List SingletonAction :=
    .replicate 7 .construct ++ .thread :: .replicate 3 .construct ++
      [.append (ascii "a"), .thread, .thread, .thread, .append (ascii "b")]
  have hadm : log.Admissible storage actions := by decide
  have hlate : (log.restrict Late).Admissible storage actions := by decide
  obtain ⟨s, os, hrun, hstopped, hall⟩ : ∃ s os, log.run storage actions = some (s, os) ∧
      s.stopped = false ∧ s.uninitialised = [] := ⟨_, _, rfl, rfl, rfl⟩
  have hserves := (serves_iff_late hadm).mpr hlate actions s os (List.prefix_refl _) hrun hstopped
  exact ⟨s, os, hrun, hstopped, hserves.1, hserves.2 hall⟩

/-- The thread leaves its loop while `mtx_` is not initialised, and the first message is stored
through a null pointer. -/
theorem leaves_early : ∃ s : SingletonLog,
    (getNonBlockingLog (fun _ => 3) (ascii "a.log") 1).Reachable storage s ∧
      (getNonBlockingLog (fun _ => 3) (ascii "a.log") 1).pre s (.append (ascii "a")) ∧
      s.stopped = false ∧ s.log.thread = .done ∧ s.log.nowBuffer = none ∧
      (getNonBlockingLog (fun _ => 3) (ascii "a.log") 1).exec s (.append (ascii "a")) = none := by
  refine Program.Reachable.of_admissible
    (.replicate 6 .construct ++ .replicate 3 .thread ++ .replicate 4 .construct) (by decide) ?_
  exact ⟨_, rfl, rfl, rfl, rfl, rfl, rfl⟩

end SingletonLog
end Httpancake
