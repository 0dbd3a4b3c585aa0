import Httpancake.Logging.LogOrder
import Httpancake.Logging.Logger
import Httpancake.Logging.Spares

/-! # The lines of the log

Log statements of any number of threads follow their journal as long as their streams are not
overrun (`Logging.refines`). The log thread moves whole messages only, so at any time the file holds
whole lines, those of the statements that ended first (`log_lines`). -/

namespace Httpancake

open Bytes

/-! ## Messages stay whole -/

namespace NonBlockingLog

/-- The messages `msgs`, cut only between two of them: what is in the file, in the vector of the
log thread, in `buffers_` and in `nowBuffer_`. -/
structure Parts (s : NonBlockingLog) (file taken full now : List Bytes) : Prop where
  logFile : s.logFile = file.flatten
  writeBackBuffers : s.writeBackBuffers.flatMap textOf = taken.flatten
  buffers : s.buffers.flatMap textOf = full.flatten
  nowBuffer : textOf s.nowBuffer = now.flatten

def Whole (s : NonBlockingLog) (msgs : List Bytes) : Prop :=
  ∃ file taken full now, msgs = file ++ taken ++ full ++ now ∧ Parts s file taken full now

variable {s s' : NonBlockingLog} {msgs : List Bytes} {msg text : Bytes}

theorem Whole.prefix (h : Whole s msgs) : ∃ file, file <+: msgs ∧ s.logFile = file.flatten := by
  obtain ⟨file, taken, full, now, rfl, hparts⟩ := h
  refine ⟨file, ?_, hparts.logFile⟩
  rw [List.append_assoc, List.append_assoc]
  exact List.prefix_append file _

/-- The message goes into the current buffer, or into another one that is empty. -/
theorem append_parts (h : Sound s) (hdone : s.thread ≠ .done) (happ : s.append msg = some s') :
    (s' = { s with nowBuffer := s'.nowBuffer } ∧ textOf s'.nowBuffer = textOf s.nowBuffer ++ msg) ∨
      s' = { s with
        buffers := s.buffers ++ [s.nowBuffer], nowBuffer := s'.nowBuffer, nextBuffer := none } ∧
      textOf s'.nowBuffer = msg := by
  obtain ⟨hunwritten, -⟩ := append_unwritten h hdone happ
  obtain ⟨now, b, hnow, ⟨-, rfl⟩ | ⟨-, rfl⟩⟩ := append_cases happ
  · refine .inl ⟨rfl, ?_⟩
    simpa only [unwritten, hnow, List.append_assoc, List.append_cancel_left_eq] using hunwritten
  · refine .inr ⟨by rw [hnow], ?_⟩
    simpa only [unwritten, hnow, List.flatMap_append, List.flatMap_singleton, List.append_assoc,
      List.append_cancel_left_eq] using hunwritten

theorem Whole.append (h : Whole s msgs) (hs : Sound s) (hdone : s.thread ≠ .done)
    (happ : s.append msg = some s') : Whole s' (msgs ++ [msg]) := by
  obtain ⟨file, taken, full, now, rfl, hparts⟩ := h
  obtain ⟨heq, htext⟩ | ⟨heq, htext⟩ := append_parts hs hdone happ
  · refine ⟨file, taken, full, now ++ [msg], (List.append_assoc ..), ?_⟩
    rw [heq]
    refine { hparts with nowBuffer := ?_ }
    rw [List.flatten_append, ← hparts.nowBuffer, List.flatten_singleton]
    exact htext
  · refine ⟨file, taken, full ++ now, [msg], by simp only [List.append_assoc], ?_⟩
    rw [heq]
    refine { hparts with buffers := ?_, nowBuffer := ?_ }
    · simp only [List.flatMap_append, List.flatMap_singleton, List.flatten_append, hparts.buffers,
        hparts.nowBuffer]
    · rw [List.flatten_singleton]
      exact htext

theorem Whole.stop (h : Whole s msgs) : Whole s.stop msgs := by
  obtain ⟨file, taken, full, now, hmsgs, hparts⟩ := h
  exact ⟨file, taken, full, now, hmsgs, { hparts with }⟩

theorem Keeps.stop (h : Keeps s text) : Keeps s.stop text :=
  ⟨{ h.toSound with }, h.text_eq, h.written, h.unwritten_done⟩

theorem Whole.threadFunc (h : Whole s msgs) (hs : Keeps s text) (hdone : s.thread ≠ .done)
    (hstep : s.threadFunc = some s') : Whole s' msgs := by
  obtain ⟨file, taken, full, now, rfl, hparts⟩ := h
  rw [NonBlockingLog.threadFunc] at hstep
  cases hthread : s.thread with
  | loop =>
    rw [hthread] at hstep
    cases hstep
    exact ⟨file, taken, full, now, rfl, { hparts with }⟩
  | handOver =>
    rw [hthread] at hstep
    cases hstep
    have hwritten := hs.written (by simp [hthread])
    refine ⟨file, taken ++ full ++ now, [], [], by simp only [List.append_assoc, List.append_nil],
      hparts.logFile, ?_, hwritten, hs.newBuffer1.textOf_eq⟩
    have htaken : taken.flatten = [] := hparts.writeBackBuffers.symm.trans hwritten
    simp only [NonBlockingLog.handOver, List.flatMap_append, List.flatMap_singleton,
      List.flatten_append, htaken, hparts.buffers, hparts.nowBuffer, List.nil_append]
  | writeBack =>
    rw [hthread] at hstep
    obtain ⟨bs, text, p₁, bs₁, p₂, bs₂, hwrite, -, -, rfl⟩ := writeBack_cases hstep
    refine ⟨file ++ taken, [], full, now, by rw [List.append_nil], ?_, rfl, hparts.buffers,
      hparts.nowBuffer⟩
    rw [List.flatten_append, ← hparts.logFile, ← hparts.writeBackBuffers, (writeAll_text hwrite).1]
  | drain =>
    rw [hthread] at hstep
    have hwritten := hs.written (by simp [hthread])
    obtain ⟨⟨bs, text⟩, hwrite, rfl⟩ := Option.map_eq_some_iff.mp hstep
    obtain ⟨rfl, hempty⟩ := writeAll_text hwrite
    have htaken : taken.flatten = [] := hparts.writeBackBuffers.symm.trans hwritten
    refine ⟨file ++ taken ++ full ++ now, [], [], [], by simp only [List.append_nil], ?_, hempty,
      hwritten, rfl⟩
    simp only [List.flatMap_append, List.flatMap_singleton, List.flatten_append, htaken,
      List.nil_append, List.append_assoc, hparts.logFile, hparts.buffers, hparts.nowBuffer]
  | done => exact absurd hthread hdone

end NonBlockingLog

/-! ## The steps -/

namespace Logging

open NonBlockingLog

/-- The stream of a logger contains what its statement has inserted. -/
structure Writes (l : Logger) (st : Statement) : Prop where
  line : l.line = st.line
  basename : l.basename = st.basename
  stream : l.stream.Holds st.started

/-- The statements of the journal are under way, and the log has the messages of the others. -/
structure Follows (s : Logging) (j : Journal) : Prop where
  underway : ∀ id, Option.Rel Writes (s.loggers id) (j.underway id)
  keeps : Keeps s.log (j.ended.map Statement.text).flatten
  whole : Whole s.log (j.ended.map Statement.text)

/-- What is inserted by a step fits into its stream. -/
def Fitting (s : Logging) : LoggingAction → Prop
  | .construct _ _ _ time => Fits smallBufferSize 0 (Logger.formatTime time)
  | .insert id i => ∀ l ∈ s.loggers id, Fits smallBufferSize l.stream.available [i]
  | .destruct id => ∀ l ∈ s.loggers id,
    Fits smallBufferSize l.stream.available (Logger.place l.basename l.line ++ [.char LF])
  | .stop | .thread => True

variable {s : Logging} {j : Journal} {l : Logger} {st : Statement}

theorem init_follows : Follows init .init where
  underway _ := .none
  keeps := init_keeps
  whole := ⟨[], [], [], [], rfl, rfl, rfl, rfl, fresh_holds.text_eq⟩

theorem underway_update {f : Nat → Option Logger} {g : Nat → Option Statement}
    (h : ∀ id, Option.Rel Writes (f id) (g id)) (id : Nat) {l : Option Logger}
    {st : Option Statement} (hnew : Option.Rel Writes l st) (id' : Nat) :
    Option.Rel Writes (Function.update f id l id') (Function.update g id st id') := by
  by_cases hid : id' = id
  · subst hid
    rwa [Function.update_self, Function.update_self]
  · rw [Function.update_of_ne hid, Function.update_of_ne hid]
    exact h id'

theorem Follows.get (h : Follows s j) {id : Nat} (hsome : (s.loggers id).isSome) :
    ∃ l st, s.loggers id = some l ∧ j.underway id = some st ∧ Writes l st := by
  have hrel := h.underway id
  cases hl : s.loggers id with
  | none =>
    rw [hl] at hsome
    cases hsome
  | some l =>
    cases hst : j.underway id with
    | none =>
      rw [hl, hst] at hrel
      cases hrel
    | some st =>
      rw [hl, hst] at hrel
      cases hrel with
      | some hwrites => exact ⟨l, st, rfl, rfl, hwrites⟩

/-- What is inserted into a stream, by the length of its statement. -/
theorem Writes.fits_iff (h : Writes l st) {is : List Insertion} :
    Fits smallBufferSize l.stream.available is ↔ Fits smallBufferSize st.started.length is := by
  rw [h.stream.length_eq]

theorem construct_writes {time : Bytes} (fileName : Bytes) (line : Integer)
    (hfits : Fits smallBufferSize 0 (Logger.formatTime time)) :
    ∃ l, Logger.construct fileName line time = some l ∧ Writes l ⟨time, [], fileName, line⟩ := by
  have hfresh := FixBuffer.Holds.fresh (by decide : 0 < smallBufferSize)
  obtain ⟨stream, hinsert, hstream⟩ := insertAll_printed hfresh hfits
  exact ⟨⟨line, fileName, stream⟩, by rw [Logger.construct, hinsert]; rfl, rfl, rfl, hstream⟩

theorem Writes.insert (h : Writes l st) {i : Insertion}
    (hfits : Fits smallBufferSize l.stream.available [i]) :
    ∃ l', l.insert i = some l' ∧ Writes l' { st with items := st.items ++ [i] } := by
  obtain ⟨stream, hinsert, hstream⟩ := insert_printed h.stream (h.fits_iff.mp hfits)
  refine ⟨{ l with stream }, by rw [Logger.insert, hinsert]; rfl, h.line, h.basename, ?_⟩
  rw [Statement.started, ← List.append_assoc, List.foldl_append]
  exact hstream

theorem Writes.destruct (h : Writes l st)
    (hfits : Fits smallBufferSize l.stream.available
      (Logger.place l.basename l.line ++ [.char LF])) :
    l.destruct = some st.text ∧ st.text.length < smallBufferSize := by
  obtain ⟨stream, hinsert, hstream⟩ := insertAll_printed h.stream (h.fits_iff.mp hfits)
  rw [h.basename, h.line, st.text_eq] at hstream
  refine ⟨?_, ?_⟩
  · rw [Logger.destruct, hinsert, Option.map_some, hstream.getContent.1]
  · have hlen := hstream.length_eq ▸ hstream.available_lt
    exact hlen

/-- A step whose insertions fit does what the journal says. -/
theorem refines : (logging.restrict Fitting).Refinement (fun j a => (Journal.next j a, ()))
    Follows := by
  rintro s j a h ⟨hpre, hfits⟩
  cases a with
  | construct id fileName line time =>
    obtain ⟨l, hconstruct, hl⟩ := construct_writes fileName line hfits
    refine ⟨s.setLogger id (some l), ?_, underway_update h.underway id (.some hl), h.keeps, h.whole⟩
    simp only [Program.restrict, logging, construct, hconstruct, Option.map_some]
  | insert id i =>
    obtain ⟨l, st, hl, hst, hwrites⟩ := h.get hpre
    obtain ⟨l', hinsert, hl'⟩ := hwrites.insert (hfits l hl)
    refine ⟨s.setLogger id (some l'), ?_, ?_, h.keeps, h.whole⟩
    · simp only [Program.restrict, logging, insert, hl, Option.bind_some, hinsert, Option.map_some]
    · simp only [Journal.next, hst]
      exact underway_update h.underway id (.some hl')
  | destruct id =>
    obtain ⟨l, st, hl, hst, hwrites⟩ := h.get hpre.1
    obtain ⟨hdestruct, hlen⟩ := hwrites.destruct (hfits l hl)
    have hshort : st.text.length < largeBufferSize := hlen.trans (by decide)
    obtain ⟨log, happ, hlog, -⟩ := h.keeps.append hpre.2 hshort
    refine ⟨{ s.setLogger id none with log }, ?_, ?_, ?_, ?_⟩
    · simp only [Program.restrict, logging, destruct, hl, hdestruct, happ, Option.bind_some,
        Option.map_some]
    · exact underway_update h.underway id .none
    · simp only [Journal.next, hst, Option.toList_some, List.map_append, List.map_cons,
        List.map_nil, List.flatten_append, List.flatten_singleton]
      exact hlog
    · simp only [Journal.next, hst, Option.toList_some, List.map_append, List.map_cons,
        List.map_nil]
      exact h.whole.append h.keeps.toSound hpre.2 happ
  | stop =>
    exact ⟨{ s with log := s.log.stop }, rfl, h.underway, h.keeps.stop, h.whole.stop⟩
  | thread =>
    obtain ⟨log, hstep, hlog, -⟩ := h.keeps.threadFunc hpre
    refine ⟨{ s with log }, ?_, h.underway, hlog, h.whole.threadFunc h.keeps hpre hstep⟩
    simp only [Program.restrict, logging, hstep, Option.map_some]

/-- Statements that are short enough fit. -/
theorem Follows.fitting (h : Follows s j) {a : LoggingAction} (hpre : logging.pre s a)
    (hroom : (j.next a).Roomy) : Fitting s a := by
  cases a with
  | construct id fileName line time =>
    have hst : (Statement.mk time [] fileName line).Roomy :=
      hroom.underway id _ (Function.update_self ..)
    exact hst.fits [] (Logger.formatTime time) (Logger.place fileName line ++ [.char LF]) rfl
  | insert id i =>
    intro l hl
    obtain ⟨l', st, hl', hst, hwrites⟩ := h.get hpre
    cases hl.symm.trans hl'
    have hnew : Statement.Roomy { st with items := st.items ++ [i] } := by
      refine hroom.underway id _ ?_
      rw [Journal.next, hst]
      exact Function.update_self ..
    refine hwrites.fits_iff.mpr (hnew.fits (Logger.formatTime st.time ++ st.items) [i]
      (Logger.place st.basename st.line ++ [.char LF]) ?_)
    simp only [Statement.insertions, List.append_assoc]
  | destruct id =>
    intro l hl
    obtain ⟨l', st, hl', hst, hwrites⟩ := h.get hpre.1
    cases hl.symm.trans hl'
    have hst : st.Roomy := by
      refine hroom.ended st ?_
      rw [Journal.next, hst]
      exact List.mem_append_right _ List.mem_cons_self
    rw [hwrites.basename, hwrites.line]
    refine hwrites.fits_iff.mpr (hst.fits (Logger.formatTime st.time ++ st.items)
      (Logger.place st.basename st.line ++ [Insertion.char LF]) [] ?_)
    simp only [Statement.insertions, List.append_assoc, List.append_nil]
  | stop | thread => trivial

/-- Anything else is stored past the end of a stream. -/
theorem exec_isSome_iff (h : Follows s j) {a : LoggingAction} (hpre : logging.pre s a) :
    (logging.exec s a).isSome ↔ Fitting s a := by
  constructor
  · intro hsome
    by_contra hfits
    cases a with
    | construct id fileName line time =>
      have hnone := (insertAll_spec (FixBuffer.Holds.fresh (by decide)) _).2 hfits
      simp only [logging, construct, Logger.construct, hnone, Option.map_none] at hsome
      cases hsome
    | insert id i =>
      obtain ⟨l, st, hl, -, hwrites⟩ := h.get hpre
      have hbad : ¬ Fits smallBufferSize l.stream.available [i] := fun hok =>
        hfits fun l' hl' => Option.some.inj (hl.symm.trans hl') ▸ hok
      have hnone := insert_eq_none hwrites.stream (hwrites.fits_iff.not.mp hbad)
      simp only [logging, insert, hl, Option.bind_some, Logger.insert, hnone, Option.map_none]
        at hsome
      cases hsome
    | destruct id =>
      obtain ⟨l, st, hl, -, hwrites⟩ := h.get hpre.1
      have hbad : ¬ Fits smallBufferSize l.stream.available
          (Logger.place l.basename l.line ++ [.char LF]) := fun hok =>
        hfits fun l' hl' => Option.some.inj (hl.symm.trans hl') ▸ hok
      have hnone := (insertAll_spec hwrites.stream _).2 (hwrites.fits_iff.not.mp hbad)
      simp only [logging, destruct, hl, Option.bind_some, Logger.destruct, hnone, Option.map_none,
        Option.bind_none] at hsome
      cases hsome
    | stop | thread => exact hfits trivial
  · intro hfits
    obtain ⟨s', hexec, -⟩ := refines s j a h ⟨hpre, hfits⟩
    exact Option.isSome_iff_exists.mpr ⟨_, hexec⟩

/-! ## Runs -/

theorem preserves_follows : logging.Preserves fun s => ∃ j, Follows s j := by
  intro s a s' o ⟨j, h⟩ hpre hexec
  have hfits := (exec_isSome_iff h hpre).mp (by rw [hexec]; rfl)
  obtain ⟨s₁, hexec₁, h₁⟩ := refines s j a h ⟨hpre, hfits⟩
  cases hexec.symm.trans hexec₁
  exact ⟨_, h₁⟩

theorem succeeds_iff {actions : List LoggingAction} (hadm : logging.Admissible .init actions) :
    (logging.run .init actions).isSome ↔ (logging.restrict Fitting).Admissible .init actions :=
  Program.run_isSome_iff_restrict preserves_follows
    (fun _ _ ⟨_, h⟩ hpre => exec_isSome_iff h hpre) ⟨_, init_follows⟩ hadm

/-- What has been run is what the journal says. -/
theorem follows_of_run {actions : List LoggingAction} {os : List Unit}
    (hadm : logging.Admissible .init actions) (hrun : logging.run .init actions = some (s, os)) :
    Follows s (journal actions) := by
  have hfits := (succeeds_iff hadm).mp (by rw [hrun]; rfl)
  obtain ⟨s', hrun', hs'⟩ := Program.Refinement.run refines init_follows hfits
  rw [Program.run_restrict, hrun] at hrun'
  cases hrun'
  exact hs'

theorem fitting_of_roomy {actions : List LoggingAction} (h : Follows s j)
    (hadm : logging.Admissible s actions)
    (hroom : ∀ before, before <+: actions → (j.after before).Roomy) :
    (logging.restrict Fitting).Admissible s actions := by
  induction actions generalizing s j with
  | nil => trivial
  | cons a actions ih =>
    have hfits := h.fitting hadm.1 (hroom [a] (List.prefix_append [a] actions))
    obtain ⟨s', hexec, hs'⟩ := refines s j a h ⟨hadm.1, hfits⟩
    refine .cons ⟨hadm.1, hfits⟩ hexec (ih hs' (hadm.2 s' () hexec) fun before hbefore => ?_)
    exact hroom (a :: before) (List.cons_prefix_cons.mpr ⟨rfl, hbefore⟩)

/-- The log thread runs on, whatever statements are under way. -/
theorem run_thread {log : NonBlockingLog} {n : Nat} {os : List Unit}
    (hadm : nonBlockingLog.Admissible s.log (.replicate n .thread))
    (hrun : nonBlockingLog.run s.log (.replicate n .thread) = some (log, os)) :
    logging.Admissible s (.replicate n .thread) ∧
      logging.run s (.replicate n .thread) = some ({ s with log }, os) := by
  induction n generalizing s os with
  | zero =>
    cases hrun
    exact ⟨trivial, rfl⟩
  | succ n ih =>
    obtain ⟨log₁, o, os₁, hexec, hrest, rfl⟩ := Program.run_cons_inv hrun
    have hexec₁ : logging.exec s .thread = some ({ s with log := log₁ }, o) := by
      obtain ⟨_, hstep, heq⟩ := Option.map_eq_some_iff.mp hexec
      cases heq
      simp only [logging, hstep, Option.map_some]
    obtain ⟨hadm₁, hrun₁⟩ := @ih { s with log := log₁ } os₁ (hadm.2 log₁ o hexec) hrest
    exact ⟨.cons hadm.1 hexec₁ hadm₁, (Program.run_cons hexec₁).mpr ⟨os₁, hrun₁, rfl⟩⟩

/-- The file holds whole lines, those of the first statements that ended, and of all of them when
the thread has ended. -/
def Shows (s : Logging) (ended : List Statement) : Prop :=
  ∃ written, written <+: ended ∧ (s.log.thread = .done → written = ended) ∧
    s.log.logFile = written.flatMap Statement.text ∧
    ((∀ st ∈ written, st.OneLine) → lines s.log.logFile = (written.map Statement.record, []))

theorem Follows.shows (h : Follows s j) : Shows s j.ended := by
  have hread (written : List Statement) (hfile : s.log.logFile = written.flatMap Statement.text)
      (hone : ∀ st ∈ written, st.OneLine) :
      lines s.log.logFile = (written.map Statement.record, []) := by
    rw [hfile]
    exact Statement.lines_text hone
  by_cases hdone : s.log.thread = .done
  · have hfile := h.keeps.text_eq
    rw [h.keeps.unwritten_done hdone, List.append_nil, ← List.flatMap_def] at hfile
    exact ⟨j.ended, List.prefix_refl _, fun _ => rfl, hfile, hread _ hfile⟩
  · obtain ⟨msgs, ⟨rest, hmsgs⟩, hfile⟩ := h.whole.prefix
    obtain ⟨written, _, hended, rfl, -⟩ := List.map_eq_append_iff.mp hmsgs.symm
    rw [← List.flatMap_def] at hfile
    refine ⟨written, ?_, fun hd => absurd hd hdone, hfile, hread _ hfile⟩
    rw [hended]
    exact List.prefix_append written _

/-- `stop` ends the thread. -/
def Stops (s : Logging) : Prop :=
  ∃ n s' os, logging.Admissible s (.stop :: .replicate n .thread) ∧
    logging.run s (.stop :: .replicate n .thread) = some (s', os) ∧ s'.log.thread = .done

theorem Follows.stops (h : Follows s j) : Stops s := by
  obtain ⟨log, os, hadm, hrun, hdone⟩ := thread_ends h.keeps.stop rfl
  obtain ⟨hadm', hrun'⟩ := @run_thread { s with log := s.log.stop } log _ os hadm hrun
  exact ⟨_, _, _, .cons trivial rfl hadm', (Program.run_cons rfl).mpr ⟨os, hrun', rfl⟩, hdone⟩

/-- The end of a statement, and the end of the log after it. -/
theorem stopped_run {before : List LoggingAction} {os : List Unit} {id : Nat}
    (hadm : logging.Admissible .init before) (hrun : logging.run .init before = some (s, os))
    (hpre : logging.pre s (.destruct id)) (hroom : ((journal before).next (.destruct id)).Roomy) :
    ∃ n s' os', logging.Admissible .init (before ++ .destruct id :: .stop :: .replicate n .thread) ∧
      logging.run .init (before ++ .destruct id :: .stop :: .replicate n .thread) =
        some (s', os') ∧ s'.log.thread = .done := by
  have h := follows_of_run hadm hrun
  obtain ⟨s₁, hexec, h₁⟩ := refines s _ (.destruct id) h ⟨hpre, h.fitting hpre hroom⟩
  obtain ⟨n, s', os', hadm', hrun', hdone⟩ := h₁.stops
  have hexec : logging.exec s (.destruct id) = some (s₁, ()) := hexec
  refine ⟨n, s', os ++ () :: os', ?_, Program.run_append hrun ?_, hdone⟩
  · exact (Program.Admissible.append_iff hrun).mpr ⟨hadm, .cons hpre hexec hadm'⟩
  · exact (Program.run_cons hexec).mpr ⟨os', hrun', rfl⟩

end Logging

open Logging

/-- **Log lines.** A run fails exactly when an insertion does not fit into its stream, which short
statements do not do. After any other run the log file holds whole lines, the first ones in the
order in which the statements ended, and all of them when `stop` has ended the thread. -/
theorem log_lines {actions : List LoggingAction} (hadm : logging.Admissible .init actions) :
    ((logging.run .init actions).isSome ↔ (logging.restrict Fitting).Admissible .init actions) ∧
    ((∀ before, before <+: actions → (journal before).Roomy) →
      (logging.run .init actions).isSome) ∧
    ∀ s os, logging.run .init actions = some (s, os) →
      Shows s (journal actions).ended ∧ Stops s := by
  refine ⟨succeeds_iff hadm, fun hroom => ?_, fun s os hrun => ?_⟩
  · exact (succeeds_iff hadm).mpr (fitting_of_roomy init_follows hadm hroom)
  · have h := follows_of_run hadm hrun
    exact ⟨h.shows, h.stops⟩

def exampleStatement : Statement where
  time := ascii "now"
  items := [.cstr (ascii "hello")]
  basename := ascii "a.cpp"
  line := ⟨7, by decide, by decide⟩

theorem exampleStatement_line : decimal exampleStatement.line = ascii "7" := by
  rw [decimal_eq]
  rfl

theorem exampleStatement_full : exampleStatement.full = ascii "[now]hello -- a.cpp:7" := by
  have hfull : exampleStatement.full =
      ascii "[now]hello -- a.cpp:" ++ (decimal exampleStatement.line ++ []) := rfl
  rw [hfull, exampleStatement_line]
  rfl

theorem exampleStatement_roomy : exampleStatement.Roomy := by
  rw [Statement.Roomy, exampleStatement_full]
  decide

theorem exampleStatement_oneLine : exampleStatement.OneLine := ⟨by decide, by decide, by decide⟩

/-- The log thread takes the buffers while the statement is under way. -/
theorem log_lines_example : ∃ actions s os, logging.run .init actions = some (s, os) ∧
    s.log.thread = .done ∧ lines s.log.logFile = ([ascii "[now]hello -- a.cpp:7"], []) := by
  set before : List LoggingAction :=
    [.construct 0 exampleStatement.basename exampleStatement.line exampleStatement.time, .thread,
      .thread, .insert 0 (.cstr (ascii "hello"))]
  have hroom : ((journal before).next (.destruct 0)).Roomy :=
    .of_one (by simp [before, journal, Journal.after, Program.specRun, Journal.next,
      Journal.setStatement, Journal.init]) rfl exampleStatement_roomy
  obtain ⟨s₀, os₀, hrun₀, hpre⟩ : ∃ s os, logging.run .init before = some (s, os) ∧
      logging.pre s (.destruct 0) := ⟨_, _, rfl, by decide⟩
  have hadm₀ : logging.Admissible .init before := by decide
  obtain ⟨n, s, os, hadm, hrun, hdone⟩ := stopped_run hadm₀ hrun₀ hpre hroom
  obtain ⟨⟨written, -, hwritten, -, hlines⟩, -⟩ := (log_lines hadm).2.2 s os hrun
  have hended : (journal (before ++ .destruct 0 :: .stop :: .replicate n .thread)).ended =
      [exampleStatement] := congrArg Journal.ended (Journal.after_threads _ n)
  obtain rfl : written = [exampleStatement] := (hwritten hdone).trans hended
  refine ⟨_, s, os, hrun, hdone, (hlines ?_).trans ?_⟩
  · exact fun st hst => List.mem_singleton.mp hst ▸ exampleStatement_oneLine
  · rw [List.map_singleton, exampleStatement_roomy.record_eq, exampleStatement_full]

end Httpancake
