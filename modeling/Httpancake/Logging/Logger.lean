import Httpancake.Lib.Lines
import Httpancake.Logging.Integers
import Httpancake.Logging.NonBlockingLog
import Mathlib.Logic.Function.Basic

/-! # Log statements

`Logger` of `src/logging/Logger.cpp`: a `LOG` statement makes an object with a stream of its own,
inserts into it, and the destructor appends the line to the log. The statements of all threads are
under way at once; each construction, insertion and destruction is one action beside those of the
log thread. `journal` is what the same actions say without any buffer. -/

namespace Httpancake

open Bytes

deriving instance DecidableEq for Integer
deriving instance DecidableEq for Insertion

structure Logger where
  line : Integer
  basename : Bytes
  stream : SmallFixBuffer

namespace Logger

/-- What `formatTime` inserts; `time` is the text of `serializeTimePoint`. -/
def formatTime (time : Bytes) : List Insertion := [.char (byte '['), .string time, .char (byte ']')]

/-- The constructor. -/
def construct (fileName : Bytes) (line : Integer) (time : Bytes) : Option Logger :=
  (insertAll .fresh (formatTime time)).map fun stream => ⟨line, fileName, stream⟩

def insert (l : Logger) (i : Insertion) : Option Logger :=
  (Httpancake.insert l.stream i).map fun stream => { l with stream }

/-- What the destructor inserts before the line feed. -/
def place (basename : Bytes) (line : Integer) : List Insertion :=
  [.cstr (ascii " -- "), .string basename, .char COLON, .integer line]

/-- The destructor, with the message that it gives to `output`. -/
def destruct (l : Logger) : Option Bytes :=
  (insertAll l.stream (place l.basename l.line ++ [.char LF])).map fun stream =>
    stream.getContent.2

end Logger

/-- The statements under way, and the log that they share. -/
structure Logging where
  loggers : Nat → Option Logger
  log : NonBlockingLog

inductive LoggingAction where
  | construct (id : Nat) (fileName : Bytes) (line : Integer) (time : Bytes)
  | insert (id : Nat) (i : Insertion)
  | destruct (id : Nat)
  | stop
  | thread

namespace Logging

def init : Logging where
  loggers _ := none
  log := .init

def setLogger (s : Logging) (id : Nat) (l : Option Logger) : Logging :=
  { s with loggers := Function.update s.loggers id l }

def construct (s : Logging) (id : Nat) (fileName : Bytes) (line : Integer) (time : Bytes) :
    Option Logging :=
  (Logger.construct fileName line time).map fun l => s.setLogger id (some l)

def insert (s : Logging) (id : Nat) (i : Insertion) : Option Logging :=
  (s.loggers id).bind fun l => (l.insert i).map fun l => s.setLogger id (some l)

def destruct (s : Logging) (id : Nat) : Option Logging :=
  (s.loggers id).bind fun l => l.destruct.bind fun msg =>
    (s.log.append msg).map fun log => { s.setLogger id none with log }

end Logging

/-- Log statements of any threads beside the log thread. -/
def logging : Program Logging LoggingAction Unit where
  pre s
    | .construct id .. => s.loggers id = none
    | .insert id _ => (s.loggers id).isSome
    | .destruct id => (s.loggers id).isSome ∧ s.log.thread ≠ .done
    | .stop => True
    | .thread => s.log.thread ≠ .done
  exec s
    | .construct id fileName line time => (s.construct id fileName line time).map (·, ())
    | .insert id i => (s.insert id i).map (·, ())
    | .destruct id => (s.destruct id).map (·, ())
    | .stop => some ({ s with log := s.log.stop }, ())
    | .thread => s.log.threadFunc.map fun log => ({ s with log }, ())

instance : ∀ s a, Decidable (logging.pre s a)
  | s, .construct id .. => inferInstanceAs (Decidable (s.loggers id = none))
  | s, .insert id _ => inferInstanceAs (Decidable (s.loggers id).isSome)
  | s, .destruct id => inferInstanceAs (Decidable ((s.loggers id).isSome ∧ s.log.thread ≠ .done))
  | _, .stop => .isTrue trivial
  | s, .thread => inferInstanceAs (Decidable (s.log.thread ≠ .done))

/-! ## The statements themselves -/

/-- The text in a buffer of `SIZE` bytes after an insertion: an integer is left out where fewer
than `maxNumberSize` bytes are free. -/
def printed (SIZE : Nat) (t : Bytes) : Insertion → Bytes
  | .integer v => if t.length + maxNumberSize ≤ SIZE then t ++ decimal v else t
  | i => t ++ i.text

/-- A `LOG` statement. -/
structure Statement where
  time : Bytes
  items : List Insertion
  basename : Bytes
  line : Integer

namespace Statement

/-- What the stream of a statement that is under way contains. -/
def started (st : Statement) : Bytes :=
  (Logger.formatTime st.time ++ st.items).foldl (printed smallBufferSize) []

/-- The insertions before the line feed. -/
def insertions (st : Statement) : List Insertion :=
  Logger.formatTime st.time ++ st.items ++ Logger.place st.basename st.line

/-- The line in the log, without its line feed. -/
def record (st : Statement) : Bytes := st.insertions.foldl (printed smallBufferSize) []

/-- The message that is appended. -/
def text (st : Statement) : Bytes := st.record ++ [LF]

/-- The line, if nothing is left out. -/
def full (st : Statement) : Bytes := st.insertions.flatMap Insertion.text

/-- Short enough for the stream, with space for another integer. -/
def Roomy (st : Statement) : Prop := st.full.length + maxNumberSize < smallBufferSize

/-- No line feed is inserted. -/
structure OneLine (st : Statement) : Prop where
  time : LF ∉ st.time
  items : ∀ i ∈ st.items, LF ∉ i.text
  basename : LF ∉ st.basename

end Statement

/-- The statements under way, and those that have ended, in the order of their ends. -/
structure Journal where
  underway : Nat → Option Statement
  ended : List Statement

namespace Journal

def init : Journal where
  underway _ := none
  ended := []

def setStatement (j : Journal) (id : Nat) (st : Option Statement) : Journal :=
  { j with underway := Function.update j.underway id st }

def next (j : Journal) : LoggingAction → Journal
  | .construct id fileName line time => j.setStatement id (some ⟨time, [], fileName, line⟩)
  | .insert id i =>
    j.setStatement id ((j.underway id).map fun st => { st with items := st.items ++ [i] })
  | .destruct id => { j.setStatement id none with ended := j.ended ++ (j.underway id).toList }
  | .stop | .thread => j

structure Roomy (j : Journal) : Prop where
  underway : ∀ id, ∀ st ∈ j.underway id, st.Roomy
  ended : ∀ st ∈ j.ended, st.Roomy

end Journal

/-- What the actions say from `j` on, apart from any buffer. -/
def Journal.after (j : Journal) (actions : List LoggingAction) : Journal :=
  (Program.specRun (fun j a => (Journal.next j a, ())) j actions).1

def journal (actions : List LoggingAction) : Journal := Journal.init.after actions

/-- A single statement, which has ended. -/
theorem Journal.Roomy.of_one {j : Journal} {st : Statement} (hunderway : ∀ id, j.underway id = none)
    (hended : j.ended = [st]) (hst : st.Roomy) : j.Roomy where
  underway id st hmem := by
    rw [hunderway id] at hmem
    cases hmem
  ended st' hmem := by
    rw [hended] at hmem
    rwa [List.mem_singleton.mp hmem]

theorem Journal.after_threads (j : Journal) (n : Nat) : j.after (.replicate n .thread) = j := by
  induction n with
  | zero => rfl
  | succ n ih => exact ih

/-! ## A stream -/

theorem lf_not_mem_decimal (v : Integer) : LF ∉ decimal v := by
  rw [decimal_eq, List.mem_append, not_or]
  refine ⟨by split <;> decide, fun hmem => ?_⟩
  exact absurd (isDigit_toString LF hmem) (by decide)

section Streams

variable {SIZE : Nat} {b : FixBuffer SIZE} {t : Bytes} {i : Insertion} {is : List Insertion}

theorem printed_of_ne (hi : ∀ v, i ≠ .integer v) : printed SIZE t i = t ++ i.text := by
  cases i with
  | integer v => exact absurd rfl (hi v)
  | _ => rfl

theorem insert_printed (h : b.Holds t) (hfits : Fits SIZE t.length [i]) :
    ∃ b', insert b i = some b' ∧ b'.Holds (printed SIZE t i) := by
  by_cases hi : ∃ v, i = .integer v
  · obtain ⟨v, rfl⟩ := hi
    exact formatInteger_holds h v
  · have hi : ∀ v, i ≠ .integer v := fun v hv => hi ⟨v, hv⟩
    rw [insert_eq_append hi, printed_of_ne hi]
    exact h.append ((fits_cons hi).mp hfits).1

theorem fits_cons_printed : Fits SIZE t.length (i :: is) ↔
    Fits SIZE t.length [i] ∧ Fits SIZE (printed SIZE t i).length is := by
  by_cases hi : ∃ v, i = .integer v
  · obtain ⟨v, rfl⟩ := hi
    rw [printed, apply_ite List.length, List.length_append]
    exact (and_iff_right trivial).symm
  · have hi : ∀ v, i ≠ .integer v := fun v hv => hi ⟨v, hv⟩
    rw [fits_cons hi, fits_cons hi, printed_of_ne hi, List.length_append]
    exact and_congr_left' (and_iff_left trivial).symm

/-- Insertions that fit print one after the other. -/
theorem insertAll_printed (h : b.Holds t) (hfits : Fits SIZE t.length is) :
    ∃ b', insertAll b is = some b' ∧ b'.Holds (is.foldl (printed SIZE) t) := by
  induction is generalizing b t with
  | nil => exact ⟨b, rfl, h⟩
  | cons i is ih =>
    obtain ⟨hi, his⟩ := fits_cons_printed.mp hfits
    obtain ⟨b₁, hinsert, hb₁⟩ := insert_printed h hi
    obtain ⟨b', hrest, hb'⟩ := ih hb₁ his
    exact ⟨b', by rw [insertAll, hinsert]; exact hrest, hb'⟩

/-- With space for an integer to spare nothing is left out. -/
theorem printed_all (h : t.length + (is.flatMap Insertion.text).length + maxNumberSize ≤ SIZE) :
    Fits SIZE t.length is ∧ is.foldl (printed SIZE) t = t ++ is.flatMap Insertion.text := by
  induction is generalizing t with
  | nil => exact ⟨trivial, (List.append_nil t).symm⟩
  | cons i is ih =>
    rw [List.flatMap_cons, List.length_append] at h
    have hone : Fits SIZE t.length [i] ∧ printed SIZE t i = t ++ i.text := by
      by_cases hi : ∃ v, i = .integer v
      · obtain ⟨v, rfl⟩ := hi
        exact ⟨trivial, if_pos (by omega)⟩
      · have hi : ∀ v, i ≠ .integer v := fun v hv => hi ⟨v, hv⟩
        have hroom : 0 < maxNumberSize := by decide
        exact ⟨(fits_cons hi).mpr ⟨by omega, trivial⟩, printed_of_ne hi⟩
    have hlen : (t ++ i.text).length = t.length + i.text.length := List.length_append
    obtain ⟨hfits, htext⟩ := @ih (t ++ i.text) (by omega)
    rw [fits_cons_printed, hone.2, List.foldl_cons, hone.2, htext, List.flatMap_cons,
      List.append_assoc]
    exact ⟨⟨hone.1, hfits⟩, rfl⟩

theorem insert_eq_none (h : b.Holds t) (hfits : ¬ Fits SIZE t.length [i]) :
    insert b i = none := by
  have hnone := (insertAll_spec h [i]).2 hfits
  rw [insertAll] at hnone
  cases hinsert : insert b i with
  | none => rfl
  | some b' =>
    rw [hinsert] at hnone
    cases hnone

end Streams

namespace Statement

variable {st : Statement}

theorem logInsertions_eq (st : Statement) :
    logInsertions st.time st.items st.basename st.line = st.insertions ++ [.char LF] :=
  (List.append_assoc _ (Logger.place st.basename st.line) _).symm

theorem text_eq (st : Statement) :
    (Logger.place st.basename st.line ++ [Insertion.char LF]).foldl (printed smallBufferSize)
      st.started = st.text := by
  rw [text, record, insertions, List.foldl_append, List.foldl_append, started]
  rfl

theorem Roomy.fits (h : st.Roomy) (before now after : List Insertion)
    (hsplit : before ++ now ++ after = st.insertions ++ [.char LF]) :
    Fits smallBufferSize (before.foldl (printed smallBufferSize) []).length now := by
  have hlen := congrArg (fun is => (is.flatMap Insertion.text).length) hsplit
  simp only [List.flatMap_append, List.length_append] at hlen
  have hroom : st.full.length + maxNumberSize < smallBufferSize := h
  have hlf : ([Insertion.char LF].flatMap Insertion.text).length = 1 := rfl
  rw [← full, hlf] at hlen
  have hbefore := @printed_all smallBufferSize [] before (by rw [List.length_nil]; omega)
  rw [hbefore.2, List.nil_append]
  exact (printed_all (by omega)).1

theorem lf_not_mem_printed {is : List Insertion} {t : Bytes} (ht : LF ∉ t)
    (his : ∀ i ∈ is, LF ∉ i.text) : LF ∉ is.foldl (printed smallBufferSize) t := by
  induction is generalizing t with
  | nil => exact ht
  | cons i is ih =>
    obtain ⟨hi, his⟩ := List.forall_mem_cons.mp his
    have hboth : LF ∉ t ++ i.text := List.not_mem_append ht hi
    refine ih ?_ his
    cases i with
    | integer v =>
      rw [printed]
      split
      · exact hboth
      · exact ht
    | _ => exact hboth

theorem OneLine.record (h : st.OneLine) : LF ∉ st.record := by
  refine lf_not_mem_printed List.not_mem_nil ?_
  have hopening : ∀ i ∈ Logger.formatTime st.time, LF ∉ i.text := by
    simp only [Logger.formatTime, List.forall_mem_cons, Insertion.text]
    exact ⟨by decide, h.time, by decide, List.forall_mem_nil _⟩
  have hplace : ∀ i ∈ Logger.place st.basename st.line, LF ∉ i.text := by
    simp only [Logger.place, List.forall_mem_cons, Insertion.text]
    exact ⟨by decide, h.basename, by decide, lf_not_mem_decimal _, List.forall_mem_nil _⟩
  intro i hi
  rcases List.mem_append.mp hi with hi | hi
  · exact (List.mem_append.mp hi).elim (hopening i) (h.items i)
  · exact hplace i hi

/-- The lines are read back. -/
theorem lines_text {sts : List Statement} (h : ∀ st ∈ sts, st.OneLine) :
    lines (sts.flatMap text) = (sts.map record, []) := by
  have hunlines : sts.flatMap text = unlines (sts.map record) := by
    rw [unlines, List.flatMap_map]
    rfl
  rw [hunlines]
  refine lines_unlines fun l hl => ?_
  obtain ⟨st, hst, rfl⟩ := List.mem_map.mp hl
  exact (h st hst).record

theorem Roomy.record_eq (h : st.Roomy) : st.record = st.full :=
  (@printed_all smallBufferSize [] st.insertions (by
    have hroom : st.full.length + maxNumberSize < smallBufferSize := h
    rw [List.length_nil, ← full]
    omega)).2

end Statement

end Httpancake
