import Httpancake.Http.Delimiting

/-! # Serving a file

`FileAccess` lets `lstat`, `open` and `mmap` fail independently of each other and of what the file
contains. `responseToGet` looks at `ENOENT` only, so it serves the file correctly, whatever the path
and the connection, exactly when the three agree (`serves_file_iff`). -/

namespace Httpancake

open Bytes

/-- What the system calls of `responseToGet` meet under a path. -/
structure FileAccess where
  lstat : Lstat
  opened : Bool
  /-- The content of the file that is opened. A directory has none. -/
  content : Option Bytes
  /-- `mmap` does not answer `MAP_FAILED`. -/
  mapped : Bool
  deriving DecidableEq, Repr

def FileAccess.outcome (file : FileAccess) : FileOutcome where
  lstat := file.lstat
  opened := file.opened
  mapped := if file.mapped then file.content else none

/-- `fstat.st_size`, which any failure leaves zero. -/
def Lstat.stSize : Lstat → Nat
  | .found stSize => stSize
  | _ => 0

/-- How many bytes the constructor of `successResponseMsg` reads at `fileMapAddr`. -/
def FileAccess.bytesRead (file : FileAccess) : Nat :=
  if file.lstat = .noent then 0 else file.lstat.stSize

/-- Every byte that is read lies in a mapping of the file and in front of its end. -/
def FileAccess.ReadsInBounds (file : FileAccess) : Prop :=
  ∀ i < file.bytesRead, file.opened ∧ file.mapped ∧ ∃ content ∈ file.content, i < content.length

/-- One response is sent, and if it says 200, then the file could be read, the body is its content
and the announced length is that of the content. -/
def FileAccess.Answers (file : FileAccess) (c : HttpTcpConnection) : Prop :=
  ∃ c' msg head body, responseToGet file.outcome c = some (c', msg) ∧
    readHead [] msg = some (head, body) ∧
    (statusCode head = some (ascii "200") →
      file.opened ∧ file.content = some body ∧ contentLength head = some body.length)

/-- There is no such path, or a file of the stated size is opened and, unless it is empty,
mapped. -/
def FileAccess.Consistent (file : FileAccess) : Prop :=
  file.lstat = .noent ∨
    file.opened ∧ ∃ content ∈ file.content,
      file.lstat.stSize = content.length ∧ (content = [] ∨ file.mapped)

variable {file : FileAccess} {c : HttpTcpConnection}

theorem responseToGet_of_ne_noent {file : FileOutcome} (h : file.lstat ≠ .noent)
    (c : HttpTcpConnection) :
    responseToGet file c =
      (readMapping (if file.opened then file.mapped else none) file.lstat.stSize).map fun msg =>
        ({ c with processState := .processSuccess },
          successResponse c file.lstat.stSize msg) := by
  rw [responseToGet, if_neg h]
  cases file.lstat <;> exact Option.map_eq_bind.symm

theorem readMapping_whole (content : Bytes) :
    readMapping (some content) content.length = some content := by
  have hregular := readMapping_regular content
  split_ifs at hregular with hempty
  · rw [hempty]
    rfl
  · exact hregular

theorem readHead_found (keepAlive : Bool) {mimeType : Bytes} (hmime : LF ∉ mimeType) (n : Nat)
    (body : Bytes) :
    readHead [] (unlines (foundHead keepAlive mimeType n) ++ LF :: body) =
      some (foundHead keepAlive mimeType n, body) :=
  readHead_unlines (foundHead_ok keepAlive hmime n) body

/-- A missing file. -/
theorem answers_of_noent (h : file.lstat = .noent) : file.ReadsInBounds ∧ file.Answers c := by
  refine ⟨fun i hi => ?_, ?_⟩
  · rw [FileAccess.bytesRead, if_pos h] at hi
    exact absurd hi (Nat.not_lt_zero i)
  · have hhead : readHead [] (notFoundResponse c) =
        some (notFoundHead c.httpVersion, notFoundMsg) := by
      rw [notFoundResponse_eq]
      exact readHead_unlines (notFoundHead_ok c.httpVersion) notFoundMsg
    refine ⟨_, _, _, _, responseToGet_missing h c, hhead, fun hstatus => ?_⟩
    rw [statusCode_notFoundHead] at hstatus
    exact absurd hstatus (by decide)

/-- What is sent says 200, so the file must have been what `lstat` said. -/
theorem consistent_of_answers (hmime : LF ∉ c.mimeType) (h : file.lstat ≠ .noent)
    (hreads : file.ReadsInBounds) (hanswers : file.Answers c) : file.Consistent := by
  obtain ⟨c', msg, head, body, hresp, hhead, hok⟩ := hanswers
  rw [responseToGet_of_ne_noent h] at hresp
  obtain ⟨text, htext, heq⟩ := Option.map_eq_some_iff.mp hresp
  obtain rfl := congrArg Prod.snd heq
  simp only [successResponse_eq, readHead_found _ hmime] at hhead
  cases hhead
  obtain ⟨hopened, hcontent, hlength⟩ := hok (statusCode_foundHead _ _ _)
  rw [contentLength_foundHead] at hlength
  have hsize : file.lstat.stSize = body.length := Option.some.inj hlength
  refine .inr ⟨hopened, body, hcontent, hsize, ?_⟩
  rcases Nat.eq_zero_or_pos body.length with hzero | hpos
  · exact .inl (List.length_eq_zero_iff.mp hzero)
  · rw [← hsize] at hpos
    exact .inr (hreads 0 (by rwa [FileAccess.bytesRead, if_neg h])).2.1

theorem answers_of_consistent (hmime : LF ∉ c.mimeType) (h : file.lstat ≠ .noent)
    (hfile : file.Consistent) : file.ReadsInBounds ∧ file.Answers c := by
  obtain ⟨hopened, content, hcontent, hsize, hmapped⟩ := hfile.resolve_left h
  have hresp : responseToGet file.outcome c =
      some ({ c with processState := .processSuccess },
        successResponse c content.length content) := by
    rw [responseToGet_of_ne_noent h]
    simp only [FileAccess.outcome, hopened, if_true, hsize]
    rcases hmapped with rfl | hmapped
    · rfl
    · rw [if_pos hmapped, show file.content = some content from hcontent, readMapping_whole]
      rfl
  constructor
  · intro i hi
    rw [FileAccess.bytesRead, if_neg h, hsize] at hi
    have hne : content ≠ [] := List.ne_nil_of_length_pos (Nat.zero_lt_of_lt hi)
    exact ⟨hopened, hmapped.resolve_left hne, content, hcontent, hi⟩
  · refine ⟨_, _, foundHead c.keepAlive c.mimeType content.length, content, hresp, ?_,
      fun _ => ⟨hopened, hcontent, contentLength_foundHead _ _ _⟩⟩
    rw [successResponse_eq]
    exact readHead_found _ hmime _ _

/-- **When a file is served correctly.** The content type of a request is always one that
`setMimeType` has set. -/
theorem serves_file_iff (file : FileAccess) (c : HttpTcpConnection) (suffix : Bytes) :
    file.ReadsInBounds ∧ file.Answers (c.setMimeType suffix) ↔ file.Consistent := by
  have hmime : LF ∉ (c.setMimeType suffix).mimeType := (mimeType_ok suffix).1
  by_cases h : file.lstat = .noent
  · exact iff_of_true (answers_of_noent h) (.inl h)
  · exact ⟨fun ⟨hreads, hanswers⟩ => consistent_of_answers hmime h hreads hanswers,
      answers_of_consistent hmime h⟩

/-- A directory that is opened, and a file that may neither be examined nor opened. -/
theorem serves_file_wrongly :
    ¬ FileAccess.Answers ⟨.found 4096, true, none, false⟩ (.setMimeType .fresh []) ∧
      ¬ FileAccess.Answers ⟨.failed, false, some (ascii "a"), false⟩ (.setMimeType .fresh []) := by
  constructor
  · rintro ⟨c', msg, head, body, hresp, -⟩
    cases hresp
  · rintro ⟨c', msg, head, body, hresp, hhead, hok⟩
    cases hresp
    cases hhead
    exact absurd (hok rfl).1 (by decide)

end Httpancake
