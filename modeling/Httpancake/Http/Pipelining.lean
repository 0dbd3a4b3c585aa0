import Httpancake.Http.Segmentation

/-! # Pipelined requests

Well-formed requests for files that can be served, all in one buffer: one call of `onMessage`
answers them as calls on the single requests would (`pipelining`). Nothing that the call reads of
one request is left when it comes to the next. -/

namespace Httpancake

open Bytes OnMessage

/-! ## Files that can be served -/

/-- A regular file that can be read. `mmap` fails on an empty one. -/
def FileOutcome.regular (content : Bytes) : FileOutcome where
  lstat := .found content.length
  opened := true
  mapped := if content = [] then none else some content

/-- The path leads to no file, or to a regular file that can be read. -/
def FileOutcome.Servable (file : FileOutcome) : Prop :=
  file.lstat = .noent ∨ ∃ content, file = .regular content

theorem readMapping_regular (content : Bytes) :
    readMapping (if content = [] then none else some content) content.length = some content := by
  cases content with
  | nil => rfl
  | cons c s => simp [readMapping, mapping]

theorem responseToGet_missing {file : FileOutcome} (h : file.lstat = .noent)
    (c : HttpTcpConnection) :
    responseToGet file c = some ({ c with processState := .processFailed }, notFoundResponse c) :=
  if_pos h

theorem responseToGet_regular (content : Bytes) (c : HttpTcpConnection) :
    responseToGet (.regular content) c =
      some ({ c with processState := .processSuccess },
        successResponse c content.length content) := by
  simp [responseToGet, FileOutcome.regular, readMapping_regular]

namespace GetRequest

/-- The path that is opened for a request. -/
def path (fileDir : Bytes) (r : GetRequest) : Bytes := cStr (fileDir ++ r.target)

/-- The bytes of a request. -/
def bytes (r : GetRequest) : Bytes := unlines r.lines

/-- The response to a request for a file that can be served. -/
def response (fileDir : Bytes) (files : Bytes → FileOutcome) (r : GetRequest) : Bytes :=
  ((responseToGet (files (r.path fileDir)) (r.answered fileDir)).map (·.2)).getD []

theorem responseToGet_answered {fileDir : Bytes} {files : Bytes → FileOutcome} {r : GetRequest}
    (h : (files (r.path fileDir)).Servable) :
    ∃ c, responseToGet (files (r.path fileDir)) (r.answered fileDir) =
      some (c, r.response fileDir files) := by
  rcases h with hmissing | ⟨content, hregular⟩
  · have hresp := responseToGet_missing hmissing (r.answered fileDir)
    exact ⟨_, by rw [response, hresp]; rfl⟩
  · have hresp := responseToGet_regular content (r.answered fileDir)
    rw [← hregular] at hresp
    exact ⟨_, by rw [response, hresp]; rfl⟩

end GetRequest

section
variable {fileDir connName : Bytes} {files : Bytes → FileOutcome} {rs : List GetRequest}

theorem respond_servable {r : GetRequest} (h : (files (r.path fileDir)).Servable) :
    respond ⟨fileDir, connName, fun _ => files⟩ r = ⟨[r.response fileDir files], false, none⟩ := by
  obtain ⟨c, hresp⟩ := GetRequest.responseToGet_answered h
  have hget : (r.answered fileDir).requestType = .getMethod := methodOf_requestLine r.target
  have hpath : (r.answered fileDir).filePath = r.path fileDir := rfl
  rw [respond, outcome_answer_get hget, hpath, hresp]
  rfl

theorem respondAll_servable (h : ∀ r ∈ rs, (files (r.path fileDir)).Servable) :
    respondAll ⟨fileDir, connName, fun _ => files⟩ rs =
      ⟨rs.map (·.response fileDir files), false, none⟩ := by
  induction rs with
  | nil => rfl
  | cons r rs ih =>
    obtain ⟨hr, hrs⟩ := List.forall_mem_cons.mp h
    rw [respondAll, respond_servable hr, ih hrs]
    rfl

/-! ## One call -/

theorem Cut.whole (rs : List GetRequest) :
    Cut rs (rs.flatMap GetRequest.lines) rs ⟨none, []⟩ := by
  induction rs with
  | nil => exact .nothing []
  | cons r rs ih => exact .request r _ ih

theorem flatMap_bytes (rs : List GetRequest) :
    rs.flatMap GetRequest.bytes = unlines (rs.flatMap GetRequest.lines) := by
  induction rs with
  | nil => rfl
  | cons r rs ih =>
    rw [List.flatMap_cons, List.flatMap_cons, unlines_append, ih]
    rfl

theorem flatMap_bytes_ne_nil (hrs : rs ≠ []) : rs.flatMap GetRequest.bytes ≠ [] := by
  obtain ⟨r, rs, rfl⟩ := List.exists_cons_of_ne_nil hrs
  exact List.append_ne_nil_of_left_ne_nil unlines_ne_nil _

theorem lines_flatMap_bytes (rs : List GetRequest) :
    lines (rs.flatMap GetRequest.bytes) = (rs.flatMap GetRequest.lines, []) := by
  rw [flatMap_bytes]
  apply lines_unlines
  intro l hl
  obtain ⟨r, -, hl⟩ := List.mem_flatMap.mp hl
  exact r.lf_not_mem_lines l hl

/-- The messages passed to `send`. -/
def sends (effects : List Effect) : List Bytes := effects.filterMap Effect.response?

/-- A call on a fresh connection that returns. -/
def Returns (env : Env) (b : Buffer) (effects : List Effect) (s : OnMessage) : Prop :=
  Steps env (start .fresh b 0) effects s ∧ s.pc = .returned

/-- A call on whole requests answers each of them, consumes them all and leaves the connection as
a fresh one. -/
theorem returns_requests {b : Buffer} (hrs : rs ≠ [])
    (hfiles : ∀ r ∈ rs, (files (r.path fileDir)).Servable)
    (hb : b.Holds (rs.flatMap GetRequest.bytes)) :
    ∃ es s, Returns ⟨fileDir, connName, fun _ => files⟩ b es s ∧ s.conn = .fresh ∧
      s.inBuffer.Holds [] ∧ .forceClose ∉ es ∧
      sends es = rs.map (·.response fileDir files) := by
  have hserve : outcome (serve ⟨fileDir, connName, fun _ => files⟩ 0 .request
      (rs.flatMap GetRequest.lines)) = ⟨rs.map (·.response fileDir files), false, none⟩ := by
    rw [(Cut.whole rs).serve fun _ => rfl, respondAll_servable hfiles]
  have hdoes := does_served ⟨fileDir, connName, fun _ => files⟩ 0 hb
  rw [served, if_neg (flatMap_bytes_ne_nil hrs), lines_flatMap_bytes] at hdoes
  generalize serve ⟨fileDir, connName, fun _ => files⟩ 0 .request (rs.flatMap GetRequest.lines) = r
    at hserve hdoes
  obtain ⟨es, res⟩ := r
  obtain ⟨hsends, hclosed, hfault⟩ := Outcome.mk.inj hserve
  cases res with
  | error f => cases hfault
  | ok k =>
    obtain ⟨b', hb', hsteps⟩ := hdoes
    exact ⟨es, after b' k, ⟨hsteps, after_final hb'⟩, rfl, hb', of_decide_eq_false hclosed, hsends⟩

end

/-- **Pipelining.** Calls on fresh connections, each with one of the requests, and one call with all
of them: the messages are the same in the same order, and the one call closes nothing, consumes
everything and leaves the connection as a fresh one. -/
theorem pipelining {fileDir connName : Bytes} {files : Bytes → FileOutcome} {rs : List GetRequest}
    {b : Buffer} (hrs : rs ≠ []) (hfiles : ∀ r ∈ rs, (files (r.path fileDir)).Servable)
    (hb : b.Holds (rs.flatMap GetRequest.bytes)) :
    ∃ es s, Returns ⟨fileDir, connName, fun _ => files⟩ b es s ∧ s.conn = .fresh ∧
      s.inBuffer.Holds [] ∧ .forceClose ∉ es ∧
      ∀ singles : List (Bytes × Buffer),
        List.Forall₂ (fun r single => single.2.Holds r.bytes) rs singles →
        ∃ ess, List.Forall₂ (fun single es => ∃ s,
            Returns ⟨fileDir, single.1, fun _ => files⟩ single.2 es s) singles ess ∧
          sends es = (ess.map sends).flatten := by
  obtain ⟨es, s, hcall, hfresh, hempty, hopen, hsends⟩ := @returns_requests fileDir connName files
    rs b hrs hfiles hb
  refine ⟨es, s, hcall, hfresh, hempty, hopen, fun singles hsingles => ?_⟩
  rw [hsends]
  clear hsends hcall hb hrs
  induction hsingles with
  | nil => exact ⟨[], .nil, rfl⟩
  | @cons r single rs singles hr _ ih =>
    obtain ⟨hfile, hfiles⟩ := List.forall_mem_cons.mp hfiles
    obtain ⟨ess, hess, hmap⟩ := ih hfiles
    obtain ⟨es₁, s₁, hcall₁, -, -, -, hsends₁⟩ := @returns_requests fileDir single.1 files [r]
      single.2 (List.cons_ne_nil r []) (by simpa using hfile) (by simpa using hr)
    refine ⟨es₁ :: ess, .cons ⟨s₁, hcall₁⟩ hess, ?_⟩
    rw [List.map_cons, List.map_cons, List.flatten_cons, hsends₁, hmap]
    rfl

/-- Two requests for the same missing file. -/
theorem pipelining_two_requests :
    ∃ es s, Returns ⟨ascii "/srv", ascii "c", noFiles⟩
        (arrived ([exampleRequest, exampleRequest].flatMap GetRequest.bytes)) es s ∧
      s.conn = .fresh ∧ s.inBuffer.Holds [] ∧ .forceClose ∉ es ∧
      ∀ singles : List (Bytes × Buffer),
        List.Forall₂ (fun r single => single.2.Holds r.bytes) [exampleRequest, exampleRequest]
          singles →
        ∃ ess, List.Forall₂ (fun single es => ∃ s,
            Returns ⟨ascii "/srv", single.1, noFiles⟩ single.2 es s) singles ess ∧
          sends es = (ess.map sends).flatten :=
  @pipelining _ _ (noFiles 0) _ _ (List.cons_ne_nil _ _) (fun _ _ => .inl rfl) (arrived_holds _)

end Httpancake
