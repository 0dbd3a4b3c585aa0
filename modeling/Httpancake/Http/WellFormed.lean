import Httpancake.Http.Delivery

/-! # Well-formed requests

The grammar of a keep-alive `GET` request, line by line, and how `serve` reads each of its lines.
An answer depends on the request line alone as long as no header line asks to close. -/

namespace Httpancake

open Bytes OnMessage

/-- A header `name: value`. -/
structure Header where
  name : Bytes
  value : Bytes
  name_ok : COLON ∉ name ∧ CR ∉ name ∧ LF ∉ name
  value_ok : CR ∉ value ∧ LF ∉ value

/-- The value of the first header with this lower-case name. -/
def firstValue (name : Bytes) (hs : List Header) : Option Bytes :=
  (hs.find? fun h => h.name.map toLower == name).map (·.value)

/-- A `GET` request of version 1.1 that does not ask to close the connection. -/
structure GetRequest where
  target : Bytes
  headers : List Header
  dot : DOT ∈ target
  target_ok : SP ∉ target ∧ CR ∉ target ∧ LF ∉ target
  keepAlive : ∀ v ∈ firstValue (ascii "connection") headers,
    matchesIgnoreCase v (ascii "close") = false

/-- The header line, without its line feed. -/
def Header.line (h : Header) : Bytes := h.name ++ COLON :: SP :: h.value ++ [CR]

def requestLine (target : Bytes) : Bytes := ascii "GET " ++ target ++ ascii " HTTP/1.1\r"

/-- The empty line behind the headers. -/
def blankLine : Bytes := [CR]

def GetRequest.lines (r : GetRequest) : List Bytes :=
  requestLine r.target :: (r.headers.map Header.line ++ [blankLine])

/-! ## Header lines -/

namespace Header
variable {h : Header}

theorem chomp_line : chomp h.line = h.name ++ COLON :: SP :: h.value := by
  rw [chomp, line, if_pos List.getLast?_concat, List.dropLast_concat]

theorem line_ne_blankLine : h.line ≠ blankLine := by
  intro heq
  have := congrArg List.length heq
  simp [line, blankLine] at this
  omega

theorem endsHeaders_line : endsHeaders h.line = false := by
  cases hn : h.name with
  | nil => simp [endsHeaders, line, hn, COLON, CR]
  | cons c s =>
    have hc : CR ∉ c :: s := hn ▸ h.name_ok.2.1
    simp [endsHeaders, line, hn, Ne.symm (List.ne_of_not_mem_cons hc)]

theorem lf_not_mem_line : LF ∉ h.line := by
  have hname := h.name_ok.2.2
  have hvalue := h.value_ok.2
  simp only [line, List.mem_append, List.mem_cons, List.not_mem_nil, or_false, not_or]
  exact ⟨⟨hname, by decide, by decide, hvalue⟩, by decide⟩

end Header

/-- The map after reading some header lines. -/
def headerMap (m : HeaderMap) (hs : List Header) : HeaderMap :=
  hs.foldl (fun m h => m.insert (h.name.map toLower) (h.value.take npos)) m

theorem HeaderMap.lookup_insert (m : HeaderMap) (k key val : Bytes) :
    List.lookup k (m.insert key val) =
      (List.lookup k m).or (if key = k then some val else none) := by
  rw [HeaderMap.insert]
  split_ifs with hsome hk hk
  · subst hk
    obtain ⟨v, hv⟩ := Option.isSome_iff_exists.mp hsome
    rw [hv, Option.some_or]
  · rw [Option.or_none]
  · subst hk
    rw [Option.not_isSome_iff_eq_none.mp hsome, Option.none_or, List.lookup_cons_self]
  · rw [Option.or_none, List.lookup_cons, beq_false_of_ne (Ne.symm hk)]

theorem lookup_headerMap (m : HeaderMap) (key : Bytes) (hs : List Header) :
    (headerMap m hs).lookup key =
      (m.lookup key).or ((firstValue key hs).map (·.take npos)) := by
  induction hs generalizing m with
  | nil => simp [headerMap, firstValue]
  | cons h hs ih =>
    have hstep : headerMap m (h :: hs) =
        headerMap (m.insert (h.name.map toLower) (h.value.take npos)) hs := rfl
    rw [hstep, ih, HeaderMap.lookup_insert, Option.or_assoc]
    rcases eq_or_ne (h.name.map toLower) key with hkey | hkey
    · simp [firstValue, hkey]
    · simp [firstValue, hkey]

theorem Header.parseHeader_line (h : Header) (m : HeaderMap) :
    parseHeader (chomp h.line) m =
      some (m.insert (h.name.map toLower) (h.value.take npos)) := by
  rw [chomp_line]
  exact parseHeader_of_value h.name_ok.1

theorem serve_headers {env : Env} {k : Nat} {c : HttpTcpConnection} {m : HeaderMap}
    {hs : List Header} {ls : List Bytes} :
    serve env k (.header c m) (hs.map Header.line ++ ls) =
      serve env k (.header c (headerMap m hs)) ls := by
  induction hs generalizing m with
  | nil => rfl
  | cons h hs ih =>
    rw [List.map_cons, List.cons_append, serve, Header.endsHeaders_line, h.parseHeader_line]
    exact ih

/-! ## The request line -/

theorem methodOf_requestLine (target : Bytes) : methodOf (requestLine target) = .getMethod := by
  have hget : (find (ascii "GET") (requestLine target)).isSome := by
    refine find_isSome_iff.mpr ⟨[], ascii " " ++ target ++ ascii " HTTP/1.1\r", ?_⟩
    simp [requestLine, ascii]
  simp [methodOf, hget]

theorem versionOf_requestLine (target : Bytes) :
    versionOf (requestLine target) = some .http1_1 := by
  have h : find (ascii "HTTP/1.1") (requestLine target) ≠ some 0 := by
    rw [Ne, find_eq_zero_iff]
    simp [requestLine, ascii]
  rw [versionOf, if_pos h]

theorem requestTarget_requestLine {target : Bytes} (h : SP ∉ target) :
    requestTarget (requestLine target) = some target := by
  have hline : requestLine target = ascii "GET" ++ SP :: (target ++ SP :: ascii "HTTP/1.1\r") := by
    simp [requestLine, ascii, SP]
  have hget : SP ∉ ascii "GET" := by decide
  have hm : methodOf (requestLine target) ≠ .nullMethod := by simp [methodOf_requestLine]
  rw [requestTarget, if_neg hm, hline, cut_append_cons hget, Option.bind_some,
    cut_append_cons h]
  rfl

theorem endsBody_requestLine (target : Bytes) : endsBody (requestLine target) := by
  refine endsBody_iff.mpr (.inr ⟨ascii "GET " ++ target ++ ascii " ", ascii "1.1\r", ?_⟩)
  simp [requestLine, ascii]

theorem requestLine_ne_blankLine (target : Bytes) : requestLine target ≠ blankLine := by
  simp [requestLine, blankLine, ascii]

theorem lf_not_mem_requestLine {target : Bytes} (h : LF ∉ target) : LF ∉ requestLine target := by
  simp only [requestLine, List.mem_append, not_or]
  exact ⟨⟨by decide, h⟩, by decide⟩

theorem GetRequest.lf_not_mem_lines (r : GetRequest) : ∀ l ∈ r.lines, LF ∉ l := by
  intro l hl
  simp only [lines, List.mem_cons, List.mem_append, List.mem_map, List.not_mem_nil,
    or_false] at hl
  rcases hl with rfl | ⟨h, -, rfl⟩ | rfl
  · exact lf_not_mem_requestLine r.target_ok.2.2
  · exact h.lf_not_mem_line
  · decide

theorem requestTarget_blankLine : requestTarget blankLine = none := by decide

/-! ## Answers -/

/-- A request of version 1.1 stays alive unless a header asks to close. -/
theorem setKeepAlive_of_http1_1 {c : HttpTcpConnection} {hs : List Header}
    (hc : c.httpVersion = .http1_1)
    (halive : ∀ v ∈ firstValue (ascii "connection") hs,
      matchesIgnoreCase v (ascii "close") = false) :
    setKeepAlive c (headerMap [] hs) = { c with keepAlive := true } := by
  have hlookup := lookup_headerMap [] (ascii "connection") hs
  simp only [List.lookup_nil, Option.none_or] at hlookup
  simp only [setKeepAlive, hc, if_true, hlookup]
  cases hv : firstValue (ascii "connection") hs with
  | none => rfl
  | some v =>
    have hclose : matchesIgnoreCase (v.take npos) (ascii "close") = false := by
      rw [matchesIgnoreCase_take (by decide)]
      exact halive v hv
    simp only [Option.map_some, hclose, Bool.not_false]

/-- The connection that answers a request. -/
def GetRequest.answered (fileDir : Bytes) (r : GetRequest) : HttpTcpConnection :=
  { openRequest fileDir (requestLine r.target) r.target with
    keepAlive := true
    processState := .responsing }

theorem firstValue_of_prefix {name v : Bytes} {hs hs' : List Header}
    (hv : v ∈ firstValue name hs) : v ∈ firstValue name (hs ++ hs') := by
  obtain ⟨h, hh, rfl⟩ := Option.map_eq_some_iff.mp hv
  exact Option.map_eq_some_iff.mpr ⟨h, by rw [List.find?_append, hh]; rfl, rfl⟩

/-- Some of its header lines are enough to answer a request. -/
theorem complete_openRequest {fileDir : Bytes} {r : GetRequest} {hs hs' : List Header}
    (h : r.headers = hs ++ hs') :
    complete (openRequest fileDir (requestLine r.target) r.target) (headerMap [] hs) =
      r.answered fileDir := by
  have hversion : (openRequest fileDir (requestLine r.target) r.target).httpVersion = .http1_1 := by
    simp [openRequest, parsedRequest, versionOf_requestLine]
  rw [complete, setKeepAlive_of_http1_1 hversion fun v hv =>
    r.keepAlive v (h ▸ firstValue_of_prefix hv)]
  rfl

section
variable {env : Env} {k : Nat} {c : HttpTcpConnection}

theorem serve_requestLine (r : GetRequest) (ls : List Bytes) :
    serve env k .request (requestLine r.target :: ls) =
      serve env k (.header (openRequest env.fileDir (requestLine r.target) r.target) []) ls := by
  rw [serve_request_of_some (requestTarget_requestLine r.target_ok.1),
    if_pos (List.mem_append_right _ r.dot)]

/-- A whole request is answered, and then the lines behind it are served. -/
theorem serve_lines (r : GetRequest) {ls : List Bytes} (hend : endsBody (ls.headD [])) :
    serve env k .request (r.lines ++ ls) =
      (answer env k (r.answered env.fileDir)).andThen fun k' => serve env k' .request ls := by
  have hlines : r.lines ++ ls =
      requestLine r.target :: (r.headers.map Header.line ++ blankLine :: ls) := by
    simp [GetRequest.lines]
  have hblank : endsHeaders blankLine := rfl
  rw [hlines, serve_requestLine, serve_headers, serve, if_pos hblank, if_pos hend,
    complete_openRequest (List.append_nil _).symm]

/-- An answer with fixed files does not depend on the calls before. -/
theorem outcome_answer (hfs : ∀ k, env.fs k = env.fs 0) :
    outcome (answer env k c) = outcome (answer env 0 c) := by
  simp only [answer, hfs k]
  split
  · split <;> rfl
  · rfl

theorem responseToGet_keepAlive {file : FileOutcome} {c c' : HttpTcpConnection} {msg : Bytes}
    (h : responseToGet file c = some (c', msg)) : c'.keepAlive = c.keepAlive := by
  unfold responseToGet at h
  split at h
  · cases h
    rfl
  · obtain ⟨content, -, h⟩ := Option.bind_eq_some_iff.mp h
    cases h
    rfl

theorem forceClose_mem_finishEffects {c : HttpTcpConnection} :
    .forceClose ∈ finishEffects env c ↔ c.keepAlive = false := by
  have hlog : .forceClose ∉ outcomeLog env c := by
    unfold outcomeLog
    split_ifs <;> simp
  cases hc : c.keepAlive <;> simp [finishEffects, hlog, hc]

theorem responses_finishEffects {c : HttpTcpConnection} :
    (finishEffects env c).filterMap Effect.response? = [] := by
  unfold finishEffects outcomeLog
  split_ifs <;> rfl

/-- The answer to a `GET` request. -/
theorem outcome_answer_get (hc : c.requestType = .getMethod) :
    outcome (answer env k c) =
      match responseToGet (env.fs k c.filePath) c with
      | none => ⟨[], false, some .badRead⟩
      | some (_, msg) => ⟨[msg], !c.keepAlive, none⟩ := by
  rw [answer, if_pos hc]
  cases hresp : responseToGet (env.fs k c.filePath) c with
  | none => rfl
  | some resp =>
    obtain ⟨c', msg⟩ := resp
    have hkeep := responseToGet_keepAlive hresp
    simp [outcome, Effect.response?, responses_finishEffects, forceClose_mem_finishEffects, hkeep]

/-- Every other request gets no answer. -/
theorem outcome_answer_of_ne_get (hc : c.requestType ≠ .getMethod) :
    outcome (answer env k c) = ⟨[], !c.keepAlive, none⟩ := by
  simp [answer, hc, outcome, responses_finishEffects, forceClose_mem_finishEffects]

end

end Httpancake
