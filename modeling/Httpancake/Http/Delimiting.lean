import Httpancake.Http.Pipelining

/-! # Reading the responses back

A client reads a head up to the empty line and then as many bytes as its `Content-Length` says
(`readReply`), again and again (`Reads`). It finds the responses it was sent as long as every path
leads to a file: the response for a missing one announces more bytes than it has. -/

namespace Httpancake

open Bytes OnMessage

/-! ## The client -/

/-- The lines up to the first empty one, and the bytes behind it; `line` has been read already. -/
def readHead (line : Bytes) : Bytes → Option (List Bytes × Bytes)
  | [] => none
  | c :: s =>
    if c = LF then
      if line = [] then some ([], s) else (readHead [] s).map fun p => (line :: p.1, p.2)
    else readHead (line ++ [c]) s

def isDigit (c : UInt8) : Bool := 48 ≤ c && c ≤ 57

def parseDecimal (s : Bytes) : Option Nat :=
  if s ≠ [] ∧ s.all isDigit then some (s.foldl (fun n c => 10 * n + (c.toNat - 48)) 0) else none

/-- The number behind `Content-Length: `. -/
def contentLengthLine (l : Bytes) : Option Nat :=
  if ascii "Content-Length: " <+: l then parseDecimal (l.drop (ascii "Content-Length: ").length)
  else none

def contentLength (head : List Bytes) : Option Nat := head.findSome? contentLengthLine

/-- The status code of the first line. -/
def statusCode (head : List Bytes) : Option Bytes := do
  let l ← head.head?
  let p ← cut SP l
  let p ← cut SP p.2
  return p.1

structure Reply where
  status : Bytes
  body : Bytes
  deriving DecidableEq, Repr

def readReply (s : Bytes) : Option (Reply × Bytes) := do
  let (head, rest) ← readHead [] s
  let status ← statusCode head
  let n ← contentLength head
  guard (n ≤ rest.length)
  return (⟨status, rest.take n⟩, rest.drop n)

/-- The client reads these replies, and nothing is left. -/
inductive Reads : Bytes → List Reply → Prop
  | nil : Reads [] []
  | cons {s rest reply replies} (h : readReply s = some (reply, rest)) (h' : Reads rest replies) :
    Reads s (reply :: replies)

/-- The message has a head, and announces the length of what is behind it. -/
def Delimited (msg : Bytes) : Prop :=
  ∃ head body, readHead [] msg = some (head, body) ∧ contentLength head = some body.length

/-! ## Heads -/

theorem readHead_line {line l : Bytes} (hl : LF ∉ l) (s : Bytes) :
    readHead line (l ++ LF :: s) =
      if line ++ l = [] then some ([], s)
      else (readHead [] s).map fun p => ((line ++ l) :: p.1, p.2) := by
  induction l generalizing line with
  | nil => simp [readHead]
  | cons c l ih =>
    obtain ⟨hc, hl⟩ : LF ≠ c ∧ LF ∉ l := by simpa using hl
    rw [List.cons_append, readHead, if_neg (Ne.symm hc), ih hl, List.append_assoc]
    rfl

/-- Lines that are not empty, and an empty one behind them. -/
theorem readHead_unlines {ls : List Bytes} (hls : ∀ l ∈ ls, LF ∉ l ∧ l ≠ []) (s : Bytes) :
    readHead [] (unlines ls ++ LF :: s) = some (ls, s) := by
  induction ls with
  | nil => rfl
  | cons l ls ih =>
    obtain ⟨⟨hl, hne⟩, hls⟩ := List.forall_mem_cons.mp hls
    rw [unlines_cons, List.append_assoc, List.cons_append, readHead_line hl, List.nil_append,
      if_neg hne, ih hls]
    rfl

/-- What a client makes of a head and the bytes behind it. -/
theorem readReply_unlines {ls : List Bytes} {status : Bytes} {n : Nat}
    (hls : ∀ l ∈ ls, LF ∉ l ∧ l ≠ []) (hstatus : statusCode ls = some status)
    (hlength : contentLength ls = some n) (s : Bytes) :
    readReply (unlines ls ++ LF :: s) =
      if n ≤ s.length then some (⟨status, s.take n⟩, s.drop n) else none := by
  rw [readReply, readHead_unlines hls]
  simp only [Option.bind_eq_bind, Option.bind_some, hstatus, hlength, guard]
  split_ifs <;> rfl

/-! ## Decimal numbers -/

theorem ascii_toString (n : Nat) :
    ascii (toString n) = (Nat.toDigits 10 n).map fun c => c.toNat.toUInt8 := by
  simp [ascii]

theorem toNat_of_isDigit {c : Char} (h : c.isDigit) : c.toNat.toUInt8.toNat = c.toNat := by
  have hc : c.toNat ≤ 57 := by
    simp only [Char.isDigit, Bool.and_eq_true, decide_eq_true_eq] at h
    exact h.2
  simp only [Nat.toUInt8, UInt8.toNat_ofNat']
  omega

theorem isDigit_of_isDigit {c : Char} (h : c.isDigit) : isDigit c.toNat.toUInt8 := by
  have hc := toNat_of_isDigit h
  simp only [Char.isDigit, Bool.and_eq_true, decide_eq_true_eq] at h
  have h₁ : 48 ≤ c.toNat := h.1
  have h₂ : c.toNat ≤ 57 := h.2
  simp only [isDigit, Bool.and_eq_true, decide_eq_true_eq, UInt8.le_iff_toNat_le, hc]
  exact ⟨h₁, h₂⟩

theorem parseDecimal_toString (n : Nat) : parseDecimal (ascii (toString n)) = some n := by
  have hdigits : ∀ c ∈ Nat.toDigits 10 n, c.isDigit := fun c hc =>
    Nat.isDigit_of_mem_toDigits (by decide) (by decide) hc
  have hne : (Nat.toDigits 10 n).map (fun c => c.toNat.toUInt8) ≠ [] := by
    simp [Nat.toDigits_ne_nil]
  have hall : ((Nat.toDigits 10 n).map fun c => c.toNat.toUInt8).all isDigit := by
    simp only [List.all_map, List.all_eq_true, Function.comp_apply]
    exact fun c hc => isDigit_of_isDigit (hdigits c hc)
  rw [ascii_toString, parseDecimal, if_pos ⟨hne, hall⟩, List.foldl_map, Option.some.injEq]
  calc (Nat.toDigits 10 n).foldl (fun n c => 10 * n + (c.toNat.toUInt8.toNat - 48)) 0
      = (Nat.toDigits 10 n).foldl (fun n c => 10 * n + (c.toNat - 48)) 0 := by
        apply List.foldl_ext
        intro m c hc
        rw [toNat_of_isDigit (hdigits c hc)]
    _ = Nat.ofDigitChars 10 (Nat.toDigits 10 n) 0 := Nat.ofDigitChars_eq_foldl.symm
    _ = n := Nat.ofDigitChars_toDigits (by decide) (by decide)

/-! ## The two responses -/

/-- A path leads to a regular file with this content, or to no file. -/
def FileOutcome.ofContent : Option Bytes → FileOutcome
  | none => ⟨.noent, false, none⟩
  | some content => .regular content

theorem FileOutcome.servable_ofContent (content : Option Bytes) : (ofContent content).Servable := by
  cases content with
  | none => exact .inl rfl
  | some content => exact .inr ⟨content, rfl⟩

def notFoundMsg : Bytes := ascii "<html>\nNo such file.\n</html>\n"

/-- The reply that a response is meant to be. -/
def replyOf : Option Bytes → Reply
  | none => ⟨ascii "404", notFoundMsg⟩
  | some content => ⟨ascii "200", content⟩

theorem mimeType_ok (ms : Bytes) :
    LF ∉ (mimeTypes.lookup ms).getD defaultMimeType ∧
      (mimeTypes.lookup ms).getD defaultMimeType ≠ [] := by
  have hall : ∀ p ∈ mimeTypes, LF ∉ p.2 ∧ p.2 ≠ [] := by decide
  cases h : mimeTypes.lookup ms with
  | none => exact ⟨by decide, by decide⟩
  | some v =>
    have hmem : (ms, v) ∈ mimeTypes := by
      obtain ⟨l, l', heq, -⟩ := List.lookup_eq_some_iff.mp h
      rw [heq]
      exact List.mem_append_right l List.mem_cons_self
    exact hall _ hmem

/-- The lines of the head of a successful response that is kept alive. -/
def successHead (mimeType : Bytes) (fileSz : Nat) : List Bytes :=
  [ascii "HTTP/1.0 200 OK", ascii "Content-type: " ++ mimeType,
    ascii "Content-Length: " ++ ascii (toString fileSz), ascii "Connection: keep-alive"]

/-- The line that says whether the connection is kept. -/
def connectionLine : Bool → Bytes
  | true => ascii "Connection: keep-alive"
  | false => ascii "Connection: close"

/-- The lines of the head of any successful response. -/
def foundHead (keepAlive : Bool) (mimeType : Bytes) (fileSz : Nat) : List Bytes :=
  [ascii "HTTP/1.0 200 OK", ascii "Content-type: " ++ mimeType,
    ascii "Content-Length: " ++ ascii (toString fileSz), connectionLine keepAlive]

def notFoundHead (version : HttpVersion) : List Bytes :=
  [versionName version ++ ascii " 404 Not Found", ascii "Content-type: text/html",
    ascii "Content-Length: 44"]

theorem foundHead_keepAlive (mimeType : Bytes) (fileSz : Nat) :
    foundHead true mimeType fileSz = successHead mimeType fileSz := rfl

theorem successResponse_eq (c : HttpTcpConnection) (fileSz : Nat) (msg : Bytes) :
    successResponse c fileSz msg =
      unlines (foundHead c.keepAlive c.mimeType fileSz) ++ LF :: msg := by
  cases hc : c.keepAlive <;>
    simp [successResponse, foundHead, connectionLine, hc, ascii, LF]

theorem notFoundResponse_eq (c : HttpTcpConnection) :
    notFoundResponse c = unlines (notFoundHead c.httpVersion) ++ LF :: notFoundMsg := by
  simp [notFoundResponse, notFoundHead, notFoundMsg, ascii, LF]

theorem lf_not_mem_toString (n : Nat) : LF ∉ ascii (toString n) := by
  rw [ascii_toString]
  intro h
  obtain ⟨c, hc, heq⟩ := List.mem_map.mp h
  have hd := isDigit_of_isDigit (Nat.isDigit_of_mem_toDigits (by decide) (by decide) hc)
  rw [heq] at hd
  exact absurd hd (by decide)

theorem foundHead_ok (keepAlive : Bool) {mimeType : Bytes} (hmime : LF ∉ mimeType)
    (fileSz : Nat) : ∀ l ∈ foundHead keepAlive mimeType fileSz, LF ∉ l ∧ l ≠ [] := by
  have hsz := lf_not_mem_toString fileSz
  intro l hl
  simp only [foundHead, List.mem_cons, List.not_mem_nil, or_false] at hl
  rcases hl with rfl | rfl | rfl | rfl
  · decide
  · exact ⟨by simpa [ascii, LF] using hmime, by simp [ascii]⟩
  · exact ⟨by simpa [ascii, LF] using hsz, by simp [ascii]⟩
  · cases keepAlive <;> decide

theorem notFoundHead_ok (version : HttpVersion) :
    ∀ l ∈ notFoundHead version, LF ∉ l ∧ l ≠ [] := by
  cases version <;> decide

theorem contentLength_foundHead (keepAlive : Bool) (mimeType : Bytes) (fileSz : Nat) :
    contentLength (foundHead keepAlive mimeType fileSz) = some fileSz := by
  have hstatus : contentLengthLine (ascii "HTTP/1.0 200 OK") = none := by decide
  have htype : contentLengthLine (ascii "Content-type: " ++ mimeType) = none := by
    simp [contentLengthLine, ascii]
  have hlength : contentLengthLine (ascii "Content-Length: " ++ ascii (toString fileSz)) =
      some fileSz := by
    rw [contentLengthLine, if_pos (List.prefix_append _ _), List.drop_left, parseDecimal_toString]
  rw [contentLength, foundHead, List.findSome?_cons, hstatus, List.findSome?_cons, htype,
    List.findSome?_cons, hlength]

theorem contentLength_notFoundHead (version : HttpVersion) :
    contentLength (notFoundHead version) = some 44 := by
  cases version <;> decide

theorem statusCode_foundHead (keepAlive : Bool) (mimeType : Bytes) (fileSz : Nat) :
    statusCode (foundHead keepAlive mimeType fileSz) = some (ascii "200") := by
  rfl

theorem statusCode_notFoundHead (version : HttpVersion) :
    statusCode (notFoundHead version) = some (ascii "404") := by
  cases version <;> rfl

/-! ## All responses -/

section
variable {fileDir : Bytes} {contents : Bytes → Option Bytes} {r : GetRequest}

theorem response_found {content : Bytes} (h : contents (r.path fileDir) = some content) :
    r.response fileDir (fun path => .ofContent (contents path)) =
      unlines (successHead (r.answered fileDir).mimeType content.length) ++ LF :: content := by
  rw [GetRequest.response, h, FileOutcome.ofContent, responseToGet_regular, ← foundHead_keepAlive]
  exact successResponse_eq _ content.length content

theorem response_missing (h : contents (r.path fileDir) = none) :
    r.response fileDir (fun path => .ofContent (contents path)) =
      unlines (notFoundHead (r.answered fileDir).httpVersion) ++ LF :: notFoundMsg := by
  rw [GetRequest.response, h, FileOutcome.ofContent, responseToGet_missing rfl]
  exact notFoundResponse_eq _

theorem successHead_answered_ok (r : GetRequest) (fileDir : Bytes) (n : Nat) :
    ∀ l ∈ successHead (r.answered fileDir).mimeType n, LF ∉ l ∧ l ≠ [] :=
  foundHead_ok true (mimeType_ok _).1 n

/-- A response with a file is read back, whatever comes behind it. -/
theorem readReply_found {content : Bytes} (h : contents (r.path fileDir) = some content)
    (s : Bytes) :
    readReply (r.response fileDir (fun path => .ofContent (contents path)) ++ s) =
      some (replyOf (contents (r.path fileDir)), s) := by
  rw [response_found h, List.append_assoc, List.cons_append,
    readReply_unlines (successHead_answered_ok r fileDir _) (statusCode_foundHead true _ _)
      (contentLength_foundHead true _ _)]
  simp [replyOf, h]

/-- A response without a file is not: the reply that is read has a longer body. -/
theorem readReply_missing (h : contents (r.path fileDir) = none) (s s' : Bytes) :
    readReply (r.response fileDir (fun path => .ofContent (contents path)) ++ s) ≠
      some (replyOf (contents (r.path fileDir)), s') := by
  rw [response_missing h, List.append_assoc, List.cons_append,
    readReply_unlines (notFoundHead_ok _) (statusCode_notFoundHead _)
      (contentLength_notFoundHead _)]
  split_ifs with hlen
  · intro heq
    have hbody := congrArg (fun p => p.map fun q => q.1.body.length) heq
    simp only [Option.map_some, h, replyOf, List.length_take, Nat.min_eq_left hlen,
      Option.some.injEq] at hbody
    exact absurd hbody (by decide)
  · exact (Option.some_ne_none _).symm

theorem delimited_found {content : Bytes} (h : contents (r.path fileDir) = some content) :
    Delimited (r.response fileDir fun path => .ofContent (contents path)) := by
  rw [response_found h]
  exact ⟨_, content, readHead_unlines (successHead_answered_ok r fileDir _) content,
    contentLength_foundHead true _ _⟩

theorem reads_cons_iff {s : Bytes} {reply : Reply} {replies : List Reply} :
    Reads s (reply :: replies) ↔ ∃ rest, readReply s = some (reply, rest) ∧ Reads rest replies := by
  constructor
  · intro h
    cases h with
    | cons h h' => exact ⟨_, h, h'⟩
  · exact fun ⟨_, h, h'⟩ => .cons h h'

/-- The client reads what was meant exactly when every path leads to a file. -/
theorem reads_iff (rs : List GetRequest) :
    Reads (rs.map (·.response fileDir fun path => .ofContent (contents path))).flatten
        (rs.map fun r => replyOf (contents (r.path fileDir))) ↔
      ∀ r ∈ rs, contents (r.path fileDir) ≠ none := by
  induction rs with
  | nil => exact iff_of_true .nil nofun
  | cons r rs ih =>
    rw [List.map_cons, List.map_cons, List.flatten_cons, List.forall_mem_cons, ← ih,
      reads_cons_iff]
    cases h : contents (r.path fileDir) with
    | none =>
      refine iff_of_false ?_ fun hne => hne.1 rfl
      intro ⟨rest, hreply, _⟩
      exact readReply_missing h _ rest (by rw [hreply, h])
    | some content =>
      have hfound := readReply_found h
        (rs.map (·.response fileDir fun path => .ofContent (contents path))).flatten
      rw [h] at hfound
      constructor
      · intro ⟨rest, hreply, hrest⟩
        rw [hfound] at hreply
        cases hreply
        exact ⟨nofun, hrest⟩
      · exact fun hne => ⟨_, hfound, hne.2⟩

/-! ## Any number of calls -/

theorem getLast?_flatMap_lines {rs : List GetRequest} (hrs : rs ≠ []) :
    (rs.flatMap GetRequest.lines).getLast? = some blankLine := by
  obtain ⟨rs, r, rfl⟩ := (List.eq_nil_or_concat rs).resolve_left hrs
  have hlines : r.lines = (requestLine r.target :: r.headers.map Header.line) ++ [blankLine] :=
    rfl
  rw [List.concat_eq_append, List.flatMap_append, List.flatMap_singleton, hlines,
    ← List.append_assoc, List.getLast?_concat]

/-- Chunks of whole requests are cut harmlessly. -/
theorem cutsOk_groups (fileDir : Bytes) {groups : List (List GetRequest)}
    (hne : ∀ rs ∈ groups, rs ≠ []) :
    CutsOk fileDir false (groups.map fun rs => rs.flatMap GetRequest.bytes) := by
  induction groups with
  | nil => trivial
  | cons rs groups ih =>
    obtain ⟨hrs, hne⟩ := List.forall_mem_cons.mp hne
    have hlines := lines_flatMap_bytes rs
    have hlast := lines_rest_eq_nil_iff.mp (congrArg Prod.snd hlines)
    have hend : ((lines (rs.flatMap GetRequest.bytes)).1.getLast? ≠ some blankLine) = False := by
      rw [hlines, getLast?_flatMap_lines hrs]
      simp
    refine ⟨hlast.resolve_left (flatMap_bytes_ne_nil hrs), nofun, ?_⟩
    simp only [hend, decide_false]
    exact ih hne

theorem flatten_groups (groups : List (List GetRequest)) :
    (groups.map fun rs => rs.flatMap GetRequest.bytes).flatten =
      groups.flatten.flatMap GetRequest.bytes := by
  induction groups with
  | nil => rfl
  | cons rs groups ih => simp [ih]

/-- Calls on whole requests answer them all. -/
theorem ends_groups (fileDir connName : Bytes) (contents : Bytes → Option Bytes)
    {groups : List (List GetRequest)} (hne : ∀ rs ∈ groups, rs ≠ []) :
    Delivery.Ends ⟨fileDir, connName, fun _ path => .ofContent (contents path)⟩
      (groups.map fun rs => rs.flatMap GetRequest.bytes)
      ⟨groups.flatten.map (·.response fileDir fun path => .ofContent (contents path)),
        false, none⟩ := by
  have hchunks : ∀ chunk ∈ groups.map (fun rs => rs.flatMap GetRequest.bytes), chunk ≠ [] := by
    intro chunk hchunk
    obtain ⟨rs, hrs, rfl⟩ := List.mem_map.mp hchunk
    exact flatMap_bytes_ne_nil (hne rs hrs)
  let rest : Rest := ⟨none, groups.flatten⟩
  have hcut : unlines rest.lines =
      (groups.map fun rs => rs.flatMap GetRequest.bytes).flatten := by
    rw [flatten_groups, flatMap_bytes]
    rfl
  have hdeliver := @deliver_of_cutsOk
    ⟨fileDir, connName, fun _ path => .ofContent (contents path)⟩ (fun _ => rfl) _ hchunks rest
    hcut (cutsOk_groups fileDir hne) 0
  apply (Delivery.ends_iff hchunks).mpr
  rw [hdeliver]
  exact congrArg some (respondAll_servable fun r _ => FileOutcome.servable_ofContent _)

end

/-- **Self-delimiting responses.** Whole requests, in any number of calls on one connection, and any
assignment of their paths to files: every response announces the length of its body and a client
recovers the replies in order, exactly when every path leads to a file. -/
theorem responses_delimited_iff (fileDir connName : Bytes) (contents : Bytes → Option Bytes)
    {groups : List (List GetRequest)} (hne : ∀ rs ∈ groups, rs ≠ []) :
    ∃ o, Delivery.Ends ⟨fileDir, connName, fun _ path => .ofContent (contents path)⟩
        (groups.map fun rs => rs.flatMap GetRequest.bytes) o ∧
      ((∀ msg ∈ o.responses, Delimited msg) ∧
          Reads o.responses.flatten
            (groups.flatten.map fun r => replyOf (contents (r.path fileDir))) ↔
        ∀ r ∈ groups.flatten, contents (r.path fileDir) ≠ none) := by
  refine ⟨_, ends_groups fileDir connName contents hne, ?_⟩
  rw [reads_iff, and_iff_right_iff_imp]
  intro hfound msg hmsg
  obtain ⟨r, hr, rfl⟩ := List.mem_map.mp hmsg
  obtain ⟨content, hcontent⟩ := Option.ne_none_iff_exists'.mp (hfound r hr)
  exact delimited_found hcontent

/-- Two calls, and a file at the path. -/
theorem responses_delimited_iff_two_calls :
    ∃ o, Delivery.Ends
        ⟨ascii "/srv", ascii "c", fun _ _ => .ofContent (some (ascii "int x;"))⟩
        ([[exampleRequest], [exampleRequest]].map fun rs => rs.flatMap GetRequest.bytes) o ∧
      ((∀ msg ∈ o.responses, Delimited msg) ∧
          Reads o.responses.flatten
            ([[exampleRequest], [exampleRequest]].flatten.map fun _ =>
              replyOf (some (ascii "int x;"))) ↔
        ∀ _ ∈ [[exampleRequest], [exampleRequest]].flatten, some (ascii "int x;") ≠ none) :=
  responses_delimited_iff (ascii "/srv") (ascii "c") (fun _ => some (ascii "int x;"))
    (by simp)

/-- The response for a missing file announces 44 bytes and has 29: the client never gets them. -/
theorem responses_not_delimited :
    ∃ o, Delivery.Ends ⟨ascii "/srv", ascii "c", fun _ _ => .ofContent none⟩
        [[exampleRequest].flatMap GetRequest.bytes] o ∧
      (¬ ∀ msg ∈ o.responses, Delimited msg) ∧
      ¬ Reads o.responses.flatten ([exampleRequest].map fun _ => replyOf none) := by
  refine ⟨_, @ends_groups (ascii "/srv") (ascii "c") (fun _ => none) [[exampleRequest]] (by simp),
    ?_, ?_⟩
  · intro h
    obtain ⟨head, body, hread, hlen⟩ := h _ List.mem_cons_self
    have hmissing := @response_missing (ascii "/srv") (fun _ => none) exampleRequest rfl
    simp only [hmissing, readHead_unlines (notFoundHead_ok _)] at hread
    cases hread
    rw [contentLength_notFoundHead] at hlen
    exact absurd hlen (by decide)
  · intro h
    exact (@reads_iff (ascii "/srv") (fun _ => none) [exampleRequest]).mp h _
      List.mem_cons_self rfl

end Httpancake
