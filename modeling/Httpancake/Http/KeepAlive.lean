import Httpancake.Http.Faults
import Httpancake.Http.RequestLine
import Httpancake.Http.WellFormed

/-! # Keep-alive and the version of a request

The request-line and header phases of `onMessage` on any request of version 1.0 or 1.1: how far they
get, and what they leave in the connection (`first_headers`). They take nearly every request for one
of version 1.1, so the decision to keep the connection follows the version that the request names
exactly as `keep_alive_negotiated_iff` says. A request without a method that the server knows is
rejected before its version is looked at (`first_rejected`), and counts as one of version 1.0. -/

namespace Httpancake

open Bytes OnMessage

/-- A request up to its body, whose lines all end in `eol` and a line feed. -/
structure RequestHead where
  method : Bytes
  target : Bytes
  version : HttpVersion
  headers : List Header
  eol : Bytes
  method_ok : SP ∉ method ∧ LF ∉ method
  target_ok : SP ∉ target ∧ LF ∉ target
  eol_ok : eol = [] ∨ eol = [CR]

namespace RequestHead

def firstLine (r : RequestHead) : Bytes :=
  r.method ++ SP :: (r.target ++ SP :: (versionName r.version ++ r.eol))

/-- The header line without its end. -/
def headerText (h : Header) : Bytes := h.name ++ COLON :: SP :: h.value

def lines (r : RequestHead) : List Bytes :=
  r.firstLine :: (r.headers.map (headerText · ++ r.eol) ++ [r.eol])

/-- The decision that the version asks for. -/
def StaysAlive (version : HttpVersion) (hs : List Header) : Prop :=
  match version with
  | .http1_1 =>
    ∀ v ∈ firstValue (ascii "connection") hs, matchesIgnoreCase v (ascii "close") = false
  | .http1_0 =>
    ∃ v ∈ firstValue (ascii "connection") hs, matchesIgnoreCase v (ascii "keep-alive")

end RequestHead

/-- Both phases are done. -/
def AtBody (s : OnMessage) : Prop := s.pc = .parseBody

/-- The call comes past the header phase of its first request, with the version that the request
names and the decision that this version asks for. -/
def Negotiates (env : Env) (b : Buffer) (k : Nat) (r : RequestHead) : Prop :=
  ∃ s, (machine env).First AtBody (start .fresh b k) s ∧ s.conn.httpVersion = r.version ∧
    (s.conn.keepAlive ↔ RequestHead.StaysAlive r.version r.headers)

/-- The server knows the method that it finds in the line. -/
def RequestHead.NamesMethod (r : RequestHead) : Prop :=
  ascii "GET" <:+: r.firstLine ∨ ascii "POST" <:+: r.firstLine

variable {env : Env} {b : Buffer} {k : Nat} {q : Bytes} {r : RequestHead} {hs : List Header}

/-! ## The version -/

theorem prefix_append_cons_iff {w a s : Bytes} {c : UInt8} (hc : c ∉ w) :
    w <+: a ++ c :: s ↔ w <+: a := by
  refine ⟨fun h => ?_, fun h => h.trans (List.prefix_append a _)⟩
  rcases Nat.le_total w.length a.length with hle | hle
  · exact List.prefix_of_prefix_length_le h (List.prefix_append a _) hle
  · obtain ⟨u, rfl⟩ := List.prefix_of_prefix_length_le (List.prefix_append a _) h hle
    cases u with
    | nil => simp
    | cons d u =>
      obtain rfl := (List.cons_prefix_cons.mp ((List.prefix_append_right_inj a).mp h)).1
      simp at hc

/-- Only a line that begins with a version is not taken for version 1.1. -/
theorem versionOf_firstLine :
    (versionOf r.firstLine).getD .http1_0 = r.version ↔
      (r.version = .http1_1 ↔ ¬ ascii "HTTP/1.1" <+: r.method) := by
  have hstart : find (ascii "HTTP/1.1") r.firstLine = some 0 ↔ ascii "HTTP/1.1" <+: r.method := by
    rw [find_eq_zero_iff, RequestHead.firstLine, prefix_append_cons_iff (by decide)]
  obtain ⟨v, hv⟩ := Option.isSome_iff_exists.mp (versionOf_isSome r.firstLine)
  rw [hv, Option.getD_some]
  rw [versionOf] at hv
  split_ifs at hv with h11 h10
  all_goals
    rw [← hstart, ← Option.some.inj hv]
    cases r.version <;> simp [h11]

/-! ## Header lines -/

namespace RequestHead

theorem chomp_headerLine (h : Header) (heol : r.eol = [] ∨ r.eol = [CR]) :
    chomp (headerText h ++ r.eol) = headerText h := by
  rcases heol with heol | heol
  · have hlast : (headerText h).getLast? ≠ some CR := by
      intro hlast
      have hmem : CR ∈ COLON :: SP :: h.value := by
        rw [headerText, List.getLast?_append_cons] at hlast
        exact List.mem_of_getLast? hlast
      simp [COLON, SP, CR] at hmem
      exact h.value_ok.1 hmem
    rw [heol, List.append_nil, chomp, if_neg hlast]
  · rw [heol, chomp, if_pos List.getLast?_concat, List.dropLast_concat]

theorem endsHeaders_headerLine (h : Header) : endsHeaders (headerText h ++ r.eol) = false := by
  cases hn : h.name with
  | nil => simp [endsHeaders, headerText, hn, COLON, CR]
  | cons c s =>
    have hc : CR ∉ c :: s := hn ▸ h.name_ok.2.1
    simp [endsHeaders, headerText, hn, Ne.symm (List.ne_of_not_mem_cons hc)]

theorem lf_not_mem_eol : LF ∉ r.eol := by
  rcases r.eol_ok with heol | heol <;> rw [heol] <;> decide

theorem lf_not_mem_headerLine (h : Header) : LF ∉ headerText h ++ r.eol := by
  simp only [headerText, List.mem_append, List.mem_cons, not_or]
  exact ⟨⟨h.name_ok.2.2, by decide, by decide, h.value_ok.2⟩, lf_not_mem_eol⟩

end RequestHead

/-! ## The two phases -/

theorem atBody_start : ¬ AtBody (start .fresh b k) := nofun

theorem not_atBody_headerLoop {c : HttpTcpConnection} {m : HeaderMap} :
    ¬ AtBody ⟨.headerLoop m, c, b, k⟩ := by
  intro h
  cases h

/-- The header phase, from any of its lines on. -/
theorem first_headers {c : HttpTcpConnection} {m : HeaderMap}
    (hb : b.Holds (unlines (hs.map (RequestHead.headerText · ++ r.eol) ++ [r.eol]) ++ q)) :
    ∃ b', (machine env).First AtBody ⟨.headerLoop m, c, b, k⟩
      ⟨.parseBody, { setKeepAlive c (headerMap m hs) with processState := .parseBody }, b', k⟩ := by
  induction hs generalizing b m with
  | nil =>
    have hend : endsHeaders r.eol = true := by
      rcases r.eol_ok with heol | heol <;> rw [heol] <;> decide
    simp only [List.map_nil, List.nil_append, unlines_cons, unlines_nil, List.append_assoc,
      List.cons_append] at hb
    obtain ⟨b', hline, -⟩ := hb.retrieveLineAsString_some RequestHead.lf_not_mem_eol
    have hstep : step env ⟨.headerLoop m, c, b, k⟩ =
        (⟨.parseBody, { setKeepAlive c m with processState := .parseBody }, b', k⟩, []) := by
      simp [step, headerLoop, hline, hend]
    exact ⟨b', .of_step hstep not_atBody_headerLoop (.here rfl)⟩
  | cons h hs ih =>
    simp only [List.map_cons, List.cons_append, unlines_cons, List.append_assoc] at hb
    rw [← List.append_assoc] at hb
    obtain ⟨b₁, hline, hb₁⟩ := hb.retrieveLineAsString_some (RequestHead.lf_not_mem_headerLine h)
    have hparse : parseHeader (RequestHead.headerText h) m =
        some (m.insert (h.name.map toLower) (h.value.take npos)) := parseHeader_of_value h.name_ok.1
    have hstep : step env ⟨.headerLoop m, c, b, k⟩ =
        (⟨.headerLoop (m.insert (h.name.map toLower) (h.value.take npos)), c, b₁, k⟩, []) := by
      simp [step, headerLoop, hline, RequestHead.endsHeaders_headerLine,
        RequestHead.chomp_headerLine h r.eol_ok, hparse]
    obtain ⟨b', hfirst⟩ := ih hb₁
    exact ⟨b', .of_step hstep not_atBody_headerLoop hfirst⟩

theorem requestTarget_firstLine : requestTarget r.firstLine =
    if methodOf r.firstLine = .nullMethod then none else some r.target := by
  rw [requestTarget]
  split_ifs
  · rfl
  · rw [RequestHead.firstLine, cut_append_cons r.method_ok.1, Option.bind_some,
      cut_append_cons r.target_ok.1]
    rfl

theorem lf_not_mem_firstLine : LF ∉ r.firstLine := by
  have hversion : LF ∉ versionName r.version := by cases r.version <;> decide
  have hsp : LF ≠ SP := by decide
  simp [RequestHead.firstLine, r.method_ok.2, r.target_ok.2, hversion, hsp,
    RequestHead.lf_not_mem_eol]

/-- A request with a method and a dot in its path gets through both phases. -/
theorem first_body (hb : b.Holds (unlines r.lines ++ q)) (hm : methodOf r.firstLine ≠ .nullMethod)
    (hdot : DOT ∈ env.fileDir ++ r.target) :
    ∃ b', (machine env).First AtBody (start .fresh b k)
      ⟨.parseBody, { setKeepAlive (openRequest env.fileDir r.firstLine r.target)
        (headerMap [] r.headers) with processState := .parseBody }, b', k⟩ := by
  simp only [RequestHead.lines, unlines_cons, List.append_assoc, List.cons_append] at hb
  obtain ⟨b₁, hb₁, hstep⟩ := @step_start env _ _ b k hb lf_not_mem_firstLine
  have htarget : requestTarget r.firstLine = some r.target := by
    rw [requestTarget_firstLine, if_neg hm]
  have hparse := @parseUrlLine_of_some env _ _ htarget
  rw [if_pos hdot] at hparse
  have hopen : step env (start .fresh b k) =
      (⟨.parseHeaders, openRequest env.fileDir r.firstLine r.target, b₁, k⟩, []) := by
    rw [hstep, hparse]
    rfl
  have hloop : step env ⟨.parseHeaders, openRequest env.fileDir r.firstLine r.target, b₁, k⟩ =
      (⟨.headerLoop [], openRequest env.fileDir r.firstLine r.target, b₁, k⟩, []) := rfl
  obtain ⟨b', hfirst⟩ := first_headers hb₁
  exact ⟨b', .of_step hopen atBody_start (.of_step hloop nofun hfirst)⟩

/-- A request without a method passes both phases as it was rejected. -/
theorem first_rejected (hb : b.Holds (unlines r.lines ++ q))
    (hm : methodOf r.firstLine = .nullMethod) :
    ∃ b', (machine env).First AtBody (start .fresh b k)
      ⟨.parseBody, { rejectedRequest r.firstLine with processState := .processFailed }, b', k⟩ := by
  simp only [RequestHead.lines, unlines_cons, List.append_assoc, List.cons_append] at hb
  obtain ⟨b₁, -, hstep⟩ := @step_start env _ _ b k hb lf_not_mem_firstLine
  have htarget : requestTarget r.firstLine = none := by
    rw [requestTarget_firstLine, if_pos hm]
  rw [parseUrlLine_of_none htarget] at hstep
  set c : HttpTcpConnection := { rejectedRequest r.firstLine with processState := .processFailed }
  have hheaders : step env ⟨.parseHeaders, c, b₁, k⟩ = (⟨.parseBody, c, b₁, k⟩, []) := rfl
  exact ⟨b₁, .of_step hstep atBody_start (.of_step hheaders nofun (.here rfl))⟩

/-- The search for the suffix throws on a path without a dot. -/
theorem not_first_of_no_dot (hb : b.Holds (unlines r.lines ++ q))
    (hm : methodOf r.firstLine ≠ .nullMethod) (hdot : DOT ∉ env.fileDir ++ r.target)
    (s : OnMessage) : ¬ (machine env).First AtBody (start .fresh b k) s := by
  intro hfirst
  simp only [RequestHead.lines, unlines_cons, List.append_assoc, List.cons_append] at hb
  obtain ⟨b₁, -, hstep⟩ := @step_start env _ _ b k hb lf_not_mem_firstLine
  have htarget : requestTarget r.firstLine = some r.target := by
    rw [requestTarget_firstLine, if_neg hm]
  rw [parseUrlLine_of_some htarget, if_neg hdot] at hstep
  rw [Machine.First.iff_of_step hstep atBody_start] at hfirst
  exact Machine.First.not_of_final trivial nofun hfirst

/-! ## The decision -/

theorem keepAlive_setKeepAlive {c : HttpTcpConnection} (hc : c.keepAlive = false) :
    (setKeepAlive c (headerMap [] hs)).keepAlive ↔ RequestHead.StaysAlive c.httpVersion hs := by
  have hlookup := lookup_headerMap [] (ascii "connection") hs
  simp only [List.lookup_nil, Option.none_or] at hlookup
  simp only [setKeepAlive, hlookup]
  have hclose : ∀ v, matchesIgnoreCase (v.take npos) (ascii "close") =
      matchesIgnoreCase v (ascii "close") := fun v => matchesIgnoreCase_take (by decide)
  have halive : ∀ v, matchesIgnoreCase (v.take npos) (ascii "keep-alive") =
      matchesIgnoreCase v (ascii "keep-alive") := fun v => matchesIgnoreCase_take (by decide)
  cases hversion : c.httpVersion with
  | http1_0 =>
    cases hv : firstValue (ascii "connection") hs with
    | none => simp [RequestHead.StaysAlive, hv, hc]
    | some v => simp [RequestHead.StaysAlive, hv, hversion, halive]
  | http1_1 =>
    cases hv : firstValue (ascii "connection") hs with
    | none => simp [RequestHead.StaysAlive, hv]
    | some v => simp [RequestHead.StaysAlive, hv, hclose]

theorem httpVersion_setKeepAlive (c : HttpTcpConnection) (m : HeaderMap) :
    (setKeepAlive c m).httpVersion = c.httpVersion := by
  unfold setKeepAlive
  cases List.lookup (ascii "connection") m <;> simp only <;> split_ifs <;> rfl

theorem negotiates_of_rejected (hb : b.Holds (unlines r.lines ++ q))
    (hm : methodOf r.firstLine = .nullMethod) :
    Negotiates env b k r ↔
      r.version = .http1_0 ∧ ¬ RequestHead.StaysAlive .http1_0 r.headers := by
  obtain ⟨b', hbody⟩ := @first_rejected env b k q r hb hm
  constructor
  · rintro ⟨s, hfirst, hversion, hkeep⟩
    rw [hfirst.unique hbody] at hversion hkeep
    have hversion : r.version = .http1_0 := hversion.symm
    rw [hversion] at hkeep
    exact ⟨hversion, fun hstays => Bool.noConfusion (hkeep.mpr hstays)⟩
  · rintro ⟨hversion, hstays⟩
    refine ⟨_, hbody, hversion.symm, ?_⟩
    rw [hversion]
    exact iff_of_false Bool.false_ne_true hstays

theorem negotiates_of_method (hb : b.Holds (unlines r.lines ++ q))
    (hm : methodOf r.firstLine ≠ .nullMethod) :
    Negotiates env b k r ↔ DOT ∈ env.fileDir ++ r.target ∧
      (r.version = .http1_1 ↔ ¬ ascii "HTTP/1.1" <+: r.method) := by
  by_cases hdot : DOT ∈ env.fileDir ++ r.target
  · obtain ⟨b', hbody⟩ := @first_body env b k q r hb hm hdot
    have hversion := httpVersion_setKeepAlive (openRequest env.fileDir r.firstLine r.target)
      (headerMap [] r.headers)
    have hkeep := @keepAlive_setKeepAlive r.headers
      (openRequest env.fileDir r.firstLine r.target) rfl
    rw [and_iff_right hdot, ← versionOf_firstLine]
    constructor
    · rintro ⟨s, hfirst, hs, -⟩
      rw [hfirst.unique hbody] at hs
      exact hversion.symm.trans hs
    · intro hv
      refine ⟨_, hbody, hversion.trans hv, hkeep.trans ?_⟩
      rw [show (openRequest env.fileDir r.firstLine r.target).httpVersion = r.version from hv]
  · refine iff_of_false ?_ fun h => hdot h.1
    rintro ⟨s, hfirst, -⟩
    exact not_first_of_no_dot hb hm hdot s hfirst

/-- **When the negotiation follows the version.** -/
theorem keep_alive_negotiated_iff (env : Env) (k : Nat) (r : RequestHead)
    (hb : b.Holds (unlines r.lines ++ q)) :
    Negotiates env b k r ↔
      (r.NamesMethod ∧ DOT ∈ env.fileDir ++ r.target ∧
          (r.version = .http1_1 ↔ ¬ ascii "HTTP/1.1" <+: r.method)) ∨
        (¬ r.NamesMethod ∧ r.version = .http1_0 ∧
          ¬ RequestHead.StaysAlive .http1_0 r.headers) := by
  have hmethod : methodOf r.firstLine = .nullMethod ↔ ¬ r.NamesMethod := by
    rw [methodOf_eq_nullMethod_iff, ← not_or, RequestHead.NamesMethod]
  by_cases hm : r.NamesMethod
  · rw [or_iff_left fun h => h.1 hm, and_iff_right hm]
    exact negotiates_of_method hb (mt hmethod.mp (not_not_intro hm))
  · rw [or_iff_right fun h => hm h.1, and_iff_right hm]
    exact negotiates_of_rejected hb (hmethod.mpr hm)

/-- A request without header lines. -/
def plainHead (method : Bytes) (version : HttpVersion) (h : SP ∉ method ∧ LF ∉ method) :
    RequestHead where
  method := method
  target := ascii "/x.c"
  version := version
  headers := []
  eol := [CR]
  method_ok := h
  target_ok := by decide
  eol_ok := .inr rfl

def plainGet (version : HttpVersion) : RequestHead := plainHead (ascii "GET") version (by decide)

theorem lines_hold (r : RequestHead) :
    (arrived (unlines r.lines)).Holds (unlines r.lines ++ []) := by
  rw [List.append_nil]
  exact arrived_holds _

theorem keep_alive_negotiated_plain :
    Negotiates ⟨ascii "/srv", ascii "c", noFiles⟩ (arrived (unlines (plainGet .http1_1).lines)) 0
        (plainGet .http1_1) ∧
      Negotiates ⟨ascii "/srv", ascii "c", noFiles⟩
        (arrived (unlines (plainHead (ascii "PUT") .http1_0 (by decide)).lines)) 0
        (plainHead (ascii "PUT") .http1_0 (by decide)) := by
  constructor
  · exact (keep_alive_negotiated_iff _ _ _ (lines_hold (plainGet .http1_1))).mpr
      (.inl ⟨.inl (by decide), by decide⟩)
  · refine (keep_alive_negotiated_iff _ _ _ (lines_hold _)).mpr (.inr ⟨?_, rfl, ?_⟩)
    · rintro (h | h) <;> revert h <;> decide
    · rintro ⟨v, hv, -⟩
      cases hv

/-- The same request of version 1.0 is taken for one of version 1.1. -/
theorem keep_alive_not_negotiated :
    ¬ Negotiates ⟨ascii "/srv", ascii "c", noFiles⟩
      (arrived (ascii "GET /x.c HTTP/1.0\r\n\r\n")) 0 (plainGet .http1_0) := by
  have hbytes : ascii "GET /x.c HTTP/1.0\r\n\r\n" = unlines (plainGet .http1_0).lines := by decide
  rw [hbytes]
  rintro ⟨s, hfirst, hversion, -⟩
  obtain ⟨b', hbody⟩ := @first_body ⟨ascii "/srv", ascii "c", noFiles⟩ _ 0 _ _
    (lines_hold (plainGet .http1_0)) (by decide) (by decide)
  rw [hfirst.unique hbody] at hversion
  have hparsed : (setKeepAlive (openRequest (ascii "/srv") (plainGet .http1_0).firstLine
      (plainGet .http1_0).target) (headerMap [] (plainGet .http1_0).headers)).httpVersion =
      .http1_1 := by decide
  exact absurd (hparsed.symm.trans hversion) (by decide)

end Httpancake
