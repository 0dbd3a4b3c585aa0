import Httpancake.Http.Serve

/-! # The shapes of lines

What the two line parsers make of a line, in terms of its text: a request line carries a target
when it names a method and has two spaces, and a header line is refused only when its first colon
is its last byte. `serve` is restated in these terms. -/

namespace Httpancake

open Bytes OnMessage

/-- The text between the first two spaces of a line that names a method. -/
def requestTarget (l : Bytes) : Option Bytes :=
  if methodOf l = .nullMethod then none
  else (cut SP l).bind fun p => (cut SP p.2).map (·.1)

/-- The first colon of the line is its last byte. -/
def LoneFinalColon (l : Bytes) : Prop := ∃ key, l = key ++ [COLON] ∧ COLON ∉ key

theorem loneFinalColon_iff {l : Bytes} : LoneFinalColon l ↔ (cut COLON l).map (·.2) = some [] := by
  constructor
  · rintro ⟨key, rfl, hkey⟩
    rw [cut_append_cons hkey]
    rfl
  · intro h
    obtain ⟨⟨key, val⟩, hcut, rfl⟩ := Option.map_eq_some_iff.mp h
    exact ⟨key, cut_eq_some_iff.mp hcut⟩

instance (l : Bytes) : Decidable (LoneFinalColon l) := decidable_of_iff' _ loneFinalColon_iff

/-- The text from the last dot on. -/
def suffixOf (url : Bytes) : Bytes := url.drop ((findLastOf DOT url).getD url.length)

/-- The connection after an accepted request line. -/
def parsedRequest (fileDir l target : Bytes) (c : HttpTcpConnection) : HttpTcpConnection where
  processState := c.processState
  requestType := methodOf l
  mimeType := (mimeTypes.lookup (suffixOf (fileDir ++ target))).getD defaultMimeType
  httpVersion := (versionOf l).getD .http1_0
  url := fileDir ++ target
  keepAlive := c.keepAlive

/-! ## Request lines -/

/-- No line begins with both names, so the last branch of the version search is never taken. -/
theorem versionOf_isSome (l : Bytes) : (versionOf l).isSome := by
  rw [versionOf]
  split
  · rfl
  · next h11 =>
    have h11 : ascii "HTTP/1.1" <+: l := find_eq_zero_iff.mp (not_not.mp h11)
    have h10 : find (ascii "HTTP/1.0") l ≠ some 0 := fun h => by
      have hpre := List.prefix_of_prefix_length_le h11 (find_eq_zero_iff.mp h) (by decide)
      revert hpre
      decide
    rw [if_pos h10]
    rfl

theorem requestTarget_nil : requestTarget [] = none := rfl

theorem methodOf_ne_null {l target : Bytes} (h : requestTarget l = some target) :
    methodOf l ≠ .nullMethod := by
  intro hm
  rw [requestTarget, if_pos hm] at h
  cases h

/-- A line without a target is rejected. -/
theorem parseRequestStartLine_of_none {fileDir l : Bytes} {c : HttpTcpConnection}
    (h : requestTarget l = none) :
    parseRequestStartLine fileDir l c =
      some { c with requestType := methodOf l, processState := .requestLineError } := by
  unfold requestTarget at h
  simp only [parseRequestStartLine]
  by_cases hm : methodOf l = .nullMethod
  · rw [if_pos hm]
  · rw [if_neg hm] at h ⊢
    cases hfst : cut SP l with
    | none =>
      rw [findByte_zero_eq_none_iff.mpr (cut_eq_none_iff.mp hfst)]
    | some p =>
      obtain ⟨a, r⟩ := p
      obtain ⟨rfl, ha⟩ := cut_eq_some_iff.mp hfst
      have hr : SP ∉ r := by simpa [hfst, cut_eq_none_iff] using h
      have hpos : findByte (a ++ SP :: r) SP 0 = some a.length := by
        simpa using findByte_append_cons [] ha r
      have hsnd : findByte (a ++ SP :: r) SP (a.length + 1) = none := by
        rwa [findByte_eq_none_iff, drop_append_cons]
      simp only [hpos, hsnd]

/-- A line with a target is accepted when the path has a dot, and throws when it has none. -/
theorem parseRequestStartLine_of_some {fileDir l target : Bytes} {c : HttpTcpConnection}
    (h : requestTarget l = some target) :
    parseRequestStartLine fileDir l c =
      if DOT ∈ fileDir ++ target then some (parsedRequest fileDir l target c) else none := by
  unfold requestTarget at h
  by_cases hm : methodOf l = .nullMethod
  · rw [if_pos hm] at h
    cases h
  · rw [if_neg hm] at h
    obtain ⟨⟨a, r⟩, hfst, h⟩ := Option.bind_eq_some_iff.mp h
    obtain ⟨⟨t, r'⟩, hsnd, rfl⟩ := Option.map_eq_some_iff.mp h
    obtain ⟨rfl, ha⟩ := cut_eq_some_iff.mp hfst
    obtain ⟨hr, ht⟩ := cut_eq_some_iff.mp hsnd
    simp only at hr
    subst hr
    have hpos : findByte (a ++ SP :: (t ++ SP :: r')) SP 0 = some a.length := by
      simpa using findByte_append_cons [] ha (t ++ SP :: r')
    have hpos' : findByte (a ++ SP :: (t ++ SP :: r')) SP (a.length + 1) =
        some (a.length + 1 + t.length) := by
      simpa using findByte_append_cons (a ++ [SP]) ht r'
    have hsub : substr (a ++ SP :: (t ++ SP :: r')) (some (a.length + 1))
        (a.length + 1 + t.length - a.length - 1) = some t := by
      have hlen : a.length + 1 + t.length - a.length - 1 = t.length := by omega
      rw [substr_some (by simp), drop_append_cons, hlen, List.take_left]
    obtain ⟨version, hversion⟩ := Option.isSome_iff_exists.mp
      (versionOf_isSome (a ++ SP :: (t ++ SP :: r')))
    simp only [parseRequestStartLine, if_neg hm, hpos, hpos', hsub]
    cases hdot : findLastOf DOT (fileDir ++ t) with
    | none =>
      rw [if_neg (findLastOf_eq_none_iff.mp hdot)]
      simp only [hdot, substr_npos, Option.bind_eq_bind, Option.bind_some, Option.bind_none]
    | some i =>
      have hi : i < (fileDir ++ t).length := findLastOf_lt hdot
      have hmem : DOT ∈ fileDir ++ t := by
        by_contra hmem
        rw [findLastOf_eq_none_iff.mpr hmem] at hdot
        cases hdot
      have hsuffix : substr (fileDir ++ t) (some i) ((fileDir ++ t).length - i) =
          some (suffixOf (fileDir ++ t)) := by
        rw [substr_some hi.le, ← List.length_drop, List.take_length, suffixOf, hdot]
        rfl
      simp only [if_pos hmem, hdot, Option.getD_some, hsuffix, hversion, Option.bind_eq_bind,
        Option.bind_some, Option.pure_def, parsedRequest, HttpTcpConnection.setMimeType]

/-! ## Header lines -/

theorem endsHeaders_iff {l : Bytes} : endsHeaders l ↔ l = [] ∨ l.head? = some CR := by
  simp [endsHeaders]

theorem endsBody_iff {l : Bytes} : endsBody l ↔ l = [] ∨ ascii "HTTP/" <:+: l := by
  simp only [endsBody, Bool.or_eq_true, beq_iff_eq, find_isSome_iff]

/-- The value behind `": "` is missing only when the colon ends the line. -/
theorem parseHeader_eq_none_iff {l : Bytes} {m : HeaderMap} :
    parseHeader l m = none ↔ LoneFinalColon l := by
  rw [loneFinalColon_iff]
  cases hcut : cut COLON l with
  | none =>
    have hl : COLON ∉ l := cut_eq_none_iff.mp hcut
    simp [parseHeader, findByte_zero_eq_none_iff.mpr hl]
  | some p =>
    obtain ⟨key, val⟩ := p
    obtain ⟨rfl, hkey⟩ := cut_eq_some_iff.mp hcut
    have hpos : findByte (key ++ COLON :: val) COLON 0 = some key.length := by
      simpa using findByte_append_cons [] hkey val
    simp only [parseHeader, hpos, substr_some (Nat.zero_le _), Option.bind_eq_bind,
      Option.bind_some, Option.bind_eq_none_iff]
    cases val with
    | nil => simp [substr_eq_none_iff.mpr]
    | cons x val => simp [substr_some]

/-- The byte behind the colon is skipped, whatever it is. -/
theorem parseHeader_of_value {key val : Bytes} {c : UInt8} {m : HeaderMap} (h : COLON ∉ key) :
    parseHeader (key ++ COLON :: c :: val) m =
      some (m.insert (key.map toLower) (val.take npos)) := by
  have hpos : findByte (key ++ COLON :: c :: val) COLON 0 = some key.length := by
    simpa using findByte_append_cons [] h (c :: val)
  have hkey : substr (key ++ COLON :: c :: val) (some 0) key.length = some key := by
    rw [substr_some (Nat.zero_le _), List.drop_zero, List.take_left]
  have hdrop : (key ++ COLON :: c :: val).drop (key.length + 2) = val := by
    rw [List.append_cons]
    simp
  have hlen : sizeSub (sizeSub (key.map toLower).length key.length) 1 = npos := by
    simp [sizeSub, npos]
  simp only [parseHeader, hpos, hkey, Option.bind_eq_bind, Option.bind_some, hlen]
  rw [substr_some (by simp), hdrop]
  rfl

/-! ## Serving -/

/-- The connection after a rejected request line. -/
def rejectedRequest (l : Bytes) : HttpTcpConnection :=
  { HttpTcpConnection.fresh with requestType := methodOf l, processState := .requestLineError }

/-- A request whose header lines are being read. -/
def openRequest (fileDir l target : Bytes) : HttpTcpConnection :=
  { parsedRequest fileDir l target .fresh with processState := .parseHeaders }

theorem parseUrlLine_of_none {env : Env} {l : Bytes} (h : requestTarget l = none) :
    parseUrlLine env l .fresh = some (rejectedRequest l) := by
  rw [parseUrlLine]
  split
  · next hl => subst hl; rfl
  · exact parseRequestStartLine_of_none h

theorem parseUrlLine_of_some {env : Env} {l target : Bytes} (h : requestTarget l = some target) :
    parseUrlLine env l .fresh =
      if DOT ∈ env.fileDir ++ target then some (parsedRequest env.fileDir l target .fresh)
      else none := by
  have hl : l ≠ [] := by
    rintro rfl
    cases h
  rw [parseUrlLine, if_neg hl]
  exact parseRequestStartLine_of_some h

theorem serve_request_of_none {env : Env} {k : Nat} {l : Bytes} {ls : List Bytes}
    (h : requestTarget l = none) :
    serve env k .request (l :: ls) =
      (rejectEffects env (rejectedRequest l) ++ (serve env k .request ls).1,
        (serve env k .request ls).2) := by
  rw [serve, parseUrlLine_of_none h]
  exact if_pos rfl

theorem serve_request_of_some {env : Env} {k : Nat} {l target : Bytes} {ls : List Bytes}
    (h : requestTarget l = some target) :
    serve env k .request (l :: ls) =
      if DOT ∈ env.fileDir ++ target then
        serve env k (.header (openRequest env.fileDir l target) []) ls
      else ([], .error .outOfRange) := by
  rw [serve, parseUrlLine_of_some h]
  split_ifs with hdot
  · exact if_neg (by simp [parsedRequest, HttpTcpConnection.fresh])
  · rfl

end Httpancake
