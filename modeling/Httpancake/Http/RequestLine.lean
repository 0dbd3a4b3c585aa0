import Httpancake.Http.Shapes

/-! # The grammar of request lines

A request line is `METHOD SP target SP VERSION` (`RequestLine`). `parseRequestStartLine` searches
the line for its parts instead of reading them where they stand, and it takes the position at which
it finds the version for a truth value. `parses_request_line_iff` says for which lines it follows
the grammar all the same. -/

namespace Httpancake

open Bytes

/-- The methods that the server knows. -/
inductive Method where
  | get | post
  deriving DecidableEq, Repr

def Method.name : Method → Bytes
  | get => ascii "GET"
  | post => ascii "POST"

def Method.requestType : Method → RequestType
  | get => .getMethod
  | post => .postMethod

/-- A line of the grammar. -/
structure RequestLine where
  method : Method
  target : Bytes
  version : HttpVersion
  target_ok : SP ∉ target

def RequestLine.text (r : RequestLine) : Bytes :=
  r.method.name ++ SP :: (r.target ++ SP :: versionName r.version)

/-- `l` is the line `r`, with or without a carriage return. -/
def RequestLine.Reads (r : RequestLine) (l : Bytes) : Prop := l = r.text ∨ l = r.text ++ [CR]

/-- The parser accepts the line exactly when it is in the grammar, and then it takes the method and
the target from it. -/
def ParsesLine (fileDir l : Bytes) (c : HttpTcpConnection) : Prop :=
  ∃ c', parseRequestStartLine fileDir l c = some c' ∧
    (c'.processState ≠ .requestLineError ↔ ∃ r : RequestLine, r.Reads l) ∧
    (c'.processState ≠ .requestLineError → ∃ r : RequestLine, r.Reads l ∧
      c'.requestType = r.method.requestType ∧ c'.url = fileDir ++ r.target)

/-- The line names no method, or has fewer than two spaces, or is in the grammar; and the target of
a `POST` line does not contain the name of the other method. -/
def ReadByPosition (l : Bytes) : Prop :=
  (¬ ascii "GET" <:+: l ∧ ¬ ascii "POST" <:+: l) ∨ l.count SP < 2 ∨
    ∃ r : RequestLine, r.Reads l ∧ (r.method = .post → ¬ ascii "GET" <:+: r.target)

/-! ## What the searches find -/

theorem methodOf_eq_nullMethod_iff {l : Bytes} :
    methodOf l = .nullMethod ↔ ¬ ascii "GET" <:+: l ∧ ¬ ascii "POST" <:+: l := by
  simp only [methodOf, find_isSome_iff]
  split_ifs <;> simp_all

theorem methodOf_eq_getMethod_iff {l : Bytes} :
    methodOf l = .getMethod ↔ ascii "GET" <:+: l := by
  simp only [methodOf, find_isSome_iff]
  split_ifs <;> simp_all

theorem methodOf_eq_postMethod_iff {l : Bytes} :
    methodOf l = .postMethod ↔ ¬ ascii "GET" <:+: l ∧ ascii "POST" <:+: l := by
  simp only [methodOf, find_isSome_iff]
  split_ifs <;> simp_all

theorem cut_eq_none_iff_count {c : UInt8} {s : Bytes} : cut c s = none ↔ s.count c = 0 := by
  rw [cut_eq_none_iff, List.count_eq_zero]

theorem requestTarget_eq_none_iff {l : Bytes} :
    requestTarget l = none ↔ methodOf l = .nullMethod ∨ l.count SP < 2 := by
  rw [requestTarget]
  split_ifs with hm
  · exact iff_of_true rfl (.inl hm)
  · rw [or_iff_right hm, Option.bind_eq_none_iff]
    cases hfst : cut SP l with
    | none => simp [cut_eq_none_iff_count.mp hfst]
    | some p =>
      obtain ⟨a, r⟩ := p
      obtain ⟨rfl, ha⟩ := cut_eq_some_iff.mp hfst
      have hcount : (a ++ SP :: r).count SP = r.count SP + 1 := by
        simp [List.count_eq_zero.mpr ha]
      simp only [Option.some.injEq, forall_eq', Option.map_eq_none_iff, cut_eq_none_iff_count,
        hcount]
      omega

/-- A word without the separator lies on one side of it. -/
theorem infix_append_cons_iff {w a b : Bytes} {c : UInt8} (hc : c ∉ w) (hw : w ≠ []) :
    w <:+: a ++ c :: b ↔ w <:+: a ∨ w <:+: b := by
  have hstart : ∀ u, u ≠ [] → u ⊆ w → ¬ u <+: c :: b := by
    rintro (_ | ⟨d, u⟩) hu hsub hpre
    · exact hu rfl
    · obtain rfl := (List.cons_prefix_cons.mp hpre).1
      exact hc (hsub List.mem_cons_self)
  rw [List.infix_append_iff_ne_nil, List.infix_cons_iff,
    or_iff_right (hstart w hw (List.Subset.refl w)), ← or_assoc]
  refine or_iff_left ?_
  rintro ⟨u, v, -, hv, rfl, -, hpre⟩
  exact hstart v hv (List.subset_append_right u v) hpre

namespace RequestLine
variable {r : RequestLine} {l : Bytes}

/-- The line behind its target does not name the method `GET`. -/
theorem Reads.shape (h : r.Reads l) :
    ∃ v, l = r.method.name ++ SP :: (r.target ++ SP :: v) ∧ ¬ ascii "GET" <:+: v := by
  rcases h with rfl | rfl
  · exact ⟨_, rfl, by cases r.version <;> decide⟩
  · exact ⟨versionName r.version ++ [CR], by simp [text], by cases r.version <;> decide⟩

theorem Reads.infix_get_iff (h : r.Reads l) :
    ascii "GET" <:+: l ↔ r.method = .get ∨ ascii "GET" <:+: r.target := by
  obtain ⟨v, rfl, hv⟩ := h.shape
  rw [infix_append_cons_iff (by decide) (by decide), infix_append_cons_iff (by decide) (by decide),
    or_iff_left hv]
  cases r.method with
  | get => simp [Method.name]
  | post =>
    have hpost : ¬ ascii "GET" <:+: ascii "POST" := by decide
    simp [Method.name, hpost]

/-- The search for the method finds the token in front of the first space. -/
theorem Reads.methodOf_eq_iff (h : r.Reads l) :
    methodOf l = r.method.requestType ↔ (r.method = .post → ¬ ascii "GET" <:+: r.target) := by
  have hget := h.infix_get_iff
  cases hm : r.method with
  | get => simp [Method.requestType, methodOf_eq_getMethod_iff, hget, hm]
  | post =>
    have hpost : ascii "POST" <:+: l := by
      obtain ⟨v, rfl, -⟩ := h.shape
      rw [hm]
      exact (List.prefix_append _ _).isInfix
    simp [Method.requestType, methodOf_eq_postMethod_iff, hget, hm, hpost]

theorem Reads.methodOf_ne_null (h : r.Reads l) : methodOf l ≠ .nullMethod := by
  rw [Ne, methodOf_eq_nullMethod_iff]
  rintro ⟨hget, hpost⟩
  obtain ⟨v, rfl, -⟩ := h.shape
  cases hm : r.method with
  | get => exact hget (hm ▸ (List.prefix_append _ _).isInfix)
  | post => exact hpost (hm ▸ (List.prefix_append _ _).isInfix)

theorem Reads.requestTarget_eq (h : r.Reads l) : requestTarget l = some r.target := by
  have hname : SP ∉ r.method.name := by cases r.method <;> decide
  have hm := h.methodOf_ne_null
  obtain ⟨v, rfl, -⟩ := h.shape
  rw [requestTarget, if_neg hm, cut_append_cons hname, Option.bind_some,
    cut_append_cons r.target_ok]
  rfl

end RequestLine

/-! ## The parser -/

theorem parsesLine_of_none {fileDir l : Bytes} {c : HttpTcpConnection}
    (h : requestTarget l = none) : ParsesLine fileDir l c := by
  have hno : ¬ ∃ r : RequestLine, r.Reads l := by
    rintro ⟨r, hr⟩
    rw [hr.requestTarget_eq] at h
    cases h
  refine ⟨_, parseRequestStartLine_of_none h, iff_of_false (fun hne => hne rfl) hno, ?_⟩
  exact fun hne => absurd rfl hne

theorem parsesLine_of_some {fileDir l target : Bytes} {c : HttpTcpConnection}
    (hc : c.processState ≠ .requestLineError) (h : requestTarget l = some target)
    (hdot : DOT ∈ fileDir ++ target) :
    ParsesLine fileDir l c ↔
      ∃ r : RequestLine, r.Reads l ∧ (r.method = .post → ¬ ascii "GET" <:+: r.target) := by
  have hparse := @parseRequestStartLine_of_some fileDir l target c h
  rw [if_pos hdot] at hparse
  constructor
  · rintro ⟨c', hc', -, hread⟩
    obtain rfl := Option.some.inj (hparse.symm.trans hc')
    obtain ⟨r, hr, hmethod, -⟩ := hread hc
    exact ⟨r, hr, hr.methodOf_eq_iff.mp hmethod⟩
  · rintro ⟨r, hr, hpost⟩
    obtain rfl : target = r.target := Option.some.inj (h.symm.trans hr.requestTarget_eq)
    exact ⟨_, hparse, iff_of_true hc ⟨r, hr⟩, fun _ => ⟨r, hr, hr.methodOf_eq_iff.mpr hpost, rfl⟩⟩

/-- **When the parser follows the grammar**, for a path in which the search for the suffix
succeeds. -/
theorem parses_request_line_iff {fileDir l : Bytes} {c : HttpTcpConnection}
    (hc : c.processState ≠ .requestLineError)
    (hdot : ∀ target, requestTarget l = some target → DOT ∈ fileDir ++ target) :
    ParsesLine fileDir l c ↔ ReadByPosition l := by
  rw [ReadByPosition, ← or_assoc, ← methodOf_eq_nullMethod_iff, ← requestTarget_eq_none_iff]
  cases h : requestTarget l with
  | none => exact iff_of_true (parsesLine_of_none h) (.inl rfl)
  | some target =>
    rw [or_iff_right (by simp)]
    exact parsesLine_of_some hc h (hdot target h)

theorem parses_request_line_post :
    ParsesLine (ascii "/srv/www.d") (ascii "POST /x.c HTTP/1.0\r") .fresh :=
  (parses_request_line_iff (by decide) fun _ _ => List.mem_append_left _ (by decide)).mpr
    (.inr (.inr ⟨⟨.post, ascii "/x.c", .http1_0, by decide⟩, .inr (by decide), fun _ => by decide⟩))

/-- A line of another version of the protocol is accepted. -/
theorem parses_other_version :
    ¬ ParsesLine (ascii "/srv/www.d") (ascii "GET /x.c HTTP/2.0\r") .fresh := by
  rintro ⟨c', hc', haccepts, -⟩
  have hstate : (parseRequestStartLine (ascii "/srv/www.d") (ascii "GET /x.c HTTP/2.0\r")
      .fresh).map (·.processState) = some .parseUrl := by decide
  rw [hc'] at hstate
  have hne : c'.processState ≠ .requestLineError := by
    have hparse : c'.processState = .parseUrl := Option.some.inj hstate
    simp [hparse]
  obtain ⟨r, hr⟩ := haccepts.mp hne
  have hsuffix : ∀ v : HttpVersion, ¬ versionName v <:+: ascii "GET /x.c HTTP/2.0\r" := by
    intro v
    cases v <;> decide
  refine hsuffix r.version ?_
  rcases hr with h | h
  · rw [h]
    exact ⟨r.method.name ++ SP :: (r.target ++ [SP]), [], by simp [RequestLine.text]⟩
  · rw [h]
    exact ⟨r.method.name ++ SP :: (r.target ++ [SP]), [CR], by simp [RequestLine.text]⟩

end Httpancake
