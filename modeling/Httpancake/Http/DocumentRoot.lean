import Httpancake.Http.WellFormed
import Httpancake.Lib.Paths

/-! # The path of a served file

`parseRequestStartLine` puts the target behind `fileDir_` as it stands, and `responseToGet` opens
the result up to its first `NUL`. Which of these paths lie under `fileDir_` depends on the `..`
segments of this part of the target and on its first segment. -/

namespace Httpancake

open Bytes OnMessage

/-- An accepted request line has a target. -/
theorem url_of_accepted {fileDir requestLine : Bytes} {c c' : HttpTcpConnection}
    (h : parseRequestStartLine fileDir requestLine c = some c')
    (hok : c'.processState ≠ .requestLineError) :
    ∃ target, requestTarget requestLine = some target ∧ c'.url = fileDir ++ target := by
  cases htarget : requestTarget requestLine with
  | none =>
    rw [parseRequestStartLine_of_none htarget] at h
    cases h
    exact absurd rfl hok
  | some target =>
    rw [parseRequestStartLine_of_some htarget] at h
    split_ifs at h
    cases h
    exact ⟨target, rfl, rfl⟩

theorem filePath_of_url {fileDir : Directory} {target : Bytes} {c : HttpTcpConnection}
    (hurl : c.url = fileDir.path ++ target) : c.filePath = fileDir.path ++ cStr target := by
  rw [HttpTcpConnection.filePath, hurl, cStr_append fileDir.nul_not_mem_path]

/-- The header lines do not touch the path. -/
theorem complete_url (c : HttpTcpConnection) (m : HeaderMap) : (complete c m).url = c.url := by
  simp only [complete, setKeepAlive]
  split_ifs <;> split <;> rfl

/-- **The document root.** Every accepted request line has a target; whatever header lines follow,
the file opened is `fileDir_` with the target up to its first `NUL` behind it, and it lies under
`fileDir_` exactly when this part of the target keeps that directory. -/
theorem served_path_within_iff {fileDir : Directory} {requestLine : Bytes}
    {c c' : HttpTcpConnection} (h : parseRequestStartLine fileDir.path requestLine c = some c')
    (hok : c'.processState ≠ .requestLineError) :
    ∃ target, requestTarget requestLine = some target ∧
      (∀ m, (complete { c' with processState := .parseHeaders } m).filePath =
        fileDir.path ++ cStr target) ∧
      (Within fileDir.path (normalise (fileDir.path ++ cStr target)) ↔
        fileDir.Keeps (cStr target)) := by
  obtain ⟨target, htarget, hurl⟩ := url_of_accepted h hok
  refine ⟨target, htarget, fun m => ?_, fileDir.within_append_iff _⟩
  exact filePath_of_url ((complete_url _ m).trans hurl)

/-- `/srv` -/
def srv : Directory where
  names := [ascii "srv"]
  ne_nil := by decide
  isName := by decide
  nul_not_mem := by decide

/-- The path leaves `/srv` and comes back. -/
theorem served_path_within_iff_back :
    ∃ target, requestTarget (ascii "GET /a/../../srv//x.c HTTP/1.1\r") = some target ∧
      (∀ m, (complete { parsedRequest srv.path (ascii "GET /a/../../srv//x.c HTTP/1.1\r")
          (ascii "/a/../../srv//x.c") .fresh with processState := .parseHeaders } m).filePath =
        srv.path ++ cStr target) ∧
      (Within srv.path (normalise (srv.path ++ cStr target)) ↔ srv.Keeps (cStr target)) :=
  @served_path_within_iff srv _ .fresh
    (parsedRequest srv.path (ascii "GET /a/../../srv//x.c HTTP/1.1\r")
      (ascii "/a/../../srv//x.c") .fresh)
    (by decide) (by decide)

/-- A target that leads out of `/srv` in front of a `NUL`, and back behind it. -/
example : ¬ srv.Keeps (cStr (ascii "/../secret.c" ++ NUL :: ascii "/../srv/x.c")) ∧
    srv.Keeps (ascii "/../secret.c" ++ NUL :: ascii "/../srv/x.c") := by decide

/-- Two targets that lead out of `/srv`. -/
theorem served_path_not_within :
    (∃ c, parseRequestStartLine srv.path (requestLine (ascii "/../etc/passwd")) .fresh = some c ∧
      c.processState ≠ .requestLineError ∧ ¬ Within srv.path (normalise c.filePath)) ∧
    ∃ c, parseRequestStartLine srv.path (requestLine (ascii "-private/x.c")) .fresh = some c ∧
      c.processState ≠ .requestLineError ∧ ¬ Within srv.path (normalise c.filePath) := by
  have leaves (target : Bytes) (hsp : SP ∉ target) (hdot : DOT ∈ target)
      (hleaves : ¬ srv.Keeps (cStr target)) :
      ∃ c, parseRequestStartLine srv.path (requestLine target) .fresh = some c ∧
        c.processState ≠ .requestLineError ∧ ¬ Within srv.path (normalise c.filePath) := by
    refine ⟨parsedRequest srv.path (requestLine target) target .fresh, ?_, nofun, ?_⟩
    · rw [parseRequestStartLine_of_some (requestTarget_requestLine hsp),
        if_pos (List.mem_append_right _ hdot)]
    · rw [@filePath_of_url srv target _ rfl]
      exact fun h => hleaves ((srv.within_append_iff _).mp h)
  exact ⟨leaves _ (by decide) (by decide) (by decide), leaves _ (by decide) (by decide) (by decide)⟩

end Httpancake
