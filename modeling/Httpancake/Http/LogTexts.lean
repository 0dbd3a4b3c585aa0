import Httpancake.Http.DocumentRoot
import Httpancake.Http.Pipelining

/-! # What `onMessage` logs

The strings that a call inserts into its `LOG` streams are its own texts, the name of the connection
and the url of a request. No line feed gets into the url: a request line ends at the first one
(`OnMessage.step_logs`). -/

namespace Httpancake

open Bytes

def Effect.logged? : Effect → Option (List Bytes)
  | .log text => some text
  | _ => none

/-- The strings of each `LOG` statement. -/
def logs (effects : List Effect) : List (List Bytes) := effects.filterMap Effect.logged?

/-- No line feed is logged. -/
def LogsLines (effects : List Effect) : Prop := ∀ text ∈ logs effects, ∀ t ∈ text, LF ∉ t

theorem LogsLines.append {es es' : List Effect} (h : LogsLines es) (h' : LogsLines es') :
    LogsLines (es ++ es') := by
  intro text htext
  rw [logs, List.filterMap_append, List.mem_append] at htext
  exact htext.elim (h text) (h' text)

theorem LogsLines.of_silent {es : List Effect} (h : logs es = []) : LogsLines es := by
  intro text htext
  rw [h] at htext
  cases htext

theorem LogsLines.one {text : List Bytes} (h : ∀ t ∈ text, LF ∉ t) : LogsLines [.log text] := by
  intro text' htext
  obtain rfl := List.mem_singleton.mp htext
  exact h

/-! ## Lines without a line feed -/

theorem not_mem_take_of_findByte {c : UInt8} {s : Bytes} {i : Nat} (h : findByte s c 0 = some i) :
    c ∉ s.take i := by
  have hmem : c ∈ s := by
    by_contra hno
    rw [findByte_zero_eq_none_iff.mpr hno] at h
    cases h
  obtain ⟨a, r, rfl, ha⟩ := List.eq_append_cons_of_mem hmem
  have hpos := findByte_append_cons [] ha r
  rw [List.nil_append, List.length_nil, h, Nat.zero_add] at hpos
  rw [Option.some.inj hpos, List.take_left]
  exact ha

theorem lf_not_mem_retrieved {b b' : Buffer} {line : Bytes}
    (h : b.retrieveLineAsString = some (b', line)) : LF ∉ line := by
  rw [Buffer.retrieveLineAsString] at h
  cases hfind : findByte b.content LF 0 with
  | none =>
    rw [hfind] at h
    cases h
    exact List.not_mem_nil
  | some i =>
    rw [hfind] at h
    obtain ⟨b₁, -, heq⟩ := Option.map_eq_some_iff.mp h
    cases heq
    exact not_mem_take_of_findByte hfind

theorem lf_not_mem_target {l target : Bytes} (h : requestTarget l = some target) (hl : LF ∉ l) :
    LF ∉ target := by
  rw [requestTarget] at h
  split_ifs at h
  obtain ⟨⟨a, r⟩, hfst, h⟩ := Option.bind_eq_some_iff.mp h
  obtain ⟨⟨t, r'⟩, hsnd, rfl⟩ := Option.map_eq_some_iff.mp h
  obtain ⟨rfl, -⟩ := cut_eq_some_iff.mp hfst
  obtain ⟨rfl, -⟩ := cut_eq_some_iff.mp hsnd
  simp only [List.mem_append, List.mem_cons, not_or] at hl
  exact hl.2.2.1

namespace OnMessage
variable {env : Env} {s : OnMessage}

theorem lf_not_mem_url {l : Bytes} {c c' : HttpTcpConnection} (hdir : LF ∉ env.fileDir)
    (hl : LF ∉ l) (hurl : LF ∉ c.url) (h : parseUrlLine env l c = some c') : LF ∉ c'.url := by
  rw [parseUrlLine] at h
  split_ifs at h with hnil
  · cases h
    exact hurl
  · cases htarget : requestTarget l with
    | none =>
      rw [parseRequestStartLine_of_none htarget] at h
      cases h
      exact hurl
    | some target =>
      rw [parseRequestStartLine_of_some htarget] at h
      split_ifs at h
      cases h
      exact List.not_mem_append hdir (lf_not_mem_target htarget hl)

theorem setKeepAlive_url (c : HttpTcpConnection) (m : HeaderMap) :
    (setKeepAlive c m).url = c.url := complete_url c m

theorem responseToGet_url {file : FileOutcome} {c c' : HttpTcpConnection} {msg : Bytes}
    (h : responseToGet file c = some (c', msg)) : c'.url = c.url := by
  rw [responseToGet] at h
  by_cases hlstat : file.lstat = .noent
  · rw [if_pos hlstat] at h
    cases h
    rfl
  · rw [if_neg hlstat] at h
    obtain ⟨body, -, heq⟩ := Option.bind_eq_some_iff.mp h
    cases heq
    rfl

theorem requestLineErrorLog_lines (hname : LF ∉ env.connName) :
    LogsLines [requestLineErrorLog env] := by
  refine .one ?_
  simp only [List.forall_mem_cons]
  exact ⟨by decide, fun h => hname (cStr_subset _ h), by decide, List.forall_mem_nil _⟩

theorem finishEffects_lines (hname : LF ∉ env.connName) {c : HttpTcpConnection}
    (hurl : LF ∉ c.url) : LogsLines (finishEffects env c) := by
  have hname : LF ∉ cStr env.connName := fun h => hname (cStr_subset _ h)
  refine LogsLines.append ?_ ?_
  · rw [outcomeLog]
    split_ifs
    · refine .one ?_
      simp only [List.forall_mem_cons]
      exact ⟨by decide, hname, by decide, hurl, by decide, List.forall_mem_nil _⟩
    · exact .of_silent rfl
    · refine .one ?_
      simp only [List.forall_mem_cons]
      exact ⟨by decide, hname, by decide, hurl, by decide, List.forall_mem_nil _⟩
    · exact .of_silent rfl
  · split_ifs <;> exact .of_silent rfl

/-- **One step** keeps line feeds out of the url, and logs none. -/
theorem step_logs (hdir : LF ∉ env.fileDir) (hname : LF ∉ env.connName) (hurl : LF ∉ s.conn.url) :
    LF ∉ (step env s).1.conn.url ∧ LogsLines (step env s).2 := by
  rw [step]
  cases hpc : s.pc with
  | parseUrl =>
    simp only [parseUrl]
    split_ifs
    · cases hline : s.inBuffer.retrieveLineAsString with
      | none => exact ⟨hurl, .of_silent rfl⟩
      | some r =>
        obtain ⟨inBuffer, requestLine⟩ := r
        cases hparse : parseUrlLine env requestLine s.conn with
        | none =>
          simp only [hparse]
          exact ⟨hurl, .of_silent rfl⟩
        | some c =>
          have hc := lf_not_mem_url hdir (lf_not_mem_retrieved hline) hurl hparse
          simp only [hparse]
          split_ifs
          · exact ⟨hc, requestLineErrorLog_lines hname⟩
          · exact ⟨hc, .of_silent rfl⟩
    · exact ⟨hurl, .of_silent rfl⟩
  | parseHeaders => exact ⟨hurl, .of_silent rfl⟩
  | headerLoop headerContents =>
    refine ⟨?_, .of_silent rfl⟩
    simp only [headerLoop]
    cases s.inBuffer.retrieveLineAsString with
    | none => exact hurl
    | some r =>
      simp only
      split_ifs
      · rwa [setKeepAlive_url]
      · cases parseHeader (chomp r.2) headerContents <;> exact hurl
  | parseBody => exact ⟨hurl, .of_silent rfl⟩
  | bodyLoop headerLine =>
    refine ⟨?_, .of_silent rfl⟩
    simp only [bodyLoop]
    split_ifs
    · exact hurl
    · cases s.inBuffer.retrieve headerLine.length <;> exact hurl
  | responsing =>
    simp only [responsing]
    split_ifs
    · cases hresp : responseToGet (env.fs s.fsCalls s.conn.filePath) s.conn with
      | none => exact ⟨hurl, .of_silent rfl⟩
      | some r =>
        obtain ⟨c, msg⟩ := r
        refine ⟨?_, .of_silent rfl⟩
        change LF ∉ c.url
        rwa [responseToGet_url hresp]
    · exact ⟨hurl, .of_silent rfl⟩
  | finish => exact ⟨List.not_mem_nil, finishEffects_lines hname hurl⟩
  | returned | stopped => exact ⟨hurl, .of_silent rfl⟩

end OnMessage

end Httpancake
