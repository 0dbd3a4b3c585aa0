import Httpancake.Http.Answers
import Httpancake.Http.FileServing

/-! # Every reply

What a call sends on any input, well formed or not: whole replies of `responseToGet`, each to one of
the complete lines that ask for a file, in their order, and each about the file that its line asks
for (`answers_replies`). -/

namespace Httpancake

open Bytes OnMessage

/-- The values of `MimeTypes`. -/
def contentTypes : List Bytes := defaultMimeType :: mimeTypes.map Prod.snd

/-- What is read of the file, if reading it is no fault. -/
def FileOutcome.text (file : FileOutcome) : Option Bytes :=
  readMapping (if file.opened then file.mapped else none) file.lstat.stSize

/-- What a client finds in a reply: the text that was read, with its length and a known content
type, or the page for a missing file. -/
inductive ReplyTo (file : FileOutcome) (msg : Bytes) : Prop
  | found {head : List Bytes} {body mimeType : Bytes} (hlstat : file.lstat ≠ .noent)
    (hread : readHead [] msg = some (head, body)) (hstatus : statusCode head = some (ascii "200"))
    (htype : mimeType ∈ contentTypes ∧ ascii "Content-type: " ++ mimeType ∈ head)
    (hlength : contentLength head = some body.length) (hbody : file.text = some body)
  | missing {head : List Bytes} (hlstat : file.lstat = .noent)
    (hread : readHead [] msg = some (head, notFoundMsg))
    (hstatus : statusCode head = some (ascii "404"))

/-- The target of a line that names the method `GET`. -/
def asksFor (l : Bytes) : Option Bytes := if methodOf l = .getMethod then requestTarget l else none

/-- What the complete lines of an input ask for. -/
def targets (q : Bytes) : List Bytes := (lines q).1.filterMap asksFor

/-- The messages are replies to some of the targets, one each and in order, about the file that is
found under the document root with the target behind it, up to a `NUL`. The calls of `responseToGet`
are counted from `k` on. -/
inductive RepliesTo (env : Env) : Nat → List Bytes → List Bytes → Prop
  | done {k : Nat} {targets : List Bytes} : RepliesTo env k targets []
  | skip {k : Nat} {target : Bytes} {targets msgs : List Bytes} :
    RepliesTo env k targets msgs → RepliesTo env k (target :: targets) msgs
  | reply {k : Nat} {target msg : Bytes} {targets msgs : List Bytes} :
    ReplyTo (env.fs k (cStr (env.fileDir ++ target))) msg → RepliesTo env (k + 1) targets msgs →
      RepliesTo env k (target :: targets) (msg :: msgs)

namespace RepliesTo
variable {env : Env} {k : Nat} {targets msgs msgs' : List Bytes}

theorem length_le (h : RepliesTo env k targets msgs) : msgs.length ≤ targets.length := by
  induction h with
  | done => exact Nat.zero_le _
  | skip _ ih => exact ih.trans (Nat.le_succ _)
  | reply _ _ ih => exact Nat.succ_le_succ ih

/-- The call is stopped before it has sent everything. -/
theorem part (h : RepliesTo env k targets msgs) (hfirst : msgs' <+: msgs) :
    RepliesTo env k targets msgs' := by
  induction h generalizing msgs' with
  | done =>
    rw [List.prefix_nil.mp hfirst]
    exact .done
  | skip _ ih => exact .skip (ih hfirst)
  | reply hreply _ ih =>
    rcases List.prefix_cons_iff.mp hfirst with rfl | ⟨rest, rfl, hrest⟩
    · exact .done
    · exact .reply hreply (ih hrest)

/-- Further targets are not answered. -/
theorem of_sublist {targets' : List Bytes} (hsub : targets.Sublist targets')
    (h : RepliesTo env k targets msgs) : RepliesTo env k targets' msgs := by
  induction hsub generalizing k msgs with
  | slnil => exact h
  | cons target _ ih => exact .skip (ih h)
  | cons_cons target _ ih =>
    cases h with
    | done => exact .done
    | skip h => exact .skip (ih h)
    | reply hreply h => exact .reply hreply (ih h)

end RepliesTo

theorem lookup_mem_contentTypes (ms : Bytes) :
    (mimeTypes.lookup ms).getD defaultMimeType ∈ contentTypes := by
  cases h : mimeTypes.lookup ms with
  | none => exact List.mem_cons_self
  | some v =>
    obtain ⟨l, l', heq, -⟩ := List.lookup_eq_some_iff.mp h
    have hmem : (ms, v) ∈ mimeTypes := heq ▸ List.mem_append_right l List.mem_cons_self
    exact List.mem_cons_of_mem _ (List.mem_map_of_mem hmem)

theorem lf_not_mem_contentType {mimeType : Bytes} (h : mimeType ∈ contentTypes) :
    LF ∉ mimeType := by
  have hall : ∀ m ∈ contentTypes, LF ∉ m := by decide
  exact hall mimeType h

/-- As many bytes are read as `lstat` has said. -/
theorem FileOutcome.length_text {file : FileOutcome} {body : Bytes} (h : file.text = some body) :
    body.length = file.lstat.stSize := by
  rw [text] at h
  generalize (if file.opened then file.mapped else none) = fileMap at h
  unfold readMapping at h
  split_ifs at h with hzero
  · cases h
    exact hzero.symm
  · cases fileMap with
    | none => cases h
    | some content =>
      obtain ⟨hle, heq⟩ := Option.ite_none_right_eq_some.mp h
      obtain rfl := Option.some.inj heq
      rw [List.length_take, Nat.min_eq_left hle]

theorem responseToGet_reply {file : FileOutcome} {c c' : HttpTcpConnection} {msg : Bytes}
    (hmime : c.mimeType ∈ contentTypes) (h : responseToGet file c = some (c', msg)) :
    ReplyTo file msg := by
  by_cases hlstat : file.lstat = .noent
  · rw [responseToGet_missing hlstat, Option.some.injEq, Prod.mk.injEq] at h
    obtain ⟨-, rfl⟩ := h
    refine .missing hlstat ?_ (statusCode_notFoundHead c.httpVersion)
    rw [notFoundResponse_eq]
    exact readHead_unlines (notFoundHead_ok c.httpVersion) notFoundMsg
  · rw [responseToGet_of_ne_noent hlstat] at h
    obtain ⟨body, hbody, heq⟩ := Option.map_eq_some_iff.mp h
    obtain ⟨-, rfl⟩ := Prod.mk.inj heq
    have hlength : file.lstat.stSize = body.length := (FileOutcome.length_text hbody).symm
    rw [hlength, successResponse_eq]
    refine .found hlstat (readHead_found c.keepAlive (lf_not_mem_contentType hmime) _ body)
      (statusCode_foundHead ..) ⟨hmime, ?_⟩ (contentLength_foundHead ..) hbody
    exact List.mem_cons_of_mem _ List.mem_cons_self

/-! ## The lines of a call -/

/-- The header phase changes `keepAlive` only. -/
theorem complete_eq (c : HttpTcpConnection) (m : HeaderMap) :
    ∃ keepAlive, complete c m = { c with keepAlive, processState := .responsing } := by
  rw [complete, setKeepAlive]
  split <;> split_ifs <;> exact ⟨_, rfl⟩

/-- The request that is being read, and what it asks for. -/
def Role.Asks (fileDir : Bytes) : Role → List Bytes → Prop
  | .request, due => due = []
  | .header c _, due => ∃ target, c.url = fileDir ++ target ∧ c.mimeType ∈ contentTypes ∧
      due = if c.requestType = .getMethod then [target] else []

section
variable {env : Env} {due rest : List Bytes}

theorem asks_openRequest (fileDir : Bytes) {l target : Bytes} (m : HeaderMap)
    (h : requestTarget l = some target) :
    Role.Asks fileDir (.header (openRequest fileDir l target) m) (asksFor l).toList := by
  refine ⟨target, rfl, lookup_mem_contentTypes _, ?_⟩
  change _ = if methodOf l = .getMethod then [target] else []
  rw [asksFor, h]
  split_ifs <;> rfl

/-- The answer to one request, and whatever is answered after it. -/
theorem repliesTo_answer {c : HttpTcpConnection} {m : HeaderMap} {f : Nat → Served} (k : Nat)
    (hasks : Role.Asks env.fileDir (.header c m) due)
    (h : ∀ k, RepliesTo env k rest (sends (f k).1)) :
    RepliesTo env k (due ++ rest) (sends ((answer env k (complete c m)).andThen f).1) := by
  obtain ⟨target, hurl, hmime, rfl⟩ := hasks
  obtain ⟨keepAlive, hcomplete⟩ := complete_eq c m
  rw [hcomplete, answer]
  simp only
  split_ifs with hget
  · have hpath : HttpTcpConnection.filePath { c with keepAlive, processState := .responsing } =
        cStr (env.fileDir ++ target) := by rw [← hurl]; rfl
    rw [hpath]
    cases hresp : responseToGet (env.fs k (cStr (env.fileDir ++ target)))
        { c with keepAlive, processState := .responsing } with
    | none => exact .done
    | some resp =>
      obtain ⟨c', msg⟩ := resp
      have hsends : sends (.send msg :: finishEffects env c' ++ (f (k + 1)).1) =
          msg :: sends (f (k + 1)).1 := by
        rw [sends_append]
        exact congrArg (msg :: · ++ _) responses_finishEffects
      simp only [Served.andThen, hsends]
      refine .reply (responseToGet_reply ?_ hresp) (h (k + 1))
      exact hmime
  · have hsilent : sends (finishEffects env
        { c with keepAlive, processState := .responsing }) = [] := responses_finishEffects
    simp only [Served.andThen, sends_append, hsilent]
    exact h k

/-- However the lines are read. -/
theorem repliesTo_serve {role : Role} (hrole : role.Asks env.fileDir due) (k : Nat)
    (ls : List Bytes) :
    RepliesTo env k (due ++ ls.filterMap asksFor) (sends (serve env k role ls).1) := by
  induction ls generalizing role due k with
  | nil =>
    cases role with
    | request => exact .done
    | header c m =>
      have hanswer := @repliesTo_answer env due [] c m (fun k => ([], .ok k)) k hrole fun _ => .done
      have hsame : (answer env k (complete c m)).andThen (fun k => ([], .ok k)) =
          answer env k (complete c m) := by
        obtain ⟨es, res⟩ := answer env k (complete c m)
        cases res with
        | ok k => simp [Served.andThen]
        | error f => rfl
      rw [hsame] at hanswer
      exact hanswer
  | cons l ls ih =>
    have hline : (l :: ls).filterMap asksFor = (asksFor l).toList ++ ls.filterMap asksFor := by
      cases h : asksFor l <;> simp [h]
    rw [hline]
    cases role with
    | request =>
      obtain rfl : due = [] := hrole
      cases htarget : requestTarget l with
      | none =>
        have hreject : sends (rejectEffects env (rejectedRequest l)) = [] :=
          responses_finishEffects
        rw [serve_request_of_none htarget, sends_append, hreject, List.nil_append, List.nil_append]
        exact (@ih [] .request rfl k).of_sublist (List.sublist_append_right _ _)
      | some target =>
        rw [serve_request_of_some htarget]
        split_ifs with hdot
        · exact ih (asks_openRequest env.fileDir [] htarget) k
        · exact .done
    | header c m =>
      rw [serve]
      split_ifs with hend hbody
      · refine repliesTo_answer k hrole fun k' => ?_
        exact (@ih [] .request rfl k').of_sublist (List.sublist_append_right _ _)
      · exact .done
      · cases hparse : parseHeader (chomp l) m with
        | none => exact .done
        | some m' =>
          -- a header line asks for nothing, whatever it looks like
          have hsub : (ls.filterMap asksFor).Sublist ((asksFor l).toList ++ ls.filterMap asksFor) :=
            List.sublist_append_right _ _
          exact (@ih due (.header c m') hrole k).of_sublist (hsub.append_left due)

end

/-- **Whatever a call is given**, it sends whole replies to what it is asked for. -/
theorem answers_replies (env : Env) (q : Bytes) : RepliesTo env 0 (targets q) (answers env q) := by
  rw [answers, served]
  split_ifs with hq
  · have hreject : sends (rejectEffects env (rejectedRequest [])) = [] := responses_finishEffects
    rw [hreject]
    exact .done
  · exact @repliesTo_serve env [] .request rfl 0 _

end Httpancake
