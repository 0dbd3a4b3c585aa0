import Httpancake.Http.WellFormed
import Httpancake.Http.Faults

/-! # Cutting the input into chunks

A call of `onMessage` forgets an unfinished request when it returns: the header lines that arrive
in the next chunk are read as a request. `CutsOk` says which ways of cutting a sequence of
well-formed requests are harmless all the same, and `segmentation_iff` that these are the only
ones. -/

namespace Httpancake

open Bytes OnMessage

/-! ## The condition -/

/-- The map after reading some lines as header lines. -/
def headerFields (m : HeaderMap) : List Bytes → Option HeaderMap
  | [] => some m
  | l :: ls => (parseHeader (chomp l) m).bind fun m => headerFields m ls

/-- The lines up to the first empty line are themselves a `POST` request that keeps the
connection open. -/
def Continues (fileDir : Bytes) (ls : List Bytes) : Prop :=
  ∃ l rest target m, ls.takeWhile (· ≠ blankLine) = l :: rest ∧ requestTarget l = some target ∧
    DOT ∈ fileDir ++ target ∧ methodOf l = .postMethod ∧ headerFields [] rest = some m ∧
    (setKeepAlive (openRequest fileDir l target) m).keepAlive = true

/-- Every chunk ends with a line feed, and one that begins in the middle of a request continues
with a `POST` request. -/
def CutsOk (fileDir : Bytes) : (midRequest : Bool) → List Bytes → Prop
  | _, [] => True
  | midRequest, chunk :: chunks =>
    chunk.getLast? = some LF ∧ (midRequest → Continues fileDir (lines chunk).1) ∧
      CutsOk fileDir ((lines chunk).1.getLast? ≠ some blankLine) chunks

/-! ## Where a cut may fall -/

/-- What remains: the header lines of a request whose first line has arrived, then requests. -/
structure Rest where
  pending : Option (List Header)
  requests : List GetRequest

def Rest.lines : Rest → List Bytes
  | ⟨none, rs⟩ => rs.flatMap GetRequest.lines
  | ⟨some hs, rs⟩ => hs.map Header.line ++ blankLine :: rs.flatMap GetRequest.lines

/-- `Cut rs ls started rest`: the lines `ls` from the front of the requests `rs` are the requests
`started`, of which the last may be unfinished, and `rest` remains. -/
inductive Cut : List GetRequest → List Bytes → List GetRequest → Rest → Prop
  | nothing (rs) : Cut rs [] [] ⟨none, rs⟩
  | inside (r rs hs hs') (hr : r.headers = hs ++ hs') :
    Cut (r :: rs) (requestLine r.target :: hs.map Header.line) [r] ⟨some hs', rs⟩
  | request (r) {rs} (ls) {started rest} (h : Cut rs ls started rest) :
    Cut (r :: rs) (r.lines ++ ls) (r :: started) rest

/-- `Resumed rs tail started rest`: behind some header lines the chunk ends, or the empty line and
a cut of the requests `rs` follow. -/
inductive Resumed : List GetRequest → List Bytes → List GetRequest → Rest → Prop
  | inside (rs hs) : Resumed rs [] [] ⟨some hs, rs⟩
  | behind {rs} (ls) {started rest} (h : Cut rs ls started rest) :
    Resumed rs (blankLine :: ls) started rest

theorem Cut.of_append {rs : List GetRequest} {ls ls' : List Bytes}
    (h : rs.flatMap GetRequest.lines = ls ++ ls') :
    ∃ started rest, Cut rs ls started rest ∧ rest.lines = ls' := by
  induction rs generalizing ls with
  | nil =>
    obtain ⟨rfl, rfl⟩ := List.append_eq_nil_iff.mp h.symm
    exact ⟨[], _, .nothing [], rfl⟩
  | cons r rs ih =>
    cases ls with
    | nil => exact ⟨[], _, .nothing (r :: rs), h⟩
    | cons l ls =>
      rw [List.flatMap_cons, List.append_eq_append_iff] at h
      rcases h with ⟨ls₁, hls, hrest⟩ | ⟨ls₁, hline, rfl⟩
      · obtain ⟨started, rest, hcut, hrest⟩ := ih hrest
        exact ⟨r :: started, rest, hls ▸ .request r ls₁ hcut, hrest⟩
      · obtain ⟨rfl, hbody⟩ := List.cons_eq_cons.mp hline
        have hbody : r.headers.map Header.line ++ [blankLine] = ls ++ ls₁ := hbody
        rw [List.append_eq_append_iff] at hbody
        rcases hbody with ⟨ls₂, rfl, hblank⟩ | ⟨ls₂, hheaders, rfl⟩
        · rcases List.append_eq_singleton_iff.mp hblank.symm with ⟨rfl, rfl⟩ | ⟨rfl, rfl⟩
          · refine ⟨[r], ⟨some [], rs⟩, ?_, rfl⟩
            simpa using Cut.inside r rs r.headers [] (by simp)
          · refine ⟨[r], ⟨none, rs⟩, ?_, rfl⟩
            simpa [GetRequest.lines] using Cut.request r [] (.nothing rs)
        · obtain ⟨hs, hs', hcat, rfl, rfl⟩ := List.map_eq_append_iff.mp hheaders
          refine ⟨[r], ⟨some hs', rs⟩, .inside r rs hs hs' hcat, ?_⟩
          simp [Rest.lines]

theorem Resumed.of_append {hs : List Header} {rs : List GetRequest} {ls ls' : List Bytes}
    (h : hs.map Header.line ++ blankLine :: rs.flatMap GetRequest.lines = ls ++ ls') :
    ∃ (hs₁ : List Header) (tail : List Bytes) (started : List GetRequest) (rest : Rest),
      ls = hs₁.map Header.line ++ tail ∧ Resumed rs tail started rest ∧
      rest.lines = ls' := by
  rw [List.append_eq_append_iff] at h
  rcases h with ⟨ls₁, rfl, hblank⟩ | ⟨ls₁, hheaders, rfl⟩
  · cases ls₁ with
    | nil => exact ⟨hs, [], [], _, rfl, .inside rs [], hblank⟩
    | cons l ls₁ =>
      obtain ⟨rfl, hrest⟩ := List.cons_eq_cons.mp hblank
      obtain ⟨started, rest, hcut, hrest⟩ := Cut.of_append hrest
      exact ⟨hs, _, started, rest, rfl, .behind ls₁ hcut, hrest⟩
  · obtain ⟨hs₁, hs₂, rfl, rfl, rfl⟩ := List.map_eq_append_iff.mp hheaders
    exact ⟨hs₁, [], [], _, by simp, .inside rs hs₂, rfl⟩

theorem Cut.requests {rs : List GetRequest} {ls : List Bytes} {started : List GetRequest}
    {rest : Rest} (h : Cut rs ls started rest) : rs = started ++ rest.requests := by
  induction h with
  | nothing rs => rfl
  | inside r rs hs hs' hr => rfl
  | request r ls h ih => rw [ih]; rfl

theorem Resumed.requests {rs : List GetRequest} {ls : List Bytes} {started : List GetRequest}
    {rest : Rest} (h : Resumed rs ls started rest) : rs = started ++ rest.requests := by
  cases h with
  | inside => rfl
  | behind ls h => exact h.requests

theorem getLast?_headers (hs : List Header) :
    (hs.map Header.line).getLast? ≠ some blankLine := by
  rw [List.getLast?_map]
  intro hlast
  obtain ⟨x, -, hx⟩ := Option.map_eq_some_iff.mp hlast
  exact x.line_ne_blankLine hx

/-- A chunk that ends with an empty line ends with a request. -/
theorem Cut.pending_iff {rs : List GetRequest} {ls : List Bytes} {started : List GetRequest}
    {rest : Rest} (h : Cut rs ls started rest) (hne : ls ≠ []) :
    rest.pending.isSome ↔ ls.getLast? ≠ some blankLine := by
  induction h with
  | nothing rs => exact absurd rfl hne
  | inside r rs hs hs' hr =>
    simp only [Option.isSome_some, true_iff]
    cases hs with
    | nil => simpa using requestLine_ne_blankLine r.target
    | cons h hs =>
      rw [List.getLast?_cons_of_ne_nil (by simp)]
      exact getLast?_headers (h :: hs)
  | request r ls h ih =>
    cases ls with
    | nil =>
      cases h
      simp [GetRequest.lines, List.getLast?_append, List.getLast?_cons]
    | cons l ls =>
      rw [ih (by simp), List.getLast?_append_of_ne_nil _ (by simp)]

theorem Resumed.pending_iff {hs : List Header} {rs : List GetRequest} {ls : List Bytes}
    {started : List GetRequest} {rest : Rest} (h : Resumed rs ls started rest)
    (hne : hs.map Header.line ++ ls ≠ []) :
    rest.pending.isSome ↔ (hs.map Header.line ++ ls).getLast? ≠ some blankLine := by
  cases h with
  | inside =>
    simp only [List.append_nil] at hne ⊢
    simpa using getLast?_headers hs
  | behind ls h =>
    cases ls with
    | nil =>
      cases h
      simp [List.getLast?_append]
    | cons l ls =>
      rw [h.pending_iff (by simp), List.getLast?_append_of_ne_nil _ (by simp),
        List.getLast?_cons_cons]

theorem Rest.lf_not_mem_lines (rest : Rest) : ∀ l ∈ rest.lines, LF ∉ l := by
  have hrs : ∀ l ∈ rest.requests.flatMap GetRequest.lines, LF ∉ l := by
    intro l hl
    obtain ⟨r, -, hr⟩ := List.mem_flatMap.mp hl
    exact r.lf_not_mem_lines l hr
  obtain ⟨_ | hs, rs⟩ := rest
  · exact hrs
  · intro l hl
    rcases List.mem_append.mp hl with hl | hl
    · obtain ⟨h, -, rfl⟩ := List.mem_map.mp hl
      exact h.lf_not_mem_line
    · rcases List.mem_cons.mp hl with rfl | hl
      · decide
      · exact hrs l hl

/-! ## One chunk -/

/-- What a request gets. -/
def respond (env : Env) (r : GetRequest) : Outcome :=
  outcome (answer env 0 (r.answered env.fileDir))

def respondAll (env : Env) : List GetRequest → Outcome
  | [] => .empty
  | r :: rs => (respond env r).andThen (respondAll env rs)

theorem respondAll_append {env : Env} (rs rs' : List GetRequest) :
    respondAll env (rs ++ rs') = (respondAll env rs).andThen (respondAll env rs') := by
  induction rs with
  | nil => simp [respondAll]
  | cons r rs ih => simp only [List.cons_append, respondAll, ih, Outcome.andThen_assoc]

theorem Cut.endsBody_headD {rs : List GetRequest} {ls : List Bytes} {started : List GetRequest}
    {rest : Rest} (h : Cut rs ls started rest) : endsBody (ls.headD []) := by
  cases h with
  | nothing => rfl
  | inside r => exact endsBody_requestLine r.target
  | request r => exact endsBody_requestLine r.target

section
variable {env : Env} {k : Nat}

/-- The empty line ends the header section, and the request is answered. -/
theorem serve_blankLine (hfs : ∀ k, env.fs k = env.fs 0) {c : HttpTcpConnection} {m : HeaderMap}
    {ls : List Bytes} {o : Outcome} (hend : endsBody (ls.headD []))
    (h : ∀ k, outcome (serve env k .request ls) = o) :
    outcome (serve env k (.header c m) (blankLine :: ls)) =
      (outcome (answer env 0 (complete c m))).andThen o := by
  have hblank : endsHeaders blankLine := rfl
  rw [serve, if_pos hblank, if_pos hend, outcome_andThen h, outcome_answer hfs]

/-- **Requests that start in a chunk are answered.** -/
theorem Cut.serve (hfs : ∀ k, env.fs k = env.fs 0) {rs : List GetRequest} {ls : List Bytes}
    {started : List GetRequest} {rest : Rest} (h : Cut rs ls started rest) :
    outcome (serve env k .request ls) = respondAll env started := by
  induction h generalizing k with
  | nothing => rfl
  | inside r rs hs hs' hr =>
    have hheaders := @serve_headers env k (openRequest env.fileDir (requestLine r.target) r.target)
      [] hs []
    rw [List.append_nil] at hheaders
    rw [serve_requestLine, hheaders, Httpancake.serve, outcome_answer hfs,
      complete_openRequest hr, respondAll, respondAll, Outcome.andThen_empty, respond]
  | request r ls h ih =>
    rw [serve_lines r h.endsBody_headD, outcome_andThen fun _ => ih, outcome_answer hfs]
    rfl

theorem Resumed.serve (hfs : ∀ k, env.fs k = env.fs 0) {c : HttpTcpConnection} {m : HeaderMap}
    {rs : List GetRequest} {ls : List Bytes} {started : List GetRequest} {rest : Rest}
    (h : Resumed rs ls started rest) :
    outcome (serve env k (.header c m) ls) =
      (outcome (answer env 0 (complete c m))).andThen (respondAll env started) := by
  cases h with
  | inside =>
    rw [Httpancake.serve, outcome_answer hfs, respondAll, Outcome.andThen_empty]
  | behind ls h => exact serve_blankLine hfs h.endsBody_headD fun _ => h.serve hfs

/-! ## A chunk that begins in the middle of a request -/

theorem headerFields_headers (m : HeaderMap) (hs : List Header) :
    headerFields m (hs.map Header.line) = some (headerMap m hs) := by
  induction hs generalizing m with
  | nil => rfl
  | cons h hs ih =>
    rw [List.map_cons, headerFields, h.parseHeader_line, Option.bind_some, ih]
    rfl

theorem takeWhile_headers {hs : List Header} {rs : List GetRequest} {ls : List Bytes}
    {started : List GetRequest} {rest : Rest} (h : Resumed rs ls started rest) :
    (hs.map Header.line ++ ls).takeWhile (· ≠ blankLine) = hs.map Header.line := by
  have hhs : ∀ l ∈ hs.map Header.line, decide (l ≠ blankLine) = true := by
    intro l hl
    obtain ⟨h, -, rfl⟩ := List.mem_map.mp hl
    exact decide_eq_true h.line_ne_blankLine
  rw [List.takeWhile_append_of_pos hhs]
  cases h <;> simp

/-- The header lines that are left over are themselves a request. -/
theorem continues_iff {fileDir : Bytes} {h : Header} {hs : List Header} {rs : List GetRequest}
    {ls : List Bytes} {started : List GetRequest} {rest : Rest} (hr : Resumed rs ls started rest) :
    Continues fileDir ((h :: hs).map Header.line ++ ls) ↔
      ∃ target, requestTarget h.line = some target ∧ DOT ∈ fileDir ++ target ∧
        methodOf h.line = .postMethod ∧
        (complete (openRequest fileDir h.line target) (headerMap [] hs)).keepAlive = true := by
  rw [Continues, takeWhile_headers hr]
  constructor
  · rintro ⟨l, rest, target, m, heq, htarget, hdot, hm, hfields, halive⟩
    cases heq
    rw [headerFields_headers] at hfields
    cases hfields
    exact ⟨target, htarget, hdot, hm, halive⟩
  · rintro ⟨target, htarget, hdot, hm, halive⟩
    exact ⟨_, _, target, _, rfl, htarget, hdot, hm, headerFields_headers [] hs, halive⟩

/-- Something goes wrong, or there are at least `n` responses. -/
def Outcome.Least (n : Nat) (o : Outcome) : Prop :=
  o.fault.isSome ∨ o.forceClosed = true ∨ n ≤ o.responses.length

theorem Outcome.Least.andThen {m n : Nat} {o o' : Outcome} (h : o.Least m) (h' : o'.Least n) :
    (o.andThen o').Least (m + n) := by
  obtain ⟨rs, b, f⟩ := o
  obtain ⟨rs', b', f'⟩ := o'
  cases f with
  | some f => exact .inl rfl
  | none =>
    simp only [Least, Outcome.andThen, Option.isSome_none, Bool.false_eq_true, false_or,
      Bool.or_eq_true, List.length_append] at h h' ⊢
    rcases h with h | h
    · exact .inr (.inl (.inl h))
    · rcases h' with h' | h' | h'
      · exact .inl h'
      · exact .inr (.inl (.inr h'))
      · exact .inr (.inr (Nat.add_le_add h h'))

theorem Outcome.Least.mono {m n : Nat} {o : Outcome} (h : o.Least n) (hle : m ≤ n) : o.Least m := by
  rcases h with h | h | h
  · exact .inl h
  · exact .inr (.inl h)
  · exact .inr (.inr (hle.trans h))

theorem outcome_rejected {l : Bytes} (ls : List Bytes) (h : requestTarget l = none) (n : Nat) :
    (outcome (serve env k .request (l :: ls))).Least n := by
  have hclose : Effect.forceClose ∈ rejectEffects env (rejectedRequest l) :=
    List.mem_cons_of_mem _ (forceClose_mem_finishEffects.mpr rfl)
  rw [serve_request_of_none h]
  refine .inr (.inl ?_)
  simp only [outcome, decide_eq_true_eq]
  exact List.mem_append_left _ hclose

theorem complete_requestType (c : HttpTcpConnection) (m : HeaderMap) :
    (complete c m).requestType = c.requestType := by
  simp only [complete, setKeepAlive]
  split
  · split <;> rfl
  · split <;> rfl

/-- Header lines that are left over: what is served when they are a harmless `POST` request. -/
theorem serve_continues (hfs : ∀ k, env.fs k = env.fs 0) {hs : List Header}
    {rs : List GetRequest} {ls : List Bytes} {started : List GetRequest} {rest : Rest}
    (hr : Resumed rs ls started rest) (hok : Continues env.fileDir (hs.map Header.line ++ ls)) :
    outcome (serve env k .request (hs.map Header.line ++ ls)) = respondAll env started := by
  cases hs with
  | nil =>
    have htake := @takeWhile_headers [] _ _ _ _ hr
    obtain ⟨l, rest, target, m, heq, -⟩ := hok
    rw [htake] at heq
    cases heq
  | cons h hs =>
    obtain ⟨target, htarget, hdot, hm, halive⟩ := (continues_iff hr).mp hok
    have hpost : (complete (openRequest env.fileDir h.line target) (headerMap [] hs)).requestType =
        .postMethod := by rw [complete_requestType]; exact hm
    rw [List.map_cons, List.cons_append, serve_request_of_some htarget, if_pos hdot, serve_headers,
      hr.serve hfs, outcome_answer_of_ne_get (by simp [hpost]), halive]
    exact Outcome.empty_andThen _

end

/-- Where no file exists, a `GET` request gets a response. -/
theorem outcome_answer_noFiles {env : Env} (hfs : env.fs = noFiles) {c : HttpTcpConnection}
    (hc : c.requestType = .getMethod) :
    ∃ msg, outcome (answer env 0 c) = ⟨[msg], !c.keepAlive, none⟩ := by
  refine ⟨notFoundResponse c, ?_⟩
  rw [outcome_answer_get hc, hfs]
  rfl

theorem respondAll_noFiles {env : Env} (hfs : env.fs = noFiles) (rs : List GetRequest) :
    ∃ msgs, msgs.length = rs.length ∧ respondAll env rs = ⟨msgs, false, none⟩ := by
  induction rs with
  | nil => exact ⟨[], rfl, rfl⟩
  | cons r rs ih =>
    obtain ⟨msgs, hlen, hrs⟩ := ih
    have hget : (r.answered env.fileDir).requestType = .getMethod := methodOf_requestLine r.target
    obtain ⟨msg, hr⟩ := outcome_answer_noFiles hfs hget
    refine ⟨msg :: msgs, by simp [hlen], ?_⟩
    rw [respondAll, respond, hr, hrs]
    rfl

theorem respondAll_least {env : Env} (hfs : env.fs = noFiles) (rs : List GetRequest) :
    (respondAll env rs).Least rs.length := by
  obtain ⟨msgs, hlen, hrs⟩ := respondAll_noFiles hfs rs
  rw [hrs]
  exact .inr (.inr hlen.ge)

/-- Header lines that are left over: every other shape shows. -/
theorem serve_not_continues {env : Env} {k : Nat} (hfs : env.fs = noFiles) {hs : List Header}
    {rs : List GetRequest} {ls : List Bytes} {started : List GetRequest} {rest : Rest}
    (hr : Resumed rs ls started rest) (hne : hs.map Header.line ++ ls ≠ [])
    (hbad : ¬ Continues env.fileDir (hs.map Header.line ++ ls)) :
    (outcome (serve env k .request (hs.map Header.line ++ ls))).Least (started.length + 1) := by
  cases hs with
  | nil =>
    cases hr with
    | inside => exact absurd rfl hne
    | behind ls h => exact outcome_rejected ls requestTarget_blankLine _
  | cons h hs =>
    cases htarget : requestTarget h.line with
    | none => exact outcome_rejected _ htarget _
    | some target =>
      rw [List.map_cons, List.cons_append, serve_request_of_some htarget]
      split_ifs with hdot
      · have hconst : ∀ k, env.fs k = env.fs 0 := fun k => by rw [hfs]; rfl
        rw [serve_headers, hr.serve hconst, Nat.add_comm]
        refine Outcome.Least.andThen ?_ (respondAll_least hfs started)
        have htype := complete_requestType (openRequest env.fileDir h.line target) (headerMap [] hs)
        by_cases hget : (openRequest env.fileDir h.line target).requestType = .getMethod
        · obtain ⟨msg, hmsg⟩ := outcome_answer_noFiles hfs (htype.trans hget)
          rw [hmsg]
          exact .inr (.inr (Nat.le_refl 1))
        · rw [outcome_answer_of_ne_get (htype ▸ hget)]
          refine .inr (.inl ?_)
          rw [Bool.not_eq_true', ← Bool.not_eq_true]
          refine fun halive => hbad ((continues_iff hr).mpr ⟨target, htarget, hdot, ?_, halive⟩)
          cases hm : methodOf h.line with
          | getMethod => exact absurd hm hget
          | postMethod => rfl
          | nullMethod => exact absurd hm (methodOf_ne_null htarget)
      · exact .inl rfl

/-- What a chunk starts, what it leaves, and what is served. -/
theorem serve_chunk {rest : Rest} {ls ls' : List Bytes} (hne : ls ≠ [])
    (h : rest.lines = ls ++ ls') :
    ∃ (started : List GetRequest) (rest' : Rest),
      rest.requests = started ++ rest'.requests ∧ rest'.lines = ls' ∧
      (rest'.pending.isSome ↔ ls.getLast? ≠ some blankLine) ∧
      ∀ (env : Env) (k : Nat), (∀ k, env.fs k = env.fs 0) →
        ((rest.pending.isSome → Continues env.fileDir ls) →
          outcome (serve env k .request ls) = respondAll env started) ∧
        (¬ (rest.pending.isSome → Continues env.fileDir ls) → env.fs = noFiles →
          (outcome (serve env k .request ls)).Least (started.length + 1)) := by
  obtain ⟨_ | hs, rs⟩ := rest
  · obtain ⟨started, rest', hcut, hrest'⟩ := Cut.of_append h
    refine ⟨started, rest', hcut.requests, hrest', hcut.pending_iff hne, fun env k hfs => ?_⟩
    exact ⟨fun _ => hcut.serve hfs, fun hbad => absurd (fun h => by cases h) hbad⟩
  · obtain ⟨hs₁, tail, started, rest', rfl, hr, hrest'⟩ := Resumed.of_append h
    refine ⟨started, rest', hr.requests, hrest', hr.pending_iff hne, fun env k hfs => ?_⟩
    exact ⟨fun hok => serve_continues hfs hr (hok rfl),
      fun hbad hnone => serve_not_continues hnone hr hne fun hok => hbad fun _ => hok⟩

/-! ## All chunks -/

/-- The lines of a chunk that ends with a line feed, and those behind it. -/
theorem split_chunk {rest : Rest} {chunk s : Bytes} (h : unlines rest.lines = chunk ++ s)
    (hchunk : (lines chunk).2 = []) :
    rest.lines = (lines chunk).1 ++ (lines s).1 ∧ unlines (lines s).1 = s := by
  have hlines := lines_unlines rest.lf_not_mem_lines
  rw [h, lines_append_of_rest_nil hchunk] at hlines
  obtain ⟨hfst, hsnd⟩ := Prod.mk.inj hlines
  have hs := unlines_lines_append s
  rw [hsnd, List.append_nil] at hs
  exact ⟨hfst.symm, hs⟩

theorem lines_ne_nil {chunk : Bytes} (hne : chunk ≠ []) (hchunk : (lines chunk).2 = []) :
    (lines chunk).1 ≠ [] := by
  intro hnil
  have h := unlines_lines_append chunk
  rw [hnil, hchunk] at h
  exact hne h.symm

theorem rest_of_nil {rest : Rest} (h : unlines rest.lines = []) : rest.requests = [] := by
  have hlines : rest.lines = [] := by
    cases hl : rest.lines with
    | nil => rfl
    | cons l ls =>
      rw [hl] at h
      exact absurd h unlines_ne_nil
  obtain ⟨_ | hs, _ | ⟨r, rs⟩⟩ := rest
  · rfl
  · cases hlines
  · rfl
  · simp [Rest.lines] at hlines

/-- Good cuts: the requests are answered in order. -/
theorem deliver_of_cutsOk {env : Env} (hfs : ∀ k, env.fs k = env.fs 0) {chunks : List Bytes}
    (hne : ∀ c ∈ chunks, c ≠ []) {rest : Rest} (hcut : unlines rest.lines = chunks.flatten)
    (hok : CutsOk env.fileDir rest.pending.isSome chunks) {k : Nat} :
    (deliver env k chunks).map outcome = some (respondAll env rest.requests) := by
  induction chunks generalizing rest k with
  | nil => rw [rest_of_nil hcut]; rfl
  | cons chunk chunks ih =>
    obtain ⟨hlast, hcont, hok⟩ := hok
    have hchunk : (lines chunk).2 = [] := lines_rest_eq_nil_iff.mpr (.inr hlast)
    obtain ⟨hsplit, hs⟩ := split_chunk hcut hchunk
    have hlne := lines_ne_nil (hne chunk List.mem_cons_self) hchunk
    obtain ⟨started, rest', hreq, hrest', hpend, hserve⟩ := serve_chunk hlne hsplit
    have hpend : rest'.pending.isSome = decide ((lines chunk).1.getLast? ≠ some blankLine) := by
      rw [Bool.eq_iff_iff, hpend, decide_eq_true_eq]
    have ih := fun k => @ih (fun c hc => hne c (List.mem_cons_of_mem _ hc)) rest'
      (by rw [hrest', hs]) (hpend ▸ hok) k
    have hout := (hserve env k hfs).1 hcont
    rw [deliver, hreq, respondAll_append, ← hout]
    cases hr : serve env k .request (lines chunk).1 with
    | mk es res =>
    cases res with
    | error f => rfl
    | ok k' =>
      obtain ⟨r, hr, hro⟩ := Option.map_eq_some_iff.mp (ih k')
      simp only [if_pos hchunk, hr, Option.map_some, ← hro, Option.some.injEq]
      simp [outcome, Outcome.andThen]

/-- Where no file exists, bad cuts show: something goes wrong, or there are too many responses. -/
theorem deliver_least {env : Env} (hfs : env.fs = noFiles) {chunks : List Bytes}
    (hne : ∀ c ∈ chunks, c ≠ []) {rest : Rest} (hcut : unlines rest.lines = chunks.flatten)
    {k : Nat} {r : Served} (hr : deliver env k chunks = some r) :
    (outcome r).Least rest.requests.length ∧
      (¬ CutsOk env.fileDir rest.pending.isSome chunks →
        (outcome r).Least (rest.requests.length + 1)) := by
  induction chunks generalizing rest k r with
  | nil =>
    rw [rest_of_nil hcut]
    exact ⟨.inr (.inr (Nat.zero_le _)), fun hbad => absurd trivial hbad⟩
  | cons chunk chunks ih =>
    rw [deliver] at hr
    cases hserve : serve env k .request (lines chunk).1 with
    | mk es res =>
    rw [hserve] at hr
    cases res with
    | error f =>
      cases hr
      exact ⟨.inl rfl, fun _ => .inl rfl⟩
    | ok k' =>
      by_cases hchunk : (lines chunk).2 = []
      · simp only [if_pos hchunk] at hr
        obtain ⟨r', hr', rfl⟩ := Option.map_eq_some_iff.mp hr
        have hconst : ∀ k, env.fs k = env.fs 0 := fun k => by rw [hfs]; rfl
        have hcne := hne chunk List.mem_cons_self
        have hlast : chunk.getLast? = some LF :=
          (lines_rest_eq_nil_iff.mp hchunk).resolve_left hcne
        obtain ⟨hsplit, hs⟩ := split_chunk hcut hchunk
        obtain ⟨started, rest', hreq, hrest', hpend, hone⟩ :=
          serve_chunk (lines_ne_nil hcne hchunk) hsplit
        have hpend : rest'.pending.isSome = decide ((lines chunk).1.getLast? ≠ some blankLine) := by
          rw [Bool.eq_iff_iff, hpend, decide_eq_true_eq]
        obtain ⟨hleast, hbad⟩ := ih (fun c hc => hne c (List.mem_cons_of_mem _ hc))
          (by rw [hrest', hs]) hr'
        obtain ⟨hgood, hmore⟩ := hone env k hconst
        rw [hserve] at hgood hmore
        have hout : outcome (es ++ r'.1, r'.2) = (outcome (es, .ok k')).andThen (outcome r') := by
          simp [outcome, Outcome.andThen]
        have hlen : rest.requests.length = started.length + rest'.requests.length := by
          rw [hreq, List.length_append]
        rw [hout, hlen]
        by_cases hok : rest.pending.isSome → Continues env.fileDir (lines chunk).1
        · have hfirst : (outcome (es, .ok k')).Least started.length :=
            hgood hok ▸ respondAll_least hfs started
          refine ⟨hfirst.andThen hleast, fun hcuts => ?_⟩
          rw [Nat.add_assoc]
          refine hfirst.andThen (hbad fun hcuts' => hcuts ⟨hlast, hok, ?_⟩)
          exact hpend ▸ hcuts'
        · have hfirst := (hmore hok hfs).andThen hleast
          rw [Nat.add_right_comm] at hfirst
          exact ⟨hfirst.mono (Nat.le_succ _), fun _ => hfirst⟩
      · simp only [if_neg hchunk] at hr
        cases hr

/-- **Which cuts are harmless.** Whatever the files, a sequence of requests that arrives in chunks
has the outcome that it has when it arrives in one, exactly when every cut is as `CutsOk` says. -/
theorem segmentation_iff (fileDir connName : Bytes) {rs : List GetRequest} (hrs : rs ≠ [])
    {chunks : List Bytes} (hne : ∀ c ∈ chunks, c ≠ [])
    (hcut : chunks.flatten = unlines (rs.flatMap GetRequest.lines)) :
    (∀ (files : Bytes → FileOutcome) (o : Outcome),
      Delivery.Ends ⟨fileDir, connName, fun _ => files⟩ [chunks.flatten] o ↔
        Delivery.Ends ⟨fileDir, connName, fun _ => files⟩ chunks o) ↔
      CutsOk fileDir false chunks := by
  let rest : Rest := ⟨none, rs⟩
  have hrest : unlines rest.lines = chunks.flatten := hcut.symm
  have hwhole : ∀ c ∈ [chunks.flatten], c ≠ [] := by
    intro c hc hnil
    rw [List.mem_singleton.mp hc, ← hrest] at hnil
    exact hrs (rest_of_nil hnil)
  have hone : CutsOk fileDir false [chunks.flatten] := by
    have hnil : (lines chunks.flatten).2 = [] := by
      rw [← hrest, lines_unlines rest.lf_not_mem_lines]
    refine ⟨(lines_rest_eq_nil_iff.mp hnil).resolve_left (hwhole _ List.mem_cons_self), ?_, trivial⟩
    exact fun h => by cases h
  have hdeliver (files : Bytes → FileOutcome) :
      (deliver ⟨fileDir, connName, fun _ => files⟩ 0 [chunks.flatten]).map outcome =
        some (respondAll ⟨fileDir, connName, fun _ => files⟩ rs) :=
    deliver_of_cutsOk (fun _ => rfl) hwhole (by simpa using hrest) hone
  simp only [Delivery.ends_iff hne, Delivery.ends_iff hwhole, hdeliver]
  constructor
  · intro h
    by_contra hbad
    obtain ⟨r, hr, hro⟩ := Option.map_eq_some_iff.mp ((h (noFiles 0) _).mp rfl)
    obtain ⟨msgs, hlen, hall⟩ := @respondAll_noFiles ⟨fileDir, connName, noFiles⟩ rfl rs
    have hleast := (deliver_least rfl hne hrest hr).2 hbad
    rw [hro] at hleast
    change (respondAll ⟨fileDir, connName, noFiles⟩ rs).Least (rs.length + 1) at hleast
    rw [hall] at hleast
    rcases hleast with h | h | h
    · cases h
    · cases h
    · exact Nat.not_succ_le_self _ (hlen ▸ h)
  · intro hok files o
    rw [deliver_of_cutsOk (fun _ => rfl) hne hrest hok]

/-- `GET /x.c HTTP/1.1` with the header `Host: h`. -/
def exampleRequest : GetRequest where
  target := ascii "/x.c"
  headers := [⟨ascii "Host", ascii "h", by decide, by decide⟩]
  dot := by decide
  target_ok := by decide
  keepAlive := by decide

theorem segmentation_iff_two_requests :
    CutsOk (ascii "/srv") false [unlines exampleRequest.lines, unlines exampleRequest.lines] ∧
    ∀ (files : Bytes → FileOutcome) (o : Outcome),
      Delivery.Ends ⟨ascii "/srv", ascii "c", fun _ => files⟩
          [unlines exampleRequest.lines ++ unlines exampleRequest.lines] o ↔
        Delivery.Ends ⟨ascii "/srv", ascii "c", fun _ => files⟩
          [unlines exampleRequest.lines, unlines exampleRequest.lines] o := by
  have hcuts : CutsOk (ascii "/srv") false
      [unlines exampleRequest.lines, unlines exampleRequest.lines] :=
    ⟨by decide, nofun, by decide, fun h => absurd h (by decide), trivial⟩
  exact ⟨hcuts, (@segmentation_iff (ascii "/srv") (ascii "c") [exampleRequest, exampleRequest]
    (by decide) [unlines exampleRequest.lines, unlines exampleRequest.lines] (by decide)
    (by decide)).mpr hcuts⟩

/-- A cut inside the request line: the call on the first chunk never ends. -/
theorem segmentation_fails :
    let chunks := [ascii "GET /x.c", ascii " HTTP/1.1\r\nHost: h\r\n\r\n"]
    chunks.flatten = unlines exampleRequest.lines ∧
    ¬ ∀ (files : Bytes → FileOutcome) (o : Outcome),
      Delivery.Ends ⟨ascii "/srv", ascii "c", fun _ => files⟩ [chunks.flatten] o ↔
        Delivery.Ends ⟨ascii "/srv", ascii "c", fun _ => files⟩ chunks o := by
  refine ⟨by decide, fun h => ?_⟩
  have hcut : deliver ⟨ascii "/srv", ascii "c", noFiles⟩ 0
      [ascii "GET /x.c", ascii " HTTP/1.1\r\nHost: h\r\n\r\n"] = none := by rfl
  have hwhole : (deliver ⟨ascii "/srv", ascii "c", noFiles⟩ 0
      [ascii "GET /x.c HTTP/1.1\r\nHost: h\r\n\r\n"]).isSome := by decide
  obtain ⟨r, hr⟩ := Option.isSome_iff_exists.mp hwhole
  have hends := (Delivery.ends_iff (by decide)).mpr (congrArg (Option.map outcome) hr)
  have hends' : (deliver ⟨ascii "/srv", ascii "c", noFiles⟩ 0
      [ascii "GET /x.c", ascii " HTTP/1.1\r\nHost: h\r\n\r\n"]).map outcome = some (outcome r) :=
    (Delivery.ends_iff (by decide)).mp ((h (noFiles 0) (outcome r)).mp hends)
  rw [hcut] at hends'
  cases hends'

end Httpancake
