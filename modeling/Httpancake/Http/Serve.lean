import Httpancake.Http.OnMessage

/-! # What `onMessage` does with a sequence of lines

`serve` is the meaning of `onMessage` on the complete lines in its input buffer: a recursion over
the lines, in which each line is read either as a request line or as a header line. `serve_spec`
connects it to the machine: from a fresh connection whose buffer holds the lines `ls` and an
unfinished line `t`, the machine has the effects of `serve` and then stops with its fault, or is
done with all lines and has only `t` left. -/

namespace Httpancake

open Bytes OnMessage

/-- What the next line is read as. -/
inductive Role where
  | request
  | header (c : HttpTcpConnection) (headerContents : HeaderMap)

/-- The effects, and the fault or the number of `responseToGet` calls. -/
abbrev Served := List Effect × Except Fault Nat

/-- Going on with `f` unless a fault ended the process. -/
def Served.andThen (r : Served) (f : Nat → Served) : Served :=
  match r.2 with
  | .ok k => (r.1 ++ (f k).1, (f k).2)
  | .error _ => r

/-- The effects of an iteration whose request line is rejected with the parse state `c`. -/
def rejectEffects (env : Env) (c : HttpTcpConnection) : List Effect :=
  requestLineErrorLog env :: finishEffects env { c with processState := .processFailed }

/-- The answer to a parsed request. -/
def answer (env : Env) (k : Nat) (c : HttpTcpConnection) : Served :=
  if c.requestType = .getMethod then
    match responseToGet (env.fs k c.filePath) c with
    | none => ([], .error .badRead)
    | some (c', msg) => (.send msg :: finishEffects env c', .ok (k + 1))
  else (finishEffects env c, .ok k)

/-- The request as it is answered after its header lines. -/
def complete (c : HttpTcpConnection) (headerContents : HeaderMap) : HttpTcpConnection :=
  { setKeepAlive c headerContents with processState := .responsing }

def serve (env : Env) : Nat → Role → List Bytes → Served
  | k, .request, [] => ([], .ok k)
  | k, .request, l :: ls =>
    match parseUrlLine env l .fresh with
    | none => ([], .error .outOfRange)
    | some c =>
      if c.processState = .requestLineError then
        (rejectEffects env c ++ (serve env k .request ls).1, (serve env k .request ls).2)
      else serve env k (.header { c with processState := .parseHeaders } []) ls
  | k, .header c m, [] => answer env k (complete c m)
  | k, .header c m, l :: ls =>
    if endsHeaders l then
      if endsBody (ls.headD []) then
        (answer env k (complete c m)).andThen fun k' => serve env k' .request ls
      else ([], .error .assertion)
    else match parseHeader (chomp l) m with
      | none => ([], .error .outOfRange)
      | some m' => serve env k (.header c m') ls

namespace OnMessage

/-- The state at the end of an iteration. -/
def after (b : Buffer) (k : Nat) : OnMessage where
  pc := if b.readableBytes ≠ 0 then .parseUrl else .returned
  conn := .fresh
  inBuffer := b
  fsCalls := k

/-- The state in which the next line is read as `role` says. -/
def reading (b : Buffer) (k : Nat) : Role → OnMessage
  | .request => after b k
  | .header c m => ⟨.headerLoop m, c, b, k⟩

/-- The machine does what `r` says and leaves the bytes `t`. -/
def Does (env : Env) (s : OnMessage) (t : Bytes) (r : Served) : Prop :=
  match r.2 with
  | .ok k => ∃ b : Buffer, b.Holds t ∧ Steps env s r.1 (after b k)
  | .error f => ∃ s', s'.pc = .stopped f ∧ Steps env s r.1 s'

variable {env : Env} {s s' : OnMessage} {es : List Effect} {t : Bytes} {r : Served}

theorem Does.of_steps (h : Steps env s es s') (h' : Does env s' t r) :
    Does env s t (es ++ r.1, r.2) := by
  obtain ⟨es', res⟩ := r
  cases res with
  | ok k =>
    obtain ⟨b, hb, hs⟩ := h'
    exact ⟨b, hb, h.trans hs⟩
  | error f =>
    obtain ⟨s'', hpc, hs⟩ := h'
    exact ⟨s'', hpc, h.trans hs⟩

theorem Does.silent (h : step env s = (s', [])) (h' : Does env s' t r) : Does env s t r :=
  Does.of_steps (Machine.Steps.silent h .refl) h'

theorem Does.andThen {q : Bytes} {f : Nat → Served} (h : Does env s q r)
    (h' : ∀ k (b : Buffer), b.Holds q → Does env (after b k) t (f k)) :
    Does env s t (r.andThen f) := by
  obtain ⟨es, res⟩ := r
  cases res with
  | ok k =>
    obtain ⟨b, hb, hs⟩ := h
    exact .of_steps hs (h' k b hb)
  | error f => exact h

theorem after_eq_start {b : Buffer} {q : Bytes} {k : Nat} (hb : b.Holds q) (hq : q ≠ []) :
    after b k = start .fresh b k := by
  simp [after, start, hb.readableBytes_eq, hq]

/-! ## One iteration -/

/-- The first step of an iteration reads a line as a request line. -/
theorem step_start {l q : Bytes} {b : Buffer} (k : Nat) (hb : b.Holds (l ++ LF :: q))
    (hl : LF ∉ l) :
    ∃ b' : Buffer, b'.Holds q ∧ step env (start .fresh b k) =
      match parseUrlLine env l .fresh with
      | none => (⟨.stopped .outOfRange, .fresh, b', k⟩, [])
      | some c =>
        if c.processState = .requestLineError then
          (⟨.parseHeaders, { c with processState := .processFailed }, b', k⟩,
            [requestLineErrorLog env])
        else (⟨.parseHeaders, { c with processState := .parseHeaders }, b', k⟩, []) := by
  obtain ⟨b', hline, hb'⟩ := hb.retrieveLineAsString_some hl
  have hfresh : HttpTcpConnection.fresh.processState = .parseUrl := rfl
  refine ⟨b', hb', ?_⟩
  cases hparse : parseUrlLine env l .fresh with
  | none => simp [step, start, parseUrl, hfresh, hline, hparse]
  | some c => by_cases herr : c.processState = .requestLineError <;>
      simp [step, start, parseUrl, hfresh, hline, hparse, herr]

theorem steps_finish (c : HttpTcpConnection) (b : Buffer) (k : Nat) :
    Steps env ⟨.finish, c, b, k⟩ (finishEffects env c) (after b k) := by
  have hstep : step env ⟨.finish, c, b, k⟩ = (after b k, finishEffects env c) := by
    simp [step, finish, after]
  simpa using Machine.Steps.head hstep .refl

/-- A rejected request line skips the three phases between. -/
theorem steps_rejected {c : HttpTcpConnection} {b : Buffer} {k : Nat}
    (hc : c.processState = .processFailed) :
    Steps env ⟨.parseHeaders, c, b, k⟩ (finishEffects env c)
      (after b k) := by
  have hheaders : step env ⟨.parseHeaders, c, b, k⟩ = (⟨.parseBody, c, b, k⟩, []) := by
    simp [step, parseHeaders, hc]
  have hbody : step env ⟨.parseBody, c, b, k⟩ = (⟨.responsing, c, b, k⟩, []) := by
    simp [step, parseBody, hc]
  have hresp : step env ⟨.responsing, c, b, k⟩ = (⟨.finish, c, b, k⟩, []) := by
    simp [step, responsing, hc]
  exact .silent hheaders (.silent hbody (.silent hresp (steps_finish c b k)))

/-- The response phase and the end of the iteration. -/
theorem does_answer {c : HttpTcpConnection} {b : Buffer} {k : Nat} (hb : b.Holds t)
    (hc : c.processState = .responsing) :
    Does env ⟨.responsing, c, b, k⟩ t (answer env k c) := by
  by_cases hget : c.requestType = .getMethod
  · cases hresp : responseToGet (env.fs k c.filePath) c with
    | none =>
      have hstep : step env ⟨.responsing, c, b, k⟩ = (⟨.stopped .badRead, c, b, k⟩, []) := by
        simp [step, responsing, hc, hget, hresp]
      rw [answer, if_pos hget, hresp]
      exact ⟨_, rfl, .silent hstep .refl⟩
    | some resp =>
      obtain ⟨c', msg⟩ := resp
      have hstep : step env ⟨.responsing, c, b, k⟩ =
          (⟨.finish, c', b, k + 1⟩, [.send msg]) := by
        simp [step, responsing, hc, hget, hresp]
      rw [answer, if_pos hget, hresp]
      exact ⟨b, hb, .cons hstep (steps_finish c' b (k + 1))⟩
  · have hstep : step env ⟨.responsing, c, b, k⟩ =
        (⟨.finish, c, b, k⟩, []) := by
      simp [step, responsing, hget]
    rw [answer, if_neg hget]
    exact ⟨b, hb, .silent hstep (steps_finish c b k)⟩

/-- The body loop retrieves the same length until nothing that long is left. -/
theorem bodyLoop_stops {l q : Bytes} {c : HttpTcpConnection} {b : Buffer} {k : Nat}
    (hb : b.Holds q) (hl : endsBody l = false) :
    ∃ s', s'.pc = .stopped .assertion ∧
      Steps env ⟨.bodyLoop l, c, b, k⟩ [] s' := by
  have hpos : 0 < l.length := by
    cases l with
    | nil => simp [endsBody] at hl
    | cons x l => simp
  induction hn : q.length using Nat.strong_induction_on generalizing q b with
  | _ n ih =>
    by_cases hlen : l.length ≤ q.length
    · obtain ⟨b', hret, hb'⟩ := hb.retrieve hlen
      have hshort : (q.drop l.length).length < n := by rw [List.length_drop]; omega
      obtain ⟨s', hpc, hs⟩ := ih _ hshort hb' rfl
      have hstep : step env ⟨.bodyLoop l, c, b, k⟩ = (⟨.bodyLoop l, c, b', k⟩, []) := by
        simp [step, bodyLoop, hl, hret]
      exact ⟨s', hpc, .silent hstep hs⟩
    · have hstep : step env ⟨.bodyLoop l, c, b, k⟩ = (⟨.stopped .assertion, c, b, k⟩, []) := by
        simp [step, bodyLoop, hl, hb.retrieve_eq_none (Nat.lt_of_not_le hlen)]
      exact ⟨_, rfl, .silent hstep .refl⟩

/-- From the end of the header phase: the check of the next line, then the answer. -/
theorem does_body (env : Env) (k : Nat) {l q : Bytes} {c : HttpTcpConnection} {b : Buffer}
    (hb : b.Holds q) (hc : c.processState = .parseBody) (hl : b.peekLine = l) :
    Does env ⟨.parseBody, c, b, k⟩ q
      (if endsBody l then answer env k { c with processState := .responsing }
        else ([], .error .assertion)) := by
  have hloop : step env ⟨.parseBody, c, b, k⟩ = (⟨.bodyLoop l, c, b, k⟩, []) := by
    simp [step, parseBody, hc, hl]
  refine Does.silent hloop ?_
  by_cases hend : endsBody l
  · have hstep : step env ⟨.bodyLoop l, c, b, k⟩ =
        (⟨.responsing, { c with processState := .responsing }, b, k⟩, []) := by
      simp [step, bodyLoop, hend]
    rw [if_pos hend]
    exact Does.silent hstep (does_answer hb rfl)
  · rw [if_neg hend]
    exact bodyLoop_stops hb (by simpa using hend)

/-! ## All lines -/

theorem peekLine_eq_head {b : Buffer} {ls : List Bytes} (hls : ∀ l ∈ ls, LF ∉ l) (ht : LF ∉ t)
    (hb : b.Holds (unlines ls ++ t)) : b.peekLine = ls.headD [] := by
  cases ls with
  | nil => exact hb.peekLine_none (by simpa using ht)
  | cons l ls =>
    simp only [unlines_cons, List.append_assoc, List.cons_append] at hb
    exact hb.peekLine_some (hls l List.mem_cons_self)

/-- **`onMessage` serves lines.** The machine reading the lines `ls` as `role` says does what
`serve` computes, and leaves the unfinished line `t`. -/
theorem serve_spec {ls : List Bytes} {role : Role} {b : Buffer} {k : Nat}
    (hls : ∀ l ∈ ls, LF ∉ l) (ht : LF ∉ t) (hb : b.Holds (unlines ls ++ t)) :
    Does env (reading b k role) t (serve env k role ls) := by
  induction ls generalizing role b k with
  | nil =>
    cases role with
    | request => exact ⟨b, by simpa using hb, .refl⟩
    | header c m =>
      -- an unfinished header section ends where the bytes end
      have hq : LF ∉ unlines [] ++ t := by simpa using ht
      have hstep : step env (reading b k (.header c m)) =
          (⟨.parseBody, { setKeepAlive c m with processState := .parseBody }, b, k⟩, []) := by
        simp [step, reading, headerLoop, hb.retrieveLineAsString_none hq, endsHeaders]
      refine Does.silent hstep ?_
      have hbody := does_body env k (c := { setKeepAlive c m with processState := .parseBody })
        (by simpa using hb) rfl (hb.peekLine_none hq)
      simpa [endsBody, serve, complete] using hbody
  | cons l ls ih =>
    have hl : LF ∉ l := hls l List.mem_cons_self
    have hls' : ∀ l' ∈ ls, LF ∉ l' := fun l' h => hls l' (List.mem_cons_of_mem _ h)
    simp only [unlines_cons, List.append_assoc, List.cons_append] at hb
    cases role with
    | request =>
      have hstart : reading b k .request = start .fresh b k := after_eq_start hb (by simp)
      obtain ⟨b', hb', hstep⟩ := @step_start env l _ b k hb hl
      rw [hstart, serve]
      cases hparse : parseUrlLine env l .fresh with
      | none =>
        simp only [hparse] at hstep
        exact ⟨_, rfl, .silent hstep .refl⟩
      | some c =>
        simp only [hparse] at hstep
        by_cases herr : c.processState = .requestLineError
        · simp only [if_pos herr] at hstep ⊢
          have hs : Steps env (start .fresh b k) (rejectEffects env c) (after b' k) :=
            .cons hstep (steps_rejected rfl)
          exact .of_steps hs (ih hls' hb')
        · simp only [if_neg herr] at hstep ⊢
          have hloop : step env ⟨.parseHeaders, { c with processState := .parseHeaders }, b', k⟩ =
              (reading b' k (.header { c with processState := .parseHeaders } []), []) := by
            simp [step, parseHeaders, reading]
          exact Does.silent hstep (Does.silent hloop (ih hls' hb'))
    | header c m =>
      obtain ⟨b', hline, hb'⟩ := hb.retrieveLineAsString_some hl
      rw [serve]
      by_cases hend : endsHeaders l
      · have hstep : step env (reading b k (.header c m)) =
            (⟨.parseBody, { setKeepAlive c m with processState := .parseBody }, b', k⟩,
              []) := by
          simp [step, reading, headerLoop, hline, hend]
        have hbody := does_body env k (c := { setKeepAlive c m with processState := .parseBody })
          hb' rfl (peekLine_eq_head hls' ht hb')
        rw [if_pos hend]
        refine Does.silent hstep ?_
        by_cases hnext : endsBody (ls.headD [])
        · rw [if_pos hnext] at hbody ⊢
          exact hbody.andThen fun k' b'' hb'' => ih hls' hb''
        · rw [if_neg hnext] at hbody ⊢
          exact hbody
      · rw [if_neg hend]
        cases hparse : parseHeader (chomp l) m with
        | none =>
          have hstep : step env (reading b k (.header c m)) =
              (⟨.stopped .outOfRange, c, b', k⟩, []) := by
            simp [step, reading, headerLoop, hline, hend, hparse]
          exact ⟨_, rfl, .silent hstep .refl⟩
        | some m' =>
          have hstep : step env (reading b k (.header c m)) =
              (reading b' k (.header c m'), []) := by
            simp [step, reading, headerLoop, hline, hend, hparse]
          exact Does.silent hstep (ih hls' hb')

end OnMessage
end Httpancake
