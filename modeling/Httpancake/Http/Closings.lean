import Httpancake.Http.Termination
import Httpancake.Http.WellFormed

/-! # How often a call of `onMessage` closes

Every iteration that does not keep the connection alive calls `forceClose` at its end: a rejected
request line, an answered request that asks for it, and each pass over an unfinished last line.
`closings` counts them on the lines of the input. -/

namespace Httpancake

open Bytes OnMessage

/-- The closes at the end of an iteration. -/
def HttpTcpConnection.closings (c : HttpTcpConnection) : Nat := if c.keepAlive then 0 else 1

/-- The closes of a call on complete lines, as far as no line stops it. -/
def closings (env : Env) : Role → List Bytes → Nat
  | .request, [] => 0
  | .request, l :: ls =>
    match parseUrlLine env l .fresh with
    | none => 0
    | some c =>
      if c.processState = .requestLineError then c.closings + closings env .request ls
      else closings env (.header { c with processState := .parseHeaders } []) ls
  | .header c m, [] => (complete c m).closings
  | .header c m, l :: ls =>
    if endsHeaders l then
      if endsBody (ls.headD []) then (complete c m).closings + closings env .request ls else 0
    else match parseHeader (chomp l) m with
      | none => 0
      | some m' => closings env (.header c m') ls

/-- The input asks for at most `bound` closes: its complete lines do, and it has no unfinished last
line that a call would reach. -/
def ClosesAtMost (env : Env) (bound : Nat) (q : Bytes) : Prop :=
  closings env .request (lines q).1 ≤ bound ∧
    ((lines q).2 = [] ∨ ¬ LinesOk env.fileDir false (lines q).1)

/-- The calls of `forceClose`. -/
def closes (effects : List Effect) : Nat := effects.count .forceClose

@[simp] theorem closes_nil : closes [] = 0 := rfl

@[simp] theorem closes_append (es es' : List Effect) :
    closes (es ++ es') = closes es + closes es' := List.count_append

@[simp] theorem closes_cons_send (msg : Bytes) (es : List Effect) :
    closes (.send msg :: es) = closes es := by
  simp [closes]

@[simp] theorem closes_cons_log (text : List Bytes) (es : List Effect) :
    closes (.log text :: es) = closes es := by
  simp [closes]

@[simp] theorem closes_cons_forceClose (es : List Effect) :
    closes (.forceClose :: es) = closes es + 1 := by
  simp [closes]

theorem closes_outcomeLog (env : Env) (c : HttpTcpConnection) : closes (outcomeLog env c) = 0 := by
  unfold outcomeLog
  split_ifs <;> rfl

theorem closes_finishEffects (env : Env) (c : HttpTcpConnection) :
    closes (finishEffects env c) = c.closings := by
  rw [finishEffects, closes_append, closes_outcomeLog, Nat.zero_add, HttpTcpConnection.closings]
  split_ifs <;> rfl

theorem closes_rejectEffects (env : Env) (c : HttpTcpConnection) :
    closes (rejectEffects env c) = c.closings := by
  rw [rejectEffects, requestLineErrorLog, closes_cons_log, closes_finishEffects]
  rfl

theorem closes_answer (env : Env) (k : Nat) (c : HttpTcpConnection) :
    closes (answer env k c).1 ≤ c.closings := by
  unfold answer
  split_ifs with hget
  · cases hresp : responseToGet (env.fs k c.filePath) c with
    | none => exact Nat.zero_le _
    | some r =>
      obtain ⟨c', msg⟩ := r
      rw [closes_cons_send, closes_finishEffects, HttpTcpConnection.closings,
        responseToGet_keepAlive hresp]
      exact Nat.le_refl _
  · exact Nat.le_of_eq (closes_finishEffects env c)

/-- A fault cuts the closes short; otherwise they are those of `closings`. -/
theorem closes_serve (env : Env) (k : Nat) (role : Role) (ls : List Bytes) :
    closes (serve env k role ls).1 ≤ closings env role ls := by
  induction ls generalizing role k with
  | nil =>
    cases role with
    | request => exact Nat.le_refl 0
    | header c m => exact closes_answer env k (complete c m)
  | cons l ls ih =>
    cases role with
    | request =>
      rw [serve, closings]
      cases hparse : parseUrlLine env l .fresh with
      | none => exact Nat.le_refl 0
      | some c =>
        simp only
        split_ifs with herr
        · rw [closes_append, closes_rejectEffects]
          exact Nat.add_le_add_left (ih k .request) _
        · exact ih k _
    | header c m =>
      rw [serve, closings]
      split_ifs with hend hbody
      · rw [Served.andThen]
        have hans := closes_answer env k (complete c m)
        cases (answer env k (complete c m)).2 with
        | ok k' =>
          simp only [closes_append]
          exact Nat.add_le_add hans (ih k' .request)
        | error f => exact hans.trans (Nat.le_add_right _ _)
      · exact Nat.le_refl 0
      · cases parseHeader (chomp l) m with
        | none => exact Nat.le_refl 0
        | some m' => exact ih k (.header c m')

theorem closes_le_of_prefix {es es' : List Effect} (h : es <+: es') : closes es ≤ closes es' :=
  h.sublist.count_le _

namespace OnMessage

/-- Only the end of an iteration closes. -/
theorem step_closes {env : Env} {s : OnMessage} (h : closes (step env s).2 ≠ 0) :
    s.pc = .finish ∧ s.conn.keepAlive = false := by
  cases hpc : s.pc with
  | finish =>
    simp only [step, hpc, finish, closes_finishEffects, HttpTcpConnection.closings] at h
    exact ⟨rfl, by simpa using h⟩
  | parseUrl =>
    simp only [step, hpc, parseUrl] at h
    split at h
    · split at h
      · exact absurd rfl h
      · split at h
        · exact absurd rfl h
        · split at h <;> exact absurd rfl h
    · exact absurd rfl h
  | responsing =>
    simp only [step, hpc, responsing] at h
    split at h
    · split at h <;> exact absurd rfl h
    · exact absurd rfl h
  | parseHeaders | headerLoop m | parseBody | bodyLoop l | returned | stopped f =>
    simp only [step, hpc] at h
    exact absurd rfl h

/-- **The closes of a call.** However far a call on new input has come, it has made no more closes
than the input asks for. -/
theorem closes_run_le {env : Env} {b : Buffer} {q : Bytes} {bound : Nat} (hb : b.Holds q)
    (hq : q ≠ []) (h : ClosesAtMost env bound q) (k n : Nat) :
    closes ((machine env).run n (start .fresh b k)).2 ≤ bound := by
  obtain ⟨hcount, hends⟩ := h
  have hserved : served env k q = serve env k .request (lines q).1 := if_neg hq
  have hdoes := does_served env k hb
  rw [hserved] at hdoes
  -- the call ends, and its effects are those of the lines
  obtain ⟨s', hfinal, hsteps⟩ : ∃ s', (machine env).Final s' ∧
      Steps env (start .fresh b k) (serve env k .request (lines q).1).1 s' := by
    rcases hres : (serve env k .request (lines q).1).2 with f | k'
    · rw [Does, hres] at hdoes
      obtain ⟨s', hpc, hsteps⟩ := hdoes
      exact ⟨s', by simp [hpc, Pc.Final], hsteps⟩
    · rw [Does, hres] at hdoes
      obtain ⟨b', hb', hsteps⟩ := hdoes
      rcases hends with hnil | hbad
      · rw [hnil] at hb'
        exact ⟨_, by simp [after_final hb', Pc.Final], hsteps⟩
      · obtain ⟨f, hf, -⟩ := serve_error_of_not_linesOk env (k := k) .request hbad
        rw [hres] at hf
        cases hf
  calc closes ((machine env).run n (start .fresh b k)).2
      ≤ closes (serve env k .request (lines q).1).1 :=
        closes_le_of_prefix (Machine.Steps.run_prefix hsteps hfinal n)
    _ ≤ closings env .request (lines q).1 := closes_serve env k .request _
    _ ≤ bound := hcount

end OnMessage
end Httpancake
