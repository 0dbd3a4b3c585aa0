import Httpancake.Http.Endings

/-! # Which inputs stop the process

`LinesOk` collects the shapes that no line of the input may have: a request target without a dot
in its path, a header line with its only colon at its end, and behind the header lines of a request
a line that is neither empty nor a request line. `onMessage_no_fault_iff` shows that these are the
only inputs on which `substr` throws or an assertion of `Buffer` fails. -/

namespace Httpancake

open Bytes OnMessage

/-- No line has a shape at which the call is stopped. -/
def LinesOk (fileDir : Bytes) : (inHeaders : Bool) → List Bytes → Prop
  | _, [] => True
  | false, l :: ls =>
    match requestTarget l with
    | none => LinesOk fileDir false ls
    | some target => DOT ∈ fileDir ++ target ∧ LinesOk fileDir true ls
  | true, l :: ls =>
    if l = [] ∨ l.head? = some CR then
      (∀ next ∈ ls.head?, next = [] ∨ ascii "HTTP/" <:+: next) ∧ LinesOk fileDir false ls
    else ¬ LoneFinalColon (chomp l) ∧ LinesOk fileDir true ls

instance decidableLinesOk (fileDir : Bytes) :
    (inHeaders : Bool) → (ls : List Bytes) → Decidable (LinesOk fileDir inHeaders ls)
  | true, [] | false, [] => isTrue trivial
  | false, l :: ls => by
    have := decidableLinesOk fileDir false ls
    have := decidableLinesOk fileDir true ls
    unfold LinesOk
    cases requestTarget l <;> exact inferInstance
  | true, l :: ls => by
    have := decidableLinesOk fileDir false ls
    have := decidableLinesOk fileDir true ls
    unfold LinesOk
    exact inferInstance

def Role.inHeaders : Role → Bool
  | .request => false
  | .header _ _ => true

theorem endsBody_headD_iff {ls : List Bytes} :
    endsBody (ls.headD []) ↔ ∀ next ∈ ls.head?, next = [] ∨ ascii "HTTP/" <:+: next := by
  rw [endsBody_iff]
  cases ls with
  | nil => simp
  | cons l ls => simp

/-- The answer faults only when a mapped file cannot be read. -/
theorem answer_error {env : Env} {k : Nat} {c : HttpTcpConnection} {f : Fault}
    (h : (answer env k c).2 = .error f) : f = .badRead := by
  unfold answer at h
  split at h
  · split at h <;> cases h
    rfl
  · cases h

/-- On good lines only an answer can stop the process. -/
theorem serve_error_of_linesOk (env : Env) {k : Nat} (role : Role) {ls : List Bytes} {f : Fault}
    (hok : LinesOk env.fileDir role.inHeaders ls) (h : (serve env k role ls).2 = .error f) :
    ∃ k c, (answer env k c).2 = .error f := by
  induction ls generalizing role k with
  | nil =>
    cases role with
    | request => cases h
    | header c m => exact ⟨k, _, h⟩
  | cons l ls ih =>
    cases role with
    | request =>
      cases htarget : requestTarget l with
      | none =>
        simp only [Role.inHeaders, LinesOk, htarget] at hok
        rw [serve_request_of_none htarget] at h
        exact ih .request hok h
      | some target =>
        simp only [Role.inHeaders, LinesOk, htarget] at hok
        rw [serve_request_of_some htarget, if_pos hok.1] at h
        exact ih (.header _ _) hok.2 h
    | header c m =>
      simp only [Role.inHeaders, LinesOk] at hok
      rw [serve] at h
      by_cases hend : endsHeaders l
      · rw [if_pos (endsHeaders_iff.mp hend)] at hok
        rw [if_pos hend, if_pos (endsBody_headD_iff.mpr hok.1), Served.andThen] at h
        cases hans : (answer env k (complete c m)).2 with
        | ok k' =>
          rw [hans] at h
          exact ih .request hok.2 h
        | error f' =>
          rw [hans] at h
          exact ⟨k, _, h⟩
      · rw [if_neg (endsHeaders_iff.not.mp hend)] at hok
        rw [if_neg hend] at h
        cases hparse : parseHeader (chomp l) m with
        | none => exact absurd (parseHeader_eq_none_iff.mp hparse) hok.1
        | some m' =>
          rw [hparse] at h
          exact ih (.header c m') hok.2 h

/-- Every other input stops the process, and not in an answer if all answers are given. -/
theorem serve_error_of_not_linesOk (env : Env) {k : Nat} (role : Role) {ls : List Bytes}
    (hbad : ¬ LinesOk env.fileDir role.inHeaders ls) :
    ∃ f, (serve env k role ls).2 = .error f ∧
      ((∀ k c f, (answer env k c).2 ≠ .error f) → f ≠ .badRead) := by
  induction ls generalizing role k with
  | nil =>
    refine absurd ?_ hbad
    cases role <;> exact trivial
  | cons l ls ih =>
    cases role with
    | request =>
      cases htarget : requestTarget l with
      | none =>
        simp only [Role.inHeaders, LinesOk, htarget] at hbad
        rw [serve_request_of_none htarget]
        exact ih .request hbad
      | some target =>
        simp only [Role.inHeaders, LinesOk, htarget, not_and] at hbad
        rw [serve_request_of_some htarget]
        split_ifs with hdot
        · exact ih (.header _ _) (hbad hdot)
        · exact ⟨.outOfRange, rfl, fun _ => by decide⟩
    | header c m =>
      simp only [Role.inHeaders, LinesOk] at hbad
      rw [serve]
      by_cases hend : endsHeaders l
      · rw [if_pos (endsHeaders_iff.mp hend), ← endsBody_headD_iff, not_and] at hbad
        rw [if_pos hend]
        split_ifs with hnext
        · rw [Served.andThen]
          cases hans : (answer env k (complete c m)).2 with
          | ok k' => exact ih .request (hbad hnext)
          | error f => exact ⟨f, hans, fun h => absurd hans (h _ _ _)⟩
        · exact ⟨.assertion, rfl, fun _ => by decide⟩
      · rw [if_neg (endsHeaders_iff.not.mp hend), not_and] at hbad
        rw [if_neg hend]
        cases hparse : parseHeader (chomp l) m with
        | none => exact ⟨.outOfRange, rfl, fun _ => by decide⟩
        | some m' =>
          refine ih (.header c m') (hbad fun hlone => ?_)
          rw [parseHeader_eq_none_iff.mpr hlone] at hparse
          cases hparse

/-- A document root in which no file exists. -/
def noFiles : FileSystem := fun _ _ => ⟨.noent, false, none⟩

theorem answer_noFiles (fileDir connName : Bytes) (k : Nat) (c : HttpTcpConnection) (f : Fault) :
    (answer ⟨fileDir, connName, noFiles⟩ k c).2 ≠ .error f := by
  unfold answer
  split <;> simp [responseToGet, noFiles]

/-- No step of a call throws `out_of_range` and none violates an assertion of `Buffer`. -/
def NoFault (env : Env) (s : OnMessage) : Prop :=
  ∀ n, ((machine env).run n s).1.pc ≠ .stopped .outOfRange ∧
    ((machine env).run n s).1.pc ≠ .stopped .assertion

theorem noFault_iff {env : Env} {b : Buffer} {q : Bytes} {k : Nat} (hb : b.Holds q) :
    NoFault env (start .fresh b k) ↔
      ∀ f, (served env k q).2 = .error f → f = .badRead := by
  have hstops : ∀ f, (∃ n, ((machine env).run n (start .fresh b k)).1.pc = .stopped f) ↔
      (served env k q).2 = .error f := fun f =>
    (does_served env k hb).stops_iff (not_mem_lines_rest q)
  constructor
  · intro h f hf
    obtain ⟨n, hn⟩ := (hstops f).mpr hf
    cases f with
    | outOfRange => exact absurd hn (h n).1
    | assertion => exact absurd hn (h n).2
    | badRead => rfl
  · intro h n
    refine ⟨fun hn => ?_, fun hn => ?_⟩
    · cases h _ ((hstops .outOfRange).mp ⟨n, hn⟩)
    · cases h _ ((hstops .assertion).mp ⟨n, hn⟩)

/-- **Which inputs are safe.** A call on a fresh connection is free of faults, whatever the files,
exactly when no line of the input has one of the shapes that `LinesOk` excludes. -/
theorem onMessage_no_fault_iff (fileDir connName : Bytes) {b : Buffer} {q : Bytes}
    (hb : b.Holds q) :
    (∀ fs, NoFault ⟨fileDir, connName, fs⟩ (start .fresh b 0)) ↔
      LinesOk fileDir false (lines q).1 := by
  have hserved (fs) (hq : q ≠ []) : served ⟨fileDir, connName, fs⟩ 0 q =
      serve ⟨fileDir, connName, fs⟩ 0 .request (lines q).1 := if_neg hq
  constructor
  · intro h
    by_contra hbad
    have hq : q ≠ [] := by
      rintro rfl
      exact hbad trivial
    have hfault := (noFault_iff hb).mp (h noFiles)
    rw [hserved noFiles hq] at hfault
    obtain ⟨f, hf, hne⟩ :=
      serve_error_of_not_linesOk ⟨fileDir, connName, noFiles⟩ .request hbad
    exact hne (answer_noFiles fileDir connName) (hfault f hf)
  · intro hok fs
    refine (noFault_iff hb).mpr fun f hf => ?_
    by_cases hq : q = []
    · subst hq
      cases hf
    · rw [hserved fs hq] at hf
      obtain ⟨k, c, hans⟩ := serve_error_of_linesOk _ .request hok hf
      exact answer_error hans

/-- The input buffer of a fresh connection after the bytes `q` have arrived. -/
def arrived (q : Bytes) : Buffer := Buffer.layout (List.replicate kCheapPrepend 0) q []

theorem arrived_holds (q : Bytes) : (arrived q).Holds q :=
  Buffer.layout_holds (by simp)

theorem onMessage_no_fault_iff_get :
    let q := ascii "GET /x.c HTTP/1.1\r\nHost: h\r\n\r\n"
    LinesOk (ascii "/srv") false (lines q).1 ∧
    ∀ fs, NoFault ⟨ascii "/srv", ascii "c", fs⟩ (start .fresh (arrived q) 0) :=
  ⟨by decide, (onMessage_no_fault_iff _ _ (arrived_holds _)).mpr (by decide)⟩

/-- A path without a dot, a header line that ends in its colon, and a line of a request body. -/
theorem onMessage_faults :
    let env : Env := ⟨ascii "/srv", ascii "c", noFiles⟩
    ¬ NoFault env (start .fresh (arrived (ascii "GET /x HTTP/1.1\r\n\r\n")) 0) ∧
    ¬ NoFault env (start .fresh (arrived (ascii "GET /x.c HTTP/1.1\r\nHost:\r\n\r\n")) 0) ∧
    ¬ NoFault env (start .fresh (arrived (ascii "POST /x.c HTTP/1.1\r\n\r\nabc\n")) 0) := by
  refine ⟨fun h => (h 1).1 ?_, fun h => (h 4).1 ?_, fun h => (h 6).2 ?_⟩ <;> decide

end Httpancake
