import Httpancake.Http.Shapes

/-! # How a call ends

A call of `onMessage` returns when it leaves no bytes, is stopped by a fault of `serve`, or runs
forever on an unfinished line: `retrieveLineAsString` answers the empty string for it and consumes
nothing, so that every iteration ends in the state in which it began. -/

namespace Httpancake

open Bytes OnMessage

/-- The effects and the result of a call on a buffer with the content `q`. An empty buffer has one
iteration too. -/
def served (env : Env) (k : Nat) (q : Bytes) : Served :=
  if q = [] then (rejectEffects env (rejectedRequest []), .ok k)
  else serve env k .request (lines q).1

namespace OnMessage

variable {env : Env} {s : OnMessage} {r : Served} {b : Buffer} {k : Nat} {t : Bytes}

/-! ## Without a complete line -/

/-- The connection of an iteration that reads no line. -/
def noRequest : HttpTcpConnection :=
  { HttpTcpConnection.fresh with processState := .processFailed }

theorem step_unfinished (hb : b.Holds t) (ht : LF ∉ t) :
    step env (start .fresh b k) =
      (⟨.parseHeaders, noRequest, b, k⟩, [requestLineErrorLog env]) := by
  have hparse : parseUrlLine env [] .fresh = some (rejectedRequest []) :=
    parseUrlLine_of_none requestTarget_nil
  have hurl : HttpTcpConnection.fresh.processState = .parseUrl := rfl
  have herr : (rejectedRequest []).processState = .requestLineError := rfl
  simp only [step, start, parseUrl, hurl, if_true, hb.retrieveLineAsString_none ht, hparse, herr]
  rfl

theorem run_rejected (i : Nat) :
    ((machine env).run i ⟨.parseHeaders, noRequest, b, k⟩).1 =
      match i with
      | 0 => ⟨.parseHeaders, noRequest, b, k⟩
      | 1 => ⟨.parseBody, noRequest, b, k⟩
      | 2 => ⟨.responsing, noRequest, b, k⟩
      | 3 => ⟨.finish, noRequest, b, k⟩
      | i + 4 => ((machine env).run i (after b k)).1 := by
  match i with
  | 0 | 1 | 2 | 3 | i + 4 => rfl

theorem steps_unfinished (hb : b.Holds t) (ht : LF ∉ t) :
    Steps env (start .fresh b k) (rejectEffects env (rejectedRequest [])) (after b k) :=
  .cons (step_unfinished hb ht) (steps_rejected rfl)

/-- An unfinished line is read again and again. -/
theorem not_terminates_unfinished (hb : b.Holds t) (ht : LF ∉ t) (hne : t ≠ []) :
    ¬ (machine env).Terminates (after b k) := by
  have hcycle : Steps env (start .fresh b k) _ (after b k) := steps_unfinished hb ht
  rw [← after_eq_start hb hne] at hcycle
  obtain ⟨p, hp⟩ := hcycle.exists_succ (List.cons_ne_nil _ _)
  refine Machine.not_terminates_of_cycle (congrArg Prod.fst hp) ?_
  rw [after_eq_start hb hne]
  exact id

/-! ## Any content -/

theorem does_served (env : Env) (k : Nat) {q : Bytes} (hb : b.Holds q) :
    Does env (start .fresh b k) (lines q).2 (served env k q) := by
  rw [served]
  split_ifs with hq
  · subst hq
    exact ⟨b, hb, steps_unfinished hb List.not_mem_nil⟩
  · rw [← after_eq_start hb hq]
    rw [← unlines_lines_append q] at hb
    have hserve : Does env (reading b k .request) (lines q).2 (serve env k .request (lines q).1) :=
      serve_spec (fun _ => not_mem_of_mem_lines) (not_mem_lines_rest q) hb
    exact hserve

theorem after_final (hb : b.Holds []) : (after b k).pc = .returned := by
  simp [after, hb.readableBytes_eq]

theorem Does.terminates_iff (h : Does env s t r) (ht : LF ∉ t) :
    (machine env).Terminates s ↔ t = [] ∨ ∃ f, r.2 = .error f := by
  obtain ⟨es, res⟩ := r
  cases res with
  | ok k =>
    obtain ⟨b, hb, hs⟩ := h
    rw [hs.terminates_iff]
    constructor
    · intro hterm
      by_contra hne
      exact not_terminates_unfinished hb ht (fun h => hne (.inl h)) hterm
    · rintro (rfl | ⟨f, hf⟩)
      · exact Machine.terminates_of_final (by simp [after_final hb, Pc.Final])
      · cases hf
  | error f =>
    obtain ⟨s', hpc, hs⟩ := h
    refine ⟨fun _ => .inr ⟨f, rfl⟩, fun _ => hs.terminates_iff.mpr ?_⟩
    exact Machine.terminates_of_final (by simp [hpc, Pc.Final])

theorem Does.stops_iff (h : Does env s t r) (ht : LF ∉ t) {f : Fault} :
    (∃ n, ((machine env).run n s).1.pc = .stopped f) ↔ r.2 = .error f := by
  constructor
  · rintro ⟨n, hn⟩
    have hfinal : ((machine env).run n s).1.pc.Final := by simp [hn, Pc.Final]
    have hrun : Steps env s ((machine env).run n s).2 ((machine env).run n s).1 := ⟨n, rfl⟩
    obtain ⟨es, res⟩ := r
    cases res with
    | ok k =>
      obtain ⟨b, hb, hs⟩ := id h
      rcases (h.terminates_iff ht).mp ⟨n, hfinal⟩ with rfl | ⟨f', hf'⟩
      · have heq := (hrun.final_unique hfinal hs (by simp [after_final hb, Pc.Final])).1
        rw [heq, after_final hb] at hn
        cases hn
      · cases hf'
    | error f' =>
      obtain ⟨s', hpc, hs⟩ := h
      have heq := (hrun.final_unique hfinal hs (by simp [hpc, Pc.Final])).1
      rw [heq, hpc] at hn
      cases hn
      rfl
  · intro hr
    obtain ⟨es, res⟩ := r
    cases hr
    obtain ⟨s', hpc, n, hn⟩ := h
    exact ⟨n, by rw [hn]; exact hpc⟩

end OnMessage
end Httpancake
