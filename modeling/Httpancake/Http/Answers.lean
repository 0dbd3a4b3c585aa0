import Httpancake.Http.Pipelining
import Httpancake.Http.Termination

/-! # What a call has sent so far

`answers` are the messages of a call on given input. However far the call has come, it has sent a
first part of them (`OnMessage.sends_run`); a call that has returned has sent all of them, has read
all of its input and leaves a cleared parse state (`OnMessage.returned_spec`). -/

namespace Httpancake

open Bytes OnMessage

/-- The messages that a call on the input `q` sends. -/
def answers (env : Env) (q : Bytes) : List Bytes := sends (served env 0 q).1

@[simp] theorem sends_nil : sends [] = [] := rfl

@[simp] theorem sends_append (es es' : List Effect) : sends (es ++ es') = sends es ++ sends es' :=
  List.filterMap_append

theorem sends_prefix {es es' : List Effect} (h : es <+: es') : sends es <+: sends es' := by
  obtain ⟨rest, rfl⟩ := h
  rw [sends_append]
  exact List.prefix_append _ _

namespace OnMessage

variable {env : Env} {s s' : OnMessage} {es : List Effect} {b : Buffer} {k : Nat} {t : Bytes}

/-! ## An unfinished line -/

/-- The call reads the unfinished line `t` again and again. -/
structure Unfinished (t : Bytes) (s : OnMessage) : Prop where
  holds : s.inBuffer.Holds t
  rest : LF ∉ t ∧ t ≠ []
  pc : s.pc = .parseUrl ∧ s.conn = .fresh ∨
    s.pc ∈ [Pc.parseHeaders, .parseBody, .responsing, .finish] ∧ s.conn = noRequest

theorem Unfinished.step (env : Env) (h : s.Unfinished t) :
    (step env s).1.Unfinished t ∧ sends (step env s).2 = [] := by
  obtain ⟨pc, conn, b, k⟩ := s
  obtain ⟨hb, hrest, hpc⟩ := h
  have hpasses (pc' : Pc) (hmem : pc' ∈ [Pc.parseHeaders, .parseBody, .responsing, .finish]) :
      Unfinished t ⟨pc', noRequest, b, k⟩ := ⟨hb, hrest, .inr ⟨hmem, rfl⟩⟩
  rcases hpc with ⟨hpc, hconn⟩ | ⟨hpc, hconn⟩
  · obtain rfl : pc = .parseUrl := hpc
    obtain rfl : conn = .fresh := hconn
    have hstep := @step_unfinished env b k t hb hrest.1
    rw [start] at hstep
    rw [hstep]
    exact ⟨hpasses .parseHeaders (by simp), rfl⟩
  · obtain rfl : conn = noRequest := hconn
    simp only [List.mem_cons, List.not_mem_nil, or_false] at hpc
    rcases hpc with rfl | rfl | rfl | rfl
    · exact ⟨hpasses .parseBody (by simp), rfl⟩
    · exact ⟨hpasses .responsing (by simp), rfl⟩
    · exact ⟨hpasses .finish (by simp), rfl⟩
    · have hne : b.readableBytes ≠ 0 := by
        rw [hb.readableBytes_eq]
        exact mt List.length_eq_zero_iff.mp hrest.2
      exact ⟨⟨hb, hrest, .inl ⟨if_pos hne, rfl⟩⟩, responses_finishEffects⟩

/-- It never sends anything. -/
theorem Unfinished.run (h : s.Unfinished t) (n : Nat) :
    sends ((machine env).run n s).2 = [] := by
  induction n generalizing s with
  | zero => rfl
  | succ n ih =>
    obtain ⟨hstep, hnone⟩ := h.step env
    rw [Machine.run, sends_append, hnone, ih hstep]
    rfl

/-! ## Any input -/

/-- Up to an unfinished line, a call sends a first part of its answers. -/
theorem sends_run {q : Bytes} (hb : b.Holds q) (n : Nat) :
    sends ((machine env).run n (start .fresh b 0)).2 <+: answers env q := by
  have hdoes := does_served env 0 hb
  rw [answers]
  generalize served env 0 q = r at hdoes
  obtain ⟨es, res⟩ := r
  cases res with
  | error f =>
    obtain ⟨s', hpc, hsteps⟩ := hdoes
    exact sends_prefix (hsteps.run_prefix (by simp [hpc, Pc.Final]) n)
  | ok k =>
    obtain ⟨b', hb', m, hm⟩ := hdoes
    rcases Nat.le_total n m with hle | hle
    · obtain ⟨d, rfl⟩ := Nat.exists_eq_add_of_le hle
      rw [Machine.run_add] at hm
      exact sends_prefix ⟨_, congrArg Prod.snd hm⟩
    · obtain ⟨d, rfl⟩ := Nat.exists_eq_add_of_le hle
      rw [Machine.run_add, hm, sends_append]
      -- the lines are served, and the rest is no line
      have hnone : sends ((machine env).run d (after b' k)).2 = [] := by
        by_cases hrest : (lines q).2 = []
        · rw [hrest] at hb'
          rw [Machine.run_final (by simp [after_final hb', Pc.Final])]
          rfl
        · rw [after_eq_start hb' hrest]
          exact Unfinished.run ⟨hb', ⟨not_mem_lines_rest q, hrest⟩, .inl ⟨rfl, rfl⟩⟩ d
      rw [hnone, List.append_nil]

/-- **A call that has returned** has sent all its answers, read all its input and cleared its parse
state. -/
theorem returned_spec {q : Bytes} (hb : b.Holds q) (hsteps : Steps env (start .fresh b 0) es s')
    (hpc : s'.pc = .returned) :
    sends es = answers env q ∧ s'.inBuffer.Holds [] ∧ s'.conn = .fresh := by
  have hdoes := does_served env 0 hb
  have hfinal : s'.pc.Final := by simp [hpc, Pc.Final]
  have hterm : (machine env).Terminates (start .fresh b 0) :=
    hsteps.terminates_iff.mpr (Machine.terminates_of_final hfinal)
  have hends := (hdoes.terminates_iff (not_mem_lines_rest q)).mp hterm
  rw [answers]
  generalize served env 0 q = r at hdoes hends
  obtain ⟨es', res⟩ := r
  cases res with
  | error f =>
    obtain ⟨s'', hstop, hsteps'⟩ := hdoes
    obtain ⟨rfl, -⟩ := hsteps.final_unique hfinal hsteps' (by simp [hstop, Pc.Final])
    rw [hpc] at hstop
    cases hstop
  | ok k =>
    obtain ⟨b', hb', hsteps'⟩ := hdoes
    have hrest : (lines q).2 = [] := by
      apply hends.resolve_right
      intro hfault
      obtain ⟨f, hfault⟩ := hfault
      cases hfault
    rw [hrest] at hb'
    obtain ⟨rfl, rfl⟩ := hsteps.final_unique hfinal hsteps' (by simp [after_final hb', Pc.Final])
    exact ⟨rfl, hb', rfl⟩

end OnMessage
end Httpancake
