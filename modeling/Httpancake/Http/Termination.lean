import Httpancake.Http.Faults

/-! # When a call of `onMessage` ends

No step makes the input longer, and an iteration that reads a complete line makes it shorter
(`step_sound`). An iteration without a complete line changes nothing, so the call ends exactly when
the last line is finished or a fault stops it first (`onMessage_terminates_iff`). -/

namespace Httpancake

open Bytes OnMessage

namespace OnMessage

/-- The input buffer is well formed, and an iteration begins with a cleared parse state. -/
structure Sound (s : OnMessage) : Prop where
  holds : ∃ q, s.inBuffer.Holds q
  fresh : s.pc = .parseUrl → s.conn = .fresh

variable {env : Env} {s : OnMessage}

/-- A line read succeeds, and consumes something when there is a line. -/
theorem retrieveLine_shorter {b : Buffer} {q : Bytes} (hb : b.Holds q) :
    ∃ b' l q', b.retrieveLineAsString = some (b', l) ∧ b'.Holds q' ∧ q'.length ≤ q.length ∧
      (LF ∈ q → q'.length < q.length) := by
  by_cases hq : LF ∈ q
  · obtain ⟨l, q', rfl, hl⟩ := List.eq_append_cons_of_mem hq
    obtain ⟨b', hline, hb'⟩ := hb.retrieveLineAsString_some hl
    refine ⟨b', l, q', hline, hb', ?_, fun _ => ?_⟩
    · simp only [List.length_append, List.length_cons]; omega
    · simp only [List.length_append, List.length_cons]; omega
  · exact ⟨b, [], q, hb.retrieveLineAsString_none hq, hb, Nat.le_refl _, fun h => absurd h hq⟩

/-- Only the end of an iteration leads to the next one, or out of the loop. -/
theorem step_pc_of_ne_finish (hpc : s.pc ≠ .finish) (hret : s.pc ≠ .returned) :
    (step env s).1.pc ≠ .parseUrl ∧ (step env s).1.pc ≠ .returned := by
  cases h : s.pc with
  | finish => exact absurd h hpc
  | returned => exact absurd h hret
  | parseUrl =>
    simp only [step, h, parseUrl]
    split
    · split
      · simp
      · split
        · simp
        · split <;> simp
    · simp
  | parseHeaders =>
    simp only [step, h, parseHeaders]
    split <;> simp
  | headerLoop m =>
    simp only [step, h, headerLoop]
    split
    · simp
    · split
      · simp
      · split <;> simp
  | parseBody =>
    simp only [step, h, parseBody]
    split <;> simp
  | bodyLoop l =>
    simp only [step, h, bodyLoop]
    split
    · simp
    · split <;> simp
  | responsing =>
    simp only [step, h, responsing]
    split
    · split <;> simp
    · simp
  | stopped f => simp [step, h]

theorem step_pc_parseUrl (h : (step env s).1.pc = .parseUrl) : s.pc = .finish := by
  by_contra hpc
  refine (step_pc_of_ne_finish hpc ?_).1 h
  intro hret
  rw [step_final env s (by rw [hret]; trivial), hret] at h
  cases h

/-- A step consumes nothing, a line, or as many bytes as the body line has. -/
theorem step_inBuffer (env : Env) (s : OnMessage) :
    (step env s).1.inBuffer = s.inBuffer ∨
      (∃ l, s.inBuffer.retrieveLineAsString = some ((step env s).1.inBuffer, l)) ∨
      ∃ n, s.inBuffer.retrieve n = some (step env s).1.inBuffer := by
  cases hpc : s.pc with
  | parseUrl =>
    simp only [step, hpc, parseUrl]
    split
    · split
      · exact .inl rfl
      · next b l hline =>
        refine .inr (.inl ⟨l, ?_⟩)
        split
        · exact hline
        · split <;> exact hline
    · exact .inl rfl
  | headerLoop m =>
    simp only [step, hpc, headerLoop]
    split
    · exact .inl rfl
    · next b l hline =>
      refine .inr (.inl ⟨l, ?_⟩)
      split
      · exact hline
      · split <;> exact hline
  | bodyLoop l =>
    simp only [step, hpc, bodyLoop]
    split
    · exact .inl rfl
    · split
      · exact .inl rfl
      · next b hret => exact .inr (.inr ⟨_, hret⟩)
  | responsing =>
    simp only [step, hpc, responsing]
    split
    · split <;> exact .inl rfl
    · exact .inl rfl
  | parseHeaders | parseBody | finish =>
    left
    simp only [step, hpc]
    rfl
  | returned | stopped f => simp [step, hpc]

/-- One step keeps the input well formed and makes it no longer. -/
theorem step_sound (h : Sound s) :
    Sound (step env s).1 ∧
      (step env s).1.inBuffer.readableBytes ≤ s.inBuffer.readableBytes := by
  obtain ⟨q, hq⟩ := h.holds
  have hfresh : (step env s).1.pc = .parseUrl → (step env s).1.conn = .fresh := by
    intro hurl
    simp only [step, step_pc_parseUrl hurl]
    rfl
  rcases step_inBuffer env s with heq | ⟨l, hline⟩ | ⟨n, hret⟩
  · exact ⟨⟨⟨q, heq ▸ hq⟩, hfresh⟩, heq ▸ Nat.le_refl _⟩
  · obtain ⟨b', l', q', hline', hb', hle, -⟩ := retrieveLine_shorter hq
    rw [hline] at hline'
    cases hline'
    exact ⟨⟨⟨q', hb'⟩, hfresh⟩, by rwa [hb'.readableBytes_eq, hq.readableBytes_eq]⟩
  · have hn : n ≤ q.length := by
      by_contra hlt
      rw [hq.retrieve_eq_none (Nat.lt_of_not_le hlt)] at hret
      cases hret
    obtain ⟨b', hret', hb'⟩ := hq.retrieve hn
    rw [hret] at hret'
    cases hret'
    refine ⟨⟨⟨_, hb'⟩, hfresh⟩, ?_⟩
    rw [hb'.readableBytes_eq, hq.readableBytes_eq, List.length_drop]
    exact Nat.sub_le _ _

/-- What one step preserves, every run preserves. -/
theorem run_sound (h : Sound s) (n : Nat) :
    Sound ((machine env).run n s).1 ∧
      ((machine env).run n s).1.inBuffer.readableBytes ≤ s.inBuffer.readableBytes := by
  induction n generalizing s with
  | zero => exact ⟨h, Nat.le_refl _⟩
  | succ n ih =>
    obtain ⟨hstep, hle⟩ := step_sound h
    obtain ⟨hrun, hle'⟩ := ih hstep
    exact ⟨hrun, hle'.trans hle⟩

/-- Two iterations in a run, of which the later one begins with fewer bytes. -/
def Progress (env : Env) (s : OnMessage) : Prop :=
  ∀ m n, m < n → ((machine env).run m s).1.pc = .parseUrl →
    ((machine env).run n s).1.pc = .parseUrl →
    ((machine env).run n s).1.inBuffer.readableBytes <
      ((machine env).run m s).1.inBuffer.readableBytes

/-- An iteration that reads a line consumes it, and one that reads none is the last if the run
ends. -/
theorem next_iteration_shorter {b : Buffer} {q : Bytes} {k d : Nat} (hb : b.Holds q)
    (hterm : (machine env).Terminates (start .fresh b k))
    (hurl : ((machine env).run (d + 1) (start .fresh b k)).1.pc = .parseUrl) :
    ((machine env).run (d + 1) (start .fresh b k)).1.inBuffer.readableBytes < b.readableBytes := by
  by_cases hq : LF ∈ q
  · obtain ⟨b', l, q', hline, hb', -, hlt⟩ := retrieveLine_shorter hb
    have hfirst : (step env (start .fresh b k)).1.inBuffer = b' := by
      have hfresh : HttpTcpConnection.fresh.processState = .parseUrl := rfl
      simp only [step, start, parseUrl, hfresh, if_true, hline]
      split
      · rfl
      · split <;> rfl
    have hsound : Sound (start .fresh b k) := ⟨⟨q, hb⟩, fun _ => rfl⟩
    have hle : ((machine env).run (d + 1) (start .fresh b k)).1.inBuffer.readableBytes ≤
        (step env (start .fresh b k)).1.inBuffer.readableBytes :=
      (run_sound (step_sound hsound).1 d).2
    rw [hfirst, hb'.readableBytes_eq] at hle
    rw [hb.readableBytes_eq]
    exact Nat.lt_of_le_of_lt hle (hlt hq)
  · by_cases hnil : q = []
    · subst hnil
      -- the only iteration on an empty buffer
      have hrun : ((machine env).run (d + 1) (start .fresh b k)).1 =
          ((machine env).run d ⟨.parseHeaders, noRequest, b, k⟩).1 := by
        simp only [Machine.run, step_unfinished hb hq]
      rw [hrun, run_rejected] at hurl
      have hafter : (machine env).Final (after b k) := by simp [after_final hb, Pc.Final]
      rcases d with _ | _ | _ | _ | d
      iterate 4 · cases hurl
      · simp only [Machine.run_final hafter] at hurl
        rw [after_final hb] at hurl
        cases hurl
    · rw [← after_eq_start hb hnil] at hterm
      exact absurd hterm (not_terminates_unfinished hb hq hnil)

theorem progress_of_terminates (h : Sound s) (hterm : (machine env).Terminates s) :
    Progress env s := by
  intro m n hmn hm hn
  have hsound : Sound ((machine env).run m s).1 := (run_sound h m).1
  obtain ⟨⟨q, hb⟩, hfresh⟩ := hsound
  obtain ⟨d, rfl⟩ := Nat.exists_eq_add_of_lt hmn
  have hstart : ((machine env).run m s).1 =
      start .fresh ((machine env).run m s).1.inBuffer ((machine env).run m s).1.fsCalls := by
    rw [start, ← hm, ← hfresh hm]
  have hsteps : Steps env s ((machine env).run m s).2 ((machine env).run m s).1 := ⟨m, rfl⟩
  rw [hsteps.terminates_iff, hstart] at hterm
  rw [Nat.add_assoc, Machine.run_add] at hn ⊢
  rw [hstart] at hn ⊢
  exact next_iteration_shorter hb hterm hn

end OnMessage

/-- **When a call ends.** A call on a fresh connection ends, whatever the files, exactly when the
input has no unfinished last line or a shape of `LinesOk` stops it before; then every iteration but
the last consumes a byte. -/
theorem onMessage_terminates_iff (fileDir connName : Bytes) {b : Buffer} {q : Bytes}
    (hb : b.Holds q) :
    (∀ fs, (machine ⟨fileDir, connName, fs⟩).Terminates (start .fresh b 0) ∧
        Progress ⟨fileDir, connName, fs⟩ (start .fresh b 0)) ↔
      q = [] ∨ q.getLast? = some LF ∨ ¬ LinesOk fileDir false (lines q).1 := by
  have hends : ∀ fs, (machine ⟨fileDir, connName, fs⟩).Terminates (start .fresh b 0) ↔
      (lines q).2 = [] ∨ ∃ f, (served ⟨fileDir, connName, fs⟩ 0 q).2 = .error f := fun fs =>
    (does_served _ 0 hb).terminates_iff (not_mem_lines_rest q)
  have hserved (fs) (hq : q ≠ []) : served ⟨fileDir, connName, fs⟩ 0 q =
      serve ⟨fileDir, connName, fs⟩ 0 .request (lines q).1 := if_neg hq
  rw [← or_assoc, ← lines_rest_eq_nil_iff]
  constructor
  · intro h
    by_contra hnot
    obtain ⟨hrest, hok⟩ := not_or.mp hnot
    have hq : q ≠ [] := by
      rintro rfl
      exact hrest rfl
    rcases (hends noFiles).mp (h noFiles).1 with hnil | ⟨f, hf⟩
    · exact hrest hnil
    · rw [hserved noFiles hq] at hf
      obtain ⟨k, c, hans⟩ := serve_error_of_linesOk _ .request (not_not.mp hok) hf
      exact answer_noFiles fileDir connName k c f hans
  · intro h fs
    have hterm : (machine ⟨fileDir, connName, fs⟩).Terminates (start .fresh b 0) := by
      refine (hends fs).mpr ?_
      rcases h with hrest | hbad
      · exact .inl hrest
      · have hq : q ≠ [] := by
          rintro rfl
          exact hbad trivial
        obtain ⟨f, hf, -⟩ := serve_error_of_not_linesOk ⟨fileDir, connName, fs⟩ .request hbad
        exact .inr ⟨f, by rw [hserved fs hq]; exact hf⟩
    exact ⟨hterm, progress_of_terminates ⟨⟨q, hb⟩, fun _ => rfl⟩ hterm⟩

theorem onMessage_terminates_iff_get :
    let q := ascii "GET /x.c HTTP/1.1\r\nHost: h\r\n\r\n"
    q.getLast? = some LF ∧
    ∀ fs, (machine ⟨ascii "/srv", ascii "c", fs⟩).Terminates (start .fresh (arrived q) 0) ∧
      Progress ⟨ascii "/srv", ascii "c", fs⟩ (start .fresh (arrived q) 0) :=
  ⟨by decide, (onMessage_terminates_iff _ _ (arrived_holds _)).mpr (.inr (.inl (by decide)))⟩

/-- The first bytes of a request line, before the rest has arrived. -/
theorem onMessage_hangs :
    ¬ (machine ⟨ascii "/srv", ascii "c", noFiles⟩).Terminates
      (start .fresh (arrived (ascii "GET /x.c")) 0) := by
  rw [← after_eq_start (arrived_holds _) (by decide)]
  exact not_terminates_unfinished (arrived_holds _) (by decide) (by decide)

end Httpancake
