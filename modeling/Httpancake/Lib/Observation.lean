import Httpancake.Lib.Program

/-! # What is observed along a run

An observer looks at every step of a run, before it is executed, and notes what it sees.

* `Program.observe`: the notes of a run; `Program.observe_append`, `Program.observe_concat`.
* `Program.run_observed`: the induction rule for what relates a state to the notes of its run;
  `Program.mem_observe`: where a note comes from.
* `Program.Simulates`, `Program.Simulates.run`: when the notes are actions of another program, which
  a whole run makes when every step does. -/

namespace Httpancake
namespace Program
variable {σ α ο β : Type*}

/-- The notes of `obs`, in order; a step that fails is seen and is the last. -/
def observe (P : Program σ α ο) (obs : σ → α → List β) : σ → List α → List β
  | _, [] => []
  | s, a :: as =>
    obs s a ++ match P.exec s a with
      | none => []
      | some (s', _) => observe P obs s' as

variable {P : Program σ α ο} {obs : σ → α → List β} {s s' : σ} {as as' : List α} {os : List ο}

theorem observe_cons {a : α} {o : ο} (hexec : P.exec s a = some (s', o)) :
    P.observe obs s (a :: as) = obs s a ++ P.observe obs s' as := by
  rw [observe, hexec]

theorem observe_append (h : P.run s as = some (s', os)) :
    P.observe obs s (as ++ as') = P.observe obs s as ++ P.observe obs s' as' := by
  induction as generalizing s os with
  | nil =>
    cases h
    rfl
  | cons a as ih =>
    obtain ⟨s₁, o, os₁, hexec, hrun, -⟩ := run_cons_inv h
    rw [List.cons_append, observe_cons hexec, observe_cons hexec, ih hrun, List.append_assoc]

/-- One more step. -/
theorem observe_concat {a : α} {o : ο} {s₁ : σ} (h : P.run s as = some (s₁, os))
    (hexec : P.exec s₁ a = some (s', o)) :
    P.observe obs s (as ++ [a]) = P.observe obs s as ++ obs s₁ a := by
  rw [observe_append h, observe_cons hexec, observe, List.append_nil]

/-- **The induction rule.** What holds at first without notes, and is kept by every step that adds
its notes, holds at the end of every run with the notes of the run. -/
theorem run_observed {I : σ → List β → Prop}
    (hI : ∀ s l a s' o, I s l → P.pre s a → P.exec s a = some (s', o) → I s' (l ++ obs s a))
    (h₀ : I s []) (hadm : P.Admissible s as) (hrun : P.run s as = some (s', os)) :
    I s' (P.observe obs s as) := by
  apply run_history (I := fun as _ s' => I s' (P.observe obs s as)) h₀ _ hadm hrun
  intro as os s₁ a s₂ o _ hrun₁ h₁ hpre hexec
  rw [observe_concat hrun₁ hexec]
  exact hI s₁ _ a s₂ o h₁ hpre hexec

/-- What is noted is noted of a step from a reachable state. -/
theorem mem_observe {s₀ : σ} {x : β} (hs : P.Reachable s₀ s) (hadm : P.Admissible s as)
    (hx : x ∈ P.observe obs s as) :
    ∃ s₁ a, P.Reachable s₀ s₁ ∧ P.pre s₁ a ∧ x ∈ obs s₁ a := by
  induction as generalizing s with
  | nil => cases hx
  | cons a as ih =>
    rw [observe] at hx
    rcases List.mem_append.mp hx with hx | hx
    · exact ⟨s, a, hs, hadm.1, hx⟩
    · cases hexec : P.exec s a with
      | none =>
        rw [hexec] at hx
        cases hx
      | some r =>
        obtain ⟨s', o⟩ := r
        rw [hexec] at hx
        exact ih (hs.step hadm.1 hexec) (hadm.2 s' o hexec) hx

/-! ## Another program that makes what is noted -/

variable {τ ο' : Type*}

/-- From related states, what is noted of a step is a run of `Q` to related states. -/
def Simulates (P : Program σ α ο) (Q : Program τ β ο') (obs : σ → α → List β)
    (R : σ → τ → Prop) : Prop :=
  ∀ s t a s' o, R s t → P.pre s a → P.exec s a = some (s', o) →
    ∃ t' os, Q.Admissible t (obs s a) ∧ Q.run t (obs s a) = some (t', os) ∧ R s' t'

theorem Simulates.run {Q : Program τ β ο'} {R : σ → τ → Prop} {t : τ}
    (H : P.Simulates Q obs R) (hR : R s t) (hadm : P.Admissible s as)
    (hrun : P.run s as = some (s', os)) :
    ∃ t' os', Q.Admissible t (P.observe obs s as) ∧
      Q.run t (P.observe obs s as) = some (t', os') ∧ R s' t' := by
  refine run_observed (I := fun s' l => ∃ t' os', Q.Admissible t l ∧ Q.run t l = some (t', os') ∧
    R s' t') ?_ ⟨t, [], trivial, rfl, hR⟩ hadm hrun
  intro s₁ l a s₂ o ⟨t₁, os₁, hadm₁, hrun₁, hR₁⟩ hpre hexec
  obtain ⟨t₂, os₂, hadm₂, hrun₂, hR₂⟩ := H s₁ t₁ a s₂ o hR₁ hpre hexec
  exact ⟨t₂, os₁ ++ os₂, (Admissible.append_iff hrun₁).mpr ⟨hadm₁, hadm₂⟩,
    run_append hrun₁ hrun₂, hR₂⟩

/-- A condition on the steps changes nothing in what is noted. -/
theorem observe_restrict (ok : σ → α → Prop) (s : σ) (as : List α) :
    (P.restrict ok).observe obs s as = P.observe obs s as := by
  induction as generalizing s with
  | nil => rfl
  | cons a as ih =>
    simp only [observe, ih]
    rfl

end Program
end Httpancake
