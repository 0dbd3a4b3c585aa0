import Mathlib.Algebra.GroupWithZero.Nat
import Mathlib.Data.List.Induction
import Mathlib.Logic.Relation

/-! # Programs over explicit states

A program executes one action at a time. `pre s a` says when the environment may take the action
`a`, and `exec s a` is what the code then does: `none` is a failed assertion or a call that ends
the process, otherwise the next state and what the action answers.

* `Program.Reachable`, `Program.Reachable.invariant`: the induction rule for safety.
* `Program.run_append`, `Program.Admissible.append_iff`: runs one after the other.
* `Program.run_history`: the induction rule for what depends on the actions and answers of a run.
* `Program.restrict`: the runs all of whose steps meet a condition.
* `Program.run_of_safe`, `Program.run_isSome_iff`, `Program.run_isSome_iff_restrict`: which runs
  succeed.
* `Program.forall_states_iff`: when all states of a run lie in a set.
* `Program.forall_answers_iff`, `Program.forall_answers`: what all steps of a run answer.
* `Program.run_flag_iff`: what holds as long as all steps meet a condition.
* `Program.run_measure`: how long a run can be.
* `Program.Refinement`, `Program.Refinement.reachable`, `Program.Refinement.run`: forward simulation
  by a total specification, lifted from one step to reachable states and whole runs. -/

namespace Httpancake

structure Program (σ α ο : Type*) where
  pre : σ → α → Prop
  exec : σ → α → Option (σ × ο)

namespace Program
variable {σ τ α ο : Type*} (P : Program σ α ο)

/-- The actions in order, with the answers. -/
def run : σ → List α → Option (σ × List ο)
  | s, [] => some (s, [])
  | s, a :: as => do
    let (s', o) ← P.exec s a
    let (s'', os) ← run s' as
    return (s'', o :: os)

/-- The environment may take every action of the list when its turn comes. -/
def Admissible : σ → List α → Prop
  | _, [] => True
  | s, a :: as => P.pre s a ∧ ∀ s' o, P.exec s a = some (s', o) → Admissible s' as

inductive Reachable (s₀ : σ) : σ → Prop
  | start : Reachable s₀ s₀
  | step : Reachable s₀ s → P.pre s a → P.exec s a = some (s', o) → Reachable s₀ s'

instance decidableAdmissible [∀ s a, Decidable (P.pre s a)] :
    (s : σ) → (as : List α) → Decidable (P.Admissible s as)
  | _, [] => isTrue trivial
  | s, a :: as =>
    match h : P.exec s a with
    | none => decidable_of_iff (P.pre s a) <| by
        rw [Admissible, h]
        exact (and_iff_left nofun).symm
    | some (s', o) =>
      have := decidableAdmissible s' as
      decidable_of_iff (P.pre s a ∧ P.Admissible s' as) <| by
        rw [Admissible, h]
        apply and_congr_right'
        constructor
        · intro hadm s₁ o₁ heq
          cases heq
          exact hadm
        · exact fun hadm => hadm s' o rfl

/-- The program restricted to the steps that meet `ok`. -/
def restrict (ok : σ → α → Prop) : Program σ α ο where
  pre s a := P.pre s a ∧ ok s a
  exec := P.exec

/-- No step leaves `I`. -/
def Preserves (I : σ → Prop) : Prop :=
  ∀ s a s' o, I s → P.pre s a → P.exec s a = some (s', o) → I s'

instance (ok : σ → α → Prop) [∀ s a, Decidable (P.pre s a)] [∀ s a, Decidable (ok s a)] :
    ∀ s a, Decidable ((P.restrict ok).pre s a) :=
  fun s a => inferInstanceAs (Decidable (P.pre s a ∧ ok s a))

variable {P}

theorem Reachable.invariant {I : σ → Prop} {s₀ s : σ} (hI : P.Preserves I) (h₀ : I s₀)
    (h : P.Reachable s₀ s) : I s := by
  induction h with
  | start => exact h₀
  | step _ hpre hexec ih => exact hI _ _ _ _ ih hpre hexec

/-- One more step, with its action. -/
theorem Reachable.next {s₀ s s' : σ} {o : ο} (h : P.Reachable s₀ s) (a : α) (hpre : P.pre s a)
    (hexec : P.exec s a = some (s', o)) : P.Reachable s₀ s' := h.step hpre hexec

/-- A run that goes on from the end of another. -/
theorem Reachable.restart {s₀ s : σ} (_ : P.Reachable s₀ s) : P.Reachable s s := .start

theorem Reachable.trans {s₀ s s' : σ} (h : P.Reachable s₀ s) (h' : P.Reachable s s') :
    P.Reachable s₀ s' := by
  induction h' with
  | start => exact h
  | step _ hpre hexec ih => exact ih.step hpre hexec

theorem Reachable.of_restrict {ok : σ → α → Prop} {s₀ s : σ}
    (h : (P.restrict ok).Reachable s₀ s) : P.Reachable s₀ s := by
  induction h with
  | start => exact .start
  | step _ hpre hexec ih => exact ih.step hpre.1 hexec

/-- One more step that meets the condition. -/
theorem Reachable.next_restrict {ok : σ → α → Prop} {s₀ s s' : σ} {o : ο}
    (h : (P.restrict ok).Reachable s₀ s) (a : α) (hpre : P.pre s a) (hok : ok s a)
    (hexec : P.exec s a = some (s', o)) : (P.restrict ok).Reachable s₀ s' :=
  h.step ⟨hpre, hok⟩ hexec

/-- A condition that is weaker where its runs go allows more of them. -/
theorem Reachable.weaken {ok ok' : σ → α → Prop} {s₀ s : σ}
    (h : (P.restrict ok).Reachable s₀ s)
    (himp : ∀ s a, (P.restrict ok').Reachable s₀ s → ok s a → ok' s a) :
    (P.restrict ok').Reachable s₀ s := by
  induction h with
  | start => exact .start
  | step _ hpre hexec ih => exact ih.step ⟨hpre.1, himp _ _ ih hpre.2⟩ hexec

/-- The first step of a run and the rest. -/
theorem run_cons_inv {s s' : σ} {a : α} {as : List α} {os : List ο}
    (h : P.run s (a :: as) = some (s', os)) :
    ∃ s₁ o os₁, P.exec s a = some (s₁, o) ∧ P.run s₁ as = some (s', os₁) ∧ os = o :: os₁ := by
  simp only [run, Option.bind_eq_bind, Option.bind_eq_some_iff] at h
  obtain ⟨⟨s₁, o⟩, hexec, ⟨s₂, os₁⟩, hrun, heq⟩ := h
  cases heq
  exact ⟨s₁, o, os₁, hexec, hrun, rfl⟩

theorem Reachable.of_run {s s' : σ} {as : List α} {os : List ο} (h : P.Admissible s as)
    (hrun : P.run s as = some (s', os)) : P.Reachable s s' := by
  induction as generalizing s os with
  | nil =>
    simp only [run, Option.some.injEq, Prod.mk.injEq] at hrun
    exact hrun.1 ▸ .start
  | cons a as ih =>
    obtain ⟨s₁, o, os₁, hexec, hrun, -⟩ := run_cons_inv hrun
    exact (Reachable.start.step h.1 hexec).trans (ih (h.2 _ _ hexec) hrun)

/-- What holds at the end of an admissible run holds of a reachable state. -/
theorem Reachable.of_admissible {s : σ} {p : σ → Prop} (as : List α) (hadm : P.Admissible s as)
    (h : ∃ r ∈ P.run s as, p r.1) : ∃ s', P.Reachable s s' ∧ p s' := by
  obtain ⟨⟨s', os⟩, hrun, hp⟩ := h
  exact ⟨s', .of_run hadm hrun, hp⟩

theorem Admissible.of_append {s : σ} {as as' : List α} (h : P.Admissible s (as ++ as')) :
    P.Admissible s as := by
  induction as generalizing s with
  | nil => trivial
  | cons a as ih => exact ⟨h.1, fun s' o hexec => ih (h.2 s' o hexec)⟩

theorem run_append {s s' s'' : σ} {as as' : List α} {os os' : List ο}
    (h : P.run s as = some (s', os)) (h' : P.run s' as' = some (s'', os')) :
    P.run s (as ++ as') = some (s'', os ++ os') := by
  induction as generalizing s os with
  | nil =>
    cases h
    exact h'
  | cons a as ih =>
    obtain ⟨s₁, o, os₁, hexec, hrun, rfl⟩ := run_cons_inv h
    simp [run, hexec, ih hrun]

theorem run_cons {s s₁ s' : σ} {a : α} {o : ο} {as : List α} {os : List ο}
    (hexec : P.exec s a = some (s₁, o)) :
    P.run s (a :: as) = some (s', os) ↔ ∃ os₁, P.run s₁ as = some (s', os₁) ∧ os = o :: os₁ := by
  simp only [run, hexec, Option.bind_eq_bind, Option.bind_some, Option.bind_eq_some_iff]
  constructor
  · rintro ⟨⟨s₂, os₁⟩, hrun, heq⟩
    cases heq
    exact ⟨os₁, hrun, rfl⟩
  · rintro ⟨os₁, hrun, rfl⟩
    exact ⟨(s', os₁), hrun, rfl⟩

theorem run_append_inv {s s' : σ} {as as' : List α} {os : List ο}
    (h : P.run s (as ++ as') = some (s', os)) :
    ∃ s₁ os₁ os₂, P.run s as = some (s₁, os₁) ∧ P.run s₁ as' = some (s', os₂) ∧
      os = os₁ ++ os₂ := by
  induction as generalizing s os with
  | nil => exact ⟨s, [], os, rfl, h, rfl⟩
  | cons a as ih =>
    obtain ⟨s₁, o, os₁, hexec, htail, rfl⟩ := run_cons_inv h
    obtain ⟨s₂, os₂, os₃, hrun, hrest, rfl⟩ := ih htail
    exact ⟨s₂, o :: os₂, os₃, (run_cons hexec).mpr ⟨os₂, hrun, rfl⟩, hrest, rfl⟩

theorem run_concat {s s' : σ} {as : List α} {a : α} {os : List ο} :
    P.run s (as ++ [a]) = some (s', os) ↔ ∃ s₁ os₁ o, P.run s as = some (s₁, os₁) ∧
      P.exec s₁ a = some (s', o) ∧ os = os₁ ++ [o] := by
  constructor
  · intro h
    obtain ⟨s₁, os₁, os₂, hrun, hlast, rfl⟩ := run_append_inv h
    obtain ⟨s₂, o, os₃, hexec, hnil, rfl⟩ := run_cons_inv hlast
    cases hnil
    exact ⟨s₁, os₁, o, hrun, hexec, rfl⟩
  · rintro ⟨s₁, os₁, o, hrun, hexec, rfl⟩
    exact run_append hrun (by simp [run, hexec])

theorem Admissible.append_iff {s s' : σ} {as as' : List α} {os : List ο}
    (hrun : P.run s as = some (s', os)) :
    P.Admissible s (as ++ as') ↔ P.Admissible s as ∧ P.Admissible s' as' := by
  induction as generalizing s os with
  | nil =>
    cases hrun
    exact (and_iff_right trivial).symm
  | cons a as ih =>
    obtain ⟨s₁, o, os₁, hexec, htail, rfl⟩ := run_cons_inv hrun
    simp [Admissible, hexec, ih htail, and_assoc]

theorem Admissible.cons {s s' : σ} {a : α} {o : ο} {as : List α} (hpre : P.pre s a)
    (hexec : P.exec s a = some (s', o)) (h : P.Admissible s' as) : P.Admissible s (a :: as) := by
  refine ⟨hpre, fun s₁ o₁ h₁ => ?_⟩
  rw [hexec] at h₁
  cases h₁
  exact h

/-- The induction rule for what depends on all that was done: `I as os s` holds in the state `s`
after the actions `as` with the answers `os`. -/
theorem run_history {I : List α → List ο → σ → Prop} {s₀ s : σ} {as : List α} {os : List ο}
    (h₀ : I [] [] s₀)
    (hstep : ∀ as os s a s' o, P.Reachable s₀ s → P.run s₀ as = some (s, os) → I as os s →
      P.pre s a → P.exec s a = some (s', o) → I (as ++ [a]) (os ++ [o]) s')
    (hadm : P.Admissible s₀ as) (hrun : P.run s₀ as = some (s, os)) : I as os s := by
  induction as using List.reverseRecOn generalizing s os with
  | nil =>
    cases hrun
    exact h₀
  | append_singleton as a ih =>
    obtain ⟨s₁, os₁, o, hrun₁, hexec, rfl⟩ := run_concat.mp hrun
    have hadm₁ := hadm.of_append
    obtain ⟨-, hlast⟩ := (Admissible.append_iff hrun₁).mp hadm
    exact hstep as os₁ s₁ a s o (.of_run hadm₁ hrun₁) hrun₁ (ih hadm₁ hrun₁) hlast.1 hexec

theorem Admissible.of_restrict {ok : σ → α → Prop} {s : σ} {as : List α}
    (h : (P.restrict ok).Admissible s as) : P.Admissible s as := by
  induction as generalizing s with
  | nil => trivial
  | cons a as ih => exact ⟨h.1.1, fun s' o hexec => ih (h.2 s' o hexec)⟩

theorem Admissible.of_forall {s : σ} {as : List α} (h : ∀ s a, P.pre s a) : P.Admissible s as := by
  induction as generalizing s with
  | nil => trivial
  | cons a as ih => exact ⟨h s a, fun _ _ _ => ih⟩

/-- A further condition that the actions of the list meet in every state. -/
theorem Admissible.restrict_and {ok ok' : σ → α → Prop} {s : σ} {as : List α}
    (h : (P.restrict ok).Admissible s as) (h' : ∀ a ∈ as, ∀ s, P.pre s a → ok' s a) :
    (P.restrict fun s a => ok s a ∧ ok' s a).Admissible s as := by
  induction as generalizing s with
  | nil => trivial
  | cons a as ih =>
    refine ⟨⟨h.1.1, h.1.2, h' a List.mem_cons_self s h.1.1⟩, fun s' o hexec => ?_⟩
    exact ih (h.2 s' o hexec) fun a ha => h' a (List.mem_cons_of_mem _ ha)

/-- The condition selects runs and leaves them as they are. -/
theorem run_restrict (ok : σ → α → Prop) (s : σ) (as : List α) :
    (P.restrict ok).run s as = P.run s as := by
  induction as generalizing s with
  | nil => rfl
  | cons a as ih =>
    simp only [run, ih]
    rfl

/-- Steps that keep `I` when they are `ok` and fail otherwise keep it. -/
theorem preserves_of_ok {I : σ → Prop} {ok : α → Prop}
    (hok : ∀ s a, I s → P.pre s a → ok a → ∃ s' o, P.exec s a = some (s', o) ∧ I s')
    (hbad : ∀ s a, I s → P.pre s a → ¬ ok a → P.exec s a = none) : P.Preserves I := by
  intro s a s' o hI hpre hexec
  by_cases ha : ok a
  · obtain ⟨s₁, o₁, hexec₁, hs₁⟩ := hok s a hI hpre ha
    rw [hexec₁] at hexec
    cases hexec
    exact hs₁
  · rw [hbad s a hI hpre ha] at hexec
    cases hexec

/-- Under an invariant, a run succeeds exactly when it consists of the actions that do. -/
theorem run_isSome_iff {I : σ → Prop} {ok : α → Prop} {s : σ} {as : List α}
    (hok : ∀ s a, I s → P.pre s a → ok a → ∃ s' o, P.exec s a = some (s', o) ∧ I s')
    (hbad : ∀ s a, I s → P.pre s a → ¬ ok a → P.exec s a = none) (h₀ : I s)
    (hadm : P.Admissible s as) : (P.run s as).isSome ↔ ∀ a ∈ as, ok a := by
  induction as generalizing s with
  | nil => simp [run]
  | cons a as ih =>
    rw [List.forall_mem_cons]
    by_cases ha : ok a
    · obtain ⟨s', o, hexec, hs'⟩ := hok s a h₀ hadm.1 ha
      have htail : (P.run s (a :: as)).isSome ↔ (P.run s' as).isSome := by
        simp only [run, hexec, Option.bind_eq_bind, Option.bind_some]
        cases P.run s' as <;> rfl
      rw [htail, ih hs' (hadm.2 _ _ hexec), and_iff_right ha]
    · have hnone := hbad s a h₀ hadm.1 ha
      simp [run, hnone, ha]

/-- Under an invariant, a run succeeds exactly when its steps meet the condition of success. -/
theorem run_isSome_iff_restrict {I : σ → Prop} {ok : σ → α → Prop} {s : σ} {as : List α}
    (hI : P.Preserves I) (hok : ∀ s a, I s → P.pre s a → ((P.exec s a).isSome ↔ ok s a))
    (h₀ : I s) (hadm : P.Admissible s as) :
    (P.run s as).isSome ↔ (P.restrict ok).Admissible s as := by
  induction as generalizing s with
  | nil => exact iff_of_true rfl trivial
  | cons a as ih =>
    have hstep := hok s a h₀ hadm.1
    cases hexec : P.exec s a with
    | none =>
      rw [hexec] at hstep
      refine iff_of_false (by simp [run, hexec]) fun h => ?_
      exact absurd (hstep.mpr h.1.2) (by simp)
    | some r =>
      obtain ⟨s', o⟩ := r
      rw [hexec] at hstep
      have htail := ih (hI s a s' o h₀ hadm.1 hexec) (hadm.2 s' o hexec)
      have hrun : (P.run s (a :: as)).isSome ↔ (P.run s' as).isSome := by
        simp only [run, hexec, Option.bind_eq_bind, Option.bind_some]
        cases P.run s' as <;> rfl
      rw [hrun, htail]
      constructor
      · intro h
        refine ⟨⟨hadm.1, hstep.mp rfl⟩, fun s₁ o₁ h₁ => ?_⟩
        rw [restrict, hexec] at h₁
        cases h₁
        exact h
      · exact fun h => h.2 s' o hexec

/-- When the steps that meet a condition keep an invariant inside of `Q`, and the others leave `Q`,
the condition decides whether all states of a run lie in `Q`. -/
theorem forall_states_iff {I Q : σ → Prop} {ok : σ → α → Prop} {s : σ} {as : List α}
    (hI : (P.restrict ok).Preserves I) (hQ : ∀ s, I s → Q s)
    (hbad : ∀ s a, I s → P.pre s a → ¬ ok s a → ∃ s' o, P.exec s a = some (s', o) ∧ ¬ Q s')
    (h₀ : I s) (hadm : P.Admissible s as) :
    (∀ as' s' os, as' <+: as → P.run s as' = some (s', os) → Q s') ↔
      (P.restrict ok).Admissible s as := by
  induction as generalizing s with
  | nil =>
    refine iff_of_true (fun as' s' os hprefix hrun => ?_) trivial
    rw [List.prefix_nil.mp hprefix] at hrun
    cases hrun
    exact hQ s h₀
  | cons a as ih =>
    constructor
    · intro h
      have hok : ok s a := by
        by_contra hno
        obtain ⟨s₁, o, hexec, hs₁⟩ := hbad s a h₀ hadm.1 hno
        refine hs₁ (h [a] s₁ [o] ?_ ((run_cons hexec).mpr ⟨[], rfl, rfl⟩))
        exact List.cons_prefix_cons.mpr ⟨rfl, List.nil_prefix⟩
      refine ⟨⟨hadm.1, hok⟩, fun s₁ o (hexec : P.exec s a = some (s₁, o)) => ?_⟩
      refine (ih (hI s a s₁ o h₀ ⟨hadm.1, hok⟩ hexec) (hadm.2 s₁ o hexec)).mp ?_
      intro as' s' os hprefix hrun
      exact h (a :: as') s' (o :: os) (List.cons_prefix_cons.mpr ⟨rfl, hprefix⟩)
        ((run_cons hexec).mpr ⟨os, hrun, rfl⟩)
    · intro h as' s' os hprefix hrun
      cases as' with
      | nil =>
        cases hrun
        exact hQ s h₀
      | cons b as' =>
        obtain ⟨rfl, hfront⟩ := List.cons_prefix_cons.mp hprefix
        obtain ⟨s₁, o, os₁, hexec, htail, rfl⟩ := run_cons_inv hrun
        exact (ih (hI s b s₁ o h₀ h.1 hexec) (hadm.2 s₁ o hexec)).mpr (h.2 s₁ o hexec) as' s' os₁
          hfront htail

/-- When, as long as all answers were good, a condition of the next step decides whether its answer
is, the condition decides whether all answers of a run are. -/
theorem forall_answers_iff_while {I : σ → Prop} {ok : σ → α → Prop} {Q : ο → Prop} {s s' : σ}
    {as : List α} {os : List ο}
    (hok : ∀ s a s' o, I s → P.pre s a → P.exec s a = some (s', o) →
      (Q o ↔ ok s a) ∧ (Q o → I s'))
    (h₀ : I s) (hadm : P.Admissible s as) (hrun : P.run s as = some (s', os)) :
    (∀ o ∈ os, Q o) ↔ (P.restrict ok).Admissible s as := by
  induction as generalizing s os with
  | nil =>
    cases hrun
    exact iff_of_true nofun trivial
  | cons a as ih =>
    obtain ⟨s₁, o, os', hexec, htail, rfl⟩ := run_cons_inv hrun
    obtain ⟨hiff, hkeep⟩ := hok s a s₁ o h₀ hadm.1 hexec
    rw [List.forall_mem_cons]
    constructor
    · intro h
      exact .cons ⟨hadm.1, hiff.mp h.1⟩ hexec
        ((ih (hkeep h.1) (hadm.2 s₁ o hexec) htail).mp h.2)
    · intro h
      have ho := hiff.mpr h.1.2
      exact ⟨ho, (ih (hkeep ho) (hadm.2 s₁ o hexec) htail).mpr (h.2 s₁ o hexec)⟩

/-- When a condition of the steps decides what they answer, it decides what runs answer. -/
theorem forall_answers_iff {ok : σ → α → Prop} {Q : ο → Prop} {s s' : σ} {as : List α}
    {os : List ο}
    (hok : ∀ s a s' o, P.pre s a → P.exec s a = some (s', o) → (Q o ↔ ok s a))
    (hadm : P.Admissible s as) (hrun : P.run s as = some (s', os)) :
    (∀ o ∈ os, Q o) ↔ (P.restrict ok).Admissible s as :=
  forall_answers_iff_while (I := fun _ => True)
    (fun s a s' o _ hpre hexec => ⟨hok s a s' o hpre hexec, fun _ => trivial⟩) trivial hadm hrun

/-- What every step under an invariant answers, every step of a run answers. -/
theorem forall_answers {I : σ → Prop} {Q : ο → Prop} {s s' : σ} {as : List α} {os : List ο}
    (hstep : ∀ s a s' o, I s → P.pre s a → P.exec s a = some (s', o) → I s' ∧ Q o) (h₀ : I s)
    (hadm : P.Admissible s as) (hrun : P.run s as = some (s', os)) : ∀ o ∈ os, Q o := by
  induction as generalizing s os with
  | nil =>
    cases hrun
    exact nofun
  | cons a as ih =>
    obtain ⟨s₁, o, os', hexec, htail, rfl⟩ := run_cons_inv hrun
    obtain ⟨h₁, ho⟩ := hstep s a s₁ o h₀ hadm.1 hexec
    exact List.forall_mem_cons.mpr ⟨ho, ih h₁ (hadm.2 s₁ o hexec) htail⟩

/-- A flag that the steps which meet a condition keep, all others clear and none sets. -/
theorem run_flag_iff {I F : σ → Prop} {ok : σ → α → Prop} {s s' : σ} {as : List α} {os : List ο}
    (hI : P.Preserves I)
    (hstep : ∀ s a s' o, I s → P.pre s a → P.exec s a = some (s', o) → (F s' ↔ F s ∧ ok s a))
    (h₀ : I s) (hadm : P.Admissible s as) (hrun : P.run s as = some (s', os)) :
    F s' ↔ F s ∧ (P.restrict ok).Admissible s as := by
  induction as generalizing s os with
  | nil =>
    cases hrun
    exact (and_iff_left trivial).symm
  | cons a as ih =>
    obtain ⟨s₁, o, os', hexec, htail, rfl⟩ := run_cons_inv hrun
    rw [ih (hI s a s₁ o h₀ hadm.1 hexec) (hadm.2 s₁ o hexec) htail,
      hstep s a s₁ o h₀ hadm.1 hexec, and_assoc]
    refine and_congr_right' ⟨fun ⟨hok, hrest⟩ => .cons ⟨hadm.1, hok⟩ hexec hrest, fun h => ?_⟩
    exact ⟨h.1.2, h.2 s₁ o hexec⟩

/-- A measure that every step pays for, and that some steps raise. -/
theorem run_measure {I : σ → Prop} {μ : σ → Nat} {cost gain : α → Nat} {s s' : σ} {as : List α}
    {os : List ο} (hI : P.Preserves I)
    (hstep : ∀ s a s' o, I s → P.pre s a → P.exec s a = some (s', o) →
      μ s' + cost a ≤ μ s + gain a)
    (h₀ : I s) (hadm : P.Admissible s as) (hrun : P.run s as = some (s', os)) :
    I s' ∧ μ s' + (as.map cost).sum ≤ μ s + (as.map gain).sum := by
  induction as generalizing s os with
  | nil =>
    cases hrun
    exact ⟨h₀, Nat.le_refl _⟩
  | cons a as ih =>
    obtain ⟨s₁, o, os', hexec, htail, rfl⟩ := run_cons_inv hrun
    have hone := hstep s a s₁ o h₀ hadm.1 hexec
    obtain ⟨hI', hrest⟩ := ih (hI s a s₁ o h₀ hadm.1 hexec) (hadm.2 s₁ o hexec) htail
    refine ⟨hI', ?_⟩
    rw [List.map_cons, List.map_cons, List.sum_cons, List.sum_cons]
    omega

/-- When every step from `I` succeeds and keeps it, so does every run. -/
theorem run_of_safe {I : σ → Prop} {s : σ} {as : List α}
    (hstep : ∀ s a, I s → P.pre s a → ∃ s' o, P.exec s a = some (s', o) ∧ I s') (h₀ : I s)
    (hadm : P.Admissible s as) : ∃ s' os, P.run s as = some (s', os) ∧ I s' := by
  induction as generalizing s with
  | nil => exact ⟨s, [], rfl, h₀⟩
  | cons a as ih =>
    obtain ⟨s₁, o, hexec, h₁⟩ := hstep s a h₀ hadm.1
    obtain ⟨s', os, hrun, hs'⟩ := ih h₁ (hadm.2 _ _ hexec)
    exact ⟨s', o :: os, by simp [run, hexec, hrun], hs'⟩

/-- Every step of `P` from a state related to `t` succeeds and does what `spec` says. -/
def Refinement (P : Program σ α ο) (spec : τ → α → τ × ο) (R : σ → τ → Prop) : Prop :=
  ∀ s t a, R s t → P.pre s a →
    ∃ s', P.exec s a = some (s', (spec t a).2) ∧ R s' (spec t a).1

/-- Every reachable state is related to some state of the specification. -/
theorem Refinement.reachable {spec : τ → α → τ × ο} {R : σ → τ → Prop} (H : P.Refinement spec R)
    {s₀ s : σ} {t₀ : τ} (hR : R s₀ t₀) (h : P.Reachable s₀ s) : ∃ t, R s t := by
  induction h with
  | start => exact ⟨t₀, hR⟩
  | step _ hpre hexec ih =>
    obtain ⟨t, ht⟩ := ih
    obtain ⟨s', hexec', hs'⟩ := H _ t _ ht hpre
    cases hexec'.symm.trans hexec
    exact ⟨_, hs'⟩

/-- The specification run on the same actions. -/
def specRun (spec : τ → α → τ × ο) : τ → List α → τ × List ο
  | t, [] => (t, [])
  | t, a :: as =>
    ((specRun spec (spec t a).1 as).1, (spec t a).2 :: (specRun spec (spec t a).1 as).2)

/-- **Run refinement.** An admissible run succeeds, answers what the specification answers and
ends in a related state. -/
theorem Refinement.run {spec : τ → α → τ × ο} {R : σ → τ → Prop} (H : P.Refinement spec R)
    {s : σ} {t : τ} {as : List α} (hR : R s t) (hadm : P.Admissible s as) :
    ∃ s', P.run s as = some (s', (specRun spec t as).2) ∧ R s' (specRun spec t as).1 := by
  induction as generalizing s t with
  | nil => exact ⟨s, rfl, hR⟩
  | cons a as ih =>
    obtain ⟨s₁, hexec, hR₁⟩ := H s t a hR hadm.1
    obtain ⟨s', hrun, hR'⟩ := ih hR₁ (hadm.2 _ _ hexec)
    exact ⟨s', by simp [Program.run, hexec, hrun, specRun], hR'⟩

end Program
end Httpancake
