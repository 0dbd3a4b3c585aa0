import Mathlib.Data.List.Basic

/-! # Deterministic machines with effects

A machine makes one step at a time, each with a list of effects, and stays in its final states.

* `Machine.Steps`: some number of steps, with their effects; deterministic on final states
  (`Steps.final_unique`, `Steps.run_prefix`).
* `Machine.Terminates`, with `Steps.terminates_iff` for the prefix of a run and
  `not_terminates_of_cycle` for a run that comes back to a state.
* `Machine.First`: the first state of a run with a property; it is unique (`First.unique`). -/

namespace Httpancake

structure Machine (σ ε : Type*) where
  step : σ → σ × List ε
  Final : σ → Prop
  step_final : ∀ s, Final s → step s = (s, [])

namespace Machine
variable {σ ε : Type*} (M : Machine σ ε)

/-- `n` steps, with the effects in order. -/
def run : Nat → σ → σ × List ε
  | 0, s => (s, [])
  | n + 1, s => ((run n (M.step s).1).1, (M.step s).2 ++ (run n (M.step s).1).2)

/-- Some number of steps lead from `s` to `s'` with the effects `es`. -/
def Steps (s : σ) (es : List ε) (s' : σ) : Prop := ∃ n, M.run n s = (s', es)

def Terminates (s : σ) : Prop := ∃ n, M.Final (M.run n s).1

variable {M} {s s' s'' : σ} {es es' : List ε}

theorem run_add (m n : Nat) (s : σ) :
    M.run (m + n) s =
      ((M.run n (M.run m s).1).1, (M.run m s).2 ++ (M.run n (M.run m s).1).2) := by
  induction m generalizing s with
  | zero => simp [run]
  | succ m ih => rw [Nat.succ_add]; simp [run, ih]

theorem run_final (h : M.Final s) (n : Nat) : M.run n s = (s, []) := by
  induction n with
  | zero => rfl
  | succ n ih => simp [run, M.step_final s h, ih]

/-- A final state is the state of every longer run. -/
theorem run_of_final_le {m n : Nat} (h : M.Final (M.run m s).1) (hle : m ≤ n) :
    M.run n s = M.run m s := by
  obtain ⟨d, rfl⟩ := Nat.exists_eq_add_of_le hle
  simp [run_add, run_final h]

namespace Steps

theorem refl : M.Steps s [] s := ⟨0, rfl⟩

theorem trans (h : M.Steps s es s') (h' : M.Steps s' es' s'') : M.Steps s (es ++ es') s'' := by
  obtain ⟨m, hm⟩ := h
  obtain ⟨n, hn⟩ := h'
  exact ⟨m + n, by rw [run_add, hm, hn]⟩

/-- Prefixing one step. -/
theorem head (h : M.step s = (s', es)) (h' : M.Steps s' es' s'') :
    M.Steps s (es ++ es') s'' := by
  obtain ⟨n, hn⟩ := h'
  exact ⟨n + 1, by simp [run, h, hn]⟩

/-- Prefixing one step with one effect. -/
theorem cons {e : ε} (h : M.step s = (s', [e])) (h' : M.Steps s' es' s'') :
    M.Steps s (e :: es') s'' := head h h'

/-- Prefixing one step without effects. -/
theorem silent (h : M.step s = (s', [])) (h' : M.Steps s' es' s'') : M.Steps s es' s'' :=
  head h h'

theorem final_unique (h : M.Steps s es s') (hs' : M.Final s') (h' : M.Steps s es' s'')
    (hs'' : M.Final s'') : s' = s'' ∧ es = es' := by
  obtain ⟨m, hm⟩ := h
  obtain ⟨n, hn⟩ := h'
  have key : (s', es) = (s'', es') := by
    rcases Nat.le_total m n with hle | hle
    · rw [← hm, ← hn, run_of_final_le (by rwa [hm]) hle]
    · rw [← hm, ← hn, run_of_final_le (by rwa [hn]) hle]
  exact Prod.mk.inj key

theorem terminates_iff (h : M.Steps s es s') : M.Terminates s ↔ M.Terminates s' := by
  obtain ⟨m, hm⟩ := h
  have hadd : ∀ n, (M.run (m + n) s).1 = (M.run n s').1 := fun n => by rw [run_add, hm]
  constructor
  · rintro ⟨n, hn⟩
    refine ⟨n, ?_⟩
    rw [← hadd, run_of_final_le hn (Nat.le_add_left n m)]
    exact hn
  · rintro ⟨n, hn⟩
    exact ⟨m + n, by rwa [hadd]⟩

/-- Up to a final state, no run has other effects than those on the way. -/
theorem run_prefix (h : M.Steps s es s') (hs' : M.Final s') (n : Nat) : (M.run n s).2 <+: es := by
  obtain ⟨m, hm⟩ := h
  rcases Nat.le_total n m with hle | hle
  · obtain ⟨d, rfl⟩ := Nat.exists_eq_add_of_le hle
    rw [run_add] at hm
    exact ⟨_, congrArg Prod.snd hm⟩
  · have hrun : M.run n s = (s', es) := (run_of_final_le (by rwa [hm]) hle).trans hm
    exact ⟨[], by rw [hrun, List.append_nil]⟩

/-- An effect takes a step. -/
theorem exists_succ (h : M.Steps s es s') (hes : es ≠ []) : ∃ n, M.run (n + 1) s = (s', es) := by
  obtain ⟨n, hn⟩ := h
  cases n with
  | zero => exact absurd (congrArg Prod.snd hn).symm hes
  | succ n => exact ⟨n, hn⟩

end Steps

theorem terminates_of_final (h : M.Final s) : M.Terminates s := ⟨0, h⟩

/-- A run that comes back to a state that is not final never ends. -/
theorem not_terminates_of_cycle {p : Nat} (h : (M.run (p + 1) s).1 = s) (hs : ¬ M.Final s) :
    ¬ M.Terminates s := by
  have hcycle : ∀ n, (M.run ((p + 1) * n) s).1 = s := fun n => by
    induction n with
    | zero => rfl
    | succ n ih => rw [Nat.mul_succ, run_add, ih, h]
  rintro ⟨n, hn⟩
  have hle : n ≤ (p + 1) * n := Nat.le_mul_of_pos_left n (Nat.succ_pos p)
  refine hs ?_
  rw [← hcycle n, run_of_final_le hn hle]
  exact hn

/-- `s'` is the first state with the property `p` in the run from `s`. -/
inductive First (M : Machine σ ε) (p : σ → Prop) : σ → σ → Prop
  | here {x} (h : p x) : First M p x x
  | next {x y} (h : ¬ p x) (h' : First M p (M.step x).1 y) : First M p x y

namespace First
variable {p : σ → Prop}

theorem of_step (h : M.step s = (s', es)) (hs : ¬ p s) (h' : M.First p s' s'') :
    M.First p s s'' :=
  .next hs (by rwa [h])

theorem unique (h : M.First p s s') (h' : M.First p s s'') : s' = s'' := by
  induction h with
  | here hs =>
    cases h' with
    | here => rfl
    | next hs' => exact absurd hs hs'
  | next hs _ ih =>
    cases h' with
    | here hs' => exact absurd hs' hs
    | next _ h' => exact ih h'

/-- A run that ends without the property has no first state with it. -/
theorem not_of_final (hs : M.Final s) (hp : ¬ p s) : ¬ M.First p s s' := by
  intro h
  induction h with
  | here h => exact hp h
  | next _ _ ih =>
    rw [M.step_final _ hs] at ih
    exact ih hs hp

/-- The first states behind a step. -/
theorem iff_of_step (h : M.step s = (s', es)) (hs : ¬ p s) :
    M.First p s s'' ↔ M.First p s' s'' := by
  refine ⟨fun hfirst => ?_, of_step h hs⟩
  cases hfirst with
  | here hs' => exact absurd hs' hs
  | next _ h' => rwa [h] at h'

end First

end Machine
end Httpancake
