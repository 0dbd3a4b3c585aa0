import Httpancake.Lib.Program

/-! # Identifiers that are given again

The objects of a program are born and at some time are no longer live. Somebody else gives every
object an identifier at its birth, one that no live object has; an identifier is given again when
its object has gone.

* `Program.Births`: nothing comes back to life (`Program.Births.not_live_step`).
* `Program.tagged`: the program together with the identifiers of its objects.
* `Program.Births.tags_injective`: live objects have different identifiers.
* `Program.Births.keeps_tag`: an object keeps its identifier as long as it lives. -/

namespace Httpancake
namespace Program
variable {σ α ο ι τ : Type*}

/-- `born s a` is the object that the step `a` makes. What is live after a step was live before it
or is born in it, as far as `s` can be reached. -/
structure Births (P : Program σ α ο) (s₀ : σ) (Live : σ → ι → Prop) (born : σ → α → Option ι) :
    Prop where
  init : ∀ i, ¬ Live s₀ i
  live : ∀ s a s' o i, P.Reachable s₀ s → P.pre s a → P.exec s a = some (s', o) → Live s' i →
    Live s i ∨ born s a = some i
  fresh : ∀ s a i, P.Reachable s₀ s → P.pre s a → born s a = some i → ¬ Live s i

/-- What is gone stays gone, unless it is born. -/
theorem Births.not_live_step {P : Program σ α ο} {Live : σ → ι → Prop} {born : σ → α → Option ι}
    {s₀ s s' : σ} {a : α} {o : ο} {i : ι} (H : P.Births s₀ Live born) (hreach : P.Reachable s₀ s)
    (hpre : P.pre s a) (hexec : P.exec s a = some (s', o)) (hgone : ¬ Live s i)
    (hborn : born s a ≠ some i) : ¬ Live s' i := by
  intro hi
  rcases H.live s a s' o i hreach hpre hexec hi with hold | hnew
  · exact hgone hold
  · exact hborn hnew

/-! ## Identifiers -/

variable [DecidableEq ι]

/-- The identifiers after a step in which `t` is given. -/
def retag (tags : ι → τ) (t : τ) : Option ι → ι → τ
  | none => tags
  | some i => Function.update tags i t

/-- The steps of `P`, each with an identifier for the object that it makes. -/
def tagged (P : Program σ α ο) (Live : σ → ι → Prop) (born : σ → α → Option ι)
    (Reserved : τ → Prop) : Program (σ × (ι → τ)) (α × τ) ο where
  pre s a := P.pre s.1 a.1 ∧
    ((born s.1 a.1).isSome → ¬ Reserved a.2 ∧ ∀ j, Live s.1 j → s.2 j ≠ a.2)
  exec s a := (P.exec s.1 a.1).map fun r => ((r.1, retag s.2 a.2 (born s.1 a.1)), r.2)

variable {P : Program σ α ο} {Live : σ → ι → Prop} {born : σ → α → Option ι}
  {Reserved : τ → Prop} {s₀ : σ} {tags₀ : ι → τ} {s s' : σ × (ι → τ)}

theorem tagged_exec {a : α × τ} {o : ο}
    (h : (P.tagged Live born Reserved).exec s a = some (s', o)) :
    P.exec s.1 a.1 = some (s'.1, o) ∧ s'.2 = retag s.2 a.2 (born s.1 a.1) := by
  obtain ⟨⟨s₁, o₁⟩, hexec, heq⟩ := Option.map_eq_some_iff.mp h
  cases heq
  exact ⟨hexec, rfl⟩

/-- The identifiers do not change what the program does. -/
theorem tagged_reachable (h : (P.tagged Live born Reserved).Reachable (s₀, tags₀) s) :
    P.Reachable s₀ s.1 := by
  induction h with
  | start => exact .start
  | step _ hpre hexec ih => exact ih.step hpre.1 (tagged_exec hexec).1

namespace Births

/-- An object that was live keeps its identifier. -/
theorem keeps_tag (H : P.Births s₀ Live born) (hreach : P.Reachable s₀ s.1) {a : α × τ} {o : ο}
    (hpre : (P.tagged Live born Reserved).pre s a)
    (hexec : (P.tagged Live born Reserved).exec s a = some (s', o)) {i : ι} (hi : Live s.1 i) :
    s'.2 i = s.2 i := by
  rw [(tagged_exec hexec).2]
  cases hborn : born s.1 a.1 with
  | none => rfl
  | some j =>
    have hne : i ≠ j := by
      rintro rfl
      exact H.fresh s.1 a.1 i hreach hpre.1 hborn hi
    exact Function.update_of_ne hne ..

/-- What identifiers live objects have. -/
structure Tagged (Live : σ → ι → Prop) (Reserved : τ → Prop) (s : σ × (ι → τ)) : Prop where
  injective : ∀ i j, Live s.1 i → Live s.1 j → s.2 i = s.2 j → i = j
  not_reserved : ∀ i, Live s.1 i → ¬ Reserved (s.2 i)

/-- **Live objects have different identifiers**, and none that is reserved. -/
theorem tags_injective (H : P.Births s₀ Live born)
    (h : (P.tagged Live born Reserved).Reachable (s₀, tags₀) s) : Tagged Live Reserved s := by
  induction h with
  | start => exact ⟨fun i _ hi => absurd hi (H.init i), fun i hi => absurd hi (H.init i)⟩
  | @step s a s' o hreach hpre hexec ih =>
    have hplain := tagged_reachable hreach
    have hlive (i : ι) (hi : Live s'.1 i) : Live s.1 i ∨ born s.1 a.1 = some i :=
      H.live s.1 a.1 s'.1 o i hplain hpre.1 (tagged_exec hexec).1 hi
    have hold (i : ι) (hi : Live s.1 i) : s'.2 i = s.2 i := H.keeps_tag hplain hpre hexec hi
    have hnew (i : ι) (hi : born s.1 a.1 = some i) :
        s'.2 i = a.2 ∧ ¬ Reserved a.2 ∧ ∀ j, Live s.1 j → s.2 j ≠ a.2 := by
      refine ⟨?_, hpre.2 (hi ▸ rfl)⟩
      rw [(tagged_exec hexec).2, hi]
      exact Function.update_self ..
    constructor
    · intro i j hi hj heq
      rcases hlive i hi with hi | hi
      · rcases hlive j hj with hj | hj
        · rw [hold i hi, hold j hj] at heq
          exact ih.injective i j hi hj heq
        · obtain ⟨htag, -, hfree⟩ := hnew j hj
          rw [hold i hi, htag] at heq
          exact absurd heq (hfree i hi)
      · rcases hlive j hj with hj | hj
        · obtain ⟨htag, -, hfree⟩ := hnew i hi
          rw [hold j hj, htag] at heq
          exact absurd heq.symm (hfree j hj)
        · exact Option.some.inj (hi.symm.trans hj)
    · intro i hi
      rcases hlive i hi with hi | hi
      · rw [hold i hi]
        exact ih.not_reserved i hi
      · obtain ⟨htag, hok, -⟩ := hnew i hi
        rw [htag]
        exact hok

end Births
end Program
end Httpancake
