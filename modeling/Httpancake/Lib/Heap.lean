import Mathlib.Data.Option.Basic
import Mathlib.Logic.Function.Basic

/-! # A heap whose addresses are reused

Objects are numbered in the order in which they were made. A pointer is the address the program
can compare, together with the object it was made for, which it cannot see: after a deletion the
allocator may give the same address to another object, and then two pointers compare equal although
one of them dangles. `deref`, `write` and `delete` fail on a pointer to a deleted object.

Pointers that can be dereferenced are equal when their addresses are (`Heap.eq_of_addr`) and when
their objects are (`Heap.eq_of_obj`). -/

namespace Httpancake

structure Ptr where
  addr : Nat
  obj : Nat
deriving DecidableEq, Repr

/-- What occupies each address, and the number of objects made so far. -/
structure Heap (τ : Type*) where
  occupant : Nat → Option (Nat × τ)
  made : Nat
  lt_made : ∀ a o v, occupant a = some (o, v) → o < made
  addr_unique : ∀ a b o v w, occupant a = some (o, v) → occupant b = some (o, w) → a = b

namespace Heap
variable {τ : Type*} {h h' : Heap τ} {p q : Ptr} {v w : τ} {addr : Nat}

instance : EmptyCollection (Heap τ) := ⟨⟨fun _ => none, 0, by simp, by simp⟩⟩

def Free (h : Heap τ) (addr : Nat) : Prop := h.occupant addr = none

def deref (h : Heap τ) (p : Ptr) : Option τ :=
  match h.occupant p.addr with
  | some (o, v) => if o = p.obj then some v else none
  | none => none

/-- The object was made and is gone. -/
def Deleted (h : Heap τ) (obj : Nat) : Prop :=
  obj < h.made ∧ ∀ addr, h.deref ⟨addr, obj⟩ = none

/-- A new object at `addr`. -/
def new (h : Heap τ) (addr : Nat) (v : τ) : Heap τ where
  occupant := Function.update h.occupant addr (some (h.made, v))
  made := h.made + 1
  lt_made a o w hw := by
    rw [Function.update_apply] at hw
    split at hw
    · cases hw
      exact Nat.lt_succ_self _
    · exact Nat.lt_succ_of_lt (h.lt_made a o w hw)
  addr_unique a b o v w hv hw := by
    rw [Function.update_apply] at hv hw
    split at hv <;> split at hw
    · simp only [*]
    · cases hv
      exact absurd (h.lt_made b _ w hw) (Nat.lt_irrefl _)
    · cases hw
      exact absurd (h.lt_made a _ v hv) (Nat.lt_irrefl _)
    · exact h.addr_unique a b o v w hv hw

/-- The pointer to the object `new` makes. -/
def newPtr (h : Heap τ) (addr : Nat) : Ptr := ⟨addr, h.made⟩

/-- `occ` occupies the address `p.addr` from now on. -/
def setOccupant (h : Heap τ) (p : Ptr) (occ : Option (Nat × τ))
    (hocc : ∀ o v, occ = some (o, v) → ∃ w, h.occupant p.addr = some (o, w)) : Heap τ where
  occupant := Function.update h.occupant p.addr occ
  made := h.made
  lt_made a o w hw := by
    rw [Function.update_apply] at hw
    split at hw
    · obtain ⟨w', hw'⟩ := hocc o w hw
      exact h.lt_made _ o w' hw'
    · exact h.lt_made a o w hw
  addr_unique a b o v w hv hw := by
    have hold : ∀ c x, Function.update h.occupant p.addr occ c = some (o, x) →
        ∃ y, h.occupant c = some (o, y) := by
      intro c x hx
      rw [Function.update_apply] at hx
      split at hx
      · rename_i hc
        exact hc ▸ hocc o x hx
      · exact ⟨x, hx⟩
    obtain ⟨v', hv'⟩ := hold a v hv
    obtain ⟨w', hw'⟩ := hold b w hw
    exact h.addr_unique a b o v' w' hv' hw'

theorem deref_eq_some_iff : h.deref p = some v ↔ h.occupant p.addr = some (p.obj, v) := by
  unfold deref
  constructor
  · intro hv
    split at hv
    · split at hv
      · cases hv
        simp_all
      · cases hv
    · cases hv
  · intro hv
    simp [hv]

/-- `delete p` -/
def delete (h : Heap τ) (p : Ptr) : Option (Heap τ) :=
  if (h.deref p).isSome then some (h.setOccupant p none nofun) else none

/-- `*p = v` -/
def write (h : Heap τ) (p : Ptr) (v : τ) : Option (Heap τ) :=
  match hp : h.deref p with
  | some w => some (h.setOccupant p (some (p.obj, v)) fun o x hx => by
      cases hx
      exact ⟨w, deref_eq_some_iff.mp hp⟩)
  | none => none

theorem eq_of_addr (hp : h.deref p = some v) (hq : h.deref q = some w)
    (heq : p.addr = q.addr) : p = q := by
  have hpo := deref_eq_some_iff.mp hp
  have hqo := deref_eq_some_iff.mp hq
  rw [heq, hqo, Option.some.injEq, Prod.mk.injEq] at hpo
  cases p
  cases q
  simp_all

theorem eq_of_obj (hp : h.deref p = some v) (hq : h.deref q = some w) (heq : p.obj = q.obj) :
    p = q := by
  refine eq_of_addr hp hq (h.addr_unique p.addr q.addr q.obj v w ?_ (deref_eq_some_iff.mp hq))
  rw [← heq]
  exact deref_eq_some_iff.mp hp

theorem obj_lt_made (hp : h.deref p = some v) : p.obj < h.made :=
  h.lt_made _ _ v (deref_eq_some_iff.mp hp)

theorem addr_ne_of_free (hfree : h.Free addr) (hp : h.deref p = some v) : p.addr ≠ addr := by
  rintro rfl
  rw [Free, deref_eq_some_iff.mp hp] at hfree
  cases hfree

theorem newPtr_not_live : h.deref (h.newPtr addr) = none := by
  rw [Option.eq_none_iff_forall_ne_some]
  intro v hv
  exact absurd (obj_lt_made hv) (Nat.lt_irrefl _)

@[simp] theorem made_new : (h.new addr v).made = h.made + 1 := rfl

/-- Pointers to other objects are unaffected by an allocation. -/
theorem deref_new (hfree : h.Free addr) :
    (h.new addr v).deref q = if q = h.newPtr addr then some v else h.deref q := by
  ext w
  rw [deref_eq_some_iff, new]
  dsimp only
  rw [Function.update_apply]
  by_cases ha : q.addr = addr
  · have hnone : h.deref q = none := by
      rw [Option.eq_none_iff_forall_ne_some]
      intro x hx
      exact addr_ne_of_free hfree hx ha
    have hobj : q = h.newPtr addr ↔ h.made = q.obj := by
      cases q
      simp_all [newPtr, eq_comm]
    rw [if_pos ha, hnone]
    simp only [hobj, Option.some.injEq, Prod.mk.injEq]
    split <;> simp_all
  · have hq : q ≠ h.newPtr addr := fun hq => ha (by rw [hq]; rfl)
    rw [if_neg ha, if_neg hq, deref_eq_some_iff]

private theorem deref_setOccupant {occ : Option (Nat × τ)} {hocc} (hp : h.deref p = some v) :
    (h.setOccupant p occ hocc).deref q =
      if q = p then (h.setOccupant p occ hocc).deref p else h.deref q := by
  by_cases hq : q = p
  · rw [if_pos hq, hq]
  rw [if_neg hq]
  ext w
  rw [deref_eq_some_iff, deref_eq_some_iff, setOccupant]
  dsimp only
  rw [Function.update_apply]
  by_cases ha : q.addr = p.addr
  · have hobj : p.obj ≠ q.obj := fun hobj => hq (by cases p; cases q; simp_all)
    rw [if_pos ha, ha, deref_eq_some_iff.mp hp]
    constructor
    · intro hw
      obtain ⟨x, hx⟩ := hocc _ _ hw
      rw [deref_eq_some_iff.mp hp, Option.some.injEq, Prod.mk.injEq] at hx
      exact absurd hx.1 hobj
    · intro hw
      rw [Option.some.injEq, Prod.mk.injEq] at hw
      exact absurd hw.1 hobj
  · rw [if_neg ha]

theorem delete_spec (hp : h.deref p = some v) :
    ∃ h', h.delete p = some h' ∧ h'.made = h.made ∧
      ∀ q, h'.deref q = if q = p then none else h.deref q := by
  have hdelete : h.delete p = some (h.setOccupant p none nofun) := by simp [delete, hp]
  refine ⟨_, hdelete, rfl, fun q => ?_⟩
  rw [deref_setOccupant hp]
  simp [setOccupant, deref]

theorem write_spec (hp : h.deref p = some v) (w : τ) :
    ∃ h', h.write p w = some h' ∧ h'.made = h.made ∧
      ∀ q, h'.deref q = if q = p then some w else h.deref q := by
  have hwrite : ∃ hocc, h.write p w = some (h.setOccupant p (some (p.obj, w)) hocc) := by
    unfold write
    split
    · rename_i x hx
      refine ⟨fun o y hy => ?_, rfl⟩
      cases hy
      exact ⟨x, deref_eq_some_iff.mp hx⟩
    · simp_all
  obtain ⟨hocc, hwrite⟩ := hwrite
  refine ⟨_, hwrite, rfl, fun q => ?_⟩
  rw [deref_setOccupant hp]
  simp [setOccupant, deref]

end Heap
end Httpancake
