import Httpancake.Lib.Heap
import Httpancake.Lib.OrderedSet

/-! # Ordered sets that index a heap

`h.Indexed A elem s` says that the elements of `s` are exactly `elem p v` for the objects `v` of
the heap with a pointer `p` in `A`. When the key of an element tells the address of its object,
insertion and erasure move one pointer into and out of `A`. -/

namespace Httpancake.Heap
variable {τ β κ : Type*} [LinearOrder κ] {key : β → κ} {elem : Ptr → τ → β} {h h' : Heap τ}
variable {A A' : Ptr → Prop} {s : OrderedSet key} {p : Ptr} {v : τ}

def Indexed (h : Heap τ) (A : Ptr → Prop) (elem : Ptr → τ → β) (s : OrderedSet key) : Prop :=
  ∀ x, x ∈ s ↔ ∃ p v, h.deref p = some v ∧ A p ∧ x = elem p v

/-- Elements of objects at different addresses have different keys. -/
def Separates (key : β → κ) (elem : Ptr → τ → β) : Prop :=
  ∀ p v q w, key (elem p v) = key (elem q w) → p.addr = q.addr

omit [LinearOrder κ] in
/-- Two pointers to elements with one key are the same. -/
theorem Separates.eq_of_key {q : Ptr} {w : τ} (hsep : Separates key elem) (hp : h.deref p = some v)
    (hq : h.deref q = some w) (heq : key (elem p v) = key (elem q w)) : p = q :=
  eq_of_addr hp hq (hsep p v q w heq)

namespace Indexed

theorem mem (hs : h.Indexed A elem s) (hp : h.deref p = some v) (hA : A p) : elem p v ∈ s :=
  (hs _).mpr ⟨p, v, hp, hA, rfl⟩

/-- Only the objects in `A` matter. -/
theorem congr (hs : h.Indexed A elem s)
    (heq : ∀ p v, h'.deref p = some v ∧ A' p ↔ h.deref p = some v ∧ A p) :
    h'.Indexed A' elem s := by
  intro x
  rw [hs]
  exact exists_congr fun p => exists_congr fun v => by rw [← and_assoc, ← and_assoc, heq]

/-- The element of an object outside `A` has a new key. -/
theorem new_key (hs : h.Indexed A elem s) (hsep : Separates key elem) (hp : h.deref p = some v)
    (hA : ¬ A p) : ∀ x ∈ s, key x ≠ key (elem p v) := by
  intro x hx heq
  obtain ⟨q, w, hq, hAq, rfl⟩ := (hs x).mp hx
  exact hA (hsep.eq_of_key hq hp heq ▸ hAq)

theorem place (hs : h.Indexed A elem s) (hsep : Separates key elem) (hp : h.deref p = some v)
    (hA : ¬ A p) : h.Indexed (fun q => q = p ∨ A q) elem (s.place (elem p v)) := by
  intro x
  rw [OrderedSet.mem_place (hs.new_key hsep hp hA), hs]
  constructor
  · rintro (rfl | ⟨q, w, hq, hAq, rfl⟩)
    · exact ⟨p, v, hp, .inl rfl, rfl⟩
    · exact ⟨q, w, hq, .inr hAq, rfl⟩
  · rintro ⟨q, w, hq, rfl | hAq, rfl⟩
    · cases hp.symm.trans hq
      exact .inl rfl
    · exact .inr ⟨q, w, hq, hAq, rfl⟩

theorem erase (hs : h.Indexed A elem s) (hsep : Separates key elem) (hp : h.deref p = some v)
    (hA : A p) : h.Indexed (fun q => A q ∧ q ≠ p) elem (s.erase (key (elem p v))).1 := by
  intro x
  rw [OrderedSet.mem_erase, hs]
  constructor
  · rintro ⟨⟨q, w, hq, hAq, rfl⟩, hne⟩
    refine ⟨q, w, hq, ⟨hAq, ?_⟩, rfl⟩
    rintro rfl
    cases hp.symm.trans hq
    exact hne rfl
  · rintro ⟨q, w, hq, ⟨hAq, hne⟩, rfl⟩
    exact ⟨⟨q, w, hq, hAq, rfl⟩, fun heq => hne (hsep.eq_of_key hq hp heq)⟩

/-- Erasing a range takes the objects of its elements out of `A`. -/
theorem eraseBelow {ptr : β → Ptr} (hs : h.Indexed A elem s) (hptr : ∀ p v, ptr (elem p v) = p)
    (k : κ) :
    h.Indexed (fun q => A q ∧ q ∉ (s.below k).map ptr) elem (s.eraseBelow k) := by
  intro x
  rw [OrderedSet.mem_eraseBelow, hs]
  constructor
  · rintro ⟨⟨q, w, hq, hAq, rfl⟩, hle⟩
    refine ⟨q, w, hq, ⟨hAq, fun hmem => ?_⟩, rfl⟩
    obtain ⟨y, hy, hyq⟩ := List.mem_map.mp hmem
    obtain ⟨hys, hlt⟩ := OrderedSet.mem_below.mp hy
    obtain ⟨r, u, hr, -, rfl⟩ := (hs y).mp hys
    rw [hptr] at hyq
    subst hyq
    cases hq.symm.trans hr
    exact absurd hlt (not_lt.mpr hle)
  · rintro ⟨q, w, hq, ⟨hAq, hnot⟩, rfl⟩
    refine ⟨⟨q, w, hq, hAq, rfl⟩, not_lt.mp fun hlt => hnot ?_⟩
    exact List.mem_map.mpr ⟨_, OrderedSet.mem_below.mpr ⟨hs.mem hq hAq, hlt⟩, hptr q w⟩

/-- Different elements come from different objects. -/
theorem nodup_below {ptr : β → Ptr} (hs : h.Indexed A elem s) (hptr : ∀ p v, ptr (elem p v) = p)
    (k : κ) : ((s.below k).map ptr).Nodup := by
  refine List.Nodup.map_on ?_ (OrderedSet.nodup_below s k)
  intro x hx y hy heq
  obtain ⟨p, v, hp, -, rfl⟩ := (hs x).mp (OrderedSet.mem_below.mp hx).1
  obtain ⟨q, w, hq, -, rfl⟩ := (hs y).mp (OrderedSet.mem_below.mp hy).1
  rw [hptr, hptr] at heq
  subst heq
  cases hp.symm.trans hq
  rfl

end Indexed
end Httpancake.Heap
