import Mathlib.Data.List.Basic
import Mathlib.Data.List.Nodup
import Mathlib.Order.Lattice

/-! # Ordered sets with a key

`OrderedSet key` is a `std::set` whose elements are compared by `key` only: the elements are in
increasing order of their keys, so no two of them have the same key. An element is looked up and
erased by its key, and what comes back is the element that was inserted. -/

namespace Httpancake

structure OrderedSet {β κ : Type*} [LinearOrder κ] (key : β → κ) where
  toList : List β
  sorted : toList.Pairwise (key · < key ·)

namespace OrderedSet
variable {β κ : Type*} [LinearOrder κ] {key : β → κ} {s : OrderedSet key} {x y : β} {k : κ}

instance : Membership β (OrderedSet key) := ⟨fun s x => x ∈ s.toList⟩

instance : EmptyCollection (OrderedSet key) := ⟨⟨[], .nil⟩⟩

def size (s : OrderedSet key) : Nat := s.toList.length

/-- The element at `begin()`. -/
def first? (s : OrderedSet key) : Option β := s.toList.head?

def find? (s : OrderedSet key) (k : κ) : Option β := s.toList.find? (key · = k)

/-- The elements before `lower_bound(k)`. -/
def below (s : OrderedSet key) (k : κ) : List β := s.toList.filter (key · < k)

/-- The set without them. -/
def eraseBelow (s : OrderedSet key) (k : κ) : OrderedSet key :=
  ⟨s.toList.filter (¬ key · < k), s.sorted.filter _⟩

/-- `erase(k)` returns the number of elements erased. -/
def erase (s : OrderedSet key) (k : κ) : OrderedSet key × Nat :=
  (⟨s.toList.filter (key · ≠ k), s.sorted.filter _⟩, s.toList.countP (key · = k))

/-- `x` between the elements with smaller and those with larger keys. -/
def place (s : OrderedSet key) (x : β) : OrderedSet key where
  toList := s.toList.filter (key · < key x) ++ x :: s.toList.filter (key x < key ·)
  sorted := by
    rw [List.pairwise_append, List.pairwise_cons]
    refine ⟨s.sorted.filter _, ⟨fun y hy => by simpa using (List.mem_filter.mp hy).2,
      s.sorted.filter _⟩, fun y hy z hz => ?_⟩
    have hyx : key y < key x := by simpa using (List.mem_filter.mp hy).2
    rcases List.mem_cons.mp hz with rfl | hz
    · exact hyx
    · exact hyx.trans (by simpa using (List.mem_filter.mp hz).2)

/-- `insert(x)` leaves the set alone when there is an element with the key of `x`. -/
def insert (s : OrderedSet key) (x : β) : OrderedSet key × Bool :=
  if (s.find? (key x)).isSome then (s, false) else (s.place x, true)

theorem mem_toList : x ∈ s.toList ↔ x ∈ s := Iff.rfl

@[simp] theorem not_mem_empty : x ∉ (∅ : OrderedSet key) := List.not_mem_nil

@[simp] theorem size_empty : (∅ : OrderedSet key).size = 0 := rfl

theorem nodup_keys (s : OrderedSet key) : (s.toList.map key).Nodup := by
  rw [List.Nodup, List.pairwise_map]
  exact s.sorted.imp fun h => h.ne

theorem nodup (s : OrderedSet key) : s.toList.Nodup := s.nodup_keys.of_map

theorem key_inj (hx : x ∈ s) (hy : y ∈ s) (h : key x = key y) : x = y :=
  List.inj_on_of_nodup_map s.nodup_keys hx hy h

theorem find?_eq_some_iff : s.find? k = some x ↔ x ∈ s ∧ key x = k := by
  constructor
  · intro h
    exact ⟨List.mem_of_find?_eq_some h, by simpa using List.find?_some h⟩
  · rintro ⟨hx, rfl⟩
    cases h : s.find? (key x) with
    | none => exact absurd (List.find?_eq_none.mp h x hx) (by simp)
    | some y =>
      have hy : key y = key x := by simpa using List.find?_some h
      rw [key_inj (List.mem_of_find?_eq_some h) hx hy]

theorem find?_eq_none_iff : s.find? k = none ↔ ∀ x ∈ s, key x ≠ k := by
  simp only [find?, List.find?_eq_none, decide_eq_true_eq, ne_eq]
  rfl

/-! ## Insertion -/

theorem mem_place (h : ∀ y ∈ s, key y ≠ key x) : y ∈ s.place x ↔ y = x ∨ y ∈ s := by
  simp only [place, ← mem_toList, List.mem_append, List.mem_cons, List.mem_filter,
    decide_eq_true_eq]
  constructor
  · rintro (hy | rfl | hy)
    · exact .inr hy.1
    · exact .inl rfl
    · exact .inr hy.1
  · rintro (rfl | hy)
    · exact .inr (.inl rfl)
    · rcases lt_or_gt_of_ne (h y hy) with hlt | hlt
      · exact .inl ⟨hy, hlt⟩
      · exact .inr (.inr ⟨hy, hlt⟩)

theorem size_place (h : ∀ y ∈ s, key y ≠ key x) : (s.place x).size = s.size + 1 := by
  have hup : s.toList.filter (key x < key ·) =
      s.toList.filter (fun y => ! decide (key y < key x)) :=
    List.filter_congr fun y hy => by
      rw [← decide_not, decide_eq_decide, not_lt]
      exact (h y hy).symm.le_iff_lt.symm
  have hsplit := List.length_eq_length_filter_add (l := s.toList) (key · < key x)
  simp only [place, size, List.length_append, List.length_cons, hup]
  omega

/-- Inserting an element with a new key succeeds. -/
theorem insert_of_new (h : ∀ y ∈ s, key y ≠ key x) : s.insert x = (s.place x, true) := by
  simp [insert, find?_eq_none_iff.mpr h]

theorem find?_insert_ne_none_iff :
    (s.insert x).1.find? k ≠ none ↔ s.find? k ≠ none ∨ key x = k := by
  unfold insert
  split
  · next hfind =>
    refine (or_iff_left_of_imp ?_).symm
    rintro rfl
    exact Option.isSome_iff_ne_none.mp hfind
  · next hnew =>
    have hnew : ∀ y ∈ s, key y ≠ key x := by simpa [find?_eq_none_iff] using hnew
    simp only [Ne, find?_eq_none_iff, mem_place hnew, not_forall, not_not, exists_prop,
      or_and_right, exists_or, exists_eq_left]
    exact or_comm

/-! ## Erasure -/

theorem mem_erase : x ∈ (s.erase k).1 ↔ x ∈ s ∧ key x ≠ k := by
  simp [erase, ← mem_toList]

theorem erase_snd_of_mem (h : x ∈ s) : (s.erase (key x)).2 = 1 := by
  have hcount : s.toList.countP (key · = key x) = (s.toList.map key).count (key x) := by
    rw [List.count, List.countP_map]
    exact List.countP_congr fun y _ => by simp
  rw [erase, hcount]
  exact List.count_eq_one_of_mem s.nodup_keys (List.mem_map_of_mem h)

theorem size_erase (s : OrderedSet key) (k : κ) : (s.erase k).1.size + (s.erase k).2 = s.size := by
  have hsplit := List.length_eq_length_filter_add (l := s.toList) (key · = k)
  simp only [erase, size, List.countP_eq_length_filter, ne_eq, decide_not]
  omega

theorem size_erase_of_mem (h : x ∈ s) : (s.erase (key x)).1.size + 1 = s.size := by
  rw [← size_erase s (key x), erase_snd_of_mem h]

theorem mem_below : x ∈ s.below k ↔ x ∈ s ∧ key x < k := by
  simp [below, ← mem_toList]

theorem mem_eraseBelow : x ∈ s.eraseBelow k ↔ x ∈ s ∧ k ≤ key x := by
  simp [eraseBelow, ← mem_toList]

theorem nodup_below (s : OrderedSet key) (k : κ) : (s.below k).Nodup := s.nodup.filter _

theorem size_eraseBelow (s : OrderedSet key) (k : κ) :
    (s.eraseBelow k).size + (s.below k).length = s.size := by
  have hsplit := List.length_eq_length_filter_add (l := s.toList) (key · < k)
  simp only [eraseBelow, below, size, decide_not]
  omega

theorem mem_of_first? (h : s.first? = some x) : x ∈ s := List.mem_of_mem_head? h

theorem first?_eq_none_iff : s.first? = none ↔ ∀ x, x ∉ s := by
  rw [first?, List.head?_eq_none_iff, List.eq_nil_iff_forall_not_mem]
  rfl

/-- The first element has the smallest key. -/
theorem key_le_of_first? (h : s.first? = some x) (hy : y ∈ s) : key x ≤ key y := by
  have hsorted := s.sorted
  rw [← mem_toList, List.eq_cons_of_mem_head? h, List.mem_cons] at hy
  rw [List.eq_cons_of_mem_head? h, List.pairwise_cons] at hsorted
  rcases hy with rfl | hy
  · exact le_rfl
  · exact (hsorted.1 y hy).le

/-- A new smallest element comes first. -/
theorem first?_place (h : ∀ y ∈ s, key x < key y) : (s.place x).first? = some x := by
  have hnil : s.toList.filter (key · < key x) = [] :=
    List.filter_eq_nil_iff.mpr fun y hy => by simpa using (h y hy).le
  simp [first?, place, hnil]

end OrderedSet
end Httpancake
