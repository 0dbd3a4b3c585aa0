import Mathlib.Algebra.Group.Nat.Defs
import Mathlib.Data.List.Basic
import Mathlib.Data.List.Infix

/-! # Byte strings

`std::string` and `std::vector<char>` are lists of bytes. The member functions the server calls
keep their documented meaning: a search answers `none` for `npos`, `substr` answers `none` where
the standard library throws `std::out_of_range`, and `size_t` subtraction wraps. -/

namespace Httpancake

abbrev Bytes := List UInt8

/-- A character of the source. -/
def byte (c : Char) : UInt8 := c.toNat.toUInt8

/-- A string of the source. -/
def ascii (s : String) : Bytes := s.toList.map fun c => c.toNat.toUInt8

namespace Bytes

def NUL : UInt8 := 0
def LF : UInt8 := 10
def CR : UInt8 := 13
def SP : UInt8 := 32
def DOT : UInt8 := 46
def COLON : UInt8 := 58

/-- What a C function reads at `s.c_str()`. -/
def cStr (s : Bytes) : Bytes := s.takeWhile (· ≠ NUL)

theorem cStr_append {s : Bytes} (h : NUL ∉ s) (t : Bytes) : cStr (s ++ t) = s ++ cStr t := by
  refine List.takeWhile_append_of_pos fun c hc => decide_eq_true ?_
  rintro rfl
  exact h hc

theorem cStr_subset (s : Bytes) : cStr s ⊆ s := (List.takeWhile_prefix _).subset

/-! ## Searching -/

/-- `s.find(pat)`. -/
def find (pat : Bytes) : Bytes → Option Nat
  | [] => if pat = [] then some 0 else none
  | c :: s => if pat.isPrefixOf (c :: s) then some 0 else (find pat s).map (· + 1)

/-- `s.find(c, pos)`. -/
def findByte (s : Bytes) (c : UInt8) (pos : Nat) : Option Nat :=
  ((s.drop pos).idxOf? c).map (pos + ·)

/-- `s.find_last_of(c)`. -/
def findLastOf (c : UInt8) : Bytes → Option Nat
  | [] => none
  | b :: s => match findLastOf c s with
    | some i => some (i + 1)
    | none => if b = c then some 0 else none

theorem find_eq_zero_iff {pat s : Bytes} : find pat s = some 0 ↔ pat <+: s := by
  cases s with
  | nil => simp [find]
  | cons c s =>
    simp only [find, List.isPrefixOf_iff_prefix]
    split
    · simp_all
    · simp_all

theorem find_isSome_iff {pat s : Bytes} : (find pat s).isSome ↔ pat <:+: s := by
  induction s with
  | nil => simp only [find]; split <;> simp_all
  | cons c s ih =>
    simp only [find, List.isPrefixOf_iff_prefix, List.infix_cons_iff]
    split
    · simp_all
    · simp_all

theorem findLastOf_eq_none_iff {c : UInt8} {s : Bytes} : findLastOf c s = none ↔ c ∉ s := by
  induction s with
  | nil => simp [findLastOf]
  | cons b s ih =>
    simp only [findLastOf, List.mem_cons, not_or]
    cases hs : findLastOf c s with
    | none =>
      have hc : c ∉ s := ih.mp hs
      by_cases hb : b = c
      · simp [hb]
      · simp [hb, hc, Ne.symm hb]
    | some i =>
      have hc : ¬ c ∉ s := fun h => by simp [ih.mpr h] at hs
      simp [hc]

theorem findLastOf_lt {c : UInt8} {s : Bytes} {i : Nat} (h : findLastOf c s = some i) :
    i < s.length := by
  induction s generalizing i with
  | nil => simp [findLastOf] at h
  | cons b s ih =>
    simp only [findLastOf] at h
    cases hs : findLastOf c s with
    | none =>
      rw [hs] at h
      have : 0 = i := by by_cases hb : b = c <;> simp_all
      simp [← this]
    | some j =>
      rw [hs, Option.some.injEq] at h
      have := ih hs
      simp only [List.length_cons]; omega

theorem idxOf?_append_cons {c : UInt8} {l : Bytes} (h : c ∉ l) (s : Bytes) :
    (l ++ c :: s).idxOf? c = some l.length := by
  have hl : l.findIdx? (· == c) = none := by
    simp only [List.findIdx?_eq_none_iff, beq_eq_false_iff_ne]
    rintro a ha rfl
    exact h ha
  simp [List.idxOf?, List.findIdx?_append, List.findIdx?_cons, hl]

/-- Searching from the end of `pre` finds the first `c` behind it. -/
theorem findByte_append_cons {c : UInt8} (pre : Bytes) {l : Bytes} (h : c ∉ l) (s : Bytes) :
    findByte (pre ++ l ++ c :: s) c pre.length = some (pre.length + l.length) := by
  simp [findByte, idxOf?_append_cons h]

theorem findByte_eq_none_iff {c : UInt8} {s : Bytes} {pos : Nat} :
    findByte s c pos = none ↔ c ∉ s.drop pos := by simp [findByte]

theorem findByte_zero_eq_none_iff {c : UInt8} {s : Bytes} : findByte s c 0 = none ↔ c ∉ s := by
  rw [findByte_eq_none_iff, List.drop_zero]

theorem drop_append_cons {c : UInt8} (a s : Bytes) : (a ++ c :: s).drop (a.length + 1) = s := by
  rw [List.drop_append, List.drop_eq_nil_of_le (Nat.le_succ _), Nat.add_sub_cancel_left]
  rfl

/-- The text before the first `c` and the text behind it. -/
def cut (c : UInt8) : Bytes → Option (Bytes × Bytes)
  | [] => none
  | b :: s => if b = c then some ([], s) else (cut c s).map fun p => (b :: p.1, p.2)

theorem cut_append_cons {c : UInt8} {a : Bytes} (h : c ∉ a) (r : Bytes) :
    cut c (a ++ c :: r) = some (a, r) := by
  induction a with
  | nil => simp [cut]
  | cons b a ih =>
    obtain ⟨hb, ha⟩ : c ≠ b ∧ c ∉ a := by simpa using h
    simp [cut, Ne.symm hb, ih ha]

theorem cut_eq_none_iff {c : UInt8} {s : Bytes} : cut c s = none ↔ c ∉ s := by
  induction s with
  | nil => simp [cut]
  | cons b s ih =>
    rcases eq_or_ne b c with rfl | hb
    · simp [cut]
    · simp [cut, hb, Ne.symm hb, ih]

theorem cut_eq_some_iff {c : UInt8} {s a r : Bytes} :
    cut c s = some (a, r) ↔ s = a ++ c :: r ∧ c ∉ a := by
  refine ⟨fun h => ?_, fun ⟨hs, ha⟩ => hs ▸ cut_append_cons ha r⟩
  have hc : c ∈ s := by
    by_contra hc
    rw [cut_eq_none_iff.mpr hc] at h
    cases h
  obtain ⟨a', r', rfl, ha'⟩ := List.eq_append_cons_of_mem hc
  rw [cut_append_cons ha'] at h
  cases h
  exact ⟨rfl, ha'⟩

/-! ## Substrings and sizes -/

/-- The largest `size_t`. -/
def npos : Nat := 2 ^ 64 - 1

/-- `a - b` in `size_t`. -/
def sizeSub (a b : Nat) : Nat := (a + 2 ^ 64 - b) % 2 ^ 64

/-- `s.substr(pos, n)`, with `pos = none` for `npos`. -/
def substr (s : Bytes) (pos : Option Nat) (n : Nat) : Option Bytes := do
  let p ← pos
  if p ≤ s.length then some ((s.drop p).take n) else none

@[simp] theorem substr_npos {s : Bytes} {n : Nat} : substr s none n = none := rfl

theorem substr_some {s : Bytes} {p n : Nat} (h : p ≤ s.length) :
    substr s (some p) n = some ((s.drop p).take n) := by
  simp [substr, h]

theorem substr_eq_none_iff {s : Bytes} {p n : Nat} : substr s (some p) n = none ↔ s.length < p := by
  simp [substr]

/-! ## Overwriting -/

/-- `std::copy` of `src` to `dst[pos..]`. -/
def overwrite (dst : Bytes) (pos : Nat) (src : Bytes) : Bytes :=
  dst.take pos ++ src ++ dst.drop (pos + src.length)

theorem overwrite_append (u v data : Bytes) :
    overwrite (u ++ v) u.length data = u ++ data ++ v.drop data.length := by
  simp [overwrite, List.drop_append]

@[simp] theorem overwrite_nil (dst : Bytes) (pos : Nat) : overwrite dst pos [] = dst := by
  simp [overwrite]

/-- One byte at a time. -/
theorem overwrite_cons {dst : Bytes} {pos : Nat} (h : pos < dst.length) (c : UInt8) (src : Bytes) :
    overwrite (dst.set pos c) (pos + 1) src = overwrite dst pos (c :: src) := by
  rw [List.set_eq_take_append_cons_drop, if_pos h]
  have hlen : (dst.take pos ++ [c]).length = pos + 1 := by
    simp [List.length_take, Nat.min_eq_left h.le]
  rw [List.append_cons, ← hlen, overwrite_append, hlen]
  simp [overwrite, Nat.add_assoc, Nat.add_comm 1]

theorem take_overwrite_end {dst : Bytes} {pos : Nat} (hpos : pos ≤ dst.length) (src : Bytes) :
    (overwrite dst pos src).take (pos + src.length) = dst.take pos ++ src := by
  have hlen : (dst.take pos ++ src).length = pos + src.length := by simp [hpos]
  rw [overwrite, ← hlen, List.take_left]

/-- What was written before it was reversed lies under the reversed bytes and their zero. -/
theorem overwrite_reversed {dst p : Bytes} {pos : Nat} (h : pos + p.length < dst.length) :
    overwrite ((overwrite dst pos p).set (pos + p.length) 0) pos p.reverse =
      overwrite dst pos (p.reverse ++ [0]) := by
  obtain ⟨u, w, rfl, rfl⟩ : ∃ u w, dst = u ++ w ∧ pos = u.length :=
    ⟨dst.take pos, dst.drop pos, (List.take_append_drop _ _).symm, by
      rw [List.length_take, Nat.min_eq_left (by omega)]⟩
  rw [List.length_append, Nat.add_lt_add_iff_left] at h
  have hzero : (u ++ p ++ w.drop p.length).set (u.length + p.length) 0 =
      u ++ (p ++ 0 :: w.drop (p.length + 1)) := by
    rw [List.drop_eq_getElem_cons h, ← List.length_append, List.set_append_right _ _ le_rfl,
      Nat.sub_self, List.set_cons_zero, List.append_assoc]
  rw [overwrite_append, hzero, overwrite_append, overwrite_append, List.length_reverse,
    List.drop_left, List.length_append, List.length_reverse, List.length_singleton]
  simp only [List.append_assoc, List.singleton_append]

/-- The zero behind the text is not part of it. -/
theorem take_overwrite_text {dst : Bytes} {pos : Nat} (h : pos ≤ dst.length) (text : Bytes) :
    (overwrite dst pos (text ++ [0])).take (pos + text.length) = dst.take pos ++ text := by
  have hlen : (dst.take pos ++ text).length = pos + text.length := by
    rw [List.length_append, List.length_take, Nat.min_eq_left h]
  rw [overwrite, ← List.append_assoc, List.append_assoc (dst.take pos ++ text), ← hlen,
    List.take_left]

/-! ## Letter case -/

/-- `std::tolower` in the C locale. -/
def toLower (c : UInt8) : UInt8 := if 65 ≤ c ∧ c ≤ 90 then c + 32 else c

/-- `std::regex_match` with a literal pattern under `std::regex::icase`. -/
def matchesIgnoreCase (s pat : Bytes) : Bool := s.map toLower == pat.map toLower

theorem matchesIgnoreCase_take {s pat : Bytes} {n : Nat} (h : pat.length < n) :
    matchesIgnoreCase (s.take n) pat = matchesIgnoreCase s pat := by
  by_cases hs : s.length ≤ n
  · rw [List.take_of_length_le hs]
  · have hlen : ∀ t : Bytes, n ≤ t.length → matchesIgnoreCase t pat = false := fun t ht => by
      simp only [matchesIgnoreCase, beq_eq_false_iff_ne]
      intro heq
      have := congrArg List.length heq
      simp only [List.length_map] at this; omega
    rw [hlen _ (by simp; omega), hlen _ (by omega)]

end Bytes
end Httpancake
