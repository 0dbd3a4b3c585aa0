import Httpancake.Lib.Bytes

/-! # Lines of a byte string

`lines s` cuts `s` at every line feed: the complete lines in order, and the unfinished rest. -/

namespace Httpancake.Bytes

/-- The complete lines of a string, without their line feeds, and the bytes after the last one. -/
def lines : Bytes → List Bytes × Bytes
  | [] => ([], [])
  | c :: s =>
    if c = LF then ([] :: (lines s).1, (lines s).2)
    else match lines s with
      | ([], t) => ([], c :: t)
      | (l :: ls, t) => ((c :: l) :: ls, t)

/-- The string whose complete lines are `ls`. -/
def unlines (ls : List Bytes) : Bytes := ls.flatMap (· ++ [LF])

@[simp] theorem unlines_nil : unlines [] = [] := rfl

@[simp] theorem unlines_cons {l : Bytes} {ls : List Bytes} :
    unlines (l :: ls) = l ++ LF :: unlines ls := by simp [unlines]

@[simp] theorem unlines_append {ls ls' : List Bytes} :
    unlines (ls ++ ls') = unlines ls ++ unlines ls' := by simp [unlines]

theorem lines_unlines_append {ls : List Bytes} {t : Bytes} (hls : ∀ l ∈ ls, LF ∉ l)
    (ht : LF ∉ t) : lines (unlines ls ++ t) = (ls, t) := by
  induction ls with
  | nil =>
    induction t with
    | nil => rfl
    | cons c t ih =>
      simp only [List.mem_cons, not_or] at ht
      have := ih ht.2
      simp only [unlines_nil, List.nil_append] at this ⊢
      simp [lines, Ne.symm ht.1, this]
  | cons l ls ih =>
    have ihl := ih fun l' h => hls l' (List.mem_cons_of_mem _ h)
    have hl : LF ∉ l := hls l List.mem_cons_self
    clear hls ih
    induction l with
    | nil => simp [lines, ihl]
    | cons c l ih =>
      simp only [List.mem_cons, not_or] at hl
      have := ih hl.2
      simp only [unlines_cons, List.cons_append, List.append_assoc] at this ⊢
      simp [lines, Ne.symm hl.1, this]

theorem lines_unlines {ls : List Bytes} (hls : ∀ l ∈ ls, LF ∉ l) :
    lines (unlines ls) = (ls, []) := by
  simpa using lines_unlines_append hls (t := []) (by simp)

/-- Cutting at the line feeds loses nothing and leaves none behind. -/
theorem lines_spec (s : Bytes) :
    unlines (lines s).1 ++ (lines s).2 = s ∧ (∀ l ∈ (lines s).1, LF ∉ l) ∧ LF ∉ (lines s).2 := by
  induction s with
  | nil => simp [lines]
  | cons c s ih =>
    obtain ⟨hjoin, hls, ht⟩ := ih
    by_cases hc : c = LF
    · subst hc
      simp only [lines, if_true]
      refine ⟨by simpa using hjoin, ?_, ht⟩
      rintro l (_ | ⟨_, hl⟩)
      · simp
      · exact hls l hl
    · simp only [lines, if_neg hc]
      cases hs : lines s with
      | mk ls t =>
        rw [hs] at hjoin hls ht
        cases ls with
        | nil => simp_all [Ne.symm hc]
        | cons l ls => simp_all [Ne.symm hc]

theorem unlines_lines_append (s : Bytes) : unlines (lines s).1 ++ (lines s).2 = s :=
  (lines_spec s).1

theorem not_mem_of_mem_lines {s l : Bytes} (h : l ∈ (lines s).1) : LF ∉ l := (lines_spec s).2.1 l h

theorem not_mem_lines_rest (s : Bytes) : LF ∉ (lines s).2 := (lines_spec s).2.2

/-- A string without an unfinished line is empty or ends with a line feed. -/
theorem lines_rest_eq_nil_iff {s : Bytes} : (lines s).2 = [] ↔ s = [] ∨ s.getLast? = some LF := by
  have hs := unlines_lines_append s
  constructor
  · intro ht
    rw [ht, List.append_nil] at hs
    rcases List.eq_nil_or_concat (lines s).1 with h | ⟨ls, l, h⟩
    · left; rw [← hs, h]; rfl
    · right; rw [← hs, h]; simp
  · rintro (h | h)
    · simp [h, lines]
    · by_contra hne
      rw [← hs, List.getLast?_append_of_ne_nil _ hne] at h
      exact not_mem_lines_rest s (List.mem_of_getLast? h)

theorem lines_append_of_rest_nil {s s' : Bytes} (h : (lines s).2 = []) :
    lines (s ++ s') = ((lines s).1 ++ (lines s').1, (lines s').2) := by
  have hs := unlines_lines_append s
  have hs' := unlines_lines_append s'
  rw [h, List.append_nil] at hs
  conv_lhs => rw [← hs, ← hs', ← List.append_assoc, ← unlines_append]
  refine lines_unlines_append (fun l hl => ?_) (not_mem_lines_rest s')
  rcases List.mem_append.mp hl with hl | hl
  · exact not_mem_of_mem_lines hl
  · exact not_mem_of_mem_lines hl

theorem unlines_ne_nil {l : Bytes} {ls : List Bytes} : unlines (l :: ls) ≠ [] := by
  simp

end Httpancake.Bytes
