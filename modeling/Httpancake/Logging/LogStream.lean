import Httpancake.Logging.FixBuffer
import Mathlib.Algebra.Group.Int.Defs

/-! # Log streams

The insertion operators of `LogStream` (`src/logging/LogStream.hpp`, `LogStream.cpp`) for
characters, strings and integers, and the lines of `Logger`. `insertAll_spec` says which sequences
of insertions stay inside the buffer. -/

namespace Httpancake

open Bytes

abbrev SmallFixBuffer := FixBuffer smallBufferSize

def maxNumberSize : Nat := 32

/-- A value of one of the integer types. -/
structure Integer where
  value : Int
  lower : -2 ^ 63 ≤ value
  upper : value < 2 ^ 64

inductive Insertion where
  | char (c : UInt8)
  /-- `none` is the null pointer. -/
  | cstr (str : Option Bytes)
  | string (str : Bytes)
  | integer (v : Integer)

/-! ## Integers -/

def digits : Bytes := ascii "9876543210123456789"

/-- `zero[lsd]`, where `zero` points to the middle of `digits`. -/
def zero (lsd : Int) : UInt8 := digits.getD (9 + lsd).toNat 0

/-- The digits that the loop of `convert` writes, least significant first. -/
def convertDigits (i : Int) : Bytes :=
  if _ : i.tdiv 10 = 0 then [zero (i.tmod 10)]
  else zero (i.tmod 10) :: convertDigits (i.tdiv 10)
termination_by i.natAbs
decreasing_by
  have hi : i ≠ 0 := by
    rintro rfl
    contradiction
  rw [Int.natAbs_tdiv]
  exact Nat.div_lt_self (Int.natAbs_pos.mpr hi) (by decide)

/-- What `convert` has written before it is reversed. -/
def convertReversed (value : Int) : Bytes :=
  convertDigits value ++ if value < 0 then ascii "-" else []

/-- The buffer and the length of the text, without its zero. -/
def convert {SIZE : Nat} (b : FixBuffer SIZE) (pos : Nat) (value : Int) :
    Option (FixBuffer SIZE × Nat) := do
  let p := convertReversed value
  let b ← b.storeAll pos p
  let b ← b.store (pos + p.length) 0
  let b ← b.storeAll pos p.reverse
  return (b, p.length)

def formatInteger {SIZE : Nat} (b : FixBuffer SIZE) (v : Integer) : Option (FixBuffer SIZE) :=
  if maxNumberSize ≤ b.free then
    (convert b b.available v.value).map fun (b, len) => b.add len
  else some b

/-! ## Insertions -/

/-- `operator<<`. -/
def insert {SIZE : Nat} (b : FixBuffer SIZE) : Insertion → Option (FixBuffer SIZE)
  | .char c => b.append [c]
  | .cstr (some str) => b.append str
  | .cstr none => b.append (ascii "(null)")
  | .string str => b.append str
  | .integer v => formatInteger b v

def insertAll {SIZE : Nat} (b : FixBuffer SIZE) : List Insertion → Option (FixBuffer SIZE)
  | [] => some b
  | i :: is => (insert b i).bind fun b => insertAll b is

/-- The insertions of one `LOG` statement: the time, what the caller inserts, file and line. -/
def logInsertions (time : Bytes) (items : List Insertion) (basename : Bytes) (line : Integer) :
    List Insertion :=
  [.char (byte '['), .string time, .char (byte ']')] ++ items ++
    [.cstr (ascii " -- "), .string basename, .char COLON, .integer line, .char LF]

/-! ## What an insertion adds -/

theorem length_convertDigits {i : Int} {n : Nat} (h : i.natAbs < 10 ^ (n + 1)) :
    (convertDigits i).length ≤ n + 1 := by
  induction n generalizing i with
  | zero =>
    have hdiv : i.tdiv 10 = 0 := by
      rw [← Int.natAbs_eq_zero, Int.natAbs_tdiv]
      exact Nat.div_eq_of_lt (by simpa using h)
    rw [convertDigits, dif_pos hdiv]
    exact Nat.le_refl 1
  | succ n ih =>
    rw [convertDigits]
    split
    · simp
    · refine Nat.succ_le_succ (ih ?_)
      rw [Int.natAbs_tdiv]
      exact Nat.div_lt_of_lt_mul (by rw [Nat.pow_succ, Nat.mul_comm] at h; exact h)

theorem length_convertReversed (v : Integer) :
    (convertReversed v.value).length < maxNumberSize := by
  have hlower := v.lower
  have hupper := v.upper
  have habs : v.value.natAbs < 10 ^ (19 + 1) := by omega
  have hdigits := length_convertDigits habs
  rw [convertReversed, List.length_append, maxNumberSize]
  split <;> simp [ascii] <;> omega

variable {SIZE : Nat} {b : FixBuffer SIZE} {t : Bytes}

/-- The whole effect of `convert` on the buffer: the text and a zero behind it. -/
theorem convert_exact (b : FixBuffer SIZE) {pos : Nat} {value : Int}
    (h : pos + (convertReversed value).length < SIZE) :
    ∃ b', convert b pos value = some (b', (convertReversed value).length) ∧
      b'.available = b.available ∧
      b'.buff.toList = overwrite b.buff.toList pos ((convertReversed value).reverse ++ [0]) := by
  set p := convertReversed value with hp
  obtain ⟨b₁, hstore₁, havail₁, hbuff₁⟩ := b.storeAll_eq_some h.le
  obtain ⟨b₂, hzero, havail₂, hbuff₂⟩ := b₁.store_eq_some h 0
  have h' : pos + p.reverse.length < SIZE := by rwa [List.length_reverse]
  obtain ⟨b₃, hstore₃, havail₃, hbuff₃⟩ := b₂.storeAll_eq_some h'.le
  refine ⟨b₃, ?_, havail₃.trans (havail₂.trans havail₁), ?_⟩
  · simp only [convert, ← hp, hstore₁, hzero, hstore₃, Option.bind_eq_bind, Option.bind_some,
      Option.pure_def]
  · rw [hbuff₃, hbuff₂, hbuff₁]
    exact overwrite_reversed (by simpa using h)

/-- An integer that is formatted adds its digits, and its zero stays inside the buffer. -/
theorem convert_holds (h : b.Holds t) (v : Integer) (hfree : maxNumberSize ≤ b.free) :
    ∃ b' len, convert b b.available v.value = some (b', len) ∧
      (b'.add len).Holds (t ++ (convertReversed v.value).reverse) := by
  have hlen := length_convertReversed v
  rw [FixBuffer.free] at hfree
  have hlt : b.available + (convertReversed v.value).length < SIZE := by omega
  obtain ⟨b', hconvert, havail, hbuff⟩ := convert_exact b hlt
  have hpos : b.available ≤ b.buff.toList.length := by simpa using h.available_lt.le
  refine ⟨b', _, hconvert, by rw [FixBuffer.add, havail]; exact hlt, ?_⟩
  rw [FixBuffer.text, FixBuffer.add, havail, hbuff, ← List.length_reverse, take_overwrite_text hpos,
    ← h.text_eq]
  rfl

/-! ## Sequences of insertions -/

/-- The text of an integer. -/
def decimal (v : Integer) : Bytes := (convertReversed v.value).reverse

/-- The text of any other insertion. -/
def Insertion.text : Insertion → Bytes
  | .char c => [c]
  | .cstr (some str) => str
  | .cstr none => ascii "(null)"
  | .string str => str
  | .integer v => decimal v

/-- Every string that is inserted leaves room for its zero. An integer counts only where
`maxNumberSize` bytes are free. -/
def Fits (SIZE : Nat) : (used : Nat) → List Insertion → Prop
  | _, [] => True
  | used, .integer v :: is =>
    Fits SIZE (if used + maxNumberSize ≤ SIZE then used + (decimal v).length else used) is
  | used, i :: is => used + i.text.length < SIZE ∧ Fits SIZE (used + i.text.length) is

theorem formatInteger_holds (h : b.Holds t) (v : Integer) :
    ∃ b', formatInteger b v = some b' ∧
      b'.Holds (if t.length + maxNumberSize ≤ SIZE then t ++ decimal v else t) := by
  have hlt := h.available_lt
  have hfree : maxNumberSize ≤ b.free ↔ t.length + maxNumberSize ≤ SIZE := by
    rw [h.length_eq, FixBuffer.free]
    omega
  rw [formatInteger]
  by_cases hroom : maxNumberSize ≤ b.free
  · rw [if_pos hroom, if_pos (hfree.mp hroom)]
    obtain ⟨b', len, hconv, hb'⟩ := convert_holds h v hroom
    exact ⟨_, by rw [hconv]; rfl, hb'⟩
  · rw [if_neg hroom, if_neg (hfree.not.mp hroom)]
    exact ⟨b, rfl, h⟩

theorem insert_eq_append {i : Insertion} (hi : ∀ v, i ≠ .integer v) :
    insert b i = b.append i.text := by
  cases i with
  | integer v => exact absurd rfl (hi v)
  | cstr str => cases str <;> rfl
  | char c => rfl
  | string str => rfl

theorem fits_cons {i : Insertion} (hi : ∀ v, i ≠ .integer v) {used : Nat} {is : List Insertion} :
    Fits SIZE used (i :: is) ↔
      used + i.text.length < SIZE ∧ Fits SIZE (used + i.text.length) is := by
  cases i with
  | integer v => exact absurd rfl (hi v)
  | _ => rfl

/-- **Insertions stay inside the buffer** exactly when they fit; then there is still room for a
zero. -/
theorem insertAll_spec (h : b.Holds t) (is : List Insertion) :
    (Fits SIZE t.length is → ∃ b' t', insertAll b is = some b' ∧ b'.Holds t') ∧
      (¬ Fits SIZE t.length is → insertAll b is = none) := by
  induction is generalizing b t with
  | nil => exact ⟨fun _ => ⟨b, t, rfl, h⟩, fun hbad => absurd trivial hbad⟩
  | cons i is ih =>
    by_cases hi : ∃ v, i = .integer v
    · obtain ⟨v, rfl⟩ := hi
      obtain ⟨b', hfmt, hb'⟩ := formatInteger_holds h v
      have hlen : (if t.length + maxNumberSize ≤ SIZE then t ++ decimal v else t).length =
          if t.length + maxNumberSize ≤ SIZE then t.length + (decimal v).length else t.length := by
        split <;> simp
      have ih := ih hb'
      rw [hlen] at ih
      rw [insertAll, insert, hfmt, Option.bind_some, Fits]
      exact ih
    · have hi : ∀ v, i ≠ .integer v := fun v hv => hi ⟨v, hv⟩
      rw [insertAll, insert_eq_append hi, fits_cons hi]
      rcases Nat.lt_or_ge (t.length + i.text.length) SIZE with hlt | hge
      · obtain ⟨b', happ, hb'⟩ := h.append hlt
        have ih := ih hb'
        rw [List.length_append] at ih
        rw [happ, Option.bind_some, and_iff_right hlt]
        exact ih
      · rw [h.append_eq_none hge]
        exact ⟨fun hfits => absurd hfits.1 (Nat.not_lt.mpr hge), fun _ => rfl⟩

end Httpancake
