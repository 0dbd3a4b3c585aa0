import Httpancake.Http.Delimiting
import Httpancake.Logging.LogStream

/-! # The text of an integer

`convert` divides towards zero until nothing is left, looks the remainders of either sign up in a
mirrored table and reverses what it wrote. No value is negated, so the least value of a signed type
is no exception (`formatInteger_exact`). -/

namespace Httpancake

open Bytes

/-! ## Integer types -/

/-- The types for which `formatInteger` is instantiated. -/
inductive IntegerType where
  | int
  | unsignedInt
  | long
  | unsignedLong
  | longLong
  | unsignedLongLong
  deriving DecidableEq

namespace IntegerType

def signed : IntegerType → Bool
  | int | long | longLong => true
  | unsignedInt | unsignedLong | unsignedLongLong => false

def width : IntegerType → Nat
  | int | unsignedInt => 32
  | long | unsignedLong | longLong | unsignedLongLong => 64

/-- `value` is a value of the type. -/
def Holds (T : IntegerType) (value : Int) : Prop :=
  if T.signed then -2 ^ (T.width - 1) ≤ value ∧ value < 2 ^ (T.width - 1)
  else 0 ≤ value ∧ value < 2 ^ T.width

instance (T : IntegerType) (value : Int) : Decidable (T.Holds value) :=
  inferInstanceAs (Decidable (if T.signed then -2 ^ (T.width - 1) ≤ value ∧
    value < 2 ^ (T.width - 1) else 0 ≤ value ∧ value < 2 ^ T.width))

variable {T : IntegerType} {value : Int}

theorem Holds.range (h : T.Holds value) : -2 ^ 63 ≤ value ∧ value < 2 ^ 64 := by
  cases T <;> simp only [Holds, signed, width, if_true, Bool.false_eq_true, if_false] at h <;> omega

/-- A value of the type, as it is inserted. -/
def integer (T : IntegerType) (value : Int) (h : T.Holds value) : Integer :=
  ⟨value, h.range.1, h.range.2⟩

/-- Dividing towards zero does not leave the type. -/
theorem Holds.tdiv (h : T.Holds value) : T.Holds (value.tdiv 10) := by
  have hdiv : (0 ≤ value ∧ 0 ≤ value.tdiv 10 ∧ value.tdiv 10 ≤ value) ∨
      (value ≤ 0 ∧ value.tdiv 10 ≤ 0 ∧ value ≤ value.tdiv 10) := by
    have habs : (value.tdiv 10).natAbs ≤ value.natAbs := by
      rw [Int.natAbs_tdiv]
      exact Nat.div_le_self _ _
    rcases Int.le_total 0 value with hpos | hneg
    · have hquot := Int.tdiv_nonneg hpos (by decide : (0 : Int) ≤ 10)
      omega
    · have hquot := Int.tdiv_nonneg (Int.neg_nonneg_of_nonpos hneg) (by decide : (0 : Int) ≤ 10)
      rw [Int.neg_tdiv] at hquot
      omega
  rw [Holds] at h ⊢
  split_ifs at h ⊢ <;> omega

end IntegerType

/-! ## The loop -/

/-- `zero[lsd]`, with the index checked. -/
def zeroAt (lsd : Int) : Option UInt8 :=
  if 0 ≤ 9 + lsd ∧ 9 + lsd < digits.length then some (zero lsd) else none

/-- The loop of `convert` in the arithmetic of the type: `none` where an index is not in the table
or a quotient is not a value of the type. -/
def convertLoop (T : IntegerType) (i : Int) : Option Bytes :=
  if _ : i.tdiv 10 = 0 then (zeroAt (i.tmod 10)).map ([·])
  else if T.Holds (i.tdiv 10) then
    (zeroAt (i.tmod 10)).bind fun c => (convertLoop T (i.tdiv 10)).map (c :: ·)
  else none
termination_by i.natAbs
decreasing_by
  have hi : i ≠ 0 := by
    rintro rfl
    contradiction
  rw [Int.natAbs_tdiv]
  exact Nat.div_lt_self (Int.natAbs_pos.mpr hi) (by decide)

theorem natAbs_tdiv (i : Int) : (i.tdiv 10).natAbs = i.natAbs / 10 := Int.natAbs_tdiv i 10

theorem natAbs_tmod (i : Int) : (i.tmod 10).natAbs = i.natAbs % 10 := Int.natAbs_tmod i 10

theorem natAbs_tmod_lt (i : Int) : (i.tmod 10).natAbs < 10 := by
  rw [natAbs_tmod]
  exact Nat.mod_lt _ (by decide)

/-- The loop ends at the last digit. -/
theorem tdiv_eq_zero_iff {i : Int} : i.tdiv 10 = 0 ↔ i.natAbs < 10 := by
  rw [← Int.natAbs_eq_zero, natAbs_tdiv, Nat.div_eq_zero_iff]
  omega

theorem zeroAt_tmod (i : Int) : zeroAt (i.tmod 10) = some (zero (i.tmod 10)) := by
  have hlt := natAbs_tmod_lt i
  have hlen : digits.length = 19 := rfl
  rw [zeroAt, hlen, if_pos (by omega)]

theorem convertLoop_eq {T : IntegerType} {i : Int} (h : T.Holds i) :
    convertLoop T i = some (convertDigits i) := by
  induction i using convertDigits.induct with
  | case1 i hlast =>
    rw [convertLoop, convertDigits, dif_pos hlast, dif_pos hlast, zeroAt_tmod]
    rfl
  | case2 i hmore ih =>
    rw [convertLoop, convertDigits, dif_neg hmore, dif_neg hmore, if_pos h.tdiv, zeroAt_tmod,
      ih h.tdiv]
    rfl

/-- The table is mirrored at its middle. -/
theorem zero_eq {k : Int} (h : k.natAbs < 10) : zero k = byte (Nat.digitChar k.natAbs) := by
  have htable : ∀ n < 10, zero (Int.ofNat n) = byte (Nat.digitChar n) ∧
      zero (-Int.ofNat n) = byte (Nat.digitChar n) := by decide
  rcases Int.natAbs_eq k with heq | heq
  · rw [heq]
    exact (htable _ h).1
  · rw [heq, Int.natAbs_neg]
    exact (htable _ h).2

theorem zero_tmod (i : Int) : zero (i.tmod 10) = byte (Nat.digitChar (i.natAbs % 10)) := by
  rw [zero_eq (natAbs_tmod_lt i), natAbs_tmod]

theorem reverse_convertDigits (i : Int) :
    (convertDigits i).reverse = ascii (toString i.natAbs) := by
  rw [ascii_toString]
  induction i using convertDigits.induct with
  | case1 i hlast =>
    have hlt := tdiv_eq_zero_iff.mp hlast
    rw [convertDigits, dif_pos hlast, zero_tmod, Nat.mod_eq_of_lt hlt, Nat.toDigits_of_lt_base hlt]
    rfl
  | case2 i hmore ih =>
    have hge := Nat.le_of_not_lt fun hlt => hmore (tdiv_eq_zero_iff.mpr hlt)
    rw [convertDigits, dif_neg hmore, List.reverse_cons, ih, zero_tmod, natAbs_tdiv,
      Nat.toDigits_of_base_le (by decide) hge, List.map_append]
    rfl

theorem convertDigits_ne_nil (i : Int) : convertDigits i ≠ [] := by
  rw [convertDigits]
  split <;> exact List.cons_ne_nil _ _

/-- Only for zero is the digit that is written last a zero. -/
theorem getLast?_convertDigits {i : Int} (h : (convertDigits i).getLast? = some 48) : i = 0 := by
  induction i using convertDigits.induct with
  | case1 i hlast =>
    have hlt := tdiv_eq_zero_iff.mp hlast
    have hdigit : ∀ n < 10, byte (Nat.digitChar n) = 48 → n = 0 := by decide
    rw [convertDigits, dif_pos hlast, zero_tmod, Nat.mod_eq_of_lt hlt, List.getLast?_singleton,
      Option.some.injEq] at h
    exact Int.natAbs_eq_zero.mp (hdigit _ hlt h)
  | case2 i hmore ih =>
    have hsome := List.getLast?_eq_some_getLast (convertDigits_ne_nil (i.tdiv 10))
    rw [convertDigits, dif_neg hmore, List.getLast?_cons, hsome, Option.getD_some, ← hsome] at h
    exact absurd (ih h) hmore

/-! ## The text -/

def DASH : UInt8 := 45

/-- The number that a decimal text denotes. -/
def parseInteger : Bytes → Option Int
  | [] => none
  | c :: s => if c = DASH then (parseDecimal s).map (-Int.ofNat ·) else
    (parseDecimal (c :: s)).map Int.ofNat

/-- The text without its sign. -/
def magnitude (value : Int) (text : Bytes) : Bytes := if value < 0 then text.tail else text

/-- `text` is the canonical decimal representation of `value`. -/
structure IsDecimal (value : Int) (text : Bytes) : Prop where
  sign : text.head? = some DASH ↔ value < 0
  digit : ∀ c ∈ magnitude value text, isDigit c
  leading : (magnitude value text).head? = some 48 → value = 0
  zero : value = 0 → text = ascii "0"
  parsed : parseInteger text = some value

theorem decimal_eq (v : Integer) :
    decimal v = (if v.value < 0 then [DASH] else []) ++ ascii (toString v.value.natAbs) := by
  rw [decimal, convertReversed, List.reverse_append, reverse_convertDigits]
  split <;> rfl

theorem head?_toString {i : Int} (h : (ascii (toString i.natAbs)).head? = some 48) : i = 0 := by
  rw [← reverse_convertDigits, List.head?_reverse] at h
  exact getLast?_convertDigits h

theorem isDigit_toString {n : Nat} : ∀ c ∈ ascii (toString n), isDigit c := by
  rw [ascii_toString]
  intro c hc
  obtain ⟨d, hd, rfl⟩ := List.mem_map.mp hc
  exact isDigit_of_isDigit (Nat.isDigit_of_mem_toDigits (by decide) (by decide) hd)

theorem head?_toString_ne_dash (n : Nat) : (ascii (toString n)).head? ≠ some DASH := by
  intro h
  have hdigit := isDigit_toString _ (List.mem_of_head? h)
  exact absurd hdigit (by decide)

theorem parseInteger_digits (n : Nat) : parseInteger (ascii (toString n)) = some (Int.ofNat n) := by
  have hparse := parseDecimal_toString n
  have hdash := head?_toString_ne_dash n
  cases htext : ascii (toString n) with
  | nil =>
    rw [htext] at hparse
    cases hparse
  | cons c s =>
    rw [htext, List.head?_cons, ne_eq, Option.some.injEq] at hdash
    rw [parseInteger, if_neg hdash, ← htext, hparse]
    rfl

theorem decimal_isDecimal (v : Integer) : IsDecimal v.value (decimal v) := by
  have hparse := parseDecimal_toString v.value.natAbs
  have hmagnitude : magnitude v.value (decimal v) = ascii (toString v.value.natAbs) := by
    rw [magnitude, decimal_eq]
    split <;> rfl
  refine ⟨?_, hmagnitude ▸ isDigit_toString, hmagnitude ▸ head?_toString, ?_, ?_⟩
  · rw [decimal_eq]
    by_cases hneg : v.value < 0
    · rw [if_pos hneg]
      exact iff_of_true rfl hneg
    · rw [if_neg hneg]
      exact iff_of_false (head?_toString_ne_dash _) hneg
  · intro hzero
    rw [decimal_eq, hzero]
    rfl
  · rw [decimal_eq]
    by_cases hneg : v.value < 0
    · rw [if_pos hneg, List.singleton_append, parseInteger, if_pos rfl, hparse, Option.map_some,
        Int.ofNat_eq_natCast, Int.ofNat_natAbs_of_nonpos (Int.le_of_lt hneg), Int.neg_neg]
    · rw [if_neg hneg, List.nil_append, parseInteger_digits, Int.ofNat_eq_natCast,
        Int.natAbs_of_nonneg (Int.not_lt.mp hneg)]

/-! ## The buffer -/

/-- What `convert` and `formatInteger` do with a value of the type. -/
structure FormatsExactly (T : IntegerType) (v : Integer) : Prop where
  inTable : convertLoop T v.value = some (convertDigits v.value)
  canonical : IsDecimal v.value (decimal v)
  short : (decimal v).length + 1 ≤ maxNumberSize
  writes : ∀ {SIZE : Nat} (b : FixBuffer SIZE) {pos : Nat}, pos + (decimal v).length < SIZE →
    ∃ b', convert b pos v.value = some (b', (decimal v).length) ∧ b'.available = b.available ∧
      b'.buff.toList = overwrite b.buff.toList pos (decimal v ++ [0])
  appends : ∀ {SIZE : Nat} (b : FixBuffer SIZE), maxNumberSize ≤ b.free →
    ∃ b', formatInteger b v = some b' ∧ b'.text = b.text ++ decimal v ∧
      b'.available = b.available + (decimal v).length ∧
      b'.buff.toList = overwrite b.buff.toList b.available (decimal v ++ [0])
  leaves : ∀ {SIZE : Nat} (b : FixBuffer SIZE), b.free < maxNumberSize →
    formatInteger b v = some b

/-- **Integer formatting is exact.** -/
theorem formatInteger_exact (T : IntegerType) {value : Int} (h : T.Holds value) :
    FormatsExactly T (T.integer value h) := by
  set v := T.integer value h
  have hlen : (decimal v).length < maxNumberSize := by
    rw [decimal, List.length_reverse]
    exact length_convertReversed v
  have hwrites : ∀ {SIZE : Nat} (b : FixBuffer SIZE) {pos : Nat}, pos + (decimal v).length < SIZE →
      ∃ b', convert b pos v.value = some (b', (decimal v).length) ∧ b'.available = b.available ∧
        b'.buff.toList = overwrite b.buff.toList pos (decimal v ++ [0]) := by
    intro SIZE b pos hlt
    rw [decimal, List.length_reverse] at hlt ⊢
    exact convert_exact b hlt
  refine ⟨convertLoop_eq h, decimal_isDecimal v, hlen, hwrites, ?_, ?_⟩
  · intro SIZE b hfree
    have hlt : b.available + (decimal v).length < SIZE := by
      rw [FixBuffer.free] at hfree
      omega
    obtain ⟨b', hconvert, havail, hbuff⟩ := hwrites b hlt
    refine ⟨b'.add (decimal v).length, ?_, ?_, ?_, hbuff⟩
    · rw [formatInteger, if_pos hfree, hconvert]
      rfl
    · have hpos : b.available ≤ b.buff.toList.length := by
        rw [Vector.length_toList]
        omega
      rw [FixBuffer.text, FixBuffer.add, hbuff, havail]
      exact take_overwrite_text hpos _
    · rw [FixBuffer.add, havail]
  · intro SIZE b hfree
    rw [formatInteger, if_neg (Nat.not_le.mpr hfree)]

theorem formatInteger_exact_min :
    FormatsExactly .int (IntegerType.int.integer (-2 ^ 31) (by decide)) :=
  formatInteger_exact .int (by decide)

end Httpancake
