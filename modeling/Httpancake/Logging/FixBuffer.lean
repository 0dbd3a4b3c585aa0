import Httpancake.Lib.Bytes

/-! # Log buffers of a fixed size

`FixBuffer` of `src/logging/FixBuffer.hpp`. A store answers `none` when its index is not below
`SIZE`: the source checks nothing there. -/

namespace Httpancake

open Bytes

def smallBufferSize : Nat := 4000
def largeBufferSize : Nat := 4000 * 1000

/-- `buff_` and the number of its bytes that are in use. -/
structure FixBuffer (SIZE : Nat) where
  buff : Vector UInt8 SIZE
  available : Nat

namespace FixBuffer

variable {SIZE : Nat}

/-- The constructor. -/
def fresh : FixBuffer SIZE := ⟨Vector.replicate SIZE 0, 0⟩

/-- `buffLen_ - available_`, which is not negative for `available_ ≤ SIZE`. -/
def free (b : FixBuffer SIZE) : Nat := SIZE - b.available

def reset (b : FixBuffer SIZE) : FixBuffer SIZE := { b with available := 0 }
def add (b : FixBuffer SIZE) (len : Nat) : FixBuffer SIZE :=
  { b with available := b.available + len }

/-- `buff_[i] = c`. -/
def store (b : FixBuffer SIZE) (i : Nat) (c : UInt8) : Option (FixBuffer SIZE) :=
  if h : i < SIZE then some { b with buff := b.buff.set i c h } else none

/-- The bytes `data` at `buff_[pos..]`, one after the other. -/
def storeAll (b : FixBuffer SIZE) (pos : Nat) : Bytes → Option (FixBuffer SIZE)
  | [] => some b
  | c :: data => (b.store pos c).bind fun b => b.storeAll (pos + 1) data

def append (b : FixBuffer SIZE) (msg : Bytes) : Option (FixBuffer SIZE) := do
  let b ← b.storeAll b.available msg
  let b := b.add msg.length
  b.store b.available 0

/-- The bytes in use. -/
def text (b : FixBuffer SIZE) : Bytes := b.buff.toList.take b.available

def getContent (b : FixBuffer SIZE) : FixBuffer SIZE × Bytes := (b.reset, b.text)

/-! ## Stores -/

theorem store_eq_none_iff {b : FixBuffer SIZE} {i : Nat} {c : UInt8} :
    b.store i c = none ↔ SIZE ≤ i := by
  simp [store]

theorem store_eq_some (b : FixBuffer SIZE) {i : Nat} (h : i < SIZE) (c : UInt8) :
    ∃ b', b.store i c = some b' ∧ b'.available = b.available ∧
      b'.buff.toList = b.buff.toList.set i c :=
  ⟨_, dif_pos h, rfl, Vector.toList_set h⟩

theorem storeAll_eq_none {b : FixBuffer SIZE} {pos : Nat} {data : Bytes}
    (h : SIZE < pos + data.length) (hpos : pos ≤ SIZE) : b.storeAll pos data = none := by
  induction data generalizing b pos with
  | nil => simp at h; omega
  | cons c data ih =>
    rw [List.length_cons] at h
    rw [storeAll]
    cases hs : b.store pos c with
    | none => rfl
    | some b' =>
      have hlt : pos < SIZE := by
        by_contra hle
        rw [store_eq_none_iff.mpr (Nat.le_of_not_lt hle)] at hs
        cases hs
      exact ih (by omega) hlt

/-- Stores in range overwrite. -/
theorem storeAll_eq_some (b : FixBuffer SIZE) {pos : Nat} {data : Bytes}
    (h : pos + data.length ≤ SIZE) :
    ∃ b', b.storeAll pos data = some b' ∧ b'.available = b.available ∧
      b'.buff.toList = overwrite b.buff.toList pos data := by
  induction data generalizing b pos with
  | nil => exact ⟨b, rfl, rfl, (overwrite_nil _ _).symm⟩
  | cons c data ih =>
    rw [List.length_cons] at h
    have hlt : pos < SIZE := by omega
    obtain ⟨b₁, hone, havail₁, hbuff₁⟩ := b.store_eq_some hlt c
    obtain ⟨b₂, hstore, havail₂, hbuff₂⟩ := @ih b₁ (pos + 1) (by omega)
    refine ⟨b₂, by rw [storeAll, hone]; exact hstore, havail₂.trans havail₁, ?_⟩
    rw [hbuff₂, hbuff₁, overwrite_cons (by simpa using hlt)]

/-! ## The content of a buffer -/

/-- The buffer contains `t`, and behind it there is room for a zero. -/
structure Holds (b : FixBuffer SIZE) (t : Bytes) : Prop where
  available_lt : b.available < SIZE
  text_eq : b.text = t

namespace Holds

variable {b : FixBuffer SIZE} {t : Bytes}

theorem length_eq (h : b.Holds t) : t.length = b.available := by
  rw [← h.text_eq, text, List.length_take, Vector.length_toList, Nat.min_eq_left h.available_lt.le]

theorem fresh (h : 0 < SIZE) : (FixBuffer.fresh : FixBuffer SIZE).Holds [] :=
  ⟨h, by simp [FixBuffer.fresh, text]⟩

theorem getContent (h : b.Holds t) : b.getContent.2 = t ∧ b.getContent.1.Holds [] :=
  ⟨h.text_eq, Nat.zero_lt_of_lt h.available_lt, by simp [FixBuffer.getContent, reset, text]⟩

theorem append (h : b.Holds t) {msg : Bytes} (hlt : t.length + msg.length < SIZE) :
    ∃ b', b.append msg = some b' ∧ b'.Holds (t ++ msg) := by
  rw [h.length_eq] at hlt
  obtain ⟨b₁, hstore, havail, hbuff⟩ := storeAll_eq_some b hlt.le
  have hend : (b₁.add msg.length).available = b.available + msg.length := by simp only [add, havail]
  obtain ⟨b₂, hzero, havail₂, hbuff₂⟩ := (b₁.add msg.length).store_eq_some (hend ▸ hlt) 0
  refine ⟨b₂, ?_, by rw [havail₂, hend]; exact hlt, ?_⟩
  · simp only [FixBuffer.append, hstore, Option.bind_eq_bind, Option.bind_some, hzero]
  · rw [text, havail₂, hbuff₂, hend, List.take_set_of_le (Nat.le_refl _), add, hbuff,
      take_overwrite_end (by simpa using h.available_lt.le), ← h.text_eq]
    rfl

/-- Anything longer is stored past the end. -/
theorem append_eq_none (h : b.Holds t) {msg : Bytes} (hle : SIZE ≤ t.length + msg.length) :
    b.append msg = none := by
  rw [h.length_eq] at hle
  rcases Nat.eq_or_lt_of_le hle with heq | hlt
  · obtain ⟨b₁, hstore, havail, -⟩ := storeAll_eq_some b heq.ge
    simp [FixBuffer.append, hstore, add, store_eq_none_iff, havail, hle]
  · rw [FixBuffer.append, storeAll_eq_none hlt h.available_lt.le]
    rfl

end Holds
end FixBuffer
end Httpancake
