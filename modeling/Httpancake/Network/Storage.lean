import Httpancake.Network.BufferQueue

/-! # The storage of a buffer

`retrieve` only advances `readerIdx`, and a vector that is resized keeps the consumed bytes in front
of its content. It is resized only when they are too few to make room (`makeSpace_size`), so an
operation leaves a vector that is no longer than before, or not much longer than twice the content
(`BufferOp.exec_size`). Over a run the vector stays proportional to the largest content
(`storage_bounded`). -/

namespace Httpancake

open Bytes

theorem length_resize (v : Bytes) (n : Nat) : (resize v n).length = n := by
  rw [resize, List.length_append, List.length_take, List.length_replicate]
  omega

theorem length_overwrite {dst src : Bytes} {pos : Nat} (h : pos + src.length ≤ dst.length) :
    (overwrite dst pos src).length = dst.length := by
  simp only [overwrite, List.length_append, List.length_take, List.length_drop]
  omega

namespace Buffer
variable {b b' : Buffer} {data : Bytes} {len : Nat}

/-- The index bounds of the class comment. -/
structure Wf (b : Buffer) : Prop where
  reader : b.readerIdx ≤ b.writeIdx
  writer : b.writeIdx ≤ b.buffer.length

theorem Holds.toWf {q : Bytes} (h : b.Holds q) : b.Wf := ⟨h.wf.1, h.wf.2⟩

/-- The vector is no longer than it was, or than twice the content and seven bytes. -/
def SizedFrom (b b' : Buffer) : Prop :=
  b'.buffer.length ≤ max b.buffer.length (2 * b'.readableBytes + 7)

/-- What making space does to the size, in terms of the content it is made for. -/
theorem makeSpace_size (h : b.Wf) (hspace : b.makeSpace len = some b') :
    b'.readableBytes = b.readableBytes ∧
      b'.buffer.length ≤ max b.buffer.length (2 * (b.readableBytes + len) + 7) := by
  have hreader := h.reader
  have hwriter := h.writer
  simp only [makeSpace, prependableBytes] at hspace
  split_ifs at hspace with hgrow hcheap hread
  · -- the vector grows because the prefix is shorter than what is to be written
    cases hspace
    refine ⟨rfl, ?_⟩
    rw [length_resize]
    simp only [writableBytes, readableBytes] at hgrow ⊢
    simp only [kCheapPrepend] at hgrow
    omega
  · cases hspace
    refine ⟨by simp [readableBytes], ?_⟩
    have hlen : b.content.length = b.readableBytes := by
      simp only [content, List.length_take, List.length_drop, readableBytes]
      omega
    rw [length_overwrite (by rw [hlen]; simp only [readableBytes]; omega)]
    exact Nat.le_max_left _ _

theorem ensureWritableBytes_size (h : b.Wf) (hensure : b.ensureWritableBytes len = some b') :
    b'.readableBytes = b.readableBytes ∧ len ≤ b'.writableBytes ∧
      b'.buffer.length ≤ max b.buffer.length (2 * (b.readableBytes + len) + 7) := by
  by_cases hfull : b.writableBytes < len
  · simp only [ensureWritableBytes, if_pos hfull] at hensure
    obtain ⟨b₁, hspace, hroom⟩ := Option.bind_eq_some_iff.mp hensure
    split_ifs at hroom with hlen
    cases hroom
    obtain ⟨hread, hsize⟩ := makeSpace_size h hspace
    exact ⟨hread, hlen, hsize⟩
  · simp only [ensureWritableBytes, if_neg hfull, Option.bind_eq_bind, Option.bind_some,
      if_pos (Nat.le_of_not_lt hfull)] at hensure
    cases hensure
    exact ⟨rfl, Nat.le_of_not_lt hfull, Nat.le_max_left _ _⟩

theorem append_size (h : b.Wf) (happend : b.append data = some b') :
    b'.buffer.length ≤ max b.buffer.length (2 * (b.readableBytes + data.length) + 7) := by
  simp only [append, Option.bind_eq_bind, Option.bind_eq_some_iff] at happend
  obtain ⟨b₁, hensure, heq⟩ := happend
  cases heq
  obtain ⟨-, hroom, hsize⟩ := ensureWritableBytes_size h hensure
  rcases Nat.eq_zero_or_pos data.length with hzero | hpos
  · rw [List.length_eq_zero_iff.mp hzero, overwrite_nil]
    rwa [hzero] at hsize
  · rw [length_overwrite (by simp only [writableBytes] at hroom; omega)]
    exact hsize

theorem retrieve_buffer (hretrieve : b.retrieve len = some b') : b'.buffer = b.buffer := by
  rw [retrieve] at hretrieve
  split_ifs at hretrieve
  cases hretrieve
  rfl

/-- A read that fills the vector goes on in `extrabuf`, which is appended. -/
theorem readFd_size (h : b.Wf) (hread : b.readFd (some data) = some b') :
    b'.buffer.length ≤ max b.buffer.length (2 * (b.readableBytes + data.length) + 7) := by
  have hreader := h.reader
  have hwriter := h.writer
  have hlen : (overwrite b.buffer b.writeIdx (data.take b.writableBytes)).length =
      b.buffer.length := by
    apply length_overwrite
    simp only [List.length_take, writableBytes]
    omega
  simp only [readFd] at hread
  split_ifs at hread with hfits
  · cases hread
    rw [hlen]
    exact Nat.le_max_left _ _
  · set b₁ : Buffer := { b with
      buffer := overwrite b.buffer b.writeIdx (data.take b.writableBytes)
      writeIdx := (overwrite b.buffer b.writeIdx (data.take b.writableBytes)).length } with hb₁
    have hwf : b₁.Wf := ⟨by simp only [hb₁, hlen]; omega, Nat.le_refl _⟩
    have hsize := append_size hwf hread
    have hcontent : b₁.readableBytes + (data.drop b.writableBytes).length =
        b.readableBytes + data.length := by
      simp only [hb₁, readableBytes, hlen, List.length_drop]
      simp only [writableBytes] at hfits ⊢
      omega
    rw [hcontent] at hsize
    rwa [hb₁, hlen] at hsize

end Buffer

/-- No operation but the demand for room makes the vector much longer than its content. -/
theorem BufferOp.exec_size {b b' : Buffer} {q : Bytes} {op : BufferOp} {o : Option Bytes}
    (hb : b.Holds q) (hpre : op.Pre b) (hop : ∀ len, op ≠ .ensureWritableBytes len)
    (hexec : op.exec b = some (b', o)) : b.SizedFrom b' := by
  have hread : b'.readableBytes = (op.spec q).1.length := by
    obtain ⟨b₁, hexec₁, hb₁⟩ := exec_spec hb hpre
    cases hexec.symm.trans hexec₁
    exact hb₁.readableBytes_eq
  rw [Buffer.SizedFrom, hread]
  cases op with
  | append data =>
    obtain ⟨b₁, happend, heq⟩ := Option.map_eq_some_iff.mp hexec
    cases heq
    have hsize := Buffer.append_size hb.toWf happend
    rwa [hb.readableBytes_eq, ← List.length_append] at hsize
  | readFd result =>
    obtain ⟨b₁, hfd, heq⟩ := Option.map_eq_some_iff.mp hexec
    cases heq
    cases result with
    | none =>
      cases hfd
      exact Nat.le_max_left _ _
    | some data =>
      have hsize := Buffer.readFd_size hb.toWf hfd
      rwa [hb.readableBytes_eq, ← List.length_append] at hsize
  | prepend data =>
    obtain ⟨b₁, hprepend, heq⟩ := Option.map_eq_some_iff.mp hexec
    cases heq
    rw [Buffer.prepend] at hprepend
    split_ifs at hprepend with hroom
    cases hprepend
    have hreader := hb.toWf.reader
    have hwriter := hb.toWf.writer
    rw [length_overwrite (by simp only [Buffer.prependableBytes] at hroom; omega)]
    exact Nat.le_max_left _ _
  | retrieve len =>
    obtain ⟨b₁, hretrieve, heq⟩ := Option.map_eq_some_iff.mp hexec
    cases heq
    rw [Buffer.retrieve_buffer hretrieve]
    exact Nat.le_max_left _ _
  | retrieveUntil offset =>
    obtain ⟨b₁, hretrieve, heq⟩ := Option.map_eq_some_iff.mp hexec
    cases heq
    rw [Buffer.retrieveUntil] at hretrieve
    split_ifs at hretrieve
    rw [Buffer.retrieve_buffer hretrieve]
    exact Nat.le_max_left _ _
  | retrieveLineAsString =>
    obtain ⟨⟨b₁, line⟩, hline, heq⟩ := Option.map_eq_some_iff.mp hexec
    cases heq
    rw [Buffer.retrieveLineAsString] at hline
    split at hline
    · obtain ⟨b₂, hretrieve, heq⟩ := Option.map_eq_some_iff.mp hline
      cases heq
      rw [Buffer.retrieve_buffer hretrieve]
      exact Nat.le_max_left _ _
    · cases hline
      exact Nat.le_max_left _ _
  | retrieveAll | retrieveAsString | peekLine =>
    cases hexec
    exact Nat.le_max_left _ _
  | ensureWritableBytes len => exact absurd rfl (hop len)

/-! ## Runs -/

section
variable {ι : Type*} [DecidableEq ι]

/-- The call demands no room, and after it no content is longer than `M`. -/
def StaysWithin (M : Nat) (bs : ι → Buffer) (call : BufferCall ι) : Prop :=
  (∀ i len, call ≠ .on i (.ensureWritableBytes len)) ∧
    ∀ bs' o, buffers.exec bs call = some (bs', o) → ∀ i, (bs' i).readableBytes ≤ M

/-- The bound of `storage_bounded`, and the contents the bounds are proved with. -/
def Stored (M : Nat) (bs : ι → Buffer) : Prop :=
  (∃ qs, Hold bs qs) ∧ ∀ i, (bs i).buffer.length ≤ max 1032 (2 * M + 7)

theorem preserves_stored (M : Nat) :
    ((buffers (ι := ι)).restrict (StaysWithin M)).Preserves (Stored M) := by
  rintro bs call bs' o ⟨⟨qs, hold⟩, hsize⟩ ⟨hpre, hdemand, hwithin⟩ hexec
  obtain ⟨bs₁, hexec₁, hold'⟩ := buffers_refinement _ _ call hold hpre
  cases hexec.symm.trans hexec₁
  refine ⟨⟨_, hold'⟩, fun j => ?_⟩
  have hread := hwithin _ _ hexec j
  cases call with
  | on i op =>
    obtain ⟨⟨b', answer⟩, hop, heq⟩ := Option.map_eq_some_iff.mp hexec
    obtain rfl := congrArg Prod.fst heq
    by_cases hj : j = i
    · subst hj
      simp only [Function.update_self] at hread ⊢
      have hgrown := BufferOp.exec_size (hold j) hpre (fun len h => hdemand j len (by rw [h])) hop
      have hold := hsize j
      rw [Buffer.SizedFrom] at hgrown
      omega
    · simp only [Function.update_of_ne hj]
      exact hsize j
  | swap i k =>
    obtain rfl := congrArg Prod.fst (Option.some.inj hexec)
    simp only [Function.update_apply]
    split_ifs <;> exact hsize _

/-- **The storage is proportional to the backlog.** -/
theorem storage_bounded {M : Nat} {bs : ι → Buffer}
    (h : ((buffers (ι := ι)).restrict (StaysWithin M)).Reachable (fun _ => .fresh) bs) (i : ι) :
    (bs i).buffer.length ≤ max 1032 (2 * M + 7) := by
  have hfresh : Stored M fun _ : ι => Buffer.fresh :=
    ⟨⟨fun _ => [], fun _ => .fresh⟩, fun _ => Buffer.length_fresh ▸ Nat.le_max_left _ _⟩
  exact (h.invariant (preserves_stored M) hfresh).2 i

end

/-- A demand for room. -/
def BufferCall.demandsRoom {ι : Type*} : BufferCall ι → Bool
  | .on _ (.ensureWritableBytes _) => true
  | _ => false

theorem BufferCall.demandsRoom_eq_false {ι : Type*} {call : BufferCall ι} :
    call.demandsRoom = false ↔ ∀ i len, call ≠ .on i (.ensureWritableBytes len) := by
  constructor
  · rintro h i len rfl
    cases h
  · intro h
    cases call with
    | swap => rfl
    | on i op =>
      cases op with
      | ensureWritableBytes len => exact absurd rfl (h i len)
      | append | prepend | retrieve | retrieveUntil | retrieveAll | retrieveAsString
      | retrieveLineAsString | peekLine | readFd => rfl

/-- With one buffer it can be computed. -/
instance (M : Nat) (bs : Unit → Buffer) (call : BufferCall Unit) :
    Decidable (StaysWithin M bs call) :=
  decidable_of_iff (call.demandsRoom = false ∧
      (buffers.exec bs call).all fun r : (Unit → Buffer) × Option Bytes =>
        (r.1 ()).readableBytes ≤ M) <| by
    apply and_congr BufferCall.demandsRoom_eq_false
    cases buffers.exec bs call with
    | none => exact iff_of_true rfl fun bs' o heq => by cases heq
    | some r =>
      rw [Option.all_some, decide_eq_true_iff]
      constructor
      · intro h bs' o heq i
        cases heq
        exact h
      · exact fun h => h r.1 r.2 rfl ()

/-- The third call moves the content to the front of the vector, and the last makes it grow. -/
def grownCalls : List (BufferCall Unit) :=
  [.on () (.append (List.replicate 1000 97)), .on () (.retrieve 900),
    .on () (.append (List.replicate 400 98)), .on () (.append (List.replicate 1000 99))]

theorem storage_bounded_grown : ∃ (bs : Unit → Buffer) (answers : List (Option Bytes)),
    (buffers (ι := Unit)).run (fun _ => .fresh) grownCalls = some (bs, answers) ∧
      (bs ()).readerIdx = 8 ∧ (bs ()).content.length = 1500 ∧ (bs ()).buffer.length = 1508 ∧
      (bs ()).buffer.length ≤ max 1032 (2 * 1500 + 7) := by
  have hadm : ((buffers (ι := Unit)).restrict (StaysWithin 1500)).Admissible (fun _ => .fresh)
      grownCalls := by decide +kernel
  have hends : ((buffers (ι := Unit)).run (fun _ => .fresh) grownCalls).map (fun r =>
      ((r.1 ()).readerIdx, (r.1 ()).content.length, (r.1 ()).buffer.length)) =
        some (8, 1500, 1508) := by decide +kernel
  obtain ⟨⟨bs, answers⟩, hrun, heq⟩ := Option.map_eq_some_iff.mp hends
  simp only [Prod.mk.injEq] at heq
  have hreach := Program.Reachable.of_run hadm ((Program.run_restrict _ _ _).trans hrun)
  exact ⟨bs, answers, hrun, heq.1, heq.2.1, heq.2.2, storage_bounded hreach ()⟩

end Httpancake
