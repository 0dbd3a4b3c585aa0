import Httpancake.Network.BufferQueue

/-! # Shrinking a buffer

`shrink` rebuilds the vector with the content behind the minimal prefix and leaves the indices as
they are, so it keeps the buffer exactly when the content stood there already, or consists of zeros
and stood in front of that place (`shrink_preserves_iff`). -/

namespace Httpancake

open Bytes

namespace Buffer
variable {pre q post : Bytes}

theorem layout_shrink (pre q post : Bytes) (reserve : Nat) :
    (layout pre q post).shrink reserve =
      { buffer := List.replicate kCheapPrepend 0 ++ q ++ List.replicate reserve 0
        readerIdx := pre.length
        writeIdx := pre.length + q.length } := by
  have hover := overwrite_append (List.replicate kCheapPrepend 0)
    (List.replicate (q.length + reserve) 0) q
  rw [List.length_replicate, List.replicate_append_replicate, ← Nat.add_assoc,
    List.drop_replicate, Nat.add_sub_cancel_left] at hover
  rw [shrink, layout_content, layout_readableBytes, hover]
  rfl

/-- The content of a buffer with the minimal prefix stays where it is. -/
theorem layout_shrink_of_eq (h : pre.length = kCheapPrepend) (reserve : Nat) :
    (layout pre q post).shrink reserve =
      layout (List.replicate kCheapPrepend 0) q (List.replicate reserve 0) := by
  rw [layout_shrink, layout, h, List.length_replicate]

/-- A content of zeros may stand anywhere. -/
theorem layout_shrink_of_zeros (h : pre.length < kCheapPrepend) (hq : ∀ c ∈ q, c = 0)
    (reserve : Nat) :
    (layout pre q post).shrink reserve = layout (List.replicate pre.length 0) q
      (List.replicate (kCheapPrepend - pre.length + reserve) 0) := by
  have hzeros : q = List.replicate q.length 0 := List.eq_replicate_of_mem hq
  rw [layout_shrink, layout, List.length_replicate, hzeros, List.replicate_append_replicate,
    List.replicate_append_replicate, List.replicate_append_replicate,
    List.replicate_append_replicate, List.length_replicate]
  have hlen : kCheapPrepend + q.length + reserve =
      pre.length + q.length + (kCheapPrepend - pre.length + reserve) := by omega
  rw [hlen]

/-- A string that begins with zeros and then repeats itself consists of zeros. -/
theorem eq_zero_of_shifted {d : Nat} (hd : 0 < d) {t : Bytes}
    (h : (List.replicate d 0 ++ q ++ t).take q.length = q) : ∀ c ∈ q, c = 0 := by
  have hget : ∀ j < q.length, q[j]? = some 0 := by
    intro j
    induction j using Nat.strong_induction_on with
    | _ j ih =>
      intro hj
      rw [← h, List.getElem?_take_of_lt hj, List.append_assoc]
      by_cases hjd : j < d
      · rw [List.getElem?_append_left (by simpa using hjd)]
        simp [hjd]
      · rw [List.getElem?_append_right (by simpa using hjd), List.length_replicate,
          List.getElem?_append_left (by omega)]
        exact ih (j - d) (by omega) (by omega)
  intro c hc
  obtain ⟨j, hj, rfl⟩ := List.getElem_of_mem hc
  have hzero := hget j hj
  rwa [List.getElem?_eq_getElem hj, Option.some.injEq] at hzero

end Buffer

variable {ι : Type*} [DecidableEq ι]

/-- The member `i` of the family after `shrink`. -/
def shrinkAt (bs : ι → Buffer) (i : ι) (reserve : Nat) : ι → Buffer :=
  Function.update bs i ((bs i).shrink reserve)

/-- The same calls on both families answer the same and leave the same contents. -/
def BehavesAlike (bs bs' : ι → Buffer) : Prop :=
  ∀ calls, buffers.Admissible bs calls → buffers.Admissible bs' calls →
    ∃ s s' os, buffers.run bs calls = some (s, os) ∧ buffers.run bs' calls = some (s', os) ∧
      ∀ j, (s j).content = (s' j).content

/-- `shrink` does what it is for. -/
structure Shrinks (bs : ι → Buffer) (i : ι) (reserve : Nat) : Prop where
  content : ((bs i).shrink reserve).content = (bs i).content
  reader : ((bs i).shrink reserve).readerIdx ≤ ((bs i).shrink reserve).writeIdx
  writer : ((bs i).shrink reserve).writeIdx ≤ ((bs i).shrink reserve).buffer.length
  room : reserve ≤ ((bs i).shrink reserve).writableBytes
  alike : BehavesAlike bs (shrinkAt bs i reserve)

/-- The content stands behind the minimal prefix, or in front of there and is all zeros. -/
def InPlace (b : Buffer) : Prop :=
  b.readerIdx = kCheapPrepend ∨ b.readerIdx < kCheapPrepend ∧ ∀ c ∈ b.content, c = 0

theorem Hold.behavesAlike {bs bs' : ι → Buffer} {qs : ι → Bytes} (h : Hold bs qs)
    (h' : Hold bs' qs) : BehavesAlike bs bs' := by
  intro calls hadm hadm'
  obtain ⟨s, hrun, hs⟩ := buffers_refinement.run h hadm
  obtain ⟨s', hrun', hs'⟩ := buffers_refinement.run h' hadm'
  exact ⟨s, s', _, hrun, hrun', fun j => (hs j).content_eq.trans (hs' j).content_eq.symm⟩

/-- A buffer in place holds the same after `shrink`, with the room that was asked for. -/
theorem InPlace.shrink {b : Buffer} {q : Bytes} (hb : b.Holds q) (h : InPlace b) (reserve : Nat) :
    (b.shrink reserve).Holds q ∧ reserve ≤ (b.shrink reserve).writableBytes := by
  obtain ⟨⟨pre, post, rfl⟩, -⟩ := hb
  rw [InPlace, Buffer.layout_content] at h
  rcases h with hpre | ⟨hpre, hq⟩
  · rw [Buffer.layout_shrink_of_eq hpre]
    refine ⟨Buffer.layout_holds ?_, by simp⟩
    rw [List.length_replicate, Nat.add_assoc]
    exact Nat.le_add_right _ _
  · change pre.length < kCheapPrepend at hpre
    rw [Buffer.layout_shrink_of_zeros hpre hq]
    refine ⟨Buffer.layout_holds ?_, ?_⟩
    · simp only [List.length_replicate]
      omega
    · simp

/-- Any other buffer has too little room afterwards, or another content. -/
theorem inPlace_of_shrink {b : Buffer} {q : Bytes} (hb : b.Holds q) {reserve : Nat}
    (hcontent : (b.shrink reserve).content = b.content)
    (hwriter : (b.shrink reserve).writeIdx ≤ (b.shrink reserve).buffer.length)
    (hroom : reserve ≤ (b.shrink reserve).writableBytes) : InPlace b := by
  obtain ⟨⟨pre, post, rfl⟩, -⟩ := hb
  rw [Buffer.layout_shrink] at hcontent hwriter hroom
  simp only [Buffer.writableBytes, List.length_append, List.length_replicate] at hwriter hroom
  rw [InPlace]
  have hle : pre.length ≤ kCheapPrepend := by omega
  rcases Nat.eq_or_lt_of_le hle with heq | hlt
  · exact .inl heq
  · refine .inr ⟨hlt, ?_⟩
    rw [Buffer.layout_content] at hcontent ⊢
    refine Buffer.eq_zero_of_shifted (Nat.sub_pos_of_lt hlt) (t := List.replicate reserve 0) ?_
    have hdrop : (List.replicate kCheapPrepend 0 ++ q ++ List.replicate reserve 0).drop pre.length =
        List.replicate (kCheapPrepend - pre.length) 0 ++ q ++
          List.replicate reserve (0 : UInt8) := by
      rw [List.append_assoc, List.drop_append_of_le_length (by simpa using hle),
        List.drop_replicate, List.append_assoc]
    rwa [Buffer.content, Buffer.readableBytes, hdrop, Nat.add_sub_cancel_left] at hcontent

/-- **When `shrink` preserves a buffer.** -/
theorem shrink_preserves_iff {bs : ι → Buffer} (h : buffers.Reachable (fun _ => .fresh) bs) (i : ι)
    (reserve : Nat) : Shrinks bs i reserve ↔ InPlace (bs i) := by
  obtain ⟨qs, hold⟩ := Hold.of_reachable h
  constructor
  · intro hshrinks
    exact inPlace_of_shrink (hold i) hshrinks.content hshrinks.writer hshrinks.room
  · intro hplace
    obtain ⟨hb, hroom⟩ := hplace.shrink (hold i) reserve
    have hold' : Hold (shrinkAt bs i reserve) qs := by
      have hupdate := hold.update (i := i) hb
      rwa [Function.update_eq_self] at hupdate
    exact ⟨hb.content_eq.trans (hold i).content_eq.symm, hb.wf.1, hb.wf.2, hroom,
      hold.behavesAlike hold'⟩

/-! ## Two buffers -/

/-- A fresh buffer to which `data` was appended. -/
def Buffer.appended (data : Bytes) : Buffer where
  buffer := overwrite Buffer.fresh.buffer kCheapPrepend data
  readerIdx := kCheapPrepend
  writeIdx := kCheapPrepend + data.length

section
variable {data : Bytes}

theorem Buffer.append_fresh (h : data.length ≤ kInitSize) :
    Buffer.fresh.append data = some (.appended data) := by
  have hroom : Buffer.fresh.writableBytes = kInitSize := by
    rw [Buffer.writableBytes, Buffer.length_fresh]
    rfl
  have hensure : Buffer.fresh.ensureWritableBytes data.length = some Buffer.fresh := by
    simp only [Buffer.ensureWritableBytes, hroom, if_neg (Nat.not_lt.mpr h), Option.bind_eq_bind,
      Option.bind_some, if_pos h]
  rw [Buffer.append, hensure]
  rfl

theorem exec_single {op : BufferOp} {b b' : Buffer} {o : Option Bytes}
    (h : op.exec b = some (b', o)) :
    (buffers (ι := Unit)).exec (fun _ => b) (.on () op) = some (fun _ => b', o) := by
  have hupdate : Function.update (fun _ : Unit => b) () b' = fun _ => b' :=
    funext fun _ => Function.update_self _ _ _
  simp only [buffers, h, Option.map_some, hupdate]

theorem reachable_appended (h : data.length ≤ kInitSize) :
    (buffers (ι := Unit)).Reachable (fun _ => .fresh) fun _ => .appended data := by
  have hexec : (BufferOp.append data).exec .fresh = some (.appended data, none) := by
    rw [BufferOp.exec, Buffer.append_fresh h]
    rfl
  exact Program.Reachable.start.next (.on () (.append data)) trivial (exec_single hexec)

/-- Reading one byte moves the content off its place. -/
theorem reachable_appended_retrieve (data : Bytes) (h : data.length ≤ kInitSize)
    (hpos : 0 < data.length) :
    (buffers (ι := Unit)).Reachable (fun _ => .fresh)
      fun _ => { Buffer.appended data with readerIdx := kCheapPrepend + 1 } := by
  have hlen : (Buffer.appended data).readableBytes = data.length :=
    Nat.add_sub_cancel_left _ _
  have hexec : (BufferOp.retrieve 1).exec (.appended data) =
      some ({ Buffer.appended data with readerIdx := kCheapPrepend + 1 }, none) := by
    simp only [BufferOp.exec, Buffer.retrieve, hlen, if_pos (Nat.succ_le_of_lt hpos),
      Option.map_some]
    rfl
  have hpre : 1 ≤ (Buffer.appended data).readableBytes := hlen ▸ hpos
  exact (reachable_appended h).next (.on () (.retrieve 1)) hpre (exec_single hexec)

end

theorem shrink_preserves_appended :
    Shrinks (fun _ : Unit => .appended (ascii "ab")) () 3 :=
  (shrink_preserves_iff (reachable_appended (by decide)) () 3).mpr (.inl rfl)

/-- Three bytes were appended and one of them was read. -/
theorem shrink_loses_content : ∃ b : Buffer,
    (buffers (ι := Unit)).Reachable (fun _ => .fresh) (fun _ => b) ∧
      ¬ Shrinks (fun _ : Unit => b) () 0 := by
  have hreach := reachable_appended_retrieve (ascii "abc") (by decide) (by decide)
  refine ⟨_, hreach, fun hshrinks => ?_⟩
  obtain ⟨qs, hold⟩ := Hold.of_reachable hreach
  have hplace := inPlace_of_shrink (hold ()) hshrinks.content hshrinks.writer hshrinks.room
  rcases hplace with heq | ⟨hlt, -⟩
  · exact absurd heq (by decide)
  · exact absurd hlt (by decide)

end Httpancake
