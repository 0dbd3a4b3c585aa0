import Httpancake.Lib.Program
import Httpancake.Network.Buffer
import Mathlib.Logic.Function.Basic

/-! # The buffer is a queue of bytes

`BufferCall` is the interface of `Buffer`, called on any member of a family of buffers; `swap`
exchanges two of them. `queueCall` is the meaning of the same calls on plain byte strings.
`buffers_refine_queues` lifts the operation specifications of `Buffer.Holds` to every history. -/

namespace Httpancake

open Bytes

inductive BufferOp where
  | append (data : Bytes)
  | prepend (data : Bytes)
  | retrieve (len : Nat)
  /-- The pointer passed is `peek() + offset`. -/
  | retrieveUntil (offset : Nat)
  | retrieveAll
  | retrieveAsString
  | retrieveLineAsString
  | peekLine
  | ensureWritableBytes (len : Nat)
  | readFd (result : Option Bytes)

namespace BufferOp

/-- The operation and the string it returns. -/
def exec (b : Buffer) : BufferOp → Option (Buffer × Option Bytes)
  | append data => (b.append data).map (·, none)
  | prepend data => (b.prepend data).map (·, none)
  | retrieve len => (b.retrieve len).map (·, none)
  | retrieveUntil offset => (b.retrieveUntil (b.readerIdx + offset)).map (·, none)
  | retrieveAll => some (b.retrieveAll, none)
  | retrieveAsString => some (b.retrieveAsString.1, some b.retrieveAsString.2)
  | retrieveLineAsString => b.retrieveLineAsString.map fun (b', line) => (b', some line)
  | peekLine => some (b, some b.peekLine)
  | ensureWritableBytes len => (b.ensureWritableBytes len).map (·, none)
  | readFd result => (b.readFd result).map (·, none)

/-- What the callers promise, and that `readv` delivers no more than it was offered. -/
def Pre (b : Buffer) : BufferOp → Prop
  | prepend data => data.length ≤ b.prependableBytes
  | retrieve len => len ≤ b.readableBytes
  | retrieveUntil offset => offset ≤ b.readableBytes
  | readFd (some data) => data.length ≤ b.writableBytes + Buffer.extrabufSize
  | _ => True

instance (op : BufferOp) (b : Buffer) : Decidable (op.Pre b) :=
  match op with
  | .append _ | .readFd none | .retrieveAll | .retrieveAsString | .retrieveLineAsString
  | .peekLine | .ensureWritableBytes _ => .isTrue trivial
  | .retrieve _ | .retrieveUntil _ | .prepend _ | .readFd (some _) =>
    inferInstanceAs (Decidable (_ ≤ _))

/-- The text before the first newline and what remains of the queue. -/
def cutLine (q : Bytes) : Bytes × Bytes := (cut LF q).getD ([], q)

/-- The operation on a queue of bytes. -/
def spec (q : Bytes) : BufferOp → Bytes × Option Bytes
  | append data => (q ++ data, none)
  | prepend data => (data ++ q, none)
  | retrieve len => (q.drop len, none)
  | retrieveUntil offset => (q.drop offset, none)
  | retrieveAll => ([], none)
  | retrieveAsString => ([], some q)
  | retrieveLineAsString => ((cutLine q).2, some (cutLine q).1)
  | peekLine => (q, some (cutLine q).1)
  | ensureWritableBytes _ => (q, none)
  | readFd none => (q, none)
  | readFd (some data) => (q ++ data, none)

theorem cutLine_of_not_mem {q : Bytes} (h : LF ∉ q) : cutLine q = ([], q) := by
  rw [cutLine, cut_eq_none_iff.mpr h]; rfl

theorem cutLine_spec {q : Bytes} (h : LF ∈ q) :
    q = (cutLine q).1 ++ LF :: (cutLine q).2 ∧ LF ∉ (cutLine q).1 := by
  cases hq : cut LF q with
  | none => exact absurd h (cut_eq_none_iff.mp hq)
  | some p =>
    have hp : cutLine q = p := by rw [cutLine, hq]; rfl
    rw [hp]
    exact cut_eq_some_iff.mp hq

/-- Every operation refines its specification. -/
theorem exec_spec {b : Buffer} {q : Bytes} (hb : b.Holds q) {op : BufferOp} (hpre : op.Pre b) :
    ∃ b', op.exec b = some (b', (op.spec q).2) ∧ b'.Holds (op.spec q).1 := by
  cases op with
  | append data =>
    obtain ⟨b', h, hq⟩ := hb.append data
    exact ⟨b', by simp [exec, h, spec], hq⟩
  | prepend data =>
    obtain ⟨b', h, hq⟩ := hb.prepend hpre
    exact ⟨b', by simp [exec, h, spec], hq⟩
  | retrieve len =>
    have hle : len ≤ q.length := by simpa [Pre, hb.readableBytes_eq] using hpre
    obtain ⟨b', h, hq⟩ := hb.retrieve hle
    exact ⟨b', by simp [exec, h, spec], hq⟩
  | retrieveUntil offset =>
    have hle : offset ≤ q.length := by simpa [Pre, hb.readableBytes_eq] using hpre
    obtain ⟨b', h, hq⟩ := hb.retrieveUntil hle
    exact ⟨b', by simp [exec, h, spec], hq⟩
  | retrieveAll => exact ⟨_, rfl, hb.retrieveAll⟩
  | retrieveAsString =>
    exact ⟨_, by simp [exec, Buffer.retrieveAsString, spec, hb.content_eq], hb.retrieveAll⟩
  | retrieveLineAsString =>
    by_cases hq : LF ∈ q
    · obtain ⟨hsplit, hl⟩ := cutLine_spec hq
      rw [hsplit] at hb
      obtain ⟨b', h, hq'⟩ := hb.retrieveLineAsString_some hl
      exact ⟨b', by simp [exec, h, spec], hq'⟩
    · refine ⟨b, by simp [exec, hb.retrieveLineAsString_none hq, spec, cutLine_of_not_mem hq], ?_⟩
      simpa [spec, cutLine_of_not_mem hq] using hb
  | peekLine =>
    refine ⟨b, ?_, hb⟩
    by_cases hq : LF ∈ q
    · obtain ⟨hsplit, hl⟩ := cutLine_spec hq
      have hline := hb
      rw [hsplit] at hline
      simp [exec, spec, hline.peekLine_some hl]
    · simp [exec, spec, hb.peekLine_none hq, cutLine_of_not_mem hq]
  | ensureWritableBytes len =>
    obtain ⟨b', h, hq, -⟩ := hb.ensureWritableBytes len
    exact ⟨b', by simp [exec, h, spec], hq⟩
  | readFd result =>
    cases result with
    | none => exact ⟨b, rfl, hb⟩
    | some data =>
      obtain ⟨b', h, hq⟩ := hb.readFd data
      exact ⟨b', by simp [exec, h, spec], hq⟩

end BufferOp

variable {ι : Type*} [DecidableEq ι]

inductive BufferCall (ι : Type*) where
  | on (i : ι) (op : BufferOp)
  | swap (i j : ι)

/-- The interface of a family of buffers. -/
def buffers : Program (ι → Buffer) (BufferCall ι) (Option Bytes) where
  pre bs
    | .on i op => op.Pre (bs i)
    | .swap _ _ => True
  exec bs
    | .on i op => (op.exec (bs i)).map fun (b, answer) => (Function.update bs i b, answer)
    | .swap i j => some (Function.update (Function.update bs i (bs j)) j (bs i), none)

instance (bs : ι → Buffer) (call : BufferCall ι) : Decidable (buffers.pre bs call) :=
  match call with
  | .on i op => inferInstanceAs (Decidable (op.Pre (bs i)))
  | .swap _ _ => .isTrue trivial

/-- The same calls on queues of bytes. -/
def queueCall (qs : ι → Bytes) : BufferCall ι → (ι → Bytes) × Option Bytes
  | .on i op => (Function.update qs i (op.spec (qs i)).1, (op.spec (qs i)).2)
  | .swap i j => (Function.update (Function.update qs i (qs j)) j (qs i), none)

/-- Every buffer of the family holds the queue of its index. -/
def Hold (bs : ι → Buffer) (qs : ι → Bytes) : Prop := ∀ i, (bs i).Holds (qs i)

theorem Hold.update {bs : ι → Buffer} {qs : ι → Bytes} (h : Hold bs qs) {i : ι} {b : Buffer}
    {q : Bytes} (hb : b.Holds q) : Hold (Function.update bs i b) (Function.update qs i q) := by
  intro j
  by_cases hj : j = i
  · subst hj; simpa using hb
  · simpa [hj] using h j

theorem buffers_refinement : (buffers (ι := ι)).Refinement queueCall Hold := by
  intro bs qs call h hpre
  cases call with
  | on i op =>
    obtain ⟨b', hexec, hb'⟩ := BufferOp.exec_spec (h i) hpre
    exact ⟨_, by simp [buffers, hexec, queueCall], h.update hb'⟩
  | swap i j => exact ⟨_, rfl, (h.update (h j)).update (h i)⟩

theorem Hold.of_reachable {bs : ι → Buffer} (h : buffers.Reachable (fun _ => .fresh) bs) :
    ∃ qs, Hold bs qs :=
  buffers_refinement.reachable (fun _ => .fresh) h

/-- A history of calls on fresh buffers fails no assertion, returns what the byte queues return,
and leaves every buffer with indices in range and the content of its queue. -/
theorem buffers_refine_queues (calls : List (BufferCall ι))
    (hcalls : buffers.Admissible (fun _ => Buffer.fresh) calls) :
    ∃ bs, buffers.run (fun _ => Buffer.fresh) calls =
        some (bs, (Program.specRun queueCall (fun _ => []) calls).2) ∧
      ∀ i, (bs i).readerIdx ≤ (bs i).writeIdx ∧ (bs i).writeIdx ≤ (bs i).buffer.length ∧
        (bs i).content = (Program.specRun queueCall (fun _ => []) calls).1 i := by
  obtain ⟨bs, hrun, hold⟩ := buffers_refinement.run (t := fun _ => []) (fun _ => .fresh) hcalls
  exact ⟨bs, hrun, fun i => ⟨(hold i).wf.1, (hold i).wf.2, (hold i).content_eq⟩⟩

/-- A read, a line read, a prepend and a swap with a second buffer. -/
theorem buffers_refine_queues_swap :
    ∃ bs : Bool → Buffer, buffers.run (fun _ => Buffer.fresh)
        [.on true (.readFd (some (ascii "ab\ncd"))), .on true .retrieveLineAsString,
          .on false (.prepend (ascii "x")), .swap true false, .on true .retrieveAsString] =
        some (bs, [none, some (ascii "ab"), none, none, some (ascii "x")]) ∧
      ∀ i, (bs i).readerIdx ≤ (bs i).writeIdx ∧ (bs i).writeIdx ≤ (bs i).buffer.length ∧
        (bs i).content = if i then [] else ascii "cd" := by
  obtain ⟨bs, hrun, hbs⟩ := buffers_refine_queues (ι := Bool)
    [.on true (.readFd (some (ascii "ab\ncd"))), .on true .retrieveLineAsString,
      .on false (.prepend (ascii "x")), .swap true false, .on true .retrieveAsString]
    (by
      refine ⟨?_, fun bs₁ o₁ h₁ => ⟨trivial, fun bs₂ o₂ h₂ => ⟨?_, fun _ _ _ => ⟨trivial,
        fun _ _ _ => ⟨trivial, fun _ _ _ => trivial⟩⟩⟩⟩⟩
      · simp [buffers, BufferOp.Pre, ascii, Buffer.extrabufSize]
      · -- the calls on the first buffer leave the second one fresh
        simp only [buffers, Option.map_eq_some_iff] at h₁ h₂
        obtain ⟨⟨b₁, a₁⟩, -, heq₁⟩ := h₁
        obtain ⟨⟨b₂, a₂⟩, -, heq₂⟩ := h₂
        cases heq₁; cases heq₂
        simp [buffers, BufferOp.Pre, ascii, Buffer.fresh, Buffer.prependableBytes, kCheapPrepend])
  refine ⟨bs, by rw [hrun]; rfl, fun i => ?_⟩
  have hi := hbs i
  cases i <;> exact hi

end Httpancake
