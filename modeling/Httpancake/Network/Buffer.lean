import Httpancake.Lib.Lines

/-! # The network buffer

`Buffer` of `src/network/Buffer.hpp` and `Buffer.cpp`: a vector with two indices,

    prependable bytes | readable bytes (content) | writable bytes
    0            readerIdx                  writeIdx           size

An operation answers `none` where one of the source's assertions fails. Indices and lengths are
natural numbers: no length below is larger than memory, so `size_t` does not wrap as long as
`readerIdx ≤ writeIdx ≤ size`, which is `Buffer.Holds.wf`. -/

namespace Httpancake

open Bytes

def kCheapPrepend : Nat := 8
def kInitSize : Nat := 1024

structure Buffer where
  buffer : Bytes
  readerIdx : Nat
  writeIdx : Nat
  deriving DecidableEq, Repr

/-- `std::vector::resize`. -/
def resize (v : Bytes) (n : Nat) : Bytes := v.take n ++ List.replicate (n - v.length) 0

namespace Buffer

/-- The constructor. -/
def fresh : Buffer where
  buffer := List.replicate (kInitSize + kCheapPrepend) 0
  readerIdx := kCheapPrepend
  writeIdx := kCheapPrepend

theorem length_fresh : fresh.buffer.length = 1032 := List.length_replicate

def readableBytes (b : Buffer) : Nat := b.writeIdx - b.readerIdx
def writableBytes (b : Buffer) : Nat := b.buffer.length - b.writeIdx
def prependableBytes (b : Buffer) : Nat := b.readerIdx

/-- `std::string(peek(), readable_bytes())`. -/
def content (b : Buffer) : Bytes := (b.buffer.drop b.readerIdx).take b.readableBytes

def peekLine (b : Buffer) : Bytes :=
  match findByte b.content LF 0 with
  | some lfIdx => b.content.take lfIdx
  | none => []

def retrieve (b : Buffer) (len : Nat) : Option Buffer :=
  if len ≤ b.readableBytes then some { b with readerIdx := b.readerIdx + len } else none

/-- `stop` is the index of the byte that the source's `end` points to. -/
def retrieveUntil (b : Buffer) (stop : Nat) : Option Buffer :=
  if b.readerIdx ≤ stop ∧ stop ≤ b.writeIdx then b.retrieve (stop - b.readerIdx) else none

def retrieveAll (b : Buffer) : Buffer :=
  { b with readerIdx := kCheapPrepend, writeIdx := kCheapPrepend }

def retrieveAsString (b : Buffer) : Buffer × Bytes := (b.retrieveAll, b.content)

/-- An unfinished line and an empty line are both answered by the empty string; only the latter
is consumed. -/
def retrieveLineAsString (b : Buffer) : Option (Buffer × Bytes) :=
  match findByte b.content LF 0 with
  | some lfIdx => (b.retrieve (lfIdx + 1)).map (·, b.content.take lfIdx)
  | none => some (b, [])

def makeSpace (b : Buffer) (len : Nat) : Option Buffer :=
  if b.writableBytes + b.prependableBytes < len + kCheapPrepend then
    some { b with buffer := resize b.buffer (b.writeIdx + len) }
  else if kCheapPrepend < b.readerIdx then
    let readable := b.readableBytes
    let b' : Buffer :=
      { buffer := overwrite b.buffer kCheapPrepend b.content
        readerIdx := kCheapPrepend
        writeIdx := kCheapPrepend + readable }
    if readable = b'.readableBytes then some b' else none
  else none

def ensureWritableBytes (b : Buffer) (len : Nat) : Option Buffer := do
  let b ← if b.writableBytes < len then b.makeSpace len else some b
  if len ≤ b.writableBytes then some b else none

def append (b : Buffer) (data : Bytes) : Option Buffer := do
  let b ← b.ensureWritableBytes data.length
  return { b with
    buffer := overwrite b.buffer b.writeIdx data
    writeIdx := b.writeIdx + data.length }

def prepend (b : Buffer) (data : Bytes) : Option Buffer :=
  if data.length ≤ b.prependableBytes then
    let readerIdx := b.readerIdx - data.length
    some { b with buffer := overwrite b.buffer readerIdx data, readerIdx }
  else none

/-- The vector is rebuilt around the content; the indices stay as they are. -/
def shrink (b : Buffer) (reserve : Nat) : Buffer :=
  let buf := List.replicate (kCheapPrepend + b.readableBytes + reserve) 0
  { b with buffer := overwrite buf kCheapPrepend b.content }

/-- The size of `extrabuf`, the second part of the scattered read. -/
def extrabufSize : Nat := 65536

/-- `result` is what `readv` delivers: `none` is the error `-1`, otherwise the bytes read. They
go to the writable part of the vector first and behind it to `extrabuf`. -/
def readFd (b : Buffer) (result : Option Bytes) : Option Buffer :=
  match result with
  | none => some b
  | some data =>
    let writable := b.writableBytes
    let scattered := overwrite b.buffer b.writeIdx (data.take writable)
    if data.length ≤ writable then
      some { b with buffer := scattered, writeIdx := b.writeIdx + data.length }
    else
      { b with buffer := scattered, writeIdx := scattered.length }.append (data.drop writable)

/-! ## Layouts

Every operation is computed on the three parts of the vector. -/

/-- The buffer whose vector consists of the three parts given. -/
def layout (pre q post : Bytes) : Buffer where
  buffer := pre ++ q ++ post
  readerIdx := pre.length
  writeIdx := pre.length + q.length

/-- `b` is laid out with content `q`, and its vector has room for the minimal prefix. -/
structure Holds (b : Buffer) (q : Bytes) : Prop where
  parts : ∃ pre post, b = layout pre q post
  cheap : kCheapPrepend ≤ b.buffer.length

section layout
variable {pre q post data : Bytes}

@[simp] theorem layout_size :
    (layout pre q post).buffer.length = pre.length + q.length + post.length := by
  simp [layout, Nat.add_assoc]

@[simp] theorem layout_readableBytes : (layout pre q post).readableBytes = q.length := by
  simp [layout, readableBytes]

@[simp] theorem layout_writableBytes : (layout pre q post).writableBytes = post.length := by
  simp only [writableBytes, layout_size]; simp only [layout]; omega

@[simp] theorem layout_content : (layout pre q post).content = q := by
  rw [content, layout_readableBytes]
  simp [layout, List.append_assoc]

theorem layout_holds (h : kCheapPrepend ≤ pre.length + q.length + post.length) :
    (layout pre q post).Holds q := ⟨⟨pre, post, rfl⟩, by simpa using h⟩

theorem layout_overwrite :
    overwrite (layout pre q post).buffer (layout pre q post).writeIdx data =
      pre ++ q ++ data ++ post.drop data.length := by
  have hw : (layout pre q post).writeIdx = (pre ++ q).length := by simp [layout]
  rw [hw]
  exact overwrite_append _ _ _

/-- Bytes written behind the content. -/
theorem layout_write :
    { layout pre q post with
      buffer := overwrite (layout pre q post).buffer (layout pre q post).writeIdx data
      writeIdx := (layout pre q post).writeIdx + data.length } =
    layout pre (q ++ data) (post.drop data.length) := by
  rw [layout_overwrite]
  simp [layout, Nat.add_assoc]

theorem layout_retrieve {n : Nat} (h : n ≤ q.length) :
    (layout pre q post).retrieve n = some (layout (pre ++ q.take n) (q.drop n) post) := by
  simp only [retrieve, layout_readableBytes, if_pos h, Option.some.injEq]
  have hq : q.take n ++ q.drop n = q := List.take_append_drop n q
  simp only [layout, mk.injEq, List.append_assoc, List.length_append, List.length_take,
    List.length_drop]
  refine ⟨?_, by omega, by omega⟩
  rw [← List.append_assoc (q.take n), hq]

/-- A full buffer makes space by growing or, when the consumed prefix is long enough, by moving
its content to the front. -/
theorem layout_makeSpace (pre q : Bytes) {len : Nat} (h : post.length < len) :
    ∃ pre' post', (layout pre q post).makeSpace len = some (layout pre' q post') ∧
      len ≤ post'.length ∧
      pre.length + q.length + post.length ≤ pre'.length + q.length + post'.length := by
  simp only [makeSpace, layout_writableBytes, prependableBytes, layout_content,
    layout_readableBytes]
  have hread : (layout pre q post).readerIdx = pre.length := rfl
  have hwrite : (layout pre q post).writeIdx = pre.length + q.length := rfl
  rw [hread, hwrite]
  split
  · -- grow: everything behind the content becomes writable
    refine ⟨pre, post ++ List.replicate (len - post.length) 0, ?_, by simp; omega, by simp⟩
    have hlen : pre.length + q.length + len - (layout pre q post).buffer.length =
        len - post.length := by simp; omega
    have hle : (layout pre q post).buffer.length ≤ pre.length + q.length + len := by simp; omega
    rw [resize, hlen, List.take_of_length_le hle]
    simp [layout]
  · -- slide: the first `kCheapPrepend` bytes of the prefix stay
    rename_i hroom
    have hpre : kCheapPrepend < pre.length := by omega
    rw [if_pos hpre, if_pos (by simp [readableBytes])]
    refine ⟨pre.take kCheapPrepend,
      (pre.drop kCheapPrepend ++ q ++ post).drop q.length, ?_, ?_, ?_⟩
    · have hsplit : (layout pre q post).buffer =
          pre.take kCheapPrepend ++ (pre.drop kCheapPrepend ++ q ++ post) := by
        simp only [layout, List.append_assoc]
        rw [← List.append_assoc (pre.take _), List.take_append_drop]
      have hlen : (pre.take kCheapPrepend).length = kCheapPrepend := by
        rw [List.length_take]; omega
      have hover := overwrite_append (pre.take kCheapPrepend)
        (pre.drop kCheapPrepend ++ q ++ post) q
      rw [hlen] at hover
      rw [hsplit, hover]
      simp [layout, hlen]
    · simp only [List.length_drop, List.length_append]; omega
    · simp only [List.length_drop, List.length_append, List.length_take]; omega

theorem layout_ensureWritableBytes (pre q post : Bytes) (len : Nat) :
    ∃ pre' post', (layout pre q post).ensureWritableBytes len = some (layout pre' q post') ∧
      len ≤ post'.length ∧
      pre.length + q.length + post.length ≤ pre'.length + q.length + post'.length := by
  simp only [ensureWritableBytes, layout_writableBytes]
  split
  · rename_i h
    obtain ⟨pre', post', hspace, hlen, hsize⟩ := layout_makeSpace pre q h
    exact ⟨pre', post', by simp [hspace, hlen], hlen, hsize⟩
  · rename_i h
    exact ⟨pre, post, by simp; omega, by omega, Nat.le_refl _⟩

theorem layout_append (pre q post data : Bytes) :
    ∃ pre' post', (layout pre q post).append data = some (layout pre' (q ++ data) post') ∧
      pre.length + q.length + post.length ≤
        pre'.length + (q ++ data).length + post'.length := by
  obtain ⟨pre', post', hspace, hlen, hsize⟩ := layout_ensureWritableBytes pre q post data.length
  refine ⟨pre', post'.drop data.length, ?_, ?_⟩
  · simp only [append, hspace, Option.bind_eq_bind, Option.bind_some]
    exact congrArg some layout_write
  · simp only [List.length_append, List.length_drop]; omega

theorem layout_prepend (h : data.length ≤ pre.length) :
    (layout pre q post).prepend data =
      some (layout (pre.take (pre.length - data.length)) (data ++ q) post) := by
  have hread : (layout pre q post).readerIdx = pre.length := rfl
  have hlen : (pre.take (pre.length - data.length)).length = pre.length - data.length := by
    rw [List.length_take]; omega
  have hsplit : (layout pre q post).buffer = pre.take (pre.length - data.length) ++
      (pre.drop (pre.length - data.length) ++ (q ++ post)) := by
    rw [← List.append_assoc, List.take_append_drop, ← List.append_assoc]; rfl
  have hdrop : (pre.drop (pre.length - data.length) ++ (q ++ post)).drop data.length =
      q ++ post := by
    rw [List.drop_append]
    simp only [List.length_drop]
    rw [List.drop_eq_nil_of_le (by simp; omega), Nat.sub_sub_self h, Nat.sub_self]; rfl
  have hover := overwrite_append (pre.take (pre.length - data.length))
    (pre.drop (pre.length - data.length) ++ (q ++ post)) data
  rw [hlen, ← hsplit, hdrop] at hover
  simp only [prepend, prependableBytes, hread, if_pos h, hover, Option.some.injEq]
  simp only [layout, mk.injEq, List.append_assoc, List.length_append, hlen, true_and]
  omega

theorem layout_readFd (pre q post data : Bytes) :
    ∃ pre' post', (layout pre q post).readFd (some data) = some (layout pre' (q ++ data) post') ∧
      pre.length + q.length + post.length ≤
        pre'.length + (q ++ data).length + post'.length := by
  simp only [readFd, layout_writableBytes]
  split
  · rename_i h
    rw [List.take_of_length_le h]
    refine ⟨pre, post.drop data.length, congrArg some layout_write, ?_⟩
    simp only [List.length_append, List.length_drop]; omega
  · -- the vector is full, the bytes in `extrabuf` are appended
    rename_i h
    have hlen : (data.take post.length).length = post.length := by
      rw [List.length_take]; omega
    have hfull : overwrite (layout pre q post).buffer (layout pre q post).writeIdx
        (data.take post.length) = pre ++ (q ++ data.take post.length) ++ [] := by
      rw [layout_overwrite, hlen, List.drop_length]; simp
    obtain ⟨pre', post', happ, hsize⟩ := layout_append pre
      (q ++ data.take post.length) [] (data.drop post.length)
    rw [List.append_assoc, List.take_append_drop] at happ hsize
    refine ⟨pre', post', ?_, ?_⟩
    · rw [← happ, hfull]
      simp [layout]
    · simp only [List.length_append, hlen, List.length_nil] at hsize ⊢; omega

end layout

/-! ## Specifications

An operation on a buffer that holds `q` fails no assertion, and what it does to `q` is what it
does to a queue of bytes. -/

namespace Holds
variable {b : Buffer} {q : Bytes}

theorem content_eq (h : b.Holds q) : b.content = q := by
  obtain ⟨⟨pre, post, rfl⟩, -⟩ := h; simp

theorem readableBytes_eq (h : b.Holds q) : b.readableBytes = q.length := by
  obtain ⟨⟨pre, post, rfl⟩, -⟩ := h; simp

/-- The index bounds of the class comment. -/
theorem wf (h : b.Holds q) : b.readerIdx ≤ b.writeIdx ∧ b.writeIdx ≤ b.buffer.length := by
  obtain ⟨⟨pre, post, rfl⟩, -⟩ := h
  simp only [layout, List.length_append]; omega

theorem fresh : Buffer.fresh.Holds [] := by
  have h : Buffer.fresh =
      layout (List.replicate kCheapPrepend 0) [] (List.replicate kInitSize 0) := by
    simp only [Buffer.fresh, layout, List.append_nil, List.replicate_append_replicate,
      List.length_replicate, List.length_nil, Nat.add_zero, Nat.add_comm]
  rw [h]
  exact layout_holds (by simp)

theorem retrieve (h : b.Holds q) {n : Nat} (hn : n ≤ q.length) :
    ∃ b', b.retrieve n = some b' ∧ b'.Holds (q.drop n) := by
  obtain ⟨⟨pre, post, rfl⟩, hcheap⟩ := h
  refine ⟨_, layout_retrieve hn, ⟨_, _, rfl⟩, ?_⟩
  simp only [layout, List.length_append, List.length_take, List.length_drop] at hcheap ⊢
  omega

theorem retrieve_eq_none (h : b.Holds q) {n : Nat} (hn : q.length < n) : b.retrieve n = none := by
  simp [Buffer.retrieve, h.readableBytes_eq, hn]

theorem retrieveUntil (h : b.Holds q) {n : Nat} (hn : n ≤ q.length) :
    ∃ b', b.retrieveUntil (b.readerIdx + n) = some b' ∧ b'.Holds (q.drop n) := by
  obtain ⟨b', hb', hq⟩ := h.retrieve hn
  have hlen := h.readableBytes_eq
  have hwf := h.wf
  refine ⟨b', ?_, hq⟩
  rw [Buffer.retrieveUntil, if_pos (by simp only [readableBytes] at hlen; omega),
    Nat.add_sub_cancel_left, hb']

theorem retrieveAll (h : b.Holds q) : b.retrieveAll.Holds [] := by
  refine ⟨⟨b.buffer.take kCheapPrepend, b.buffer.drop kCheapPrepend, ?_⟩, h.cheap⟩
  simp [Buffer.retrieveAll, layout, h.cheap]

theorem retrieveLineAsString_none (h : b.Holds q) (hq : LF ∉ q) :
    b.retrieveLineAsString = some (b, []) := by
  rw [Buffer.retrieveLineAsString, h.content_eq, findByte_zero_eq_none_iff.mpr hq]

theorem retrieveLineAsString_some {l : Bytes} (h : b.Holds (l ++ LF :: q)) (hl : LF ∉ l) :
    ∃ b', b.retrieveLineAsString = some (b', l) ∧ b'.Holds q := by
  obtain ⟨b', hb', hq⟩ := h.retrieve (n := l.length + 1) (by simp)
  have hfind : findByte (l ++ LF :: q) LF 0 = some l.length := by
    simpa using findByte_append_cons [] hl q
  refine ⟨b', ?_, by simpa using hq⟩
  rw [Buffer.retrieveLineAsString, h.content_eq, hfind]
  simp [hb']

theorem peekLine_none (h : b.Holds q) (hq : LF ∉ q) : b.peekLine = [] := by
  rw [Buffer.peekLine, h.content_eq, findByte_zero_eq_none_iff.mpr hq]

theorem peekLine_some {l : Bytes} (h : b.Holds (l ++ LF :: q)) (hl : LF ∉ l) : b.peekLine = l := by
  have hfind : findByte (l ++ LF :: q) LF 0 = some l.length := by
    simpa using findByte_append_cons [] hl q
  rw [Buffer.peekLine, h.content_eq, hfind]
  simp

theorem ensureWritableBytes (h : b.Holds q) (len : Nat) :
    ∃ b', b.ensureWritableBytes len = some b' ∧ b'.Holds q ∧ len ≤ b'.writableBytes := by
  obtain ⟨⟨pre, post, rfl⟩, hcheap⟩ := h
  obtain ⟨pre', post', hspace, hlen, hsize⟩ := layout_ensureWritableBytes pre q post len
  rw [layout_size] at hcheap
  exact ⟨_, hspace, layout_holds (hcheap.trans hsize), by simpa using hlen⟩

theorem append (h : b.Holds q) (data : Bytes) :
    ∃ b', b.append data = some b' ∧ b'.Holds (q ++ data) := by
  obtain ⟨⟨pre, post, rfl⟩, hcheap⟩ := h
  obtain ⟨pre', post', happ, hsize⟩ := layout_append pre q post data
  rw [layout_size] at hcheap
  exact ⟨_, happ, layout_holds (hcheap.trans hsize)⟩

theorem prepend (h : b.Holds q) {data : Bytes} (hd : data.length ≤ b.prependableBytes) :
    ∃ b', b.prepend data = some b' ∧ b'.Holds (data ++ q) := by
  obtain ⟨⟨pre, post, rfl⟩, hcheap⟩ := h
  change data.length ≤ pre.length at hd
  rw [layout_size] at hcheap
  refine ⟨_, layout_prepend hd, layout_holds ?_⟩
  simp only [List.length_take, List.length_append]; omega

theorem readFd (h : b.Holds q) (data : Bytes) :
    ∃ b', b.readFd (some data) = some b' ∧ b'.Holds (q ++ data) := by
  obtain ⟨⟨pre, post, rfl⟩, hcheap⟩ := h
  obtain ⟨pre', post', hread, hsize⟩ := layout_readFd pre q post data
  rw [layout_size] at hcheap
  exact ⟨_, hread, layout_holds (hcheap.trans hsize)⟩

end Holds
end Buffer
end Httpancake
